import IotLab.Library.ConnectionTracking
import IotLab.Library.Refinement
import IotLab.LoadBalancer.Affinity
import IotLab.LoadBalancer.Counters
import IotLab.LoadBalancer.Duplicates
import IotLab.LoadBalancer.Isolation
import IotLab.LoadBalancer.RoundTrip

set_option autoImplicit false

namespace LoadBalancer
open SlotTable HostMemory

abbrev ServerAddr := BitVec 32 × BitVec 16

abbrev Tracking := ConnectionTracking.Tracker Client (Fin maxServCnt) ServerAddr (BitVec 16)

abbrev Traffic := ConnectionTracking.Label Client (Fin maxServCnt) ServerAddr (BitVec 16)

def ServListNode.addr (node : ServListNode) : ServerAddr := (node.ip, node.port)

def ClntListNode.client (node : ClntListNode) : Client := (node.ip, BitVec.ofInt 16 node.port)

def ClntListNode.wirePort (node : ClntListNode) : BitVec 16 := BitVec.ofInt 16 node.pseudoPort

/-- The connections that the tables stand for. -/
def Tables.track (t : Tables) : Tracking where
  server i := if t.live i then some (t.servList i).addr else none
  conn c :=
    (firstSlot fun j => t.occupied j ∧ (t.clntList j).isOf c).bind fun j =>
      (servAt (t.forwardingTable j).1).toOption.map fun i => (i, (t.clntList j).wirePort)

/-- Client slot `j` holds a connection of `c` to server slot `i` under the port `p`. -/
structure Tables.Holds (t : Tables) (j : Fin maxClntCnt) (c : Client) (i : Fin maxServCnt)
    (p : BitVec 16) : Prop where
  occupied : t.occupied j
  client : (t.clntList j).isOf c
  assigned : t.assigned i j
  port : (t.clntList j).wirePort = p

def shownPacket (t u : Tables) (b : Mem) : Output → Option Traffic
  | .newClient j id => (servAt id).toOption.map fun i =>
    .accept (clientOf b) i (u.clntList j).wirePort
  | .sent ⟨.clnt2serv, _, destId, packet, _, _⟩ => (servAt destId).toOption.map fun i =>
    .forward (clientOf b) i (ipDaddr packet, tcpDest packet) (tcpSource packet)
  | .sent ⟨.serv2clnt, _, _, packet, _, _⟩ =>
    some (.reply (tcpDest b) (ipDaddr packet, tcpDest packet))
  | .clntDisconnected j _ => some (.close (t.clntList j).client)
  | .newServer _ _ _ => none
  | .serverClosed _ _ => none

/-- What one output of the other handlers shows. The clients of a closed server go with it. -/
def shownServer (u : Tables) : Output → Option Traffic
  | .newServer i _ port => some (.join i ((u.servList i).ip, port))
  | .serverClosed i _ => some (.leave i)
  | .newClient _ _ => none
  | .sent _ => none
  | .clntDisconnected _ _ => none

def traffic (s : State) (l : Step) (s' : State) : List Traffic :=
  match l.event with
  | .packet received _ _ =>
    l.out.filterMap (shownPacket s.tables s'.tables (recvInto s.buf received))
  | .join _ _ _ => l.out.filterMap (shownServer s'.tables)
  | .server _ _ _ _ => l.out.filterMap (shownServer s'.tables)

/-- If the packet is admitted, the port drawn with the clock at `now` is not in use. -/
def DrawFresh (cfg : Config) (t : Tables) (b : Mem) (now : BitVec 32) : Prop :=
  findPort t.clntList b = none → checkType b = .syn → t.clntCnt ≠ maxClntCnt →
    ∀ k, t.occupied k →
      (t.clntList k).wirePort ≠ BitVec.ofInt 16 (cfg.rand now % 16386 + 49152 : Nat)

instance (cfg : Config) (t : Tables) (b : Mem) (now : BitVec 32) :
    Decidable (DrawFresh cfg t b now) :=
  inferInstanceAs (Decidable (_ → _ → _ → ∀ k, t.occupied k → _ ≠ _))

/-- A client packet does not come from port 0 or from a port that another address uses, and if
it is admitted, then to a live server and under a port that is not in use. -/
def ClientOrderly (cfg : Config) (t : Tables) (b : Mem) (now : BitVec 32)
    (minIndex : Int) : Prop :=
  tcpSource b ≠ 0 ∧ PortPrivate cfg t b ∧ SelectionSet cfg t b minIndex ∧
    DrawFresh cfg t b now

instance (cfg : Config) (t : Tables) (b : Mem) (now : BitVec 32) (minIndex : Int) :
    Decidable (ClientOrderly cfg t b now minIndex) :=
  inferInstanceAs (Decidable (tcpSource b ≠ 0 ∧ PortPrivate cfg t b ∧
    SelectionSet cfg t b minIndex ∧ DrawFresh cfg t b now))

def Orderly (cfg : Config) (s : State) : Event → Prop
  | .packet received now minIndex =>
    let b := recvInto s.buf received
    (fromClient cfg s.tables b → ClientOrderly cfg s.tables b now minIndex) ∧
      (fromServer cfg s.tables b → tcpDest b ≠ 0)
  | .join _ _ _ => True
  | .server _ _ _ _ => True

instance (cfg : Config) (s : State) : DecidablePred (Orderly cfg s)
  | .packet received now minIndex => inferInstanceAs (Decidable
    ((fromClient cfg s.tables (recvInto s.buf received) →
        ClientOrderly cfg s.tables (recvInto s.buf received) now minIndex) ∧
      (fromServer cfg s.tables (recvInto s.buf received) →
        tcpDest (recvInto s.buf received) ≠ 0)))
  | .join _ _ _ => inferInstanceAs (Decidable True)
  | .server _ _ _ _ => inferInstanceAs (Decidable True)

def orderly (cfg : Config) : Transitions.System State Step :=
  (system cfg).restrict fun s l => Orderly cfg s l.event

section Track
variable {t u : Tables} {c : Client} {i : Fin maxServCnt} {j : Fin maxClntCnt} {p : BitVec 16}

theorem ClntListNode.isOf.unique {node : ClntListNode} {c d : Client} (hc : node.isOf c)
    (hd : node.isOf d) : c = d := by
  have hport : c.2.toNat = d.2.toNat := by
    have := hc.2.symm.trans hd.2
    omega
  exact Prod.ext (hc.1.symm.trans hd.1) (BitVec.eq_of_toNat_eq hport)

theorem ClntListNode.isOf.client_eq {node : ClntListNode} {c : Client} (h : node.isOf c) :
    node.client = c := by
  refine Prod.ext h.1 ?_
  rw [ClntListNode.client, h.2]
  simp

theorem track_conn (hd : PortsDistinct t) :
    t.track.conn c = some (i, p) ↔ ∃ j, t.Holds j c i p := by
  constructor
  · intro h
    simp only [Tables.track] at h
    obtain ⟨j, hj, h⟩ := Option.bind_eq_some_iff.mp h
    obtain ⟨i', hi, h⟩ := Option.map_eq_some_iff.mp h
    cases h
    obtain ⟨hocc, hof⟩ := of_decide_eq_true (firstSlot_eq_some.mp hj).1
    exact ⟨j, hocc, hof, servAt_eq_ok.mp (Fallible.toOption_eq_some.mp hi), rfl⟩
  · rintro ⟨j, hocc, hof, hassigned, rfl⟩
    have hj : firstSlot (fun j => t.occupied j ∧ (t.clntList j).isOf c) = some j := by
      refine firstSlot_of_unique (decide_eq_true ⟨hocc, hof⟩) (fun k hk => ?_)
      obtain ⟨hocc', hof'⟩ := of_decide_eq_true hk
      exact hd k j hocc' hocc (hof'.2.trans hof.2.symm)
    have hi : servAt (t.forwardingTable j).1 = .ok i := servAt_eq_ok.mpr hassigned
    simp only [Tables.track, hj, hi, Option.bind_some, Except.toOption, Option.map_some]

theorem track_server {a : ServerAddr} :
    t.track.server i = some a ↔ t.live i ∧ (t.servList i).addr = a := by
  simp only [Tables.track]
  split
  · rename_i hlive
    simp [hlive]
  · rename_i hlive
    simp [hlive]

theorem track_eq {a : Tracking} (hd : PortsDistinct u)
    (hserver : ∀ i x, (u.live i ∧ (u.servList i).addr = x) ↔ a.server i = some x)
    (hconn : ∀ c i p, (∃ j, u.Holds j c i p) ↔ a.conn c = some (i, p)) : u.track = a := by
  refine ConnectionTracking.Tracker.ext (funext fun i => Option.ext fun x => ?_)
    (funext fun c => Option.ext ?_)
  · exact track_server.trans (hserver i x)
  · rintro ⟨i, p⟩
    exact (track_conn hd).trans (hconn c i p)

theorem holds_congr (hc : u.clntList j = t.clntList j)
    (hf : (u.forwardingTable j).1 = (t.forwardingTable j).1) :
    u.Holds j c i p ↔ t.Holds j c i p := by
  constructor
  · rintro ⟨hocc, hof, hassigned, hp⟩
    rw [Tables.occupied, hc] at hocc
    rw [hc] at hof hp
    exact ⟨hocc, hof, hf.symm.trans hassigned, hp⟩
  · rintro ⟨hocc, hof, hassigned, hp⟩
    rw [← hc] at hof hp
    exact ⟨by rw [Tables.occupied, hc]; exact hocc, hof, hf.trans hassigned, hp⟩

theorem addr_same {x : ServerAddr} (h : (t.servList i).Same (u.servList i)) :
    (u.live i ∧ (u.servList i).addr = x) ↔ (t.live i ∧ (t.servList i).addr = x) := by
  simp only [Tables.live, ServListNode.addr, h.sock, h.ip, h.port]

theorem track_same (ht : PortsDistinct t) (hu : PortsDistinct u)
    (hserver : ∀ i, (t.servList i).Same (u.servList i))
    (hholds : ∀ j c i p, u.Holds j c i p ↔ t.Holds j c i p) : u.track = t.track := by
  refine track_eq hu (fun i x => ?_) (fun c i p => ?_)
  · rw [track_server]
    exact addr_same (hserver i)
  · rw [track_conn ht]
    exact exists_congr fun j => hholds j c i p

theorem track_joined {node : ServListNode} (ht : PortsDistinct t) (hu : PortsDistinct u)
    (hsock : node.sock ≠ 0) (hjoin : Joined t i node u) :
    u.track = t.track.join i node.addr := by
  refine track_eq hu (fun k x => ?_) (fun c k p => ?_)
  · rw [ConnectionTracking.join_server, track_server, Tables.live, hjoin.servList]
    by_cases hk : k = i
    · subst hk
      simp [hsock, eq_comm]
    · simp [hk]
  · rw [ConnectionTracking.join_conn, track_conn ht]
    exact exists_congr fun j => holds_congr (by rw [hjoin.clntList])
      (by rw [hjoin.forwardingTable])

theorem track_closed {w : Tables} (ht : PortsDistinct t) (hu : PortsDistinct u)
    (hw : SameButUsage t w) (hclose : Closed w i u) : u.track = t.track.leave i := by
  refine track_eq hu (fun k x => ?_) (fun c k p => ?_)
  · rw [ConnectionTracking.leave_server, track_server, Tables.live, hclose.servList]
    by_cases hk : k = i
    · subst hk
      simp [ServListNode.zero]
    · rw [Function.update_of_ne hk, hw.servList k]
      simp [hk, ServListNode.addr]
  · rw [ConnectionTracking.leave_conn, track_conn ht]
    constructor
    · rintro ⟨j, hj⟩
      have hnot := ((closed_occupied hclose j).mp hj.occupied).2
      have hold : t.Holds j c k p :=
        (holds_congr (by rw [hclose.clntList, if_neg hnot, hw.clntList])
          (by rw [hclose.forwardingTable, if_neg hnot, hw.forwardingTable])).mp hj
      refine ⟨?_, j, hold⟩
      rintro rfl
      exact hnot (by rw [Tables.assigned, hw.forwardingTable]; exact hold.assigned)
    · rintro ⟨hk, j, hold⟩
      have hnot : ¬w.assigned i j := by
        intro hi
        rw [Tables.assigned, hw.forwardingTable] at hi
        have := hold.assigned.symm.trans hi
        exact hk (Fin.ext (by omega))
      exact ⟨j, (holds_congr (by rw [hclose.clntList, if_neg hnot, hw.clntList])
        (by rw [hclose.forwardingTable, if_neg hnot, hw.forwardingTable])).mpr hold⟩

theorem track_admitted {cfg : Config} {b : Mem} {now : BitVec 32} {recent : Int}
    (ht : PortsDistinct t) (hu : PortsDistinct (admitTables cfg t b now j i recent))
    (hfree : ¬t.occupied j) (hsrc : (tcpSource b).toNat ≠ 0)
    (hnew : t.track.conn (clientOf b) = none) :
    (admitTables cfg t b now j i recent).track =
      t.track.accept (clientOf b) i (newClntNode cfg b now).wirePort := by
  refine track_eq hu (fun k x => ?_) (fun c k p => ?_)
  · rw [ConnectionTracking.accept_server, track_server]
    refine addr_same ?_
    rw [admitTables_servList]
    exact ⟨rfl, rfl, rfl⟩
  · rw [ConnectionTracking.accept_conn, track_conn ht]
    have hof : (newClntNode cfg b now).isOf (clientOf b) := ⟨rfl, rfl⟩
    have hother {m : Fin maxClntCnt} (hm : m ≠ j) :
        (admitTables cfg t b now j i recent).Holds m c k p ↔ t.Holds m c k p :=
      holds_congr (by rw [admitTables_clntList, Function.update_of_ne hm])
        (by rw [admitTables_forwarding, Function.update_of_ne hm])
    constructor
    · rintro ⟨m, hm⟩
      by_cases hmj : m = j
      · subst hmj
        obtain ⟨_, hc, hk, hp⟩ := hm
        rw [admitTables_clntList, Function.update_self] at hc hp
        rw [Tables.assigned, admitTables_forwarding, Function.update_self] at hk
        exact .inl ⟨hc.unique hof, Fin.ext (by simp only at hk; omega), hp.symm⟩
      · have hold := (hother hmj).mp hm
        refine .inr ⟨?_, m, hold⟩
        rintro rfl
        rw [(track_conn ht).mpr ⟨m, hold⟩] at hnew
        contradiction
    · rintro (⟨rfl, rfl, rfl⟩ | ⟨_, m, hold⟩)
      · refine ⟨j, (occupied_admitted hsrc j).mpr (.inl rfl), ?_, ?_, ?_⟩
        · rw [admitTables_clntList, Function.update_self]
          exact hof
        · rw [Tables.assigned, admitTables_forwarding, Function.update_self]
        · rw [admitTables_clntList, Function.update_self]
      · have hmj : m ≠ j := by
          rintro rfl
          exact hfree hold.occupied
        exact ⟨m, (hother hmj).mpr hold⟩

theorem track_released (ht : PortsDistinct t) (hu : PortsDistinct (releaseClnt t i j))
    (hheld : t.Holds j c i p) : (releaseClnt t i j).track = t.track.close c := by
  refine track_eq hu (fun k x => ?_) (fun d k q => ?_)
  · rw [ConnectionTracking.close_server, track_server]
    refine addr_same ?_
    rw [releaseClnt_servList]
    exact ⟨rfl, rfl, rfl⟩
  · rw [ConnectionTracking.close_conn, track_conn ht]
    have hother {m : Fin maxClntCnt} (hm : m ≠ j) :
        (releaseClnt t i j).Holds m d k q ↔ t.Holds m d k q :=
      holds_congr (by rw [releaseClnt_clntList, Function.update_of_ne hm])
        (by rw [releaseClnt_forwardingTable])
    constructor
    · rintro ⟨m, hm⟩
      have hmj := ((occupied_release j m).mp hm.occupied).1
      have hold := (hother hmj).mp hm
      refine ⟨?_, m, hold⟩
      rintro rfl
      exact hmj (ht m j hold.occupied hheld.occupied (hold.client.2.trans hheld.client.2.symm))
    · rintro ⟨hd, m, hold⟩
      have hmj : m ≠ j := by
        rintro rfl
        exact hd (hold.client.unique hheld.client)
      exact ⟨m, (hother hmj).mpr hold⟩

end Track

section Packet
variable {cfg : Config} {t u w : Tables} {b b' : Mem} {length : Int} {now : BitVec 32}
  {minIndex : Int} {out : List Output} {x : LoopExit} {i : Fin maxServCnt}
  {j : Fin maxClntCnt} {addr : SockaddrIn}

theorem shown_forward (hnat : nat w b j i cfg.lbaddr .clnt2serv = .ok b') :
    shownPacket t u b (.sent ⟨.clnt2serv, j, i, b', length, addr⟩) =
      some (.forward (clientOf b) i (w.servList i).addr (w.clntList j).wirePort) := by
  have hend := nat_clnt2serv_endpoints hnat
  have hip : ipDaddr b' = (w.servList i).ip := congrArg Endpoints.daddr hend
  have hport : tcpDest b' = (w.servList i).port := congrArg Endpoints.dest hend
  have hsource : tcpSource b' = (w.clntList j).wirePort := congrArg Endpoints.source hend
  simp only [shownPacket, servAt_coe, Except.toOption, Option.map_some, hip, hport, hsource]
  rfl

theorem shown_reply {sourceId : Int} (hnat : nat w b sourceId j cfg.lbaddr .serv2clnt = .ok b') :
    shownPacket t u b (.sent ⟨.serv2clnt, sourceId, j, b', length, addr⟩) =
      some (.reply (tcpDest b) (w.clntList j).client) := by
  have hend := nat_serv2clnt_endpoints hnat
  have hip : ipDaddr b' = (w.clntList j).ip := congrArg Endpoints.daddr hend
  have hport : tcpDest b' = BitVec.ofInt 16 (w.clntList j).port := congrArg Endpoints.dest hend
  simp only [shownPacket, hip, hport]
  rfl

theorem found_holds (hdir : fromClient cfg t b) (hord : ClientOrderly cfg t b now minIndex)
    (hport : findPort t.clntList b = some j) (hassigned : t.assigned i j) :
    t.Holds j (clientOf b) i (t.clntList j).wirePort :=
  ⟨findPort_occupied hport hord.1, ⟨hord.2.1 hdir j hport, findPort_some hport⟩, hassigned, rfl⟩

theorem held_forward {c : Client} {p : BitVec 16} (ht : PortsDistinct t) (hkept : t.track.Kept)
    (hheld : t.Holds j c i p) :
    ConnectionTracking.Step t.track (.forward c i (t.servList i).addr p) t.track := by
  have hconn := (track_conn ht).mpr ⟨j, hheld⟩
  obtain ⟨a, ha⟩ := hkept.up c i p hconn
  exact .forward hconn (track_server.mpr ⟨(track_server.mp ha).1, rfl⟩)

theorem relay_holds (hs : t.Sound) (hdest : tcpDest b ≠ 0)
    (hport : findPseudoPort t.clntList b = some j) :
    ∃ i, t.Holds j (t.clntList j).client i (tcpDest b) := by
  have hocc := hs.findPseudoPort_occupied hport hdest
  obtain ⟨⟨i, hi⟩, _⟩ := hs.pair_occupied j hocc
  refine ⟨i, hocc, ⟨rfl, (ofInt_toNat (hs.port_nonneg j) (hs.port_lt j)).symm⟩, hi, ?_⟩
  rw [ClntListNode.wirePort, findPseudoPort_some hport]
  simp

theorem PacketStep.tracked (hs : t.Sound) (ht : PortsDistinct t) (hu : PortsDistinct u)
    (hkept : t.track.Kept)
    (hclient : fromClient cfg t b → ClientOrderly cfg t b now minIndex)
    (hserver : fromServer cfg t b → tcpDest b ≠ 0)
    (hstep : PacketStep cfg t b length now minIndex u b' out x) :
    Transitions.Run ConnectionTracking.tracking t.track (out.filterMap (shownPacket t u b))
      u.track := by
  have hsame (i : Fin maxServCnt) : (t.servList i).Same (u.servList i) := by
    rw [hstep.servList i]
    exact ⟨rfl, rfl, rfl⟩
  cases hstep with
  | ignored => exact .nil _
  | unknown => exact .nil _
  | admitted j i recent _ hdir hserv hport htype hcnt hfree hsel hnat =>
    obtain ⟨hsrc, hprivate, hset, hfresh⟩ := hclient ⟨hdir, hserv⟩
    have hsrc' := admitted_port_ne hport hfree
    have hlive := admitted_live hs hserv hfree hsel (hset hport htype hcnt)
    have hnew : t.track.conn (clientOf b) = none := by
      refine Option.eq_none_iff_forall_ne_some.mpr ?_
      rintro ⟨k, p⟩ hconn
      obtain ⟨m, hm⟩ := (track_conn ht).mp hconn
      exact findPort_none hport m hm.client.2
    have htrack := track_admitted ht hu (firstFree_free hfree) hsrc' hnew
    have haccept : ConnectionTracking.Step t.track
        (.accept (clientOf b) i (newClntNode cfg b now).wirePort)
        (admitTables cfg t b now j i recent).track := by
      rw [htrack]
      refine .accept hnew (track_server.mpr ⟨hlive, rfl⟩) (fun c k hconn => ?_)
      obtain ⟨m, hm⟩ := (track_conn ht).mp hconn
      exact hfresh hport htype hcnt m hm.occupied hm.port
    have hforward : shownPacket t (admitTables cfg t b now j i recent) b
        (.sent ⟨.clnt2serv, j, i, b', length, (t.servList i).sockAdr⟩) = _ := shown_forward hnat
    have hshown : shownPacket t (admitTables cfg t b now j i recent) b (.newClient j i) =
        some (.accept (clientOf b) i (newClntNode cfg b now).wirePort) := by
      simp [shownPacket, Except.toOption]
    rw [List.filterMap_cons_some hshown, List.filterMap_cons_some hforward, List.filterMap_nil,
      admitTables_clntList, Function.update_self]
    refine .cons haccept (.single ?_)
    refine held_forward hu (haccept.kept hkept) ⟨(occupied_admitted hsrc' j).mpr (.inl rfl),
      ?_, ?_, ?_⟩
    · rw [admitTables_clntList, Function.update_self]
      exact ⟨rfl, rfl⟩
    · rw [Tables.assigned, admitTables_forwarding, Function.update_self]
    · rw [admitTables_clntList, Function.update_self]
  | forwarded j i _ hdir hserv hport hassigned _ hnat =>
    have hheld := found_holds ⟨hdir, hserv⟩ (hclient ⟨hdir, hserv⟩) hport hassigned
    rw [List.filterMap_cons_some (shown_forward hnat), List.filterMap_nil,
      track_same ht hu hsame (fun k c i p => holds_congr (by simp) (markIf_serv ..))]
    exact .single (held_forward ht hkept hheld)
  | released j i _ hdir hserv hport hassigned _ _ hnat =>
    have hheld := found_holds ⟨hdir, hserv⟩ (hclient ⟨hdir, hserv⟩) hport hassigned
    have hclose : shownPacket t (releaseClnt t i j) b (.clntDisconnected j i) =
        some (.close (clientOf b)) := by
      rw [shownPacket, hheld.client.client_eq]
    rw [List.filterMap_cons_some (shown_forward hnat), List.filterMap_cons_some hclose,
      List.filterMap_nil, track_released ht hu hheld]
    exact .cons (held_forward ht hkept hheld)
      (.single (.close ((track_conn ht).mpr ⟨j, hheld⟩)))
  | relayed j _ hdir hserv hport _ hnat =>
    obtain ⟨i, hheld⟩ := relay_holds hs (hserver ⟨hdir, hserv⟩) hport
    rw [List.filterMap_cons_some (shown_reply hnat), List.filterMap_nil,
      track_same ht hu hsame (fun k c i p => holds_congr (by simp) (markIf_serv ..))]
    exact .single (.reply ((track_conn ht).mpr ⟨j, hheld⟩))
  | relayReleased j i _ _ _ _ hassigned _ hflag _ =>
    exact absurd hflag (hs.flag_ne_of_assigned hassigned)

end Packet

theorem track_start : Tables.start.track = .start := by
  have hfree (j : Fin maxClntCnt) : ¬Tables.start.occupied j := fun hj => hj rfl
  refine track_eq (fun j k hj => absurd hj (hfree j)) (fun i x => ?_) (fun c i p => ?_)
  · have hdead : ¬Tables.start.live i := fun hi => hi rfl
    simp [hdead, ConnectionTracking.Tracker.start]
  · constructor
    · rintro ⟨j, hj⟩
      exact absurd hj.occupied (hfree j)
    · rintro ⟨⟩

/-- The load balancer in orderly runs refines the connection tracker. -/
theorem orderly_refines (cfg : Config) : Transitions.Refines (orderly cfg)
    ConnectionTracking.tracking (Reachable cfg) traffic (fun s => s.tables.track) := by
  constructor
  · rintro s ⟨buf, servAdr, rfl⟩
    exact ⟨.init ⟨buf, servAdr, rfl⟩, track_start⟩
  · intro s l s' hs habs ⟨hok, hstep⟩
    have hs' : Reachable cfg s' := .step hs hstep
    refine ⟨hs', ?_⟩
    have ht := hs.portsDistinct
    have hu := hs'.portsDistinct
    have htables := hs.sound.tablesStep hstep
    have hkept := ConnectionTracking.reachable_kept habs
    unfold traffic
    generalize s'.tables = u at hu htables ⊢
    cases htables with
    | denied => exact .nil _
    | joined i node hdead hsock _ hjoin =>
      have hshown : shownServer u (.newServer i node.sock node.port) =
          some (.join i node.addr) := by
        rw [shownServer, hjoin.servList, Function.update_self]
        rfl
      have hdown : s.tables.track.server i = none := by
        refine Option.eq_none_iff_forall_ne_some.mpr (fun a ha => ?_)
        exact hdead (track_server.mp ha).1
      dsimp only
      rw [List.filterMap_cons_some hshown, List.filterMap_nil, track_joined ht hu hsock hjoin]
      exact .single (.join hdown)
    | packet hpkt => exact hpkt.tracked hs.sound.tables ht hu hkept hok.1 hok.2
    | health hsame =>
      dsimp only
      rw [List.filterMap_nil, track_same ht hu (fun i => ?_) (fun j c i p => holds_congr
        (by rw [hsame.clntList]) (by rw [hsame.forwardingTable]))]
      · exact .nil _
      · rw [hsame.servList i]
        exact ⟨rfl, rfl, rfl⟩
    | closed w i hfind hlive hw hclose =>
      have hshown : (closeServer w i).2.filterMap (shownServer u) = [.leave i] := by
        simp [closeServer, shownServer, Function.comp_def]
      dsimp only
      rw [hshown, track_closed ht hu hw hclose]
      exact .single (.leave (track_server.mpr ⟨hlive, rfl⟩))

abbrev Shows (cfg : Config) (s : State) (shown : List Traffic) : Prop :=
  Transitions.Reachable ((orderly cfg).record traffic) (s, shown)

def demoEvents : List Event :=
  [demoJoin, demoSecondJoin, demoClient synFlag, demoOther synFlag, demoClient ackFlag,
    demoOther ackFlag, demoSecondReply ackFlag, demoOtherReply ackFlag, demoHangUp, demoThirdJoin,
    demoClient ackFlag, demoSecondReply ackFlag]

def demoTraffic : List Traffic :=
  let c : Client := (0x0900000a, 0x409c)
  let d : Client := (0x0800000a, 0x419c)
  let a : ServerAddr := (0x0200000a, 0x901f)
  let b : ServerAddr := (0x0300000a, 0x901f)
  [.join 0 a, .join 1 b, .accept c 1 59689, .forward c 1 b 59689, .accept d 0 51780,
    .forward d 0 a 51780, .forward c 1 b 59689, .forward d 0 a 51780, .reply 59689 c,
    .reply 51780 d, .leave 0, .join 0 (0x0400000a, 0x901f), .forward c 1 b 59689, .reply 59689 c]

theorem demo_shows : ∃ s, Shows demoConfig s demoTraffic := by
  obtain ⟨⟨s, shown⟩, h, htest⟩ := @Transitions.recorded_of_runsTo _ _ _ (orderly demoConfig)
    traffic _ (·.event) (nextStep demoConfig (Orderly demoConfig))
    (fun s e l t hn => by
      obtain ⟨hl, hok, hstep⟩ := nextStep_step hn
      exact ⟨hl, by simpa only [hl] using hok, hstep⟩) (fun p => p.2 = demoTraffic) demoStart
    demoEvents ⟨_, _, rfl⟩ (by decide +kernel)
  have hshown : shown = demoTraffic := of_decide_eq_true htest
  subst hshown
  exact ⟨s, h⟩

section Traffic
variable {cfg : Config} {s : State} {shown : List Traffic}

/-- What an orderly run of the load balancer shows, in the bytes that it forwards, is a run of
the connection tracker, which ends in the connections that the tables stand for. -/
theorem traffic_tracked (h : Shows cfg s shown) :
    Transitions.Run ConnectionTracking.tracking .start shown s.tables.track := by
  obtain ⟨_, a, ha, hrun⟩ := (orderly_refines cfg).run h
  obtain rfl : a = .start := ha
  exact hrun

theorem traffic_tracked_demo : ∃ s, Shows demoConfig s demoTraffic ∧
    Transitions.Run ConnectionTracking.tracking .start demoTraffic s.tables.track := by
  obtain ⟨s, h⟩ := demo_shows
  exact ⟨s, h, traffic_tracked h⟩

variable {xs ys zs : List Traffic} {c : Client} {v : Fin maxServCnt} {a : ServerAddr}
  {p : BitVec 16}

/-- In every orderly run, until a connection is ended: whatever is forwarded for its client goes
to the same server, at the same address and under the same port, and whatever comes back on that
port goes to the client. -/
theorem connections_routed {l : Traffic} (h : Shows cfg s shown)
    (hshown : shown = xs ++ .forward c v a p :: (ys ++ l :: zs))
    (hys : ∀ m ∈ ys, ¬m.Ends c v) :
    (∀ v' a' p', l = .forward c v' a' p' → v' = v ∧ a' = a ∧ p' = p) ∧
      ∀ c', l = .reply p c' → c' = c := by
  have hrun := traffic_tracked h
  rw [hshown] at hrun
  constructor
  · rintro v' a' p' rfl
    exact ConnectionTracking.forwards_agree hrun hys
  · rintro c' rfl
    exact ConnectionTracking.reply_routed hrun hys

theorem connections_routed_demo : ∃ s, Shows demoConfig s demoTraffic ∧
    ∀ c', demoTraffic = demoTraffic.take 13 ++ [.reply 59689 c'] →
      c' = (0x0900000a, 0x409c) := by
  obtain ⟨s, h⟩ := demo_shows
  refine ⟨s, h, fun c' hc => ?_⟩
  have hshown : demoTraffic = demoTraffic.take 3 ++ .forward (0x0900000a, 0x409c) 1
    (0x0300000a, 0x901f) 59689 :: (demoTraffic.drop 4 |>.take 9) ++ .reply 59689 c' :: [] := hc
  have hgoes : ∀ m ∈ demoTraffic.drop 4 |>.take 9, ¬m.Ends (0x0900000a, 0x409c) 1 := by
    simp [demoTraffic, ConnectionTracking.Label.Ends]
    decide
  exact (connections_routed h (by simpa using hshown) hgoes).2 c' rfl

/-- In every orderly run: a packet goes out to a server only at an address under which it has
joined and not left, and only for a client that was admitted to it under the port it carries;
and a packet is relayed only to a client admitted under the port it came back on. -/
theorem traffic_origin (h : Shows cfg s shown) {l : Traffic} (hshown : shown = xs ++ l :: zs) :
    (∀ c v a p, l = .forward c v a p →
      (∃ ys ys', xs = ys ++ .accept c v p :: ys' ∧ ∀ m ∈ ys', ¬m.Ends c v) ∧
        ∃ ys ys', xs = ys ++ .join v a :: ys' ∧ ∀ m ∈ ys', m ≠ .leave v) ∧
      ∀ p c, l = .reply p c →
        ∃ v ys ys', xs = ys ++ .accept c v p :: ys' ∧ ∀ m ∈ ys', ¬m.Ends c v := by
  have hrun := traffic_tracked h
  rw [hshown] at hrun
  constructor
  · rintro c v a p rfl
    exact ConnectionTracking.forward_origin hrun
  · rintro p c rfl
    exact ConnectionTracking.reply_origin hrun

theorem traffic_origin_demo : ∃ s, Shows demoConfig s demoTraffic ∧
    ∃ ys ys', demoTraffic.take 12 = ys ++ .join 1 (0x0300000a, 0x901f) :: ys' ∧
      ∀ m ∈ ys', m ≠ .leave 1 := by
  obtain ⟨s, h⟩ := demo_shows
  have hshown : demoTraffic = demoTraffic.take 12 ++ .forward (0x0900000a, 0x409c) 1
    (0x0300000a, 0x901f) 59689 :: demoTraffic.drop 13 := rfl
  exact ⟨s, h, ((traffic_origin h hshown).1 _ _ _ _ rfl).2⟩

end Traffic

end LoadBalancer
