import IotLab.Library.TcpSegment
import IotLab.LoadBalancer.NatFrame
import IotLab.LoadBalancer.Tracking

set_option autoImplicit false

namespace LoadBalancer
open SlotTable HostMemory TcpSegment

/-- An address and a port, which the program holds as they lie in a packet, in host byte order. -/
def endpointOf (a : BitVec 32 × BitVec 16) : Endpoint :=
  (a.1.extractLsb' 0 8 ++ a.1.extractLsb' 8 8 ++ a.1.extractLsb' 16 8 ++ a.1.extractLsb' 24 8,
    swap16 a.2)

/-- The endpoint that the clients use, and the one under which a server knows the connection with
the port `p`. -/
def Config.endpoint (cfg : Config) : Endpoint := endpointOf (cfg.lbaddr.addr, cfg.lbaddr.port)

def Config.portEndpoint (cfg : Config) (p : BitVec 16) : Endpoint := endpointOf (cfg.lbaddr.addr, p)

/-- One event: the packet that has come in, if any, and what is shown for it, each with the bytes
of the packet that is sent. -/
structure Round where
  received : List Byte
  handed : List (Traffic × List Byte)

def Round.traffic (r : Round) : List Traffic := r.handed.map (·.1)

def Round.said (lb c : Endpoint) (r : Round) : List Segment :=
  ((decode r.received).filter fun seg => seg.source = c ∧ seg.dest = lb).toList

def Round.answered (port : Endpoint) (r : Round) : List Segment :=
  ((decode r.received).filter fun seg => seg.dest = port).toList

def heardIn (p : BitVec 16) : Traffic × List Byte → Option Segment
  | (.forward _ _ _ p', bytes) => if p' = p then decode bytes else none
  | (.reply _ _, _) => none
  | (.join _ _, _) => none
  | (.leave _, _) => none
  | (.accept _ _ _, _) => none
  | (.close _, _) => none

def toldIn (c : Client) : Traffic × List Byte → Option Segment
  | (.reply _ c', bytes) => if c' = c then decode bytes else none
  | (.forward _ _ _ _, _) => none
  | (.join _ _, _) => none
  | (.leave _, _) => none
  | (.accept _ _ _, _) => none
  | (.close _, _) => none

def Round.heard (p : BitVec 16) (r : Round) : List Segment := r.handed.filterMap (heardIn p)

def Round.told (c : Client) (r : Round) : List Segment := r.handed.filterMap (toldIn c)

def Event.received : Event → List Byte
  | .packet received _ _ => (received.map (·.bytes)).getD []
  | .join _ _ _ => []
  | .server _ _ _ _ => []

def Output.bytes : Output → List Byte
  | .sent call => load call.packet 0 call.length.toNat
  | .newServer _ _ _ => []
  | .newClient _ _ => []
  | .clntDisconnected _ _ => []
  | .serverClosed _ _ => []

def handedOf (shown : Output → Option Traffic) (o : Output) : Option (Traffic × List Byte) :=
  (shown o).map fun l => (l, o.bytes)

def roundOf (shown : Output → Option Traffic) (received : List Byte) (out : List Output) : Round :=
  ⟨received, out.filterMap (handedOf shown)⟩

def round (s : State) (l : Step) (s' : State) : Round :=
  match l.event with
  | .packet received _ _ =>
    roundOf (shownPacket s.tables s'.tables (recvInto s.buf received)) l.event.received l.out
  | .join _ _ _ => roundOf (shownServer s'.tables) l.event.received l.out
  | .server _ _ _ _ => roundOf (shownServer s'.tables) l.event.received l.out

def conversing (cfg : Config) : Transitions.System (State × List Round) Step :=
  (orderly cfg).record fun s l s' => [round s l s']

/-- In these rounds the server at `a` hears under the port `p` what client `c` says, and the
client is told what is answered to that port: all of it, in order, with nothing changed but the
endpoints. Back from the server this needs a port that replies can find. -/
structure Carried (cfg : Config) (c : Client) (a : ServerAddr) (p : BitVec 16)
    (rs : List Round) : Prop where
  forth : rs.flatMap (·.heard p) = (rs.flatMap (·.said cfg.endpoint (endpointOf c))).map
    (·.readdress (cfg.portEndpoint p) (endpointOf a))
  back : 49152 ≤ p.toNat → p ≠ cfg.lbaddr.port →
    rs.flatMap (·.told c) = (rs.flatMap (·.answered (cfg.portEndpoint p))).map
      (·.readdress cfg.endpoint (endpointOf c))

theorem net32_endpointOf (a : BitVec 32 × BitVec 16) : net32 (endpointOf a).1 = bytes32 a.1 := by
  rw [endpointOf, net32_append]
  rfl

theorem net16_endpointOf (a : BitVec 32 × BitVec 16) : net16 (endpointOf a).2 = bytes16 a.2 := by
  rw [endpointOf, swap16, net16_append]
  rfl

theorem endpointOf_inj {a a' : BitVec 32 × BitVec 16} : endpointOf a = endpointOf a' ↔ a = a' := by
  refine ⟨fun h => ?_, fun h => by rw [h]⟩
  have haddr : bytes32 a.1 = bytes32 a'.1 := by
    rw [← net32_endpointOf, ← net32_endpointOf, h]
  have hport : bytes16 a.2 = bytes16 a'.2 := by
    rw [← net16_endpointOf, ← net16_endpointOf, h]
  simp only [bytes32, List.cons.injEq, and_true] at haddr
  simp only [bytes16, List.cons.injEq, and_true] at hport
  refine Prod.ext ?_ ?_
  · rw [← bytes32_append a.1, ← bytes32_append a'.1, haddr.1, haddr.2.1, haddr.2.2.1,
      haddr.2.2.2]
  · rw [← bytes16_append a.2, ← bytes16_append a'.2, hport.1, hport.2]

theorem sourceAt_eq (b : Mem) : sourceAt b = endpointOf (clientOf b) := by
  have hbytes := net32_append (b 15) (b 14) (b 13) (b 12)
  simp only [net32, List.cons.injEq, and_true] at hbytes
  have haddr : ipSaddr b = b 15 ++ b 14 ++ b 13 ++ b 12 := rfl
  rw [sourceAt, endpointOf, clientOf, haddr, hbytes.1, hbytes.2.1, hbytes.2.2.1, hbytes.2.2.2,
    tcpSource, swap16_read16]

theorem destAt_eq (b : Mem) : destAt b = endpointOf (ipDaddr b, tcpDest b) := by
  have hbytes := net32_append (b 19) (b 18) (b 17) (b 16)
  simp only [net32, List.cons.injEq, and_true] at hbytes
  have haddr : ipDaddr b = b 19 ++ b 18 ++ b 17 ++ b 16 := rfl
  rw [destAt, endpointOf, haddr, hbytes.1, hbytes.2.1, hbytes.2.2.1, hbytes.2.2.2, tcpDest,
    swap16_read16]

section Carried
variable {cfg : Config} {c : Client} {a : ServerAddr} {p : BitVec 16} {rs rs' : List Round}

theorem Carried.append (h : Carried cfg c a p rs) (h' : Carried cfg c a p rs') :
    Carried cfg c a p (rs ++ rs') := by
  constructor
  · rw [List.flatMap_append, List.flatMap_append, List.map_append, h.forth, h'.forth]
  · intro hport hne
    rw [List.flatMap_append, List.flatMap_append, List.map_append, h.back hport hne,
      h'.back hport hne]

theorem carried_singleton {r : Round} : Carried cfg c a p [r] ↔
    r.heard p = (r.said cfg.endpoint (endpointOf c)).map
      (·.readdress (cfg.portEndpoint p) (endpointOf a)) ∧
    (49152 ≤ p.toNat → p ≠ cfg.lbaddr.port → r.told c =
      (r.answered (cfg.portEndpoint p)).map (·.readdress cfg.endpoint (endpointOf c))) := by
  constructor
  · intro h
    simpa using And.intro h.forth h.back
  · rintro ⟨hforth, hback⟩
    exact ⟨by simpa using hforth, by simpa using hback⟩

end Carried

section Packet
variable {cfg : Config} {t u w : Tables} {b b' : Mem} {length : Int} {now : BitVec 32}
  {minIndex : Int} {out : List Output} {x : LoopExit} {i v : Fin maxServCnt}
  {j : Fin maxClntCnt} {addr : SockaddrIn} {bytes : List Byte} {handed : List (Traffic × List Byte)}
  {c : Client} {a : ServerAddr} {p : BitVec 16}

theorem said_packet (hbytes : load b 0 length.toNat = bytes) :
    (⟨bytes, handed⟩ : Round).said cfg.endpoint (endpointOf c) =
      if clientOf b = c ∧ ipDaddr b = cfg.lbaddr.addr ∧ tcpDest b = cfg.lbaddr.port then
        (decode bytes).toList
      else [] := by
  rw [Round.said]
  cases hseg : decode bytes with
  | none => simp
  | some seg =>
    obtain ⟨hsource, hdest⟩ := decode_endpoints (hbytes ▸ hseg)
    rw [sourceAt_eq] at hsource
    rw [destAt_eq] at hdest
    simp only [Option.filter_some, hsource, hdest, Config.endpoint, endpointOf_inj, Prod.mk.injEq,
      decide_eq_true_eq]
    split
    · rfl
    · rfl

theorem answered_packet (hbytes : load b 0 length.toNat = bytes) :
    (⟨bytes, handed⟩ : Round).answered (cfg.portEndpoint p) =
      if ipDaddr b = cfg.lbaddr.addr ∧ tcpDest b = p then (decode bytes).toList else [] := by
  rw [Round.answered]
  cases hseg : decode bytes with
  | none => simp
  | some seg =>
    have hdest := (decode_endpoints (hbytes ▸ hseg)).2
    rw [destAt_eq] at hdest
    simp only [Option.filter_some, hdest, Config.portEndpoint, endpointOf_inj, Prod.mk.injEq,
      decide_eq_true_eq]
    split
    · rfl
    · rfl

/-- What `nat` sends is the segment it got, between the endpoints it wrote. -/
theorem nat_readdressed {sourceId destId : Int} {lbaddr : SockaddrIn} {dir : Direction}
    (hnat : nat w b sourceId destId lbaddr dir = .ok b') (n : Nat) :
    decode (load b' 0 n) = (decode (load b 0 n)).map
      (·.readdress (endpointOf (clientOf b')) (endpointOf (ipDaddr b', tcpDest b'))) := by
  rw [← sourceAt_eq, ← destAt_eq]
  exact decode_readdressed n (fun k hk => nat_frame hnat (by omega))

theorem carried_quiet (hbytes : load b 0 length.toNat = bytes)
    (hsaid : clientOf b = c → ¬(ipDaddr b = cfg.lbaddr.addr ∧ tcpDest b = cfg.lbaddr.port))
    (hanswered : 49152 ≤ p.toNat → p ≠ cfg.lbaddr.port →
      ¬(ipDaddr b = cfg.lbaddr.addr ∧ tcpDest b = p)) :
    Carried cfg c a p [⟨bytes, []⟩] := by
  refine carried_singleton.mpr ⟨?_, fun hport hne => ?_⟩
  · rw [said_packet hbytes, if_neg (fun h => hsaid h.1 h.2)]
    rfl
  · rw [answered_packet hbytes, if_neg (hanswered hport hne)]
    rfl

theorem filterMap_around {f : Traffic × List Byte → Option Segment} {x : Traffic × List Byte}
    (pre : List (Traffic × List Byte)) {post : List (Traffic × List Byte)}
    (h : ∀ y ∈ pre ++ post, f y = none) :
    (pre ++ x :: post).filterMap f = (f x).toList := by
  have hpre : pre.filterMap f = [] :=
    List.filterMap_eq_nil_iff.mpr (fun y hy => h y (List.mem_append_left _ hy))
  have hpost : post.filterMap f = [] :=
    List.filterMap_eq_nil_iff.mpr (fun y hy => h y (List.mem_append_right _ hy))
  rw [List.filterMap_append, hpre, List.nil_append, List.filterMap_cons, hpost]
  cases f x with
  | none => rfl
  | some seg => rfl

theorem carried_forward (pre post : List (Traffic × List Byte))
    (hbytes : load b 0 length.toNat = bytes)
    (hdir : ipDaddr b = cfg.lbaddr.addr ∧ tcpDest b = cfg.lbaddr.port)
    (hnat : nat w b j i cfg.lbaddr .clnt2serv = .ok b')
    (hiff : (w.clntList j).wirePort = p ↔ clientOf b = c)
    (haddr : clientOf b = c → (w.servList i).addr = a)
    (haround : ∀ x ∈ pre ++ post, heardIn p x = none ∧ toldIn c x = none) :
    Carried cfg c a p [⟨bytes, pre ++ (.forward (clientOf b) i (w.servList i).addr
      (w.clntList j).wirePort, load b' 0 length.toNat) :: post⟩] := by
  refine carried_singleton.mpr ⟨?_, fun _ hne => ?_⟩
  · rw [said_packet hbytes, Round.heard, filterMap_around pre (fun x hx => (haround x hx).1),
      heardIn]
    by_cases hc : clientOf b = c
    · have hend := nat_clnt2serv_endpoints hnat
      have hsource : clientOf b' = (cfg.lbaddr.addr, (w.clntList j).wirePort) :=
        Prod.ext (congrArg Endpoints.saddr hend) (congrArg Endpoints.source hend)
      have hdest : (ipDaddr b', tcpDest b') = (w.servList i).addr :=
        Prod.ext (congrArg Endpoints.daddr hend) (congrArg Endpoints.dest hend)
      rw [if_pos (hiff.mpr hc), if_pos ⟨hc, hdir⟩, nat_readdressed hnat, hbytes, hsource, hdest,
        hiff.mpr hc, haddr hc, Option.toList_map]
      rfl
    · rw [if_neg (fun h => hc (hiff.mp h)), if_neg (fun h => hc h.1)]
      rfl
  · rw [answered_packet hbytes, if_neg (fun h => hne (h.2.symm.trans hdir.2)), Round.told,
      filterMap_around pre (fun x hx => (haround x hx).2)]
    rfl

theorem carried_reply {sourceId : Int} (hbytes : load b 0 length.toNat = bytes)
    (hdaddr : ipDaddr b = cfg.lbaddr.addr) (hdest : tcpDest b ≠ cfg.lbaddr.port)
    (hnat : nat w b sourceId j cfg.lbaddr .serv2clnt = .ok b')
    (hiff : tcpDest b = p ↔ (w.clntList j).client = c) :
    Carried cfg c a p [⟨bytes,
      [(.reply (tcpDest b) (w.clntList j).client, load b' 0 length.toNat)]⟩] := by
  refine carried_singleton.mpr ⟨?_, fun _ _ => ?_⟩
  · rw [said_packet hbytes, if_neg (fun h => hdest h.2.2)]
    rfl
  · rw [answered_packet hbytes, Round.told, ← List.nil_append [_],
      filterMap_around [] (by simp), toldIn]
    by_cases hc : (w.clntList j).client = c
    · have hend := nat_serv2clnt_endpoints hnat
      have hsource : clientOf b' = (cfg.lbaddr.addr, cfg.lbaddr.port) :=
        Prod.ext (congrArg Endpoints.saddr hend) (congrArg Endpoints.source hend)
      have hclient : (ipDaddr b', tcpDest b') = (w.clntList j).client :=
        Prod.ext (congrArg Endpoints.daddr hend) (congrArg Endpoints.dest hend)
      rw [if_pos hc, if_pos ⟨hdaddr, hiff.mpr hc⟩, nat_readdressed hnat, hbytes, hsource, hclient,
        hc, Option.toList_map]
      rfl
    · rw [if_neg hc, if_neg (fun h => hc (hiff.mp h.2))]
      rfl

theorem checkIpAndPort_server {clntList : Fin maxClntCnt → ClntListNode} {lbaddr : SockaddrIn}
    (h : checkIpAndPort clntList b lbaddr = some .serv2clnt) :
    ipDaddr b = lbaddr.addr ∧ tcpDest b ≠ lbaddr.port := by
  unfold checkIpAndPort at h
  split_ifs at h with hclient hdaddr
  · cases h
  · exact ⟨hdaddr, fun hdest => hclient ⟨hdaddr, hdest⟩⟩

theorem servCnt_ne (hs : t.Sound) (hup : t.track.server v = some a) : t.servCnt ≠ 0 := by
  have hpos : 0 < t.liveCount := count_pos.mpr ⟨v, (track_server.mp hup).1⟩
  have := hs.servCnt_eq
  omega

theorem Tables.Holds.found (h : t.Holds j c i p) (hs : t.Sound) (hport : 49152 ≤ p.toNat)
    (hdest : tcpDest b = p) : ∃ k, findPseudoPort t.clntList b = some k := by
  refine Option.isSome_iff_exists.mp (Option.isSome_iff_ne_none.mpr (fun hnone => ?_))
  have hne : (t.clntList j).pseudoPort ≠ (tcpDest b).toNat := by
    simpa using firstSlot_eq_none.mp hnone j
  have hlo := hs.pseudo_ge j h.occupied
  have hhi := hs.pseudo_le j h.occupied
  have hwire : (BitVec.ofInt 16 (t.clntList j).pseudoPort).toNat = p.toNat :=
    congrArg BitVec.toNat h.port
  rw [BitVec.toNat_ofInt] at hwire
  rw [hdest] at hne
  omega

theorem handed_forward (hnat : nat w b j i cfg.lbaddr .clnt2serv = .ok b') :
    handedOf (shownPacket t u b) (.sent ⟨.clnt2serv, j, i, b', length, addr⟩) =
      some (.forward (clientOf b) i (w.servList i).addr (w.clntList j).wirePort,
        load b' 0 length.toNat) := by
  rw [handedOf, shown_forward hnat]
  rfl

theorem handed_reply {sourceId : Int}
    (hnat : nat w b sourceId j cfg.lbaddr .serv2clnt = .ok b') :
    handedOf (shownPacket t u b) (.sent ⟨.serv2clnt, sourceId, j, b', length, addr⟩) =
      some (.reply (tcpDest b) (w.clntList j).client, load b' 0 length.toNat) := by
  rw [handedOf, shown_reply hnat]
  rfl

theorem handed_admission :
    handedOf (shownPacket t u b) (.newClient j i) =
      some (.accept (clientOf b) i (u.clntList j).wirePort, []) := by
  simp [handedOf, shownPacket, Except.toOption, Output.bytes]

theorem PacketStep.carried (hs : t.Sound) (ht : PortsDistinct t) (hkept : t.track.Kept)
    (hclient : fromClient cfg t b → ClientOrderly cfg t b now minIndex)
    (hserver : fromServer cfg t b → tcpDest b ≠ 0)
    (hstep : PacketStep cfg t b length now minIndex u b' out x)
    (hbytes : load b 0 length.toNat = bytes) (hconn : t.track.conn c = some (v, p))
    (hup : t.track.server v = some a) :
    Carried cfg c a p [roundOf (shownPacket t u b) bytes out] := by
  obtain ⟨m, hheld⟩ := (track_conn ht).mp hconn
  have hserv := servCnt_ne hs hup
  have hfound (hc : clientOf b = c) : (t.clntList m).port = (tcpSource b).toNat := by
    rw [hheld.client.2, ← hc]
    rfl
  -- The address of the server slot that a packet of the client is forwarded to.
  have haddr {k : Fin maxServCnt} {q : BitVec 16}
      (hconn' : t.track.conn (clientOf b) = some (k, q)) (hc : clientOf b = c) :
      (t.servList k).addr = a := by
    rw [hc, hconn] at hconn'
    cases hconn'
    exact (track_server.mp hup).2
  cases hstep with
  | ignored h =>
    have hnone := h.resolve_right hserv
    refine carried_quiet hbytes (fun _ hdir => ?_) (fun hport hne hdir => ?_)
    · rw [checkIpAndPort_client.mpr hdir] at hnone
      exact Option.some_ne_none _ hnone
    · obtain ⟨k, hk⟩ := hheld.found hs hport hdir.2
      rw [checkIpAndPort, if_neg (fun h => hne (hdir.2.symm.trans h.2)), if_pos hdir.1, hk] at hnone
      exact Option.some_ne_none _ hnone
  | unknown hdir _ hport _ =>
    refine carried_quiet hbytes (fun hc _ => findPort_none hport m (hfound hc)) (fun _ hne h => ?_)
    exact hne (h.2.symm.trans (checkIpAndPort_client.mp hdir).2)
  | admitted j i recent _ hdir _ hport htype hcnt hfree hsel hnat =>
    obtain ⟨_, _, _, hfresh⟩ := hclient ⟨hdir, hserv⟩
    have hother : clientOf b ≠ c := fun hc => findPort_none hport m (hfound hc)
    have hwire : ((admitTables cfg t b now j i recent).clntList j).wirePort ≠ p := by
      rw [admitTables_clntList, Function.update_self]
      exact fun h => hfresh hport htype hcnt m hheld.occupied (hheld.port.trans h.symm)
    rw [roundOf, List.filterMap_cons_some handed_admission,
      List.filterMap_cons_some (handed_forward hnat), List.filterMap_nil]
    exact carried_forward [_] [] hbytes (checkIpAndPort_client.mp hdir) hnat
      (iff_of_false hwire hother) (fun hc => absurd hc hother) (by simp [heardIn, toldIn])
  | forwarded j i _ hdir _ hport hassigned _ hnat =>
    have hheld' := found_holds ⟨hdir, hserv⟩ (hclient ⟨hdir, hserv⟩) hport hassigned
    have hconn' := (track_conn ht).mpr ⟨j, hheld'⟩
    rw [roundOf, List.filterMap_cons_some (handed_forward hnat), List.filterMap_nil]
    exact carried_forward [] [] hbytes (checkIpAndPort_client.mp hdir) hnat
      (hkept.port_iff hconn hconn') (haddr hconn') (by simp)
  | released j i _ hdir _ hport hassigned _ _ hnat =>
    have hheld' := found_holds ⟨hdir, hserv⟩ (hclient ⟨hdir, hserv⟩) hport hassigned
    have hconn' := (track_conn ht).mpr ⟨j, hheld'⟩
    rw [roundOf, List.filterMap_cons_some (handed_forward hnat)]
    exact carried_forward [] _ hbytes (checkIpAndPort_client.mp hdir) hnat
      (hkept.port_iff hconn hconn') (haddr hconn')
      (by simp [handedOf, shownPacket, heardIn, toldIn])
  | relayed j _ hdir _ hport _ hnat =>
    obtain ⟨i, hheld'⟩ := relay_holds hs (hserver ⟨hdir, hserv⟩) hport
    have hconn' := (track_conn ht).mpr ⟨j, hheld'⟩
    rw [roundOf, List.filterMap_cons_some (handed_reply hnat), List.filterMap_nil]
    obtain ⟨hdaddr, hdest⟩ := checkIpAndPort_server hdir
    exact carried_reply hbytes hdaddr hdest hnat (hkept.port_iff hconn hconn')
  | relayReleased j i _ _ _ _ hassigned _ hflag _ =>
    exact absurd hflag (hs.flag_ne_of_assigned hassigned)

theorem roundOf_traffic (shown : Output → Option Traffic) (received : List Byte)
    (out : List Output) : (roundOf shown received out).traffic = out.filterMap shown := by
  rw [Round.traffic, roundOf, List.map_filterMap]
  refine congrArg (fun f => out.filterMap f) (funext fun o => ?_)
  rw [handedOf, Option.map_map]
  exact Option.map_id'

theorem PacketStep.opens (hstep : PacketStep cfg t b length now minIndex u b' out x)
    (hbytes : load b 0 length.toNat = bytes)
    (hacc : .accept c v p ∈ out.filterMap (shownPacket t u b)) :
    ∃ a, out.filterMap (shownPacket t u b) = [.accept c v p, .forward c v a p] ∧
      Carried cfg c a p [roundOf (shownPacket t u b) bytes out] := by
  obtain ⟨o, ho, hshown⟩ := List.mem_filterMap.mp hacc
  cases hstep with
  | ignored => simp at ho
  | unknown => simp at ho
  | admitted j i recent _ hdir _ _ _ _ _ _ hnat =>
    have hforward : shownPacket t (admitTables cfg t b now j i recent) b
        (.sent ⟨.clnt2serv, j, i, b', length, (t.servList i).sockAdr⟩) = _ := shown_forward hnat
    have hadmission : shownPacket t (admitTables cfg t b now j i recent) b (.newClient j i) =
        some (.accept (clientOf b) i
          ((admitTables cfg t b now j i recent).clntList j).wirePort) := by
      simp [shownPacket, Except.toOption]
    rw [List.filterMap_cons_some hadmission, List.filterMap_cons_some hforward,
      List.filterMap_nil] at hacc
    obtain ⟨rfl, rfl, rfl⟩ : c = clientOf b ∧ v = i ∧
        p = ((admitTables cfg t b now j i recent).clntList j).wirePort := by
      simpa using hacc
    refine ⟨((admitTables cfg t b now j v recent).servList v).addr, ?_, ?_⟩
    · rw [List.filterMap_cons_some hadmission, List.filterMap_cons_some hforward,
        List.filterMap_nil]
    · rw [roundOf, List.filterMap_cons_some handed_admission,
        List.filterMap_cons_some (handed_forward hnat), List.filterMap_nil]
      exact carried_forward [_] [] hbytes (checkIpAndPort_client.mp hdir) hnat
        (iff_of_true rfl rfl) (fun _ => rfl) (by simp [heardIn, toldIn])
  | forwarded =>
    obtain rfl := List.mem_singleton.mp ho
    simp [shownPacket] at hshown
  | released =>
    rcases List.mem_pair.mp ho with rfl | rfl
    · simp [shownPacket] at hshown
    · simp [shownPacket] at hshown
  | relayed =>
    obtain rfl := List.mem_singleton.mp ho
    simp [shownPacket] at hshown
  | relayReleased =>
    rcases List.mem_pair.mp ho with rfl | rfl
    · simp [shownPacket] at hshown
    · simp [shownPacket] at hshown

end Packet

section Rounds
variable {cfg : Config} {s s' : State} {l : Step} {c : Client} {v : Fin maxServCnt} {a : ServerAddr}
  {p : BitVec 16}

theorem round_traffic : (round s l s').traffic = traffic s l s' := by
  obtain ⟨e, out, x⟩ := l
  cases e with
  | packet => exact roundOf_traffic ..
  | join => exact roundOf_traffic ..
  | server => exact roundOf_traffic ..

theorem carried_server (u : Tables) (out : List Output) :
    Carried cfg c a p [roundOf (shownServer u) [] out] := by
  have hnone (x : Traffic × List Byte) (hx : x ∈ out.filterMap (handedOf (shownServer u))) :
      heardIn p x = none ∧ toldIn c x = none := by
    obtain ⟨o, -, ho⟩ := List.mem_filterMap.mp hx
    obtain ⟨l, hl, rfl⟩ := Option.map_eq_some_iff.mp ho
    cases o with
    | newServer =>
      obtain rfl := Option.some.inj hl
      exact ⟨rfl, rfl⟩
    | serverClosed =>
      obtain rfl := Option.some.inj hl
      exact ⟨rfl, rfl⟩
    | newClient => contradiction
    | sent => contradiction
    | clntDisconnected => contradiction
  refine carried_singleton.mpr ⟨?_, fun _ _ => ?_⟩
  · exact List.filterMap_eq_nil_iff.mpr (fun x hx => (hnone x hx).1)
  · exact List.filterMap_eq_nil_iff.mpr (fun x hx => (hnone x hx).2)

theorem received_loaded (buf : Mem) (received : Option (Received bufSize)) (now : BitVec 32)
    (minIndex : Int) : load (recvInto buf received) 0 (recvLength received).toNat =
      (Event.packet received now minIndex).received := by
  cases received with
  | none => rfl
  | some r => exact load_store buf 0 r.bytes

theorem round_carried (hs : Transitions.Reachable (orderly cfg) s)
    (hstep : (orderly cfg).step s l s') (hconn : s.tables.track.conn c = some (v, p))
    (hup : s.tables.track.server v = some a) : Carried cfg c a p [round s l s'] := by
  obtain ⟨hreach, habs⟩ := (orderly_refines cfg).reachable hs
  have hkept := ConnectionTracking.reachable_kept habs
  have htables := hreach.sound.tablesStep hstep.2
  have hok := hstep.1
  unfold round
  generalize s'.tables = u at htables ⊢
  cases htables with
  | denied => exact carried_server _ _
  | joined => exact carried_server u _
  | packet hpkt =>
    exact hpkt.carried hreach.sound.tables hreach.portsDistinct hkept hok.1 hok.2
      (received_loaded ..) hconn hup
  | health => exact carried_server u _
  | closed => exact carried_server u _

theorem round_opens (hs : Transitions.Reachable (orderly cfg) s)
    (hstep : (orderly cfg).step s l s') (hacc : .accept c v p ∈ (round s l s').traffic) :
    ∃ a, (round s l s').traffic = [.accept c v p, .forward c v a p] ∧
      Carried cfg c a p [round s l s'] := by
  have hreach : Reachable cfg s := hs.of_restrict
  have htables := hreach.sound.tablesStep hstep.2
  rw [round_traffic] at hacc ⊢
  unfold traffic at hacc ⊢
  unfold round
  generalize s'.tables = u at htables hacc ⊢
  cases htables with
  | denied => simp at hacc
  | joined => simp [shownServer] at hacc
  | packet hpkt => exact hpkt.opens (received_loaded ..) hacc
  | health => simp at hacc
  | closed => simp [closeServer, shownServer] at hacc

/-- A connection that is open since the round `r`. -/
structure Ongoing (cfg : Config) (s : State) (c : Client) (v : Fin maxServCnt) (a : ServerAddr)
    (p : BitVec 16) (r : Round) (ys : List Round) : Prop where
  forward : .forward c v a p ∈ r.traffic
  carried : Carried cfg c a p (r :: ys)
  conn : s.tables.track.conn c = some (v, p)
  up : s.tables.track.server v = some a

theorem round_tracked (hs : Transitions.Reachable (orderly cfg) s)
    (hstep : (orderly cfg).step s l s') :
    Transitions.Run ConnectionTracking.tracking s.tables.track (round s l s').traffic
      s'.tables.track := by
  obtain ⟨hreach, habs⟩ := (orderly_refines cfg).reachable hs
  rw [round_traffic]
  exact ((orderly_refines cfg).step s l s' hreach habs hstep).2

theorem Ongoing.next {r : Round} {ys : List Round} (h : Ongoing cfg s c v a p r ys)
    (hs : Transitions.Reachable (orderly cfg) s) (hstep : (orderly cfg).step s l s')
    (hnot : ∀ m ∈ (round s l s').traffic, ¬m.Ends c v) :
    Ongoing cfg s' c v a p r (ys ++ [round s l s']) := by
  have hrun := round_tracked hs hstep
  constructor
  case forward => exact h.forward
  case carried => exact h.carried.append (round_carried hs hstep h.conn h.up)
  case conn => exact ConnectionTracking.conn_run hrun h.conn hnot
  case up =>
    refine ConnectionTracking.server_run hrun h.up (fun m hm heq => hnot m hm ?_)
    rw [heq]
    rfl

theorem conversing_orderly {q : State × List Round}
    (h : Transitions.Reachable (conversing cfg) q) : Transitions.Reachable (orderly cfg) q.1 :=
  @Transitions.Reachable.of_observe _ _ _ (orderly cfg) []
    (fun rs s l s' => rs ++ [round s l s']) q h

theorem ongoing_of_reachable {xs ys : List Round} {r : Round}
    (h : Transitions.Reachable (conversing cfg) (s, xs ++ r :: ys))
    (hacc : .accept c v p ∈ r.traffic) (hnot : ∀ y ∈ ys, ∀ m ∈ y.traffic, ¬m.Ends c v) :
    ∃ a, Ongoing cfg s c v a p r ys := by
  induction ys using List.reverseRecOn generalizing s with
  | nil =>
    -- The connection was opened by the very last step.
    obtain ⟨s', l, hreach, hstep, rfl⟩ := h.last_item
    have hs := conversing_orderly hreach
    obtain ⟨a, htraffic, hcarried⟩ := round_opens hs hstep hacc
    have hopened := round_tracked hs hstep
    rw [htraffic] at hopened
    obtain ⟨hconn, hup⟩ := ConnectionTracking.opened hopened
    exact ⟨a, by simp [htraffic], hcarried, hconn, hup⟩
  | append_singleton ys y ih =>
    rw [← List.cons_append, ← List.append_assoc] at h
    obtain ⟨s', l, hreach, hstep, rfl⟩ := h.last_item
    simp only [List.mem_append, List.mem_singleton] at hnot
    obtain ⟨a, hongoing⟩ := ih hreach (fun y hy => hnot y (.inl hy))
    exact ⟨a, hongoing.next (conversing_orderly hreach) hstep (hnot _ (.inr rfl))⟩

/-- From its admission to its end, the conversation of a client is carried to the server that it
was admitted to, and back. Of these rounds only the last may end it. -/
theorem conversations_carried {rs : List Round}
    (h : Transitions.Reachable (conversing cfg) (s, rs)) {xs ys zs : List Round} {r : Round}
    (hrs : rs = xs ++ r :: (ys ++ zs)) (hacc : .accept c v p ∈ r.traffic)
    (hnot : ∀ y ∈ ys.dropLast, ∀ m ∈ y.traffic, ¬m.Ends c v) :
    ∃ a, .forward c v a p ∈ r.traffic ∧ Carried cfg c a p (r :: ys) := by
  rcases List.eq_nil_or_concat ys with rfl | ⟨ys, y, rfl⟩
  · rw [List.nil_append, List.append_cons] at hrs
    rw [hrs] at h
    obtain ⟨s', h'⟩ := h.earlier
    obtain ⟨a, hongoing⟩ := ongoing_of_reachable h' hacc (by simp)
    exact ⟨a, hongoing.forward, hongoing.carried⟩
  · rw [List.concat_eq_append] at hrs hnot ⊢
    rw [List.dropLast_concat] at hnot
    have hsplit : rs = ((xs ++ r :: ys) ++ [y]) ++ zs := by simp [hrs]
    rw [hsplit] at h
    obtain ⟨s', h'⟩ := h.earlier
    obtain ⟨s₀, l, hreach, hstep, rfl⟩ := h'.last_item
    obtain ⟨a, hongoing⟩ := ongoing_of_reachable hreach hacc hnot
    exact ⟨a, hongoing.forward, hongoing.carried.append
      (round_carried (conversing_orderly hreach) hstep hongoing.conn hongoing.up)⟩

end Rounds

def demoBytes (saddr : BitVec 32) (source dest : BitVec 16) (offset flags : Byte)
    (rest : List Byte) : List Byte :=
  [0x45, 0, 0, BitVec.ofNat 8 (40 + rest.length), 0, 0, 0, 0, 64, 6, 0, 0] ++ bytes32 saddr ++
    bytes32 0x0100000a ++ bytes16 source ++ bytes16 dest ++
    [0, 0, 0, 0, 0, 0, 0, 0, offset, flags, 0x72, 0x10, 0, 0, 0, 0] ++ rest

def demoDialogue : List Event :=
  [demoJoin, demoSecondJoin,
    .packet (some ⟨demoBytes 0x0900000a 0x409c 0x5000 0x60 synFlag [2, 4, 5, 0xb4],
      show 44 ≤ bufSize by decide⟩) 0 0,
    demoOther synFlag,
    .packet (some ⟨demoBytes 0x0900000a 0x409c 0x5000 0x50 ackFlag [104, 105],
      show 42 ≤ bufSize by decide⟩) 0 0,
    .packet (some ⟨demoBytes 0x0300000a 0x901f 59689 0x50 ackFlag [111, 107],
      show 42 ≤ bufSize by decide⟩) 0 0]

def demoRounds : List (List Traffic) :=
  let c : Client := (0x0900000a, 0x409c)
  let d : Client := (0x0800000a, 0x419c)
  let b : ServerAddr := (0x0300000a, 0x901f)
  [[.accept c 1 59689, .forward c 1 b 59689],
    [.accept d 0 51780, .forward d 0 (0x0200000a, 0x901f) 51780],
    [.forward c 1 b 59689], [.reply 59689 c]]

theorem conversations_carried_demo : ∃ s rs, ∃ r : Round, ∃ ys : List Round,
    Transitions.Reachable (conversing demoConfig) (s, rs) ∧ rs.drop 2 = r :: ys ∧
      ((r :: ys).flatMap (·.heard 59689)).map (fun seg => (seg.options, seg.payload)) =
        [([2, 4, 5, 0xb4], []), ([], [104, 105])] ∧
      ((r :: ys).flatMap (·.told (0x0900000a, 0x409c))).map (·.payload) = [[111, 107]] ∧
      ∃ a, Carried demoConfig (0x0900000a, 0x409c) a 59689 (r :: ys) := by
  obtain ⟨⟨s, rs⟩, h, htest⟩ := @Transitions.recorded_of_runsTo _ _ _ (orderly demoConfig)
    (fun s l s' => [round s l s']) _ (·.event) (nextStep demoConfig (Orderly demoConfig))
    (fun s e l t hn => by
      obtain ⟨hl, hok, hstep⟩ := nextStep_step hn
      exact ⟨hl, by simpa only [hl] using hok, hstep⟩)
    (fun q => (q.2.drop 2).map (·.traffic) = demoRounds ∧
      ((q.2.drop 2).flatMap (·.heard 59689)).map (fun seg => (seg.options, seg.payload)) =
        [([2, 4, 5, 0xb4], []), ([], [104, 105])] ∧
      ((q.2.drop 2).flatMap (·.told (0x0900000a, 0x409c))).map (·.payload) = [[111, 107]])
    demoStart demoDialogue ⟨_, _, rfl⟩ (by decide +kernel)
  obtain ⟨htraffic, hheard, htold⟩ := of_decide_eq_true htest
  obtain ⟨r, ys, hrest, hr, hys⟩ := List.map_eq_cons_iff.mp htraffic
  rw [hrest] at hheard htold
  refine ⟨s, rs, r, ys, h, hrest, hheard, htold, ?_⟩
  have hnot : ∀ m ∈ ys.dropLast, ∀ l ∈ m.traffic, ¬l.Ends (0x0900000a, 0x409c) 1 := by
    intro m hm l hl
    have hmem : m.traffic ∈ ys.map (·.traffic) := List.mem_map_of_mem (List.mem_of_mem_dropLast hm)
    rw [hys] at hmem
    simp only [List.mem_cons, List.not_mem_nil, or_false] at hmem
    rcases hmem with hmem | hmem | hmem
    all_goals
      rw [hmem] at hl
      simp only [List.mem_cons, List.not_mem_nil, or_false] at hl
      grind [ConnectionTracking.Label.Ends]
  obtain ⟨a, -, hcarried⟩ := @conversations_carried _ _ (0x0900000a, 0x409c) 1 59689 rs h
    (rs.take 2) ys [] r ((List.take_append_drop 2 rs).symm.trans (by rw [hrest]; simp))
    (by rw [hr]; simp) hnot
  exact ⟨a, hcarried⟩

end LoadBalancer
