import IotLab.LoadBalancer.Segments

set_option autoImplicit false

namespace LoadBalancer
open SlotTable HostMemory

def PortsDistinct (t : Tables) : Prop :=
  ∀ j k, t.occupied j → t.occupied k → (t.clntList j).port = (t.clntList k).port → j = k

section Ports
variable {cfg : Config} {t u : Tables} {b b' : Mem} {length : Int} {now : BitVec 32}
  {minIndex : Int} {out : List Output} {x : LoopExit} {i : Fin maxServCnt}
  {j : Fin maxClntCnt}

theorem PortsDistinct.emptied (h : PortsDistinct t)
    (hu : ∀ k, u.occupied k → u.clntList k = t.clntList k) : PortsDistinct u := by
  intro j k hj hk heq
  have hjt := hu j hj
  have hkt := hu k hk
  rw [Tables.occupied, hjt] at hj
  rw [Tables.occupied, hkt] at hk
  rw [hjt, hkt] at heq
  exact h j k hj hk heq

theorem Change.entry_of_occupied (c : Change) {k : Fin maxClntCnt}
    (h : (c.apply t j).occupied k) : (c.apply t j).clntList k = t.clntList k := by
  rcases c.entry_cases with hsame | hzero
  · rw [hsame]
  · by_cases hkj : k = j
    · subst hkj
      rw [Tables.occupied, hzero, Function.update_self] at h
      exact absurd rfl h
    · rw [hzero, Function.update_of_ne hkj]

theorem PortsDistinct.admission {recent : Int} (h : PortsDistinct t)
    (hport : findPort t.clntList b = none) :
    PortsDistinct (admitTables cfg t b now j i recent) := by
  have hentry (k : Fin maxClntCnt) : ((admitTables cfg t b now j i recent).clntList k).port =
      if k = j then ((tcpSource b).toNat : Int) else (t.clntList k).port := by
    rw [admitTables_clntList]
    by_cases hk : k = j
    · subst hk
      rw [Function.update_self, if_pos rfl]
      rfl
    · rw [Function.update_of_ne hk, if_neg hk]
  have hfresh := findPort_none hport
  intro k l hk hl heq
  rw [Tables.occupied, hentry] at hk hl
  rw [hentry, hentry] at heq
  split_ifs at hk hl heq with hkj hlj hlj
  · exact hkj.trans hlj.symm
  · exact absurd heq.symm (hfresh l)
  · exact absurd heq (hfresh k)
  · exact h k l hk hl heq

theorem PortsDistinct.packet (h : PortsDistinct t)
    (hstep : PacketStep cfg t b length now minIndex u b' out x) : PortsDistinct u := by
  have hchange (c : Change) (k : Fin maxClntCnt) : PortsDistinct (c.apply t k) :=
    h.emptied (fun l hl => c.entry_of_occupied hl)
  cases hstep with
  | ignored => exact h
  | unknown => exact h
  | admitted j i recent _ _ _ hport => exact h.admission hport
  | forwarded j =>
    split
    · exact hchange .mark j
    · exact h
  | released j i => exact hchange (.release i) j
  | relayed j =>
    split
    · exact hchange .mark j
    · exact h
  | relayReleased j i => exact hchange (.release i) j

end Ports

theorem Reachable.portsDistinct {cfg : Config} {s : State} (h : Reachable cfg s) :
    PortsDistinct s.tables := by
  have hwhen : ReachableWhen cfg anyStep s := h.to_restrict (fun _ _ => trivial)
  refine hwhen.tables_invariant (fun j k hj => absurd rfl hj) ?_
  intro s l u _ _ hstep hI
  cases hstep with
  | denied => exact hI
  | joined i node _ _ _ hu => exact hI.emptied (fun k _ => by rw [hu.clntList])
  | packet hstep => exact hI.packet hstep
  | health hu => exact hI.emptied (fun k _ => by rw [hu.clntList])
  | closed t i _ _ ht hu =>
    refine hI.emptied (fun k hk => ?_)
    rw [Tables.occupied, hu.clntList] at hk
    rw [hu.clntList]
    split_ifs at hk ⊢
    · exact absurd rfl hk
    · rw [ht.clntList]

/-- A packet that has its two ports, neither of them 0. -/
structure CarriesPorts (r : Received bufSize) : Prop where
  complete : 24 ≤ r.bytes.length
  source_ne : tcpSource (recvInto (fun _ => 0) (some r)) ≠ 0
  dest_ne : tcpDest (recvInto (fun _ => 0) (some r)) ≠ 0

section Buffer
variable {cfg : Config} {t u : Tables} {b b' buf : Mem} {length : Int} {now : BitVec 32}
  {minIndex : Int} {out : List Output} {x : LoopExit} {r : Received bufSize}

theorem recv_endpoints (h : 24 ≤ r.bytes.length) :
    endpoints (recvInto (fun _ => 0) (some r)) = endpoints (recvInto buf (some r)) :=
  endpoints_agree recv_agree (fun k hk => show k < r.bytes.length by omega)

theorem CarriesPorts.source (h : CarriesPorts r) : tcpSource (recvInto buf (some r)) ≠ 0 := by
  rw [← tcpSource_congr (recv_endpoints h.complete)]
  exact h.source_ne

theorem CarriesPorts.dest (h : CarriesPorts r) : tcpDest (recvInto buf (some r)) ≠ 0 := by
  rw [← tcpDest_congr (recv_endpoints h.complete)]
  exact h.dest_ne

theorem PacketStep.buf_frame (h : PacketStep cfg t b length now minIndex u b' out x) {k : Nat}
    (hk : ¬Rewritten k) : b' k = b k := by
  cases h with
  | ignored => rfl
  | unknown => rfl
  | admitted _ _ _ _ _ _ _ _ _ _ _ hnat => exact nat_frame hnat hk
  | forwarded _ _ _ _ _ _ _ _ hnat => exact nat_frame hnat hk
  | released _ _ _ _ _ _ _ _ _ hnat => exact nat_frame hnat hk
  | relayed _ _ _ _ _ _ hnat => exact nat_frame hnat hk
  | relayReleased _ _ _ _ _ _ _ _ _ hnat => exact nat_frame hnat hk

/-- The second copy restores the bytes that `nat` rewrote, up to the TCP checksum. -/
theorem PacketStep.buf_again (h : PacketStep cfg t (recvInto buf (some r)) length now minIndex u
      b' out x) (hn : 24 ≤ r.bytes.length) :
    AgreeOn (· < 36) (recvInto buf (some r)) (recvInto b' (some r)) := by
  intro k hk
  by_cases hlow : k < r.bytes.length
  · exact recv_agree k hlow
  · have hout : k < 0 ∨ 0 + r.bytes.length ≤ k := by omega
    have hkept : ¬Rewritten k := by omega
    exact (h.buf_frame hkept).symm.trans (store_of_outside hout).symm

end Buffer

section Again
variable {cfg : Config} {t u : Tables} {b b' : Mem} {dir : Direction} {i : Fin maxServCnt}
  {j : Fin maxClntCnt} {type : TcpType}

abbrev Releasing (dir : Direction) (type : TcpType) (flag : Int) : Prop :=
  dir = .clnt2serv ∧ type = .ack ∧ flag = 1

theorem segmentChange_keep {flag : Int} (hfin : type ≠ .fin) (hno : ¬Releasing dir type flag) :
    segmentChange dir type flag i = .keep := by
  rw [segmentChange, if_neg hfin, if_neg hno]

theorem segmentChange_again (hno : ¬Releasing dir type (t.forwardingTable j).2)
    (hu : u = (segmentChange dir type (t.forwardingTable j).2 i).apply t j) :
    (segmentChange dir type (u.forwardingTable j).2 i).apply u j = u := by
  by_cases hfin : type = .fin
  · subst hfin
    have hmark : u = markFin t j := hu
    have hflag : (u.forwardingTable j).2 = 1 := by rw [hmark, markFin_flag, if_pos rfl]
    exact markFin_marked hflag
  · have hsame : u = t := by
      rw [segmentChange_keep hfin hno] at hu
      exact hu
    rw [hsame, segmentChange_keep hfin hno]
    rfl

theorem SegmentOf.again (h : SegmentOf cfg t b dir i j) (hends : endpoints b = endpoints b')
    (hno : ¬Releasing dir type (t.forwardingTable j).2)
    (hu : u = (segmentChange dir type (t.forwardingTable j).2 i).apply t j) :
    SegmentOf cfg u b' dir i j := by
  have hlist : u.clntList = t.clntList ∧
      ((u.forwardingTable j).2 = 1 ∨ (u.forwardingTable j).2 = (t.forwardingTable j).2) := by
    by_cases hfin : type = .fin
    · subst hfin
      have hmark : u = markFin t j := hu
      exact ⟨by rw [hmark]; rfl, .inl (by rw [hmark, markFin_flag, if_pos rfl])⟩
    · rw [segmentChange_keep hfin hno] at hu
      exact ⟨by rw [hu]; rfl, .inr (by rw [hu]; rfl)⟩
  obtain ⟨hlist, hflag⟩ := hlist
  constructor
  case dir_eq =>
    rw [hlist, ← checkIpAndPort_congr hends]
    exact h.dir_eq
  case servCnt_ne =>
    rw [hu, Change.apply_servCnt]
    exact h.servCnt_ne
  case found =>
    have hfound := h.found
    cases dir with
    | clnt2serv =>
      rw [findSlot, hlist, ← findPort_congr hends]
      exact hfound
    | serv2clnt =>
      rw [findSlot, hlist, ← findPseudoPort_congr hends]
      exact hfound
  case assigned =>
    rw [Tables.assigned, hu, Change.pair_serv]
    exact h.assigned
  case flag_ne =>
    have hne := h.flag_ne
    omega

theorem findPort_released (hdistinct : PortsDistinct t) (hport : findPort t.clntList b = some j)
    (hsrc : tcpSource b ≠ 0) :
    findPort (releaseClnt t i j).clntList b = none := by
  refine firstSlot_eq_none.mpr (fun k => decide_eq_false (fun hk => ?_))
  have hne : (tcpSource b).toNat ≠ 0 := fun h => hsrc (BitVec.eq_of_toNat_eq h)
  by_cases hkj : k = j
  · subst hkj
    rw [releaseClnt_clntList, Function.update_self] at hk
    have hzero : ClntListNode.zero.port = 0 := rfl
    omega
  · rw [releaseClnt_clntList, Function.update_of_ne hkj] at hk
    have hj := findPort_some hport
    refine hkj (hdistinct k j ?_ (findPort_occupied hport hsrc) (hk.trans hj.symm))
    rw [Tables.occupied]
    omega

theorem checkIpAndPort_client {clntList : Fin maxClntCnt → ClntListNode} {lbaddr : SockaddrIn} :
    checkIpAndPort clntList b lbaddr = some .clnt2serv ↔
      ipDaddr b = lbaddr.addr ∧ tcpDest b = lbaddr.port := by
  unfold checkIpAndPort
  split_ifs with hclient hdaddr
  · exact ⟨fun _ => hclient, fun _ => rfl⟩
  · refine ⟨fun h => ?_, fun h => absurd h hclient⟩
    split at h <;> cases h
  · exact ⟨False.elim, fun h => absurd h hclient⟩

theorem segment_or_admission (hs : t.Sound) (hsrc : tcpSource b ≠ 0) (hdst : tcpDest b ≠ 0)
    (h : ¬Dropped cfg t b) : (∃ dir i j, SegmentOf cfg t b dir i j) ∨
      (fromClient cfg t b ∧ findPort t.clntList b = none ∧ checkType b = .syn ∧
        t.clntCnt ≠ maxClntCnt) := by
  rcases not_dropped h with ⟨hserver, j, hj⟩ | ⟨hclient, j, hj⟩ | hadm
  · obtain ⟨⟨i, hi⟩, _⟩ := hs.pair_occupied j (hs.findPseudoPort_occupied hj hdst)
    exact .inl ⟨.serv2clnt, i, j, hserver.1, hserver.2, hj, hi, hs.flag_ne_of_assigned hi⟩
  · obtain ⟨⟨i, hi⟩, _⟩ := hs.pair_occupied j (findPort_occupied hj hsrc)
    exact .inl ⟨.clnt2serv, i, j, hclient.1, hclient.2, hj, hi, hs.flag_ne_of_assigned hi⟩
  · exact .inr hadm

theorem admitted_segment {now : BitVec 32} {recent : Int} (hclient : fromClient cfg t b)
    (hport : findPort t.clntList b = none) :
    SegmentOf cfg (admitTables cfg t b now j i recent) b .clnt2serv i j := by
  have hpair : (admitTables cfg t b now j i recent).forwardingTable j = ((i : Int), 2) := by
    rw [admitTables_forwarding, Function.update_self]
  refine ⟨checkIpAndPort_client.mpr (checkIpAndPort_client.mp hclient.1), hclient.2, ?_, ?_, ?_⟩
  · refine firstSlot_of_unique ?_ (fun k hk => ?_)
    · rw [admitTables_clntList, Function.update_self]
      exact decide_eq_true rfl
    · by_contra hkj
      rw [admitTables_clntList, Function.update_of_ne hkj] at hk
      exact findPort_none hport k (of_decide_eq_true hk)
  · rw [Tables.assigned, hpair]
  · rw [hpair]
    exact show (2 : Int) ≠ -1 by decide

end Again

section Repeated
variable {cfg : Config} {t u : Tables} {b b' : Mem} {dir : Direction} {i : Fin maxServCnt}
  {j : Fin maxClntCnt} {type : TcpType} {s : State} {r : Received bufSize} {now : BitVec 32}
  {minIndex : Int}

/-- The packet is handled, and the tables stay as they are. -/
def Repeats (cfg : Config) (s : State) (r : Received bufSize) (now : BitVec 32) (minIndex : Int) :
    Prop :=
  ∃ s' out x, packet cfg s (some r) now minIndex = .ok (s', out, x) ∧ s'.tables = s.tables

theorem SegmentOf.repeats (h : SegmentOf cfg t b dir i j)
    (hends : endpoints b = endpoints (recvInto s.buf (some r)))
    (htype : type = checkType (recvInto s.buf (some r)))
    (hfits : SegmentFits (recvInto s.buf (some r)))
    (hno : ¬Releasing dir type (t.forwardingTable j).2)
    (hu : s.tables = (segmentChange dir type (t.forwardingTable j).2 i).apply t j) :
    Repeats cfg s r now minIndex := by
  obtain ⟨s', out, x, hrun, ht, _⟩ := (h.again hends hno hu).handled hfits
  refine ⟨s', out, x, hrun, ?_⟩
  rw [ht, ← htype]
  exact segmentChange_again hno hu

/-- A segment that released its slot is dropped next time: no slot has the port any more. -/
theorem SegmentOf.released_dropped (h : SegmentOf cfg t b .clnt2serv i j)
    (hdistinct : PortsDistinct t) (hsrc : tcpSource b ≠ 0) (hack : checkType b = .ack)
    (hu : u = releaseClnt t i j) (hends : endpoints b = endpoints b')
    (htype : checkType b = checkType b') : Dropped cfg u b' := by
  refine Dropped.congr ⟨fun hserver => ?_, fun _ => ⟨?_, .inl ?_⟩⟩ hends (fun _ => htype)
  · have haddr := checkIpAndPort_client.mp h.dir_eq
    cases hserver.1.symm.trans (checkIpAndPort_client.mpr haddr)
  · rw [hu]
    exact findPort_released hdistinct h.found hsrc
  · rw [hack]
    decide

end Repeated

/-- The second copy of a packet that was handled is handled too, and leaves the tables as the
first one left them. -/
theorem duplicate_idempotent {cfg : Config} {s s' : State} {r : Received bufSize}
    {now now' : BitVec 32} {minIndex minIndex' : Int} {out : List Output} {x : LoopExit}
    (h : Reachable cfg s) (hr : CarriesPorts r)
    (hfirst : packet cfg s (some r) now minIndex = .ok (s', out, x)) :
    ∃ s'' out' x', packet cfg s' (some r) now' minIndex' = .ok (s'', out', x') ∧
      s''.tables = s'.tables := by
  have hs := h.sound.tables
  have hstep := (packet_ok hfirst).1
  have hagree := hstep.buf_again hr.complete
  have hends := endpoints_agree hagree (fun k hk => by omega)
  have htype : checkType (recvInto s.buf (some r)) = checkType (recvInto s'.buf (some r)) :=
    checkType_congr (hagree 33 (by decide))
  have hlen := tcpLen_agree hagree (fun k hk => by omega)
  by_cases hdrop : Dropped cfg s.tables (recvInto s.buf (some r))
  · refine ⟨_, _, _, packet_dropped ?_, rfl⟩
    rw [(hstep.dropped hdrop).1]
    exact hdrop.congr hends (fun _ => htype)
  obtain ⟨_, hfits, _⟩ := hstep.sends hs hdrop
  have hfits' : SegmentFits (recvInto s'.buf (some r)) := by
    rw [SegmentFits, ← hlen]
    exact hfits
  rcases segment_or_admission hs hr.source hr.dest hdrop with ⟨dir, i, j, hseg⟩ |
    ⟨hclient, hport, hsyn, hcnt⟩
  · obtain ⟨s₁, out₁, x₁, hrun, ht, _⟩ := hseg.handled hfits
    obtain ⟨rfl, _⟩ := Prod.mk.inj (Except.ok.inj (hrun.symm.trans hfirst))
    by_cases hrel : Releasing dir (checkType (recvInto s.buf (some r)))
        (s.tables.forwardingTable j).2
    · obtain ⟨rfl, hack, hflag⟩ := hrel
      have hu : s₁.tables = releaseClnt s.tables i j := by
        rw [ht, hack, hflag]
        rfl
      exact ⟨_, _, _, packet_dropped
        (hseg.released_dropped h.portsDistinct hr.source hack hu hends htype), rfl⟩
    · exact hseg.repeats hends htype hfits' hrel ht
  · obtain ⟨j, i, recent, _, _, _, ht, _⟩ := hstep.admission hclient hport hsyn hcnt
    refine (admitted_segment hclient hport).repeats hends (hsyn.symm.trans htype) hfits'
      (fun hrel => ?_) ht
    exact TcpType.noConfusion hrel.2.1

theorem duplicate_syn : ∃ s' s'' out' x',
    packet demoConfig s' (some (tcpPacket 0x0900000a 0x0100000a 0x409c 0x5000 synFlag)) 1 0 =
      .ok (s'', out', x') ∧ s'.tables.clntCnt = 1 ∧ s''.tables = s'.tables := by
  obtain ⟨s, hrun, htest⟩ := @executes_of_endsIn demoConfig anyStep _
    (fun s => (nextStep demoConfig anyStep s (demoClient synFlag)).any fun (r : Step × State) =>
      decide (r.2.tables.clntCnt = 1)) demoStart [demoJoin] (by decide +kernel)
  obtain ⟨⟨e, out, x⟩, s', rfl, ⟨_, hpkt⟩, htest⟩ := nextStep_any htest
  have hcnt : s'.tables.clntCnt = 1 := of_decide_eq_true htest
  have hports : CarriesPorts (tcpPacket 0x0900000a 0x0100000a 0x409c 0x5000 synFlag) :=
    ⟨by decide, by decide, by decide⟩
  obtain ⟨s'', out', x', hagain, ht⟩ :=
    @duplicate_idempotent demoConfig s s' _ 0 1 0 0 out x hrun.reachable.reachable hports hpkt
  exact ⟨s', s'', out', x', hagain, hcnt, ht⟩

end LoadBalancer
