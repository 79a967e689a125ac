import IotLab.LoadBalancer.Counters
import IotLab.LoadBalancer.Rewrite

set_option autoImplicit false

namespace LoadBalancer
open SlotTable HostMemory

/-- The handler completes, and every rewrite towards a server is done with a live one. -/
def IndexSafe (cfg : Config) (s : State) (received : Option (Received bufSize))
    (now : BitVec 32) (minIndex : Int) : Prop :=
  ∃ s' out x, packet cfg s received now minIndex = .ok (s', out, x) ∧
    ∀ call, .sent call ∈ out → call.dir = .clnt2serv → s.tables.namesLive call.destId

/-- A packet of a known client finds a live server in the pair of its slot. -/
abbrev KnownSafe (cfg : Config) (t : Tables) (b : Mem) : Prop :=
  fromClient cfg t b →
    ∀ j ∈ findPort t.clntList b, t.namesLive (t.forwardingTable j).1

/-- A new client finds a free slot, and a server is selected for it. -/
abbrev AdmissionSafe (cfg : Config) (t : Tables) (b : Mem) (minIndex : Int) : Prop :=
  fromClient cfg t b → findPort t.clntList b = none → checkType b = .syn →
    t.clntCnt ≠ maxClntCnt →
    (∃ j, ¬t.occupied j) ∧ (UsagesMaxed cfg t → t.namesLive minIndex)

/-- An ACK to a pseudo port does not find the flag -1 of a slot that is assigned to no
server. -/
abbrev ReplySafe (cfg : Config) (t : Tables) (b : Mem) : Prop :=
  fromServer cfg t b →
    ∀ j ∈ findPseudoPort t.clntList b, ¬(checkType b = .ack ∧ (t.forwardingTable j).2 = -1)

structure IndexesGood (cfg : Config) (t : Tables) (b : Mem) (minIndex : Int) : Prop where
  known : KnownSafe cfg t b
  admission : AdmissionSafe cfg t b minIndex
  reply : ReplySafe cfg t b

structure IndexesInBounds (cfg : Config) (t : Tables) (b : Mem) (minIndex : Int) : Prop where
  known : fromClient cfg t b → ∀ j ∈ findPort t.clntList b, ∃ i, t.assigned i j
  admission : fromClient cfg t b → findPort t.clntList b = none → checkType b = .syn →
    t.clntCnt ≠ maxClntCnt →
    (∃ j, ¬t.occupied j) ∧ (UsagesMaxed cfg t → ∃ i : Fin maxServCnt, minIndex = i.val)
  reply : ReplySafe cfg t b

theorem IndexesGood.inBounds {cfg : Config} {t : Tables} {b : Mem} {minIndex : Int}
    (h : IndexesGood cfg t b minIndex) : IndexesInBounds cfg t b minIndex := by
  refine ⟨fun hdir j hj => ?_, fun hdir hport htype hcnt => ?_, h.reply⟩
  · obtain ⟨i, hi, _⟩ := h.known hdir j hj
    exact ⟨i, hi⟩
  · obtain ⟨hfree, hset⟩ := h.admission hdir hport htype hcnt
    refine ⟨hfree, fun hmax => ?_⟩
    obtain ⟨i, hi, _⟩ := hset hmax
    exact ⟨i, hi⟩

/-- While the counters are lawful, a packet with non-zero ports has good indexes unless
`min_index` is used unset. -/
theorem CountersLaw.indexesGood {cfg : Config} {t : Tables} {b : Mem} {minIndex : Int}
    (h : CountersLaw t) (hs : t.Sound) (hsrc : tcpSource b ≠ 0) (hdst : tcpDest b ≠ 0)
    (hset : UsagesMaxed cfg t → t.namesLive minIndex) : IndexesGood cfg t b minIndex := by
  obtain ⟨hagree, hpairs⟩ := h
  refine ⟨fun _ j hj => ?_, fun _ _ _ hcnt => ⟨?_, hset⟩, fun _ j hj hrel => ?_⟩
  · obtain ⟨i, hi, hlive⟩ := hpairs j (findPort_occupied hj hsrc)
    exact ⟨i, hi, hlive⟩
  · have hmax : t.occupiedCount < maxClntCnt := by
      have heq := hagree.clntCnt_eq
      have hle := hagree.clntCnt_le
      omega
    exact exists_not_of_count_lt hmax
  · have hflag := (hs.pair_occupied j (hs.findPseudoPort_occupied hj hdst)).2
    omega

section Total
variable {cfg : Config} {t : Tables} {b : Mem} {length : Int} {now : BitVec 32}
  {minIndex : Int}

theorem forward_total (hfits : SegmentFits b) {type : TcpType} {j : Fin maxClntCnt}
    {i : Fin maxServCnt} (hassigned : t.assigned i j) :
    ∃ r, forward cfg t b length type j = .ok r := by
  obtain ⟨b', hnat⟩ := @nat_clnt2serv_total t b cfg.lbaddr j hfits i
  have hassigned : (t.forwardingTable j).1 = i.val := hassigned
  simp only [forward, clntAt_coe, servAt_coe, hassigned, hnat, bind, Except.bind]
  split <;> exact ⟨_, rfl⟩

theorem admit_total (h : t.Sound) (hserv : t.servCnt ≠ 0) {j : Fin maxClntCnt}
    (hfree : firstSlot (fun j => (t.clntList j).port = 0) = some j)
    (hset : UsagesMaxed cfg t → ∃ i : Fin maxServCnt, minIndex = i.val) :
    ∃ (i : Fin maxServCnt) (recent : Int), admitClnt cfg t b now minIndex =
      .ok (admitTables cfg t b now j i recent, (j.val : Int), [.newClient j i.val]) := by
  have hj : ¬t.occupied j := firstFree_free hfree
  have hcnt : (addNewClnt cfg t j b now).servCnt = (addNewClnt cfg t j b now).liveCount :=
    h.servCnt_eq
  obtain ⟨id, recent, hsel, _, _, hcase⟩ := @selectServ_spec cfg.selectedAlgo
    (addNewClnt cfg t j b now) minIndex hcnt hserv h.recent_nonneg h.recent_lt
  have hid : ∃ i : Fin maxServCnt, id = i.val := by
    rcases hcase with ⟨i, hi, _⟩ | ⟨hi, hunset⟩
    · exact ⟨i, hi⟩
    · obtain ⟨i, hmin⟩ := hset (selectsUnset_maxed h hserv hj hunset)
      exact ⟨i, hi.trans hmin⟩
  obtain ⟨i, rfl⟩ := hid
  refine ⟨i, recent, ?_⟩
  unfold admitClnt
  rw [hfree]
  simp only [hsel, servAt_coe, bind, Except.bind]
  rfl

theorem clnt2serv_known_total (hfits : SegmentFits b) {j : Fin maxClntCnt} {i : Fin maxServCnt}
    (hport : findPort t.clntList b = some j) (hassigned : t.assigned i j) :
    ∃ r, clnt2serv cfg t b length now minIndex = .ok r := by
  unfold clnt2serv
  rw [hport]
  dsimp only
  refine forward_total (i := i) hfits ?_
  split
  · rw [Tables.assigned, markFin_serv]; exact hassigned
  · exact hassigned

theorem clnt2serv_total (h : t.Sound) (hfits : SegmentFits b) (hdir : fromClient cfg t b)
    (hin : IndexesInBounds cfg t b minIndex) :
    ∃ r, clnt2serv cfg t b length now minIndex = .ok r := by
  cases hp : findPort t.clntList b with
  | some j =>
    obtain ⟨i, hi⟩ := hin.known hdir j hp
    exact clnt2serv_known_total hfits hp hi
  | none =>
    unfold clnt2serv
    rw [hp]
    dsimp only
    split
    · exact ⟨_, rfl⟩
    · rename_i hsyn
      obtain ⟨htype, hcnt⟩ := not_or.mp hsyn
      rw [not_not] at htype
      obtain ⟨⟨k, hk⟩, hset⟩ := hin.admission hdir hp htype hcnt
      cases hfree : firstSlot (fun j => (t.clntList j).port = 0) with
      | none =>
        have := firstSlot_eq_none.mp hfree k
        exact absurd (by simpa using this) hk
      | some j =>
        obtain ⟨i, recent, hadm⟩ := @admit_total cfg t b now minIndex h hdir.2 j hfree hset
        have hassigned : (admitTables cfg t b now j i recent).assigned i j := by
          simp [Tables.assigned, admitTables_forwarding]
        obtain ⟨r, hr⟩ := @forward_total cfg _ b length hfits (checkType b) j i hassigned
        simp only [hadm, hr, bind, Except.bind]
        exact ⟨_, rfl⟩

theorem serv2clnt_total (hfits : SegmentFits b) (hdir : fromServer cfg t b)
    (hreply : ReplySafe cfg t b) : ∃ r, serv2clnt cfg t b length = .ok r := by
  unfold serv2clnt
  cases hp : findPseudoPort t.clntList b with
  | none =>
    have hc := hdir.1
    simp only [checkIpAndPort, hp] at hc
    split at hc
    · simp at hc
    · split at hc <;> simp at hc
  | some j =>
    have hne := hreply hdir j hp
    obtain ⟨b', hnat⟩ := @nat_serv2clnt_total t b cfg.lbaddr j hfits (t.forwardingTable j).1
    by_cases hfin : checkType b = .fin
    · simp [hfin, hnat, bind, Except.bind]
    · simp only [hfin, if_false, hnat, hne, bind, Except.bind]
      exact ⟨_, rfl⟩

end Total

theorem packet_total {cfg : Config} {s : State} {received : Option (Received bufSize)}
    {now : BitVec 32} {minIndex : Int} (h : s.tables.Sound)
    (hfits : SegmentFits (recvInto s.buf received))
    (hin : IndexesInBounds cfg s.tables (recvInto s.buf received) minIndex) :
    ∃ s' out x, packet cfg s received now minIndex = .ok (s', out, x) := by
  unfold packet
  cases hdir : checkIpAndPort s.tables.clntList (recvInto s.buf received) cfg.lbaddr with
  | none =>
    simp only [hdir]
    exact ⟨_, _, _, rfl⟩
  | some dir =>
    simp only [hdir]
    split
    · exact ⟨_, _, _, rfl⟩
    · rename_i hserv
      cases dir with
      | clnt2serv =>
        obtain ⟨r, hr⟩ := @clnt2serv_total cfg s.tables (recvInto s.buf received)
          (recvLength received) now minIndex h hfits ⟨hdir, hserv⟩ hin
        simp only [hr, bind, Except.bind]
        exact ⟨_, _, _, rfl⟩
      | serv2clnt =>
        obtain ⟨r, hr⟩ := @serv2clnt_total cfg s.tables (recvInto s.buf received)
          (recvLength received) hfits ⟨hdir, hserv⟩ hin.reply
        simp only [hr, bind, Except.bind]
        exact ⟨_, _, _, rfl⟩

theorem PacketStep.sent_live {cfg : Config} {t t' : Tables} {b b' : Mem} {length : Int}
    {now : BitVec 32} {minIndex : Int} {out : List Output} {x : LoopExit} (h : t.Sound)
    (hgood : IndexesGood cfg t b minIndex)
    (hstep : PacketStep cfg t b length now minIndex t' b' out x) (call : Sent)
    (hcall : .sent call ∈ out) (hdir : call.dir = .clnt2serv) : t.namesLive call.destId := by
  cases hstep with
  | ignored => simp at hcall
  | unknown => simp at hcall
  | admitted j i recent _ hc hserv hport htype hcnt hfree hsel _ =>
    have hset := (hgood.admission ⟨hc, hserv⟩ hport htype hcnt).2
    obtain rfl := List.mem_singleton.mp (mem_sentCalls.mpr hcall)
    exact ⟨i, rfl, admitted_live h hserv hfree hsel hset⟩
  | forwarded j i _ hc hserv hport hassigned _ _ =>
    obtain rfl := List.mem_singleton.mp (mem_sentCalls.mpr hcall)
    have hlive := hgood.known ⟨hc, hserv⟩ j hport
    rwa [hassigned] at hlive
  | released j i _ hc hserv hport hassigned _ _ _ =>
    obtain rfl := List.mem_singleton.mp (mem_sentCalls.mpr hcall)
    have hlive := hgood.known ⟨hc, hserv⟩ j hport
    rwa [hassigned] at hlive
  | relayed =>
    obtain rfl := List.mem_singleton.mp (mem_sentCalls.mpr hcall)
    cases hdir
  | relayReleased =>
    obtain rfl := List.mem_singleton.mp (mem_sentCalls.mpr hcall)
    cases hdir

theorem IndexesGood.of_known {cfg : Config} {t : Tables} {b : Mem} {minIndex : Int}
    {j : Fin maxClntCnt} (hc : checkIpAndPort t.clntList b cfg.lbaddr = some .clnt2serv)
    (hport : findPort t.clntList b = some j) (hlive : t.namesLive (t.forwardingTable j).1) :
    IndexesGood cfg t b minIndex := by
  refine ⟨fun _ k hk => ?_, fun _ hnone => ?_, fun hdir => ?_⟩
  · have hkj : k = j := Option.some.inj (hk.symm.trans hport)
    subst hkj
    exact hlive
  · cases hport.symm.trans hnone
  · cases hc.symm.trans hdir.1

theorem PacketStep.indexesGood {cfg : Config} {t t' : Tables} {b b' : Mem} {length : Int}
    {now : BitVec 32} {minIndex : Int} {out : List Output} {x : LoopExit} (h : t.Sound)
    (hlive : ∀ call, .sent call ∈ out → call.dir = .clnt2serv → t.namesLive call.destId)
    (hstep : PacketStep cfg t b length now minIndex t' b' out x) :
    IndexesGood cfg t b minIndex := by
  cases hstep with
  | ignored hno =>
    have hnone (dir : Direction)
        (hdir : checkIpAndPort t.clntList b cfg.lbaddr = some dir ∧ t.servCnt ≠ 0) : False := by
      rcases hno with hno | hno
      · cases hno.symm.trans hdir.1
      · exact hdir.2 hno
    exact ⟨fun hdir => (hnone _ hdir).elim, fun hdir => (hnone _ hdir).elim,
      fun hdir => (hnone _ hdir).elim⟩
  | unknown hc hserv hport hdrop =>
    refine ⟨fun _ k hk => ?_, fun _ _ htype hcnt => ?_, fun hdir => ?_⟩
    · cases hport.symm.trans hk
    · rcases hdrop with hne | hmax
      · exact absurd htype hne
      · exact absurd hmax hcnt
    · cases hc.symm.trans hdir.1
  | admitted j i recent _ hc hserv hport htype hcnt hfree hsel _ =>
    refine ⟨fun _ k hk => ?_, fun _ _ _ _ => ⟨⟨j, ?_⟩, fun hmax => ?_⟩, fun hdir => ?_⟩
    · cases hport.symm.trans hk
    · exact firstFree_free hfree
    · have hid := @selectServ_unset cfg.selectedAlgo (addNewClnt cfg t j b now) minIndex i
        recent h.servCnt_eq hserv ?_ hsel
      · rw [← hid]
        exact hlive _ (List.mem_cons_of_mem _ (List.mem_cons_self ..)) rfl
      · rw [hmax.1]
        exact hmax.2
    · cases hc.symm.trans hdir.1
  | forwarded j i _ hc hserv hport hassigned _ _ =>
    refine .of_known hc hport ?_
    rw [hassigned]
    exact hlive _ (List.mem_cons_self ..) rfl
  | released j i _ hc hserv hport hassigned _ _ _ =>
    refine .of_known hc hport ?_
    rw [hassigned]
    exact hlive _ (List.mem_cons_self ..) rfl
  | relayed j _ hc hserv hport hne _ =>
    refine ⟨fun hdir => ?_, fun hdir => ?_, fun _ k hk => ?_⟩
    · cases hc.symm.trans hdir.1
    · cases hc.symm.trans hdir.1
    · have hkj : k = j := Option.some.inj (hk.symm.trans hport)
      subst hkj
      exact hne
  | relayReleased j i _ _ _ _ hassigned _ hflag _ =>
    exact absurd hflag (h.flag_ne_of_assigned hassigned)

/-- In a reachable state the handler is index-safe exactly on good indexes. -/
theorem index_safe_iff {cfg : Config} {s : State} {received : Option (Received bufSize)}
    {now : BitVec 32} {minIndex : Int} (h : Reachable cfg s)
    (htcp : TcpPacket (recvInto s.buf received)) :
    IndexSafe cfg s received now minIndex ↔
      IndexesGood cfg s.tables (recvInto s.buf received) minIndex := by
  have hs := h.sound.tables
  constructor
  · rintro ⟨s', out, x, hrun, hlive⟩
    exact (packet_ok hrun).1.indexesGood hs hlive
  · intro hgood
    obtain ⟨s', out, x, hrun⟩ := @packet_total cfg s received now minIndex hs htcp.fits
      hgood.inBounds
    exact ⟨s', out, x, hrun, (packet_ok hrun).1.sent_live hs hgood⟩

theorem index_safe_demo : ∃ s received, Reachable demoConfig s ∧
    TcpPacket (recvInto s.buf received) ∧ IndexSafe demoConfig s received 0 0 := by
  let received := some (tcpPacket 0x0900000a 0x0100000a 0x409c 0x5000 synFlag)
  obtain ⟨s, hrun, htest⟩ := @executes_of_endsIn demoConfig anyStep _
    (fun s =>
      let b := recvInto s.buf received
      TcpPacket b ∧ KnownSafe demoConfig s.tables b ∧
        checkIpAndPort s.tables.clntList b demoConfig.lbaddr = some .clnt2serv ∧
        ¬s.tables.occupied 0 ∧ ¬UsagesMaxed demoConfig s.tables) demoStart [demoJoin]
    (by decide +kernel)
  obtain ⟨htcp, hknown, hdir, hfree, hset⟩ := of_decide_eq_true htest
  have hgood : IndexesGood demoConfig s.tables (recvInto s.buf received) 0 := by
    refine ⟨hknown, fun _ _ _ _ => ⟨⟨0, hfree⟩, fun hmax => absurd hmax hset⟩, fun h => ?_⟩
    cases hdir.symm.trans h.1
  exact ⟨s, received, hrun.reachable.reachable, htcp,
    (index_safe_iff hrun.reachable.reachable htcp).mpr hgood⟩

/-- A packet from source port 0 matches the free slot 0, whose server index is -1. -/
theorem port_zero_out_of_bounds : ∃ s, Executes demoConfig anyStep demoStart [demoJoin] s ∧
    let received := some (tcpPacket 0x0900000a 0x0100000a 0 0x5000 synFlag)
    TcpPacket (recvInto s.buf received) ∧
    packet demoConfig s received 0 0 = .error .outOfBounds ∧
    ¬IndexSafe demoConfig s received 0 0 := by
  let received := some (tcpPacket 0x0900000a 0x0100000a 0 0x5000 synFlag)
  obtain ⟨s, hrun, htest⟩ := @executes_of_endsIn demoConfig anyStep _
    (fun s => decide (TcpPacket (recvInto s.buf received)) &&
      faults .outOfBounds (packet demoConfig s received 0 0)) demoStart [demoJoin]
    (by decide +kernel)
  rw [Bool.and_eq_true, decide_eq_true_eq, faults_iff] at htest
  refine ⟨s, hrun, htest.1, htest.2, ?_⟩
  rintro ⟨s', out, x, hok, _⟩
  cases htest.2.symm.trans hok

end LoadBalancer
