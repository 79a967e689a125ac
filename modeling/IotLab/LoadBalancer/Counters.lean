import IotLab.LoadBalancer.Execution

set_option autoImplicit false

namespace LoadBalancer
open SlotTable HostMemory

abbrev UsagesMaxed (cfg : Config) (t : Tables) : Prop :=
  cfg.selectedAlgo = .resourceBased ∧ ∀ i, t.live i → intMax ≤ (t.servList i).resourceUsage

theorem exists_live {t : Tables} (h : t.Sound) (hserv : t.servCnt ≠ 0) : ∃ i, t.live i := by
  have hcnt := h.servCnt_eq
  unfold Tables.liveCount at hcnt
  exact count_pos.mp (by omega)

theorem occupiedCount_congr (t u : Tables)
    (h : ∀ j, (u.clntList j).port = (t.clntList j).port) : u.occupiedCount = t.occupiedCount :=
  count_congr (fun j => by rw [Tables.occupied, Tables.occupied, h j])

theorem load_le_occupied (t : Tables) (i : Fin maxServCnt) : t.load i ≤ t.occupiedCount :=
  count_mono (fun _ h => h.1)

/-- While a client slot is free, only RESOURCE_BASED can leave `min_index` unset. -/
theorem selectsUnset_maxed {cfg : Config} {t : Tables} {j : Fin maxClntCnt} (h : t.Sound)
    (hserv : t.servCnt ≠ 0) (hj : ¬t.occupied j)
    (hunset : SelectsUnset cfg.selectedAlgo t) : UsagesMaxed cfg t := by
  cases halgo : cfg.selectedAlgo with
  | rr => rw [halgo] at hunset; exact hunset.elim
  | leastConn =>
    rw [halgo] at hunset
    obtain ⟨i, hi⟩ := exists_live h hserv
    have hmax := hunset i hi
    have hle := h.clntCnt_le i
    have hload := load_le_occupied t i
    have hlt : t.occupiedCount < maxClntCnt := count_lt_of_not hj
    omega
  | resourceBased => rw [halgo] at hunset; exact ⟨halgo, hunset⟩

theorem admitted_live {cfg : Config} {t : Tables} {b : Mem} {now : BitVec 32}
    {j : Fin maxClntCnt} {i : Fin maxServCnt} {minIndex recent : Int} (h : t.Sound)
    (hserv : t.servCnt ≠ 0)
    (hfree : firstSlot (fun j => (t.clntList j).port = 0) = some j)
    (hsel : selectServ cfg.selectedAlgo (addNewClnt cfg t j b now) minIndex =
      .ok (i.val, recent)) (hset : UsagesMaxed cfg t → t.namesLive minIndex) : t.live i := by
  rcases (admitted_selects h hserv hsel).2.2 with hlive | ⟨hi, hunset⟩
  · exact hlive
  · have hj : ¬t.occupied j := firstFree_free hfree
    obtain ⟨k, hk, hlive⟩ := hset (selectsUnset_maxed h hserv hj hunset)
    have hik : i = k := Fin.ext (by omega)
    subst hik
    exact hlive

def Tables.PairsLive (t : Tables) : Prop :=
  ∀ j, t.occupied j → ∃ i, t.assigned i j ∧ t.live i

theorem Tables.PairsLive.keep {t u : Tables} (h : t.PairsLive)
    (hpair : ∀ j, u.occupied j → t.occupied j ∧
      (u.forwardingTable j).1 = (t.forwardingTable j).1)
    (hlive : ∀ i, t.live i → u.live i) : u.PairsLive := by
  intro j hj
  obtain ⟨ho, heq⟩ := hpair j hj
  obtain ⟨i, hi, hl⟩ := h j ho
  exact ⟨i, heq.trans hi, hlive i hl⟩

structure CountersAgree (t : Tables) : Prop where
  clntCnt_eq : t.clntCnt = t.occupiedCount
  clntCnt_nonneg : 0 ≤ t.clntCnt
  clntCnt_le : t.clntCnt ≤ maxClntCnt
  load_eq : ∀ i, t.live i → (t.servList i).clntCnt = t.load i

theorem CountersAgree.intro {t : Tables} (hcnt : t.clntCnt = t.occupiedCount)
    (hload : ∀ i, t.live i → (t.servList i).clntCnt = t.load i) : CountersAgree t := by
  have hle : t.occupiedCount ≤ maxClntCnt := count_le
  exact ⟨hcnt, by omega, by omega, hload⟩

/-- A selection for the packet in `b` is not left to an unset `min_index` that names no live
server. -/
abbrev SelectionSet (cfg : Config) (t : Tables) (b : Mem) (minIndex : Int) : Prop :=
  findPort t.clntList b = none → checkType b = .syn → t.clntCnt ≠ maxClntCnt →
    UsagesMaxed cfg t → t.namesLive minIndex

abbrev PacketCountsKept (cfg : Config) (t : Tables) (b : Mem) (minIndex : Int) : Prop :=
  fromClient cfg t b →
    (∀ j ∈ findPort t.clntList b, checkType b = .ack → (t.forwardingTable j).2 = 1 →
      t.occupied j) ∧
    SelectionSet cfg t b minIndex

/-- The steps that keep the counters. Of the server events, a hang-up must not find a free
slot that is still assigned to the server. -/
def CountsKept (cfg : Config) (s : State) : Event → Prop
  | .join _ _ _ => True
  | .packet received _ minIndex =>
    PacketCountsKept cfg s.tables (recvInto s.buf received) minIndex
  | .server fd _ ending _ => ending = .eof →
    ∀ i ∈ findServer s.tables fd, ∀ j, s.tables.assigned i j → s.tables.occupied j

instance (cfg : Config) (s : State) : DecidablePred (CountsKept cfg s)
  | .join _ _ _ => inferInstanceAs (Decidable True)
  | .packet received _ minIndex => inferInstanceAs
    (Decidable (PacketCountsKept cfg s.tables (recvInto s.buf received) minIndex))
  | .server fd _ ending _ => inferInstanceAs (Decidable (ending = .eof →
    ∀ i ∈ findServer s.tables fd, ∀ j, s.tables.assigned i j → s.tables.occupied j))

theorem PacketStep.pairsLive {cfg : Config} {t t' : Tables} {b b' : Mem} {length : Int}
    {now : BitVec 32} {minIndex : Int} {out : List Output} {x : LoopExit} (hs : t.Sound)
    (hstep : PacketStep cfg t b length now minIndex t' b' out x)
    (hset : fromClient cfg t b → SelectionSet cfg t b minIndex) (h : t.PairsLive) :
    t'.PairsLive := by
  have hlive (i : Fin maxServCnt) (hi : t.live i) : t'.live i := by
    rw [Tables.live, hstep.servList]
    exact hi
  cases hstep with
  | ignored => exact h
  | unknown => exact h
  | admitted j i recent _ hdir hserv hport htype hcnt hfree hsel _ =>
    intro k hk
    by_cases hkj : k = j
    · subst hkj
      refine ⟨i, by simp [Tables.assigned, admitTables_forwarding], hlive i ?_⟩
      exact admitted_live hs hserv hfree hsel (hset ⟨hdir, hserv⟩ hport htype hcnt)
    · rw [occupied_admitted (admitted_port_ne hport hfree)] at hk
      obtain ⟨m, hm, hl⟩ := h k (hk.resolve_left hkj)
      exact ⟨m, by simpa [Tables.assigned, admitTables_forwarding, hkj] using hm, hlive m hl⟩
  | forwarded j i _ _ _ _ _ _ _ =>
    exact h.keep (fun k hk => ⟨by simpa using hk, markIf_serv ..⟩) hlive
  | released j i _ _ _ _ _ _ _ _ =>
    exact h.keep (fun k hk => ⟨((occupied_release j k).mp hk).2, rfl⟩) hlive
  | relayed j _ _ _ _ _ _ =>
    exact h.keep (fun k hk => ⟨by simpa using hk, markIf_serv ..⟩) hlive
  | relayReleased j i _ _ _ _ hassigned _ hflag _ =>
    exact absurd hflag (hs.flag_ne_of_assigned hassigned)

section Packet
variable {cfg : Config} {t : Tables} {b : Mem} {i : Fin maxServCnt} {j : Fin maxClntCnt}

theorem CountersAgree.markFin (h : CountersAgree t) (j : Fin maxClntCnt) :
    CountersAgree (markFin t j) := by
  refine .intro h.clntCnt_eq (fun i hi => ?_)
  rw [load_congr t (LoadBalancer.markFin t j) (fun _ => rfl) (markFin_serv t j)]
  exact h.load_eq i hi

theorem CountersAgree.admitted (h : CountersAgree t) {now : BitVec 32} (recent : Int)
    (hj : ¬t.occupied j) (hsrc : (tcpSource b).toNat ≠ 0) :
    CountersAgree (admitTables cfg t b now j i recent) := by
  refine .intro ?_ (fun k hk => ?_)
  · have hgain : (admitTables cfg t b now j i recent).occupiedCount = t.occupiedCount + 1 :=
      count_gain hj ((occupied_admitted hsrc j).mpr (.inl rfl))
        (fun m hm => by rw [occupied_admitted hsrc]; simp [hm])
    rw [admitTables_clntCnt, hgain, h.clntCnt_eq]
    push_cast
    rfl
  · rw [Tables.live, admitTables_servList] at hk
    rw [load_admitted hj hsrc, admitTables_servList]
    simp only [h.load_eq k hk]
    split <;> push_cast <;> rfl

theorem CountersAgree.released (h : CountersAgree t) (hassigned : t.assigned i j)
    (hj : t.occupied j) : CountersAgree (releaseClnt t i j) := by
  refine .intro ?_ (fun k hk => ?_)
  · have hgain : t.occupiedCount = (releaseClnt t i j).occupiedCount + 1 :=
      count_gain (fun ho => ((occupied_release j j).mp ho).1 rfl) hj
        (fun m hm => by rw [occupied_release]; simp [hm])
    rw [releaseClnt_clntCnt, h.clntCnt_eq, hgain]
    push_cast
    omega
  · have hload := load_release hassigned k
    rw [Tables.live, releaseClnt_servList] at hk
    have hcnt := h.load_eq k hk
    rw [releaseClnt_servList]
    by_cases hki : k = i
    · rw [if_pos ⟨hki, hj⟩] at hload
      rw [if_pos hki, hcnt, hload]
      push_cast
      omega
    · rw [if_neg (fun hk' => hki hk'.1)] at hload
      rw [if_neg hki, hcnt, hload, Nat.add_zero, Int.add_zero]

theorem CountersAgree.packet {t' : Tables} {b' : Mem} {length : Int} {now : BitVec 32}
    {minIndex : Int} {out : List Output} {x : LoopExit} (hs : t.Sound)
    (hstep : PacketStep cfg t b length now minIndex t' b' out x)
    (hocc : fromClient cfg t b → ∀ j ∈ findPort t.clntList b, checkType b = .ack →
      (t.forwardingTable j).2 = 1 → t.occupied j) (h : CountersAgree t) :
    CountersAgree t' := by
  cases hstep with
  | ignored => exact h
  | unknown => exact h
  | admitted j i recent _ _ _ hport _ _ hfree _ _ =>
    exact h.admitted recent (firstFree_free hfree) (admitted_port_ne hport hfree)
  | forwarded j i _ _ _ _ _ _ _ =>
    split
    · exact h.markFin j
    · exact h
  | released j i _ hdir hserv hport hassigned htype hflag _ =>
    exact h.released hassigned (hocc ⟨hdir, hserv⟩ j hport htype hflag)
  | relayed j _ _ _ _ _ _ =>
    split
    · exact h.markFin j
    · exact h
  | relayReleased j i _ _ _ _ hassigned _ hflag _ =>
    exact absurd hflag (hs.flag_ne_of_assigned hassigned)

end Packet

section Servers
variable {t u : Tables} {i : Fin maxServCnt}

theorem CountersAgree.usage (h : CountersAgree t) (hu : SameButUsage t u) :
    CountersAgree u := by
  refine .intro ?_ (fun k hk => ?_)
  · rw [hu.clntCnt, h.clntCnt_eq]
    rw [occupiedCount_congr t u (fun j => by rw [hu.clntList])]
  · have hlive : t.live k := by rw [Tables.live, hu.servList] at hk; exact hk
    rw [hu.servList, load_congr t u (fun j => by rw [hu.clntList])
      (fun j => by rw [hu.forwardingTable])]
    exact h.load_eq k hlive

theorem Tables.PairsLive.usage (h : t.PairsLive) (hu : SameButUsage t u) : u.PairsLive := by
  refine h.keep (fun j hj => ?_) (fun i hi => ?_)
  · rw [Tables.occupied, hu.clntList] at hj
    exact ⟨hj, by rw [hu.forwardingTable]⟩
  · rw [Tables.live, hu.servList]
    exact hi

theorem CountersAgree.close (h : CountersAgree t) (hu : Closed t i u)
    (hocc : ∀ j, t.assigned i j → t.occupied j) : CountersAgree u := by
  refine .intro ?_ (fun k hk => ?_)
  · have hsplit : t.occupiedCount = u.occupiedCount + count (t.assigned i) := by
      refine count_split (fun j => ?_) (fun j hj => ((closed_occupied hu j).mp hj).2)
      rw [closed_occupied hu]
      have := hocc j
      tauto
    rw [hu.clntCnt, h.clntCnt_eq, hsplit]
    push_cast
    omega
  · have hki := hu.ne_of_live hk
    rw [Tables.live, hu.servList, Function.update_of_ne hki] at hk
    rw [hu.servList, Function.update_of_ne hki, load_close hu hki]
    exact h.load_eq k hk

theorem Tables.PairsLive.close (h : t.PairsLive) (hu : Closed t i u) : u.PairsLive := by
  intro j hj
  obtain ⟨ho, ha⟩ := (closed_occupied hu j).mp hj
  obtain ⟨k, hk, hlive⟩ := h j ho
  have hki : k ≠ i := fun hki => ha (hki ▸ hk)
  refine ⟨k, ?_, ?_⟩
  · rw [Tables.assigned, hu.forwardingTable, if_neg ha]; exact hk
  · rw [Tables.live, hu.servList, Function.update_of_ne hki]; exact hlive

theorem CountersAgree.join {node : ServListNode} (h : CountersAgree t) (hp : t.PairsLive)
    (hdead : ¬t.live i) (hcnt : node.clntCnt = 0) (hu : Joined t i node u) :
    CountersAgree u := by
  have hload (k : Fin maxServCnt) : u.load k = t.load k :=
    load_congr t u (fun j => by rw [hu.clntList]) (fun j => by rw [hu.forwardingTable]) k
  refine .intro ?_ (fun k hk => ?_)
  · rw [hu.clntCnt, h.clntCnt_eq]
    rw [occupiedCount_congr t u (fun j => by rw [hu.clntList])]
  · rw [hload]
    by_cases hki : k = i
    · -- No client is assigned to the slot of a dead server.
      subst hki
      have hnone : t.load k = 0 := by
        refine count_eq_zero.mpr (fun j hj => ?_)
        obtain ⟨m, hm, hlive⟩ := hp j hj.1
        have hmk : m = k := Fin.ext (by have := hj.2; omega)
        exact hdead (hmk ▸ hlive)
      rw [hu.servList, Function.update_self, hnone, hcnt]
      rfl
    · rw [Tables.live, hu.servList, Function.update_of_ne hki] at hk
      rw [hu.servList, Function.update_of_ne hki]
      exact h.load_eq k hk

theorem Tables.PairsLive.join {node : ServListNode} (h : t.PairsLive) (hsock : node.sock ≠ 0)
    (hu : Joined t i node u) : u.PairsLive := by
  refine h.keep (fun j hj => ?_) (fun k hk => ?_)
  · rw [Tables.occupied, hu.clntList] at hj
    exact ⟨hj, by rw [hu.forwardingTable]⟩
  · rw [Tables.live, hu.servList]
    by_cases hki : k = i
    · subst hki
      rw [Function.update_self]
      exact hsock
    · rw [Function.update_of_ne hki]
      exact hk

end Servers

def CountersLaw (t : Tables) : Prop := CountersAgree t ∧ t.PairsLive

theorem CountersLaw.start : CountersLaw .start := by
  have h0 : Tables.start.occupiedCount = 0 := count_eq_zero.mpr (fun j h => h rfl)
  exact ⟨.intro (by rw [h0]; rfl) (fun i h => absurd rfl h), fun j h => absurd rfl h⟩

theorem CountersLaw.step {cfg : Config} {s : State} {l : Step} {u : Tables} (hs : s.Sound)
    (hok : CountsKept cfg s l.event) (hstep : TablesStep cfg s l u)
    (h : CountersLaw s.tables) : CountersLaw u := by
  obtain ⟨hagree, hpairs⟩ := h
  cases hstep with
  | denied => exact ⟨hagree, hpairs⟩
  | joined i node hdead hsock hcnt hu =>
    exact ⟨hagree.join hpairs hdead hcnt hu, hpairs.join hsock hu⟩
  | packet hpkt =>
    exact ⟨hagree.packet hs.tables hpkt (fun hdir => (hok hdir).1),
      hpkt.pairsLive hs.tables (fun hdir => (hok hdir).2) hpairs⟩
  | health hu => exact ⟨hagree.usage hu, hpairs.usage hu⟩
  | closed t i hfind _ ht hu =>
    refine ⟨(hagree.usage ht).close hu (fun j hj => ?_), (hpairs.usage ht).close hu⟩
    rw [Tables.assigned, ht.forwardingTable] at hj
    rw [Tables.occupied, ht.clntList]
    exact hok rfl i hfind j hj

theorem ReachableWhen.countersLaw {cfg : Config} {s : State}
    (h : ReachableWhen cfg (CountsKept cfg) s) : CountersLaw s.tables :=
  h.tables_invariant .start (fun _ _ _ hs hok hstep hlaw => hlaw.step hs hok hstep)

end LoadBalancer
