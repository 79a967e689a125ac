import IotLab.LoadBalancer.Steps

set_option autoImplicit false

namespace LoadBalancer
open SlotTable HostMemory

/-- A free slot has the pair it started with, possibly marked, or the one of the client
that was released from it. -/
structure Tables.Sound (t : Tables) : Prop where
  servCnt_eq : t.servCnt = t.liveCount
  recent_nonneg : 0 ≤ t.recentServId
  recent_lt : t.recentServId < maxServCnt
  free_zero : ∀ j, ¬t.occupied j → t.clntList j = .zero
  port_nonneg : ∀ j, 0 ≤ (t.clntList j).port
  port_lt : ∀ j, (t.clntList j).port < 65536
  pseudo_ge : ∀ j, t.occupied j → 49152 ≤ (t.clntList j).pseudoPort
  pseudo_le : ∀ j, t.occupied j → (t.clntList j).pseudoPort ≤ 65537
  pair_occupied : ∀ j, t.occupied j → (∃ i, t.assigned i j) ∧
    ((t.forwardingTable j).2 = 1 ∨ (t.forwardingTable j).2 = 2)
  pair_free : ∀ j, ¬t.occupied j →
    ((t.forwardingTable j).1 = -1 ∧
      ((t.forwardingTable j).2 = -1 ∨ (t.forwardingTable j).2 = 1)) ∨
    ((∃ i, t.assigned i j) ∧ (t.forwardingTable j).2 = 1)
  clntCnt_le : ∀ i, (t.servList i).clntCnt ≤ t.load i

/-- The server descriptors: every watched one is held by one slot, and a live slot holds a
watched one or the -1 of a failed `accept`. -/
structure State.Sound (s : State) : Prop where
  tables : s.tables.Sound
  watched_pos : ∀ fd, fd ∈ s.watched → 0 < fd
  watched_live : ∀ fd, fd ∈ s.watched → ∃ i, (s.tables.servList i).sock = fd
  sock_watched : ∀ i, s.tables.live i →
    (s.tables.servList i).sock = -1 ∨ (s.tables.servList i).sock ∈ s.watched
  sock_inj : ∀ i k, (s.tables.servList i).sock = (s.tables.servList k).sock →
    0 < (s.tables.servList i).sock → i = k

theorem Tables.Sound.flag_ne_of_assigned {t : Tables} {i : Fin maxServCnt}
    {j : Fin maxClntCnt} (h : t.Sound) (hassigned : t.assigned i j) :
    (t.forwardingTable j).2 ≠ -1 := by
  intro hflag
  by_cases hj : t.occupied j
  · have := (h.pair_occupied j hj).2
    omega
  · have := h.pair_free j hj
    omega

section Lookup
variable {t : Tables} {b : Mem} {j : Fin maxClntCnt}

theorem findPort_some (h : findPort t.clntList b = some j) :
    (t.clntList j).port = (tcpSource b).toNat := by
  simpa using (firstSlot_eq_some.mp h).1

theorem findPort_none (h : findPort t.clntList b = none) (k : Fin maxClntCnt) :
    (t.clntList k).port ≠ (tcpSource b).toNat := by
  simpa using firstSlot_eq_none.mp h k

theorem findPseudoPort_some (h : findPseudoPort t.clntList b = some j) :
    (t.clntList j).pseudoPort = (tcpDest b).toNat := by
  simpa using (firstSlot_eq_some.mp h).1

theorem findPort_occupied (h : findPort t.clntList b = some j) (hsrc : tcpSource b ≠ 0) :
    t.occupied j := by
  intro h0
  rw [findPort_some h] at h0
  exact hsrc (BitVec.eq_of_toNat_eq (by simpa using h0))

/-- Free slots carry the pseudo port 0, so no other destination port matches one. -/
theorem Tables.Sound.findPseudoPort_occupied (hs : t.Sound)
    (h : findPseudoPort t.clntList b = some j) (hdst : tcpDest b ≠ 0) : t.occupied j := by
  intro hj
  have h0 := findPseudoPort_some h
  rw [hs.free_zero j (fun ho => ho hj)] at h0
  have hzero : (0 : Int) = (tcpDest b).toNat := h0
  exact hdst (BitVec.eq_of_toNat_eq (by simp; omega))

theorem firstFree_some (h : firstSlot (fun j => (t.clntList j).port = 0) = some j) :
    (t.clntList j).port = 0 := by
  simpa using (firstSlot_eq_some.mp h).1

theorem firstFree_free (h : firstSlot (fun j => (t.clntList j).port = 0) = some j) :
    ¬t.occupied j := not_not.mpr (firstFree_some h)

theorem admitted_port_ne (hport : findPort t.clntList b = none)
    (hfree : firstSlot (fun j => (t.clntList j).port = 0) = some j) :
    (tcpSource b).toNat ≠ 0 := by
  intro h0
  have hne := findPort_none hport j
  rw [firstFree_some hfree, h0] at hne
  exact hne rfl

end Lookup

theorem liveCount_congr (t u : Tables)
    (h : ∀ i, (u.servList i).sock = (t.servList i).sock) : u.liveCount = t.liveCount :=
  count_congr (fun i => by rw [Tables.live, Tables.live, h i])

theorem load_congr (t u : Tables) (hc : ∀ j, (u.clntList j).port = (t.clntList j).port)
    (hf : ∀ j, (u.forwardingTable j).1 = (t.forwardingTable j).1) (i : Fin maxServCnt) :
    u.load i = t.load i :=
  count_congr (fun j => by simp only [Tables.occupied, Tables.assigned, hc j, hf j])

theorem occupied_admitted {cfg : Config} {t : Tables} {b : Mem} {now : BitVec 32}
    {j : Fin maxClntCnt} {i : Fin maxServCnt} {recent : Int}
    (hsrc : (tcpSource b).toNat ≠ 0) (k : Fin maxClntCnt) :
    (admitTables cfg t b now j i recent).occupied k ↔ k = j ∨ t.occupied k := by
  by_cases hkj : k = j
  · subst hkj
    simpa [Tables.occupied, newClntNode] using hsrc
  · simp [Tables.occupied, hkj]

theorem occupied_release {t : Tables} {i : Fin maxServCnt} (j k : Fin maxClntCnt) :
    (releaseClnt t i j).occupied k ↔ k ≠ j ∧ t.occupied k := by
  by_cases hkj : k = j
  · subst hkj; simp [Tables.occupied, ClntListNode.zero]
  · simp [Tables.occupied, hkj]

theorem load_admitted {cfg : Config} {t : Tables} {b : Mem} {now : BitVec 32}
    {j : Fin maxClntCnt} {i : Fin maxServCnt} {recent : Int} (hj : ¬t.occupied j)
    (hsrc : (tcpSource b).toNat ≠ 0) (k : Fin maxServCnt) :
    (admitTables cfg t b now j i recent).load k = t.load k + if k = i then 1 else 0 := by
  unfold Tables.load
  split
  · rename_i hk
    subst hk
    refine count_gain (j := j) (fun h => hj h.1) ?_ (fun m hm => ?_)
    · constructor
      · simpa [Tables.occupied, newClntNode] using hsrc
      · simp [Tables.assigned, admitTables_forwarding]
    · simp [Tables.occupied, Tables.assigned, admitTables_forwarding, hm]
  · rename_i hk
    rw [Nat.add_zero]
    refine count_congr (fun m => ?_)
    by_cases hm : m = j
    · subst hm
      have hik : ¬(i.val : Int) = k.val := fun h => hk (Fin.ext (by omega))
      simp only [Tables.assigned, admitTables_forwarding, Function.update_self, hik, and_false,
        false_iff, not_and]
      exact fun h => absurd h hj
    · simp [Tables.occupied, Tables.assigned, admitTables_forwarding, hm]

theorem load_release {t : Tables} {i : Fin maxServCnt} {j : Fin maxClntCnt}
    (hassigned : t.assigned i j) (k : Fin maxServCnt) :
    t.load k = (releaseClnt t i j).load k + if k = i ∧ t.occupied j then 1 else 0 := by
  unfold Tables.load
  split
  · rename_i hk
    obtain ⟨rfl, hj⟩ := hk
    refine count_gain (j := j) ?_ ⟨hj, hassigned⟩ (fun m hm => ?_)
    · simp [Tables.occupied, ClntListNode.zero]
    · simp [Tables.occupied, Tables.assigned, hm]
  · rename_i hk
    rw [Nat.add_zero]
    refine count_congr (fun m => ?_)
    by_cases hm : m = j
    · subst hm
      have hnot : ¬(t.occupied m ∧ t.assigned k m) := by
        intro h
        have hki : k = i := Fin.ext (by have := h.2; omega)
        exact hk ⟨hki, h.1⟩
      simp only [hnot, false_iff]
      simp [Tables.occupied, ClntListNode.zero]
    · simp [Tables.occupied, Tables.assigned, hm]

theorem closed_occupied {t u : Tables} {i : Fin maxServCnt} (h : Closed t i u)
    (j : Fin maxClntCnt) : u.occupied j ↔ t.occupied j ∧ ¬t.assigned i j := by
  by_cases ha : t.assigned i j
  · rw [Tables.occupied, h.clntList, if_pos ha]
    simp [ha, ClntListNode.zero]
  · rw [Tables.occupied, h.clntList, if_neg ha]
    simp [ha]

theorem load_close {t u : Tables} {i k : Fin maxServCnt} (h : Closed t i u) (hk : k ≠ i) :
    u.load k = t.load k := by
  refine count_congr (fun j => ?_)
  rw [closed_occupied h]
  by_cases ha : t.assigned i j
  · have hik : ¬t.assigned k j := fun hk' => hk (Fin.ext (by omega))
    simp [ha, hik]
  · simp [Tables.assigned, h.forwardingTable, ha]

theorem Closed.ne_of_live {t u : Tables} {i k : Fin maxServCnt} (h : Closed t i u)
    (hk : u.live k) : k ≠ i := by
  intro hki
  rw [Tables.live, h.servList, hki, Function.update_self] at hk
  exact hk rfl

structure Tables.SlotSound (t : Tables) (j : Fin maxClntCnt) : Prop where
  free_zero : ¬t.occupied j → t.clntList j = .zero
  port_nonneg : 0 ≤ (t.clntList j).port
  port_lt : (t.clntList j).port < 65536
  pseudo_ge : t.occupied j → 49152 ≤ (t.clntList j).pseudoPort
  pseudo_le : t.occupied j → (t.clntList j).pseudoPort ≤ 65537
  pair_occupied : t.occupied j → (∃ i, t.assigned i j) ∧
    ((t.forwardingTable j).2 = 1 ∨ (t.forwardingTable j).2 = 2)
  pair_free : ¬t.occupied j →
    ((t.forwardingTable j).1 = -1 ∧
      ((t.forwardingTable j).2 = -1 ∨ (t.forwardingTable j).2 = 1)) ∨
    ((∃ i, t.assigned i j) ∧ (t.forwardingTable j).2 = 1)

section Slots
variable {t u : Tables} {j : Fin maxClntCnt}

theorem Tables.Sound.slot (h : t.Sound) (j : Fin maxClntCnt) : t.SlotSound j :=
  ⟨h.free_zero j, h.port_nonneg j, h.port_lt j, h.pseudo_ge j, h.pseudo_le j, h.pair_occupied j,
    h.pair_free j⟩

theorem Tables.Sound.of_slots (hserv : t.servCnt = t.liveCount)
    (hrecent : 0 ≤ t.recentServId ∧ t.recentServId < maxServCnt) (hslots : ∀ j, t.SlotSound j)
    (hcnt : ∀ i, (t.servList i).clntCnt ≤ t.load i) : t.Sound where
  servCnt_eq := hserv
  recent_nonneg := hrecent.1
  recent_lt := hrecent.2
  free_zero j := (hslots j).free_zero
  port_nonneg j := (hslots j).port_nonneg
  port_lt j := (hslots j).port_lt
  pseudo_ge j := (hslots j).pseudo_ge
  pseudo_le j := (hslots j).pseudo_le
  pair_occupied j := (hslots j).pair_occupied
  pair_free j := (hslots j).pair_free
  clntCnt_le := hcnt

theorem Tables.SlotSound.congr (h : t.SlotSound j) (hc : u.clntList j = t.clntList j)
    (hf : u.forwardingTable j = t.forwardingTable j) : u.SlotSound j := by
  constructor
  case free_zero => simpa only [Tables.occupied, hc] using h.free_zero
  case port_nonneg => simpa only [hc] using h.port_nonneg
  case port_lt => simpa only [hc] using h.port_lt
  case pseudo_ge => simpa only [Tables.occupied, hc] using h.pseudo_ge
  case pseudo_le => simpa only [Tables.occupied, hc] using h.pseudo_le
  case pair_occupied => simpa only [Tables.occupied, Tables.assigned, hc, hf] using h.pair_occupied
  case pair_free => simpa only [Tables.occupied, Tables.assigned, hc, hf] using h.pair_free

theorem Tables.SlotSound.freed (hc : u.clntList j = .zero)
    (hpair : ((u.forwardingTable j).1 = -1 ∧
        ((u.forwardingTable j).2 = -1 ∨ (u.forwardingTable j).2 = 1)) ∨
      ((∃ i, u.assigned i j) ∧ (u.forwardingTable j).2 = 1)) : u.SlotSound j := by
  have hfree : ¬u.occupied j := by simp [Tables.occupied, hc, ClntListNode.zero]
  constructor
  case free_zero => exact fun _ => hc
  case port_nonneg => simp [hc, ClntListNode.zero]
  case port_lt => simp [hc, ClntListNode.zero]
  case pseudo_ge => exact fun hj => absurd hj hfree
  case pseudo_le => exact fun hj => absurd hj hfree
  case pair_occupied => exact fun hj => absurd hj hfree
  case pair_free => exact fun _ => hpair

end Slots

theorem Tables.start_sound : Tables.start.Sound := by
  have h0 : Tables.start.liveCount = 0 := count_eq_zero.mpr (fun i h => h rfl)
  refine .of_slots ?_ ⟨le_refl _, by decide⟩
    (fun j => .freed rfl (.inl ⟨rfl, .inl rfl⟩)) (fun _ => Int.natCast_nonneg _)
  rw [h0]
  rfl

section Preserved
variable {t u : Tables}

theorem admitted_slot {cfg : Config} {b : Mem} {now : BitVec 32} {j : Fin maxClntCnt}
    {i : Fin maxServCnt} {recent : Int} (hsrc : (tcpSource b).toNat ≠ 0) :
    (admitTables cfg t b now j i recent).SlotSound j := by
  have hlt := (tcpSource b).isLt
  have hrand := Nat.mod_lt (cfg.rand now) (show 0 < 16386 by decide)
  have hj : (admitTables cfg t b now j i recent).occupied j :=
    (occupied_admitted hsrc j).mpr (.inl rfl)
  constructor
  case free_zero => exact fun hfree => absurd hj hfree
  case port_nonneg => simp [newClntNode]
  case port_lt =>
    simp [newClntNode]
    omega
  case pseudo_ge =>
    intro _
    simp [newClntNode]
    omega
  case pseudo_le =>
    intro _
    simp [newClntNode]
    omega
  case pair_occupied =>
    refine fun _ => ⟨⟨i, ?_⟩, .inr ?_⟩
    · simp [Tables.assigned, admitTables_forwarding]
    · simp [admitTables_forwarding]
  case pair_free => exact fun hfree => absurd hj hfree

theorem Tables.Sound.admission {cfg : Config} {b : Mem} {now : BitVec 32} {j : Fin maxClntCnt}
    {i : Fin maxServCnt} {recent : Int} (h : t.Sound)
    (hport : findPort t.clntList b = none)
    (hfree : firstSlot (fun j => (t.clntList j).port = 0) = some j)
    (hrecent : 0 ≤ recent ∧ recent < maxServCnt) :
    (admitTables cfg t b now j i recent).Sound := by
  have hj : ¬t.occupied j := firstFree_free hfree
  have hsrc := admitted_port_ne hport hfree
  refine .of_slots ?_ hrecent (fun k => ?_) (fun k => ?_)
  · rw [admitTables_servCnt, h.servCnt_eq,
      liveCount_congr t (admitTables cfg t b now j i recent)
        (fun k => by rw [admitTables_servList])]
  · by_cases hkj : k = j
    · subst hkj
      exact admitted_slot hsrc
    · exact (h.slot k).congr (by simp [hkj]) (by simp [admitTables_forwarding, hkj])
  · rw [admitTables_servList, load_admitted hj hsrc]
    have := h.clntCnt_le k
    split <;> push_cast <;> omega

theorem Tables.Sound.markFin {j : Fin maxClntCnt} (h : t.Sound) : (markFin t j).Sound := by
  have hserv (k : Fin maxClntCnt) (i : Fin maxServCnt) :
      (LoadBalancer.markFin t j).assigned i k ↔ t.assigned i k := by
    rw [Tables.assigned, markFin_serv]
  refine ⟨h.servCnt_eq, h.recent_nonneg, h.recent_lt, h.free_zero, h.port_nonneg, h.port_lt,
    h.pseudo_ge, h.pseudo_le, fun k hk => ?_, fun k hk => ?_, fun i => ?_⟩
  · obtain ⟨⟨i, hi⟩, hflag⟩ := h.pair_occupied k hk
    refine ⟨⟨i, (hserv k i).mpr hi⟩, ?_⟩
    rw [markFin_flag]
    split
    · exact .inl rfl
    · exact hflag
  · rcases h.pair_free k hk with ⟨h1, hflag⟩ | ⟨⟨i, hi⟩, hflag⟩
    · left
      rw [markFin_flag, markFin_serv]
      refine ⟨h1, ?_⟩
      split
      · exact .inr rfl
      · exact hflag
    · right
      rw [markFin_flag]
      exact ⟨⟨i, (hserv k i).mpr hi⟩, by split <;> simp [hflag]⟩
  · rw [load_congr t (LoadBalancer.markFin t j) (fun _ => rfl) (markFin_serv t j)]
    exact h.clntCnt_le i

theorem Tables.Sound.release {i : Fin maxServCnt} {j : Fin maxClntCnt} (h : t.Sound)
    (hassigned : t.assigned i j) (hflag : (t.forwardingTable j).2 = 1) :
    (releaseClnt t i j).Sound := by
  refine .of_slots ?_ ⟨h.recent_nonneg, h.recent_lt⟩ (fun k => ?_) (fun k => ?_)
  · rw [releaseClnt_servCnt, h.servCnt_eq,
      liveCount_congr t (releaseClnt t i j) (fun k => by rw [releaseClnt_servList])]
  · by_cases hkj : k = j
    · subst hkj
      exact .freed (by simp) (.inr ⟨⟨i, hassigned⟩, hflag⟩)
    · exact (h.slot k).congr (by simp [hkj]) rfl
  · have hload := load_release hassigned k
    have hle := h.clntCnt_le k
    rw [releaseClnt_servList]
    by_cases hk : k = i
    · subst hk
      simp only [true_and] at hload
      simp only [if_true]
      split at hload <;> omega
    · simp only [hk, false_and, if_false] at hload ⊢
      omega

theorem Tables.Sound.same_clients (h : t.Sound) (hserv : u.servCnt = u.liveCount)
    (hrecent : u.recentServId = t.recentServId) (hc : u.clntList = t.clntList)
    (hf : u.forwardingTable = t.forwardingTable)
    (hcnt : ∀ i, (u.servList i).clntCnt ≤ t.load i) : u.Sound := by
  refine .of_slots hserv ⟨hrecent ▸ h.recent_nonneg, hrecent ▸ h.recent_lt⟩
    (fun j => (h.slot j).congr (by rw [hc]) (by rw [hf])) (fun i => ?_)
  rw [load_congr t u (fun j => by rw [hc]) (fun j => by rw [hf])]
  exact hcnt i

theorem Tables.Sound.usage (h : t.Sound) (hu : SameButUsage t u) : u.Sound := by
  refine h.same_clients ?_ hu.recentServId hu.clntList hu.forwardingTable (fun i => ?_)
  · rw [hu.servCnt, liveCount_congr t u (fun i => by rw [hu.servList])]
    exact h.servCnt_eq
  · rw [hu.servList]
    exact h.clntCnt_le i

theorem Tables.Sound.join {i : Fin maxServCnt} {node : ServListNode} (h : t.Sound)
    (hdead : ¬t.live i) (hsock : node.sock ≠ 0) (hcnt : node.clntCnt = 0)
    (hu : Joined t i node u) : u.Sound := by
  refine h.same_clients ?_ hu.recentServId hu.clntList hu.forwardingTable (fun k => ?_)
  · have hgain : u.liveCount = t.liveCount + 1 := by
      refine count_gain (j := i) hdead ?_ (fun k hk => ?_)
      · simpa [Tables.live, hu.servList] using hsock
      · simp [Tables.live, hu.servList, hk]
    rw [hu.servCnt, hgain, h.servCnt_eq]
    push_cast
    rfl
  · by_cases hk : k = i
    · subst hk
      rw [hu.servList, Function.update_self, hcnt]
      exact Int.natCast_nonneg _
    · rw [hu.servList, Function.update_of_ne hk]
      exact h.clntCnt_le k

theorem Tables.Sound.close {i : Fin maxServCnt} (h : t.Sound) (hlive : t.live i)
    (hu : Closed t i u) : u.Sound := by
  refine .of_slots ?_ ⟨hu.recentServId ▸ h.recent_nonneg, hu.recentServId ▸ h.recent_lt⟩
    (fun j => ?_) (fun k => ?_)
  · have hgain : t.liveCount = u.liveCount + 1 := by
      refine count_gain (j := i) ?_ hlive (fun k hk => ?_)
      · simp [Tables.live, hu.servList, ServListNode.zero]
      · simp [Tables.live, hu.servList, hk]
    rw [hu.servCnt, h.servCnt_eq, hgain]
    push_cast
    omega
  · by_cases ha : t.assigned i j
    · have hpair : u.forwardingTable j = (-1, -1) := by simp only [hu.forwardingTable, if_pos ha]
      exact .freed (by rw [hu.clntList, if_pos ha]) (.inl (by simp [hpair]))
    · exact (h.slot j).congr (by rw [hu.clntList, if_neg ha])
        (by simp only [hu.forwardingTable, if_neg ha])
  · by_cases hk : k = i
    · subst hk
      rw [hu.servList, Function.update_self]
      exact Int.natCast_nonneg _
    · rw [load_close hu hk, hu.servList, Function.update_of_ne hk]
      exact h.clntCnt_le k

end Preserved

theorem exists_dead {t : Tables} (h : t.Sound) (hmax : t.servCnt ≠ maxServCnt) :
    ∃ i, firstSlot (fun i => (t.servList i).sock = 0) = some i := by
  have hle : t.liveCount ≤ maxServCnt := count_le
  have hcnt := h.servCnt_eq
  obtain ⟨i, hi⟩ := exists_not_of_count_lt (p := t.live) (by unfold Tables.liveCount at *; omega)
  cases hf : firstSlot (fun i => (t.servList i).sock = 0) with
  | none =>
    have := firstSlot_eq_none.mp hf i
    exact absurd (by simpa using this) hi
  | some k => exact ⟨k, rfl⟩

theorem admitted_selects {cfg : Config} {t : Tables} {b : Mem} {now : BitVec 32}
    {j : Fin maxClntCnt} {i : Fin maxServCnt} {minIndex recent : Int} (h : t.Sound)
    (hserv : t.servCnt ≠ 0)
    (hsel : selectServ cfg.selectedAlgo (addNewClnt cfg t j b now) minIndex =
      .ok (i.val, recent)) :
    0 ≤ recent ∧ recent < maxServCnt ∧
      (t.live i ∨ ((i.val : Int) = minIndex ∧ SelectsUnset cfg.selectedAlgo t)) := by
  have hcnt : (addNewClnt cfg t j b now).servCnt = (addNewClnt cfg t j b now).liveCount :=
    h.servCnt_eq
  obtain ⟨id, r, hrun, h0, hlt, hcase⟩ := @selectServ_spec cfg.selectedAlgo
    (addNewClnt cfg t j b now) minIndex hcnt hserv h.recent_nonneg h.recent_lt
  rw [hsel] at hrun
  cases hrun
  refine ⟨h0, hlt, ?_⟩
  rcases hcase with ⟨k, hk, hlive⟩ | hunset
  · have hik : i = k := Fin.ext (by omega)
    subst hik
    exact .inl hlive
  · exact .inr hunset

theorem PacketStep.sound {cfg : Config} {t t' : Tables} {b b' : Mem} {length : Int}
    {now : BitVec 32} {minIndex : Int} {out : List Output} {x : LoopExit} (h : t.Sound)
    (hstep : PacketStep cfg t b length now minIndex t' b' out x) : t'.Sound := by
  cases hstep with
  | ignored => exact h
  | unknown => exact h
  | admitted j i recent _ _ hserv hport _ _ hfree hsel _ =>
    obtain ⟨h0, hlt, _⟩ := admitted_selects h hserv hsel
    exact h.admission hport hfree ⟨h0, hlt⟩
  | forwarded j i _ _ _ _ _ _ _ =>
    split
    · exact h.markFin
    · exact h
  | released j i _ _ _ _ hassigned _ hflag _ => exact h.release hassigned hflag
  | relayed j _ _ _ _ _ _ =>
    split
    · exact h.markFin
    · exact h
  | relayReleased j i _ _ _ _ hassigned _ hflag _ =>
    exact absurd hflag (h.flag_ne_of_assigned hassigned)

theorem PacketStep.servList {cfg : Config} {t t' : Tables} {b b' : Mem} {length : Int}
    {now : BitVec 32} {minIndex : Int} {out : List Output} {x : LoopExit}
    (hstep : PacketStep cfg t b length now minIndex t' b' out x) (i : Fin maxServCnt) :
    t'.servList i = { t.servList i with clntCnt := (t'.servList i).clntCnt } := by
  cases hstep with
  | ignored => rfl
  | unknown => rfl
  | admitted => rw [admitTables_servList]
  | forwarded => split <;> rfl
  | released => rw [releaseClnt_servList]
  | relayed => split <;> rfl
  | relayReleased => rw [releaseClnt_servList]

theorem findServer_some {t : Tables} {fd : Int} {i : Fin maxServCnt}
    (h : findServer t fd = some i) : (t.servList i).sock = fd := by
  simpa using (firstSlot_eq_some.mp h).1

theorem State.start_sound (buf : Mem) (servAdr : BitVec 32) :
    (State.start buf servAdr).Sound := by
  refine ⟨Tables.start_sound, ?_, ?_, fun i hi => absurd rfl hi, fun i k _ hpos => ?_⟩
  · simp [State.start]
  · simp [State.start]
  · exact absurd hpos (lt_irrefl 0)

theorem State.Sound.same_socks {s s' : State} (h : s.Sound) (ht : s'.tables.Sound)
    (hsock : ∀ i, (s'.tables.servList i).sock = (s.tables.servList i).sock)
    (hw : s'.watched = s.watched) : s'.Sound := by
  constructor
  case tables => exact ht
  case watched_pos => simpa only [hw] using h.watched_pos
  case watched_live => simpa only [hw, hsock] using h.watched_live
  case sock_watched => simpa only [Tables.live, hw, hsock] using h.sock_watched
  case sock_inj => simpa only [hsock] using h.sock_inj

theorem State.Sound.sock_ne {s : State} {fd : Int} (h : s.Sound) (hpos : 0 < fd)
    (hfd : fd ∉ s.watched) (k : Fin maxServCnt) : (s.tables.servList k).sock ≠ fd := by
  intro hk
  have hlive : s.tables.live k := by rw [Tables.live]; omega
  rcases h.sock_watched k hlive with hm1 | hmem
  · omega
  · exact hfd (hk ▸ hmem)

section Entry
variable {t u : Tables} {i : Fin maxServCnt} {node : ServListNode}

theorem sock_update (hu : u.servList = Function.update t.servList i node)
    (k : Fin maxServCnt) :
    (u.servList k).sock = if k = i then node.sock else (t.servList k).sock := by
  rw [hu]
  by_cases hk : k = i
  · subst hk; simp
  · simp [hk]

theorem sock_inj_update (hu : u.servList = Function.update t.servList i node)
    (hnew : 0 < node.sock → ∀ k, (t.servList k).sock ≠ node.sock)
    (h : ∀ j k, (t.servList j).sock = (t.servList k).sock → 0 < (t.servList j).sock → j = k)
    (j k : Fin maxServCnt) (hjk : (u.servList j).sock = (u.servList k).sock)
    (hpos : 0 < (u.servList j).sock) : j = k := by
  refine holder_unique (fun k x => 0 < x ∧ (t.servList k).sock = x)
    (fun k x => 0 < x ∧ (u.servList k).sock = x) i ?other ?new ?old ⟨hpos, rfl⟩ ⟨hpos, hjk.symm⟩
  case other =>
    rintro k x hk ⟨hx, rfl⟩
    rw [sock_update hu, if_neg hk] at hx ⊢
    exact ⟨hx, rfl⟩
  case new =>
    rintro k x ⟨hx, rfl⟩ ⟨-, hk⟩
    rw [sock_update hu, if_pos rfl] at hx hk
    exact hnew hx k hk
  case old =>
    rintro k l x ⟨hx, rfl⟩ ⟨-, hl⟩
    exact h k l hl.symm hx

end Entry

theorem State.Sound.enter {s s' : State} {i : Fin maxServCnt} {node : ServListNode}
    (h : s.Sound) (hdead : (s.tables.servList i).sock = 0)
    (hsock : node.sock = -1 ∨ (0 < node.sock ∧ node.sock ∉ s.watched))
    (hcnt : node.clntCnt = 0) (hu : Joined s.tables i node s'.tables)
    (hw : s'.watched = if node.sock = -1 then s.watched else node.sock :: s.watched) :
    s'.Sound := by
  have hwatched {fd : Int} (hfd : fd ∈ s'.watched) : fd ∈ s.watched ∨ fd = node.sock := by
    rw [hw] at hfd
    split at hfd
    · exact .inl hfd
    · exact (List.mem_cons.mp hfd).symm
  have hold {fd : Int} (hfd : fd ∈ s.watched) : fd ∈ s'.watched := by
    rw [hw]
    split
    · exact hfd
    · exact List.mem_cons_of_mem _ hfd
  constructor
  case tables => exact h.tables.join (not_not.mpr hdead) (by omega) hcnt hu
  case watched_pos =>
    intro fd hfd
    rcases hwatched hfd with hfd' | rfl
    · exact h.watched_pos fd hfd'
    · rcases hsock with hm1 | ⟨hpos, _⟩
      · rw [hw, if_pos hm1] at hfd
        exact h.watched_pos _ hfd
      · exact hpos
  case watched_live =>
    intro fd hfd
    rcases hwatched hfd with hfd' | rfl
    · obtain ⟨k, hk⟩ := h.watched_live fd hfd'
      have hpos := h.watched_pos fd hfd'
      have hki : k ≠ i := by
        intro hki
        subst hki
        omega
      exact ⟨k, by rw [sock_update hu.servList, if_neg hki]; exact hk⟩
    · exact ⟨i, by rw [sock_update hu.servList, if_pos rfl]⟩
  case sock_watched =>
    intro k hk
    rw [Tables.live, sock_update hu.servList] at hk
    rw [sock_update hu.servList]
    split at hk
    · rename_i hki
      rw [if_pos hki, hw]
      split
      · exact .inl ‹_›
      · exact .inr (List.mem_cons_self ..)
    · rename_i hki
      rw [if_neg hki]
      exact (h.sock_watched k hk).imp_right hold
  case sock_inj =>
    refine sock_inj_update hu.servList (fun hpos => ?_) h.sock_inj
    rcases hsock with hm1 | ⟨_, hno⟩
    · omega
    · exact h.sock_ne hpos hno

theorem State.Sound.join {s s' : State} {accepted : Option (Int × BitVec 32)}
    {port : Received 2} {stack : Mem} {out : List Output} (h : s.Sound)
    (hpos : Event.canOccur s (.join accepted port stack))
    (hjoin : join s accepted port stack = (s', out)) : s'.Sound := by
  rcases join_cases hjoin with ⟨_, ht, hw, _⟩ | ⟨hmax, hnone, _⟩ | ⟨i, node, hjoined⟩
  · exact h.same_socks (by rw [ht]; exact h.tables) (fun i => by rw [ht]) hw
  · obtain ⟨i, hi⟩ := exists_dead h.tables hmax
    rw [hnone] at hi
    contradiction
  · obtain ⟨hdead, hnode, hcnt, hu, hw, _⟩ := hjoined
    refine h.enter (by simpa using (firstSlot_eq_some.mp hdead).1) ?_ hcnt hu hw
    rw [hnode]
    cases accepted with
    | none => exact .inl rfl
    | some a => exact .inr hpos

theorem State.Sound.serverEvent {s s' : State} {fd : Int} {reads : List ReadResult}
    {ending : ReadEnd} {stack : Mem} {out : List Output} (h : s.Sound)
    (hpos : fd ∈ s.watched) (hrun : serverEvent s fd reads ending stack = .ok (s', out)) :
    s'.Sound := by
  obtain ⟨t, ht, hcase⟩ := serverEvent_ok hrun
  have hsock (i : Fin maxServCnt) : (t.servList i).sock = (s.tables.servList i).sock := by
    rw [ht.servList]
  have hmid : State.Sound { s with tables := t } :=
    h.same_socks (h.tables.usage ht) hsock rfl
  rcases hcase with ⟨_, rfl, _⟩ | ⟨_, i, hi, rfl, _⟩
  · exact hmid
  · have hfd := h.watched_pos fd hpos
    have hif : (t.servList i).sock = fd := by rw [hsock]; exact findServer_some hi
    have hlive : t.live i := by rw [Tables.live]; omega
    have hc := closeServer_closed t i
    constructor
    case tables => exact hmid.tables.close hlive hc
    case watched_pos => exact fun fd' hfd' => hmid.watched_pos fd' (List.mem_filter.mp hfd').1
    case watched_live =>
      intro fd' hfd'
      obtain ⟨hmem, hne⟩ := List.mem_filter.mp hfd'
      obtain ⟨k, hk⟩ := hmid.watched_live fd' hmem
      have hki : k ≠ i := by
        intro hki
        subst hki
        simp only [decide_eq_true_eq] at hne
        exact hne (hk.symm.trans hif)
      exact ⟨k, by rw [hc.servList, Function.update_of_ne hki]; exact hk⟩
    case sock_watched =>
      intro k hk
      have hki := hc.ne_of_live hk
      simp only [Tables.live, hc.servList, Function.update_of_ne hki] at hk ⊢
      rcases hmid.sock_watched k hk with hm1 | hmem
      · exact .inl hm1
      · refine .inr (List.mem_filter.mpr ⟨hmem, ?_⟩)
        simp only [decide_eq_true_eq]
        intro hkfd
        have hpk : 0 < (t.servList k).sock := by omega
        exact hki (hmid.sock_inj k i (by simp only; omega) hpk)
    case sock_inj =>
      exact sock_inj_update hc.servList (fun hpos => absurd hpos (lt_irrefl 0)) hmid.sock_inj

theorem State.Sound.step {cfg : Config} {s s' : State} {l : Step} (h : s.Sound)
    (hstep : (system cfg).step s l s') : s'.Sound := by
  obtain ⟨hpos, hrun⟩ := hstep
  obtain ⟨event, out, x⟩ := l
  cases event with
  | join accepted port stack => exact h.join hpos (handle_join hrun).1
  | packet received now minIndex =>
    obtain ⟨hpkt, _, hw⟩ := packet_ok hrun
    exact h.same_socks (hpkt.sound h.tables) (fun i => by rw [hpkt.servList]) hw
  | server fd reads ending stack => exact h.serverEvent hpos (handle_server hrun).1

/-- What a step does to the tables, with what is then known of the server slot it is
about. -/
inductive TablesStep (cfg : Config) (s : State) : Step → Tables → Prop where
  | denied {accepted : Option (Int × BitVec 32)} {port : Received 2} {stack : Mem} :
      TablesStep cfg s ⟨.join accepted port stack, [], .next⟩ s.tables
  | joined {accepted : Option (Int × BitVec 32)} {port : Received 2} {stack : Mem}
      {u : Tables} (i : Fin maxServCnt) (node : ServListNode) (hdead : ¬s.tables.live i)
      (hsock : node.sock ≠ 0) (hcnt : node.clntCnt = 0) (hu : Joined s.tables i node u) :
      TablesStep cfg s
        ⟨.join accepted port stack, [.newServer i node.sock node.port], .next⟩ u
  | packet {received : Option (Received bufSize)} {now : BitVec 32} {minIndex : Int}
      {u : Tables} {b' : Mem} {out : List Output} {x : LoopExit}
      (hstep : PacketStep cfg s.tables (recvInto s.buf received) (recvLength received) now
        minIndex u b' out x) :
      TablesStep cfg s ⟨.packet received now minIndex, out, x⟩ u
  | health {fd : Int} {reads : List ReadResult} {stack : Mem} {u : Tables}
      (hu : SameButUsage s.tables u) :
      TablesStep cfg s ⟨.server fd reads .again stack, [], .next⟩ u
  | closed {fd : Int} {reads : List ReadResult} {stack : Mem} {u : Tables} (t : Tables)
      (i : Fin maxServCnt) (hfind : findServer s.tables fd = some i)
      (hlive : s.tables.live i) (ht : SameButUsage s.tables t) (hu : Closed t i u) :
      TablesStep cfg s ⟨.server fd reads .eof stack, (closeServer t i).2, .next⟩ u

theorem State.Sound.tablesStep {cfg : Config} {s s' : State} {l : Step} (h : s.Sound)
    (hstep : (system cfg).step s l s') : TablesStep cfg s l s'.tables := by
  obtain ⟨hpos, hrun⟩ := hstep
  obtain ⟨event, out, x⟩ := l
  cases event with
  | join accepted port stack =>
    obtain ⟨hjoin, rfl⟩ := handle_join hrun
    rcases join_cases hjoin with ⟨_, ht, _, rfl⟩ | ⟨hmax, hnone, _⟩ | ⟨i, node, hjoined⟩
    · rw [ht]
      exact .denied
    · obtain ⟨i, hi⟩ := exists_dead h.tables hmax
      rw [hnone] at hi
      contradiction
    · obtain ⟨hdead, hsock, hcnt, hu, _, rfl⟩ := hjoined
      refine .joined i node (by simpa [Tables.live] using (firstSlot_eq_some.mp hdead).1) ?_
        hcnt hu
      rw [hsock]
      cases accepted with
      | none => exact show (-1 : Int) ≠ 0 by decide
      | some a => exact ne_of_gt hpos.1
  | packet received now minIndex => exact .packet (packet_ok hrun).1
  | server fd reads ending stack =>
    obtain ⟨hserver, rfl⟩ := handle_server hrun
    obtain ⟨t, ht, hcase⟩ := serverEvent_ok hserver
    rcases hcase with ⟨rfl, rfl, rfl⟩ | ⟨rfl, i, hi, hs', hout⟩
    · exact .health ht
    · dsimp only at hout
      rw [hs', hout]
      have hfd := h.watched_pos fd hpos
      have hsock := findServer_some hi
      have hlive : s.tables.live i := by rw [Tables.live]; omega
      exact .closed t i hi hlive ht (closeServer_closed t i)

theorem Reachable.sound {cfg : Config} {s : State} (h : Reachable cfg s) : s.Sound := by
  refine Transitions.Reachable.invariant ?_ ?_ h
  · intro s hs
    obtain ⟨buf, servAdr, rfl⟩ := hs
    exact State.start_sound buf servAdr
  · intro s l t _ hs hstep
    exact hs.step hstep

end LoadBalancer
