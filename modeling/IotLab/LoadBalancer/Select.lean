import IotLab.LoadBalancer.State

set_option autoImplicit false

namespace LoadBalancer
open SlotTable

def nextServ (recent : Int) : Int := if recent + 1 = maxServCnt then 0 else recent + 1

/-- The `while(1)` loop of the RR case, given up after a number of rounds. -/
def rrLoop (servList : Fin maxServCnt → ServListNode) : Nat → Int → Result Int
  | 0, _ => .error .hang
  | rounds + 1, recent => do
    let recent := nextServ recent
    let i ← servAt recent
    if (servList i).sock ≠ 0 then pure recent else rrLoop servList rounds recent

/-- The `for` loop of the LEAST_CONN and RESOURCE_BASED cases from index `i` on, with the
rounds left of its MAX_CLNT_CNT. -/
def scanServ (key : ServListNode → Int) (servList : Fin maxServCnt → ServListNode) :
    Nat → Nat → Int → Int → Int → Result Int
  | 0, _, _, _, minIndex => .ok minIndex
  | rounds + 1, i, countDown, minKey, minIndex => do
    let k ← servAt i
    let node := servList k
    let isLess := node.sock ≠ 0 ∧ key node < minKey
    let countDown := if node.sock ≠ 0 then countDown - 1 else countDown
    let minIndex := if isLess then (i : Int) else minIndex
    let minKey := if isLess then key node else minKey
    if countDown = 0 then .ok minIndex
    else scanServ key servList rounds (i + 1) countDown minKey minIndex

/-- The index returned and the new `recent_serv_id`. `minIndex` is what the variable
`min_index`, which the source leaves uninitialised, happens to hold. -/
def selectServ (algo : Algorithm) (t : Tables) (minIndex : Int) : Result (Int × Int) :=
  match algo with
  | .rr =>
    if t.recentServId = -1 then
      match firstSlot fun i => (t.servList i).sock ≠ 0 with
      | some i => .ok (i, i)
      | none => .ok (0, t.recentServId)
    else do
      let recent ← rrLoop t.servList maxServCnt t.recentServId
      .ok (recent, recent)
  | .leastConn => do
    let id ← scanServ (·.clntCnt) t.servList maxClntCnt 0 t.servCnt maxClntCnt minIndex
    .ok (id, t.recentServId)
  | .resourceBased => do
    let id ← scanServ (·.resourceUsage) t.servList maxClntCnt 0 t.servCnt intMax minIndex
    .ok (id, t.recentServId)

theorem servAt_eq_ok {k : Int} {i : Fin maxServCnt} : servAt k = .ok i ↔ k = i.val :=
  index_eq_ok

theorem clntAt_eq_ok {k : Int} {j : Fin maxClntCnt} : clntAt k = .ok j ↔ k = j.val :=
  index_eq_ok

@[simp] theorem servAt_coe (i : Fin maxServCnt) : servAt (i.val : Int) = .ok i :=
  servAt_eq_ok.mpr rfl

@[simp] theorem clntAt_coe (j : Fin maxClntCnt) : clntAt (j.val : Int) = .ok j :=
  clntAt_eq_ok.mpr rfl

theorem maxServCnt_eq : (maxServCnt : Int) = 5 := rfl

theorem nextServ_range {recent : Int} (h : 0 ≤ recent) (hlt : recent < maxServCnt) :
    ∃ i : Fin maxServCnt, nextServ recent = i.val := by
  unfold nextServ
  split
  · exact ⟨0, rfl⟩
  · exact ⟨⟨(recent + 1).toNat, by omega⟩, by simp only; omega⟩

def roundsTo (recent : Int) (i : Fin maxServCnt) : Nat :=
  if recent < i.val then i.val - recent.toNat else i.val + maxServCnt - recent.toNat

theorem roundsTo_le {recent : Int} (h : 0 ≤ recent) (i : Fin maxServCnt) :
    roundsTo recent i ≤ maxServCnt := by
  have hi := i.isLt
  unfold roundsTo
  split <;> omega

theorem roundsTo_pos {recent : Int} (h : 0 ≤ recent) (hlt : recent < maxServCnt)
    (i : Fin maxServCnt) : 0 < roundsTo recent i := by
  unfold roundsTo
  split <;> omega

theorem roundsTo_next {recent : Int} {i k : Fin maxServCnt} (h : 0 ≤ recent)
    (hlt : recent < maxServCnt) (hk : nextServ recent = k.val) (hne : k ≠ i) :
    roundsTo recent i = roundsTo k.val i + 1 := by
  have hi := i.isLt
  have hki : k.val ≠ i.val := fun hv => hne (Fin.ext hv)
  have h5 := maxServCnt_eq
  unfold nextServ at hk
  unfold roundsTo
  split at hk <;> split <;> split <;> omega

theorem rrLoop_live {servList : Fin maxServCnt → ServListNode} {rounds : Nat}
    {recent id : Int} (h : rrLoop servList rounds recent = .ok id) :
    ∃ i : Fin maxServCnt, id = i.val ∧ (servList i).sock ≠ 0 := by
  induction rounds generalizing recent with
  | zero => simp [rrLoop] at h
  | succ rounds ih =>
    simp only [rrLoop] at h
    cases hi : servAt (nextServ recent) with
    | error e => simp [hi, bind, Except.bind] at h
    | ok i =>
      by_cases hlive : (servList i).sock ≠ 0
      · simp [hi, bind, Except.bind, hlive, pure, Except.pure] at h
        exact ⟨i, by rw [← h, servAt_eq_ok.mp hi], hlive⟩
      · simp [hi, bind, Except.bind, hlive] at h
        exact ih h

theorem rrLoop_ends {servList : Fin maxServCnt → ServListNode} {rounds : Nat}
    {recent : Int} {i : Fin maxServCnt} (h : 0 ≤ recent) (hlt : recent < maxServCnt)
    (hle : roundsTo recent i ≤ rounds) (hlive : (servList i).sock ≠ 0) :
    ∃ id, rrLoop servList rounds recent = .ok id := by
  induction rounds generalizing recent with
  | zero =>
    have := roundsTo_pos h hlt i
    omega
  | succ rounds ih =>
    obtain ⟨k, hk⟩ := nextServ_range h hlt
    simp only [rrLoop, hk, servAt_coe, bind, Except.bind]
    by_cases hki : k = i
    · subst hki
      simp [hlive, pure, Except.pure]
    · split
      · exact ⟨_, rfl⟩
      · have hn := roundsTo_next h hlt hk hki
        have hlt := k.isLt
        exact ih (by omega) (by omega) (by omega)

theorem rrLoop_total {servList : Fin maxServCnt → ServListNode} {recent : Int}
    (h : 0 ≤ recent) (hlt : recent < maxServCnt) {i : Fin maxServCnt}
    (hlive : (servList i).sock ≠ 0) : ∃ id, rrLoop servList maxServCnt recent = .ok id :=
  rrLoop_ends h hlt (roundsTo_le h i) hlive

theorem rrLoop_hangs {servList : Fin maxServCnt → ServListNode} {recent : Int}
    (h : 0 ≤ recent) (hlt : recent < maxServCnt) (hdead : ∀ i, (servList i).sock = 0)
    (rounds : Nat) : rrLoop servList rounds recent = .error .hang := by
  induction rounds generalizing recent with
  | zero => rfl
  | succ rounds ih =>
    obtain ⟨k, hk⟩ := nextServ_range h hlt
    have hlt := k.isLt
    simp only [rrLoop, hk, servAt_coe, bind, Except.bind, hdead, ne_eq, not_true_eq_false,
      if_false]
    exact ih (by omega) (by omega)

section Scan
variable {key : ServListNode → Int} {servList : Fin maxServCnt → ServListNode}

abbrev liveFrom (servList : Fin maxServCnt → ServListNode) (i : Nat) (k : Fin maxServCnt) :
    Prop := i ≤ k.val ∧ (servList k).sock ≠ 0

def FirstLeast (key : ServListNode → Int) (servList : Fin maxServCnt → ServListNode)
    (i : Nat) (k : Fin maxServCnt) : Prop :=
  liveFrom servList i k ∧ ∀ m, liveFrom servList i m →
    key (servList k) ≤ key (servList m) ∧ (m < k → key (servList k) < key (servList m))

/-- What a scan from `i` on returns: the candidate it came with if no live server ahead is
below it, else the first least server ahead. -/
def ScanResult (key : ServListNode → Int) (servList : Fin maxServCnt → ServListNode)
    (i : Nat) (minKey minIndex id : Int) : Prop :=
  (id = minIndex ∧ ∀ m, liveFrom servList i m → minKey ≤ key (servList m)) ∨
    ∃ k, id = k.val ∧ key (servList k) < minKey ∧ FirstLeast key servList i k

theorem liveFrom_succ {i : Fin maxServCnt} {m : Fin maxServCnt}
    (h : liveFrom servList i.val m) : m = i ∨ liveFrom servList (i.val + 1) m := by
  by_cases hm : m = i
  · exact .inl hm
  · have hne : m.val ≠ i.val := fun hv => hm (Fin.ext hv)
    exact .inr ⟨by have := h.1; omega, h.2⟩

theorem ScanResult.skip {i : Fin maxServCnt} {minKey minIndex id : Int}
    (hskip : (servList i).sock = 0 ∨ minKey ≤ key (servList i))
    (h : ScanResult key servList (i.val + 1) minKey minIndex id) :
    ScanResult key servList i.val minKey minIndex id := by
  have hi (hl : liveFrom servList i.val i) : minKey ≤ key (servList i) := by
    rcases hskip with hdead | hle
    · exact absurd hdead hl.2
    · exact hle
  rcases h with ⟨rfl, hall⟩ | ⟨k, rfl, hlt, hk, hleast⟩
  · refine .inl ⟨rfl, fun m hm => ?_⟩
    rcases liveFrom_succ hm with rfl | hm'
    · exact hi hm
    · exact hall m hm'
  · refine .inr ⟨k, rfl, hlt, ⟨by have := hk.1; omega, hk.2⟩, fun m hm => ?_⟩
    rcases liveFrom_succ hm with rfl | hm'
    · have := hi hm
      exact ⟨by omega, fun _ => by omega⟩
    · exact hleast m hm'

theorem ScanResult.take {i : Fin maxServCnt} {minKey minIndex id : Int}
    (hlive : (servList i).sock ≠ 0) (hlt : key (servList i) < minKey)
    (h : ScanResult key servList (i.val + 1) (key (servList i)) i.val id) :
    ScanResult key servList i.val minKey minIndex id := by
  rcases h with ⟨rfl, hall⟩ | ⟨k, rfl, hlt', hk, hleast⟩
  · refine .inr ⟨i, rfl, hlt, ⟨le_refl _, hlive⟩, fun m hm => ?_⟩
    refine ⟨?_, fun hmi => absurd hm.1 (by have : m.val < i.val := hmi; omega)⟩
    rcases liveFrom_succ hm with rfl | hm'
    · exact le_refl _
    · exact hall m hm'
  · refine .inr ⟨k, rfl, by omega, ⟨by have := hk.1; omega, hk.2⟩, fun m hm => ?_⟩
    rcases liveFrom_succ hm with rfl | hm'
    · exact ⟨by omega, fun _ => hlt'⟩
    · exact hleast m hm'

theorem ScanResult.last {i : Nat} {minKey minIndex : Int}
    (h : ∀ m, ¬liveFrom servList i m) :
    ScanResult key servList i minKey minIndex minIndex :=
  .inl ⟨rfl, fun m hm => absurd hm (h m)⟩

theorem scanServ_spec {rounds i : Nat} {countDown minKey minIndex : Int}
    (hcount : countDown = count (liveFrom servList i)) (hpos : 0 < countDown)
    (hrounds : maxServCnt ≤ i + rounds) :
    ∃ id, scanServ key servList rounds i countDown minKey minIndex = .ok id ∧
      ScanResult key servList i minKey minIndex id := by
  induction rounds generalizing i countDown minKey minIndex with
  | zero =>
    obtain ⟨k, hk⟩ := count_pos.mp (by omega : 0 < count (liveFrom servList i))
    have := k.isLt
    omega
  | succ rounds ih =>
    obtain ⟨k, hk⟩ := count_pos.mp (by omega : 0 < count (liveFrom servList i))
    have hi : i < maxServCnt := by have := k.isLt; omega
    lift i to Fin maxServCnt using hi
    have hfrom := count_from (p := fun k => (servList k).sock ≠ 0) i
    -- The rest of the loop, whichever candidate it is given.
    have hrest (c minKey minIndex : Int) (hc : c = count (liveFrom servList (i.val + 1))) :
        ∃ id, (if c = 0 then Except.ok minIndex
          else scanServ key servList rounds (i.val + 1) c minKey minIndex) = .ok id ∧
          ScanResult key servList (i.val + 1) minKey minIndex id := by
      by_cases h0 : c = 0
      · have hnone := count_eq_zero.mp (by omega : count (liveFrom servList (i.val + 1)) = 0)
        exact ⟨minIndex, by simp [h0], .last hnone⟩
      · simp only [h0, if_false]
        exact ih hc (by omega) (by omega)
    simp only [scanServ, servAt_coe, bind, Except.bind]
    by_cases hlive : (servList i).sock ≠ 0
    · have hc : countDown - 1 = count (liveFrom servList (i.val + 1)) := by
        rw [if_pos hlive] at hfrom
        have : (count (liveFrom servList i.val) : Int) =
          count (liveFrom servList (i.val + 1)) + 1 := by exact_mod_cast hfrom
        omega
      by_cases hlt : key (servList i) < minKey
      · obtain ⟨id, hrun, hres⟩ := hrest (countDown - 1) (key (servList i)) i.val hc
        exact ⟨id, by simpa [hlive, hlt] using hrun, hres.take hlive hlt⟩
      · obtain ⟨id, hrun, hres⟩ := hrest (countDown - 1) minKey minIndex hc
        exact ⟨id, by simpa [hlive, hlt] using hrun, hres.skip (.inr (by omega))⟩
    · have hc : countDown = count (liveFrom servList (i.val + 1)) := by
        rw [if_neg hlive, Nat.add_zero] at hfrom
        rw [hcount]
        exact_mod_cast hfrom
      obtain ⟨id, hrun, hres⟩ := hrest countDown minKey minIndex hc
      exact ⟨id, by simpa [hlive] using hrun, hres.skip (.inl (by simpa using hlive))⟩

end Scan

/-- No live server is below the starting minimum of the scan: `min_index` stays unset. -/
def SelectsUnset (algo : Algorithm) (t : Tables) : Prop :=
  match algo with
  | .rr => False
  | .leastConn => ∀ i, t.live i → (maxClntCnt : Int) ≤ (t.servList i).clntCnt
  | .resourceBased => ∀ i, t.live i → intMax ≤ (t.servList i).resourceUsage

theorem scanServ_result {key : ServListNode → Int} {t : Tables} {start minIndex : Int}
    (hcnt : t.servCnt = t.liveCount) (hpos : t.servCnt ≠ 0) :
    ∃ id, scanServ key t.servList maxClntCnt 0 t.servCnt start minIndex = .ok id ∧
      ScanResult key t.servList 0 start minIndex id := by
  have hall : t.liveCount = count (liveFrom t.servList 0) := count_congr (by simp)
  have hcount : t.servCnt = count (liveFrom t.servList 0) := by rw [hcnt, hall]
  exact scanServ_spec hcount (by omega) (by decide)

theorem scanServ_selects {key : ServListNode → Int} {t : Tables} {start minIndex : Int}
    (hcnt : t.servCnt = t.liveCount) (hpos : t.servCnt ≠ 0) :
    ∃ id, scanServ key t.servList maxClntCnt 0 t.servCnt start minIndex = .ok id ∧
      (t.namesLive id ∨
        (id = minIndex ∧ ∀ i, t.live i → start ≤ key (t.servList i))) := by
  obtain ⟨id, hrun, hres⟩ := @scanServ_result key t start minIndex hcnt hpos
  refine ⟨id, hrun, ?_⟩
  rcases hres with ⟨hid, hmin⟩ | ⟨k, hid, _, hk, _⟩
  · exact .inr ⟨hid, fun i hi => hmin i ⟨Nat.zero_le _, hi⟩⟩
  · exact .inl ⟨k, hid, hk.2⟩

/-- With the server count right and some server live, a selection ends; it names a live
server unless the scan leaves `min_index` unset. -/
theorem selectServ_spec {algo : Algorithm} {t : Tables} {minIndex : Int}
    (hcnt : t.servCnt = t.liveCount) (hpos : t.servCnt ≠ 0)
    (hr : 0 ≤ t.recentServId) (hlt : t.recentServId < maxServCnt) :
    ∃ id recent, selectServ algo t minIndex = .ok (id, recent) ∧
      0 ≤ recent ∧ recent < maxServCnt ∧
      (t.namesLive id ∨ (id = minIndex ∧ SelectsUnset algo t)) := by
  cases algo with
  | rr =>
    obtain ⟨i, hi⟩ := count_pos.mp (show 0 < t.liveCount by omega)
    obtain ⟨id, hid⟩ := rrLoop_total hr hlt hi
    obtain ⟨k, hk, hlive⟩ := rrLoop_live hid
    have hne : t.recentServId ≠ -1 := by omega
    have hk' := k.isLt
    refine ⟨id, id, ?_, by omega, by omega, .inl ⟨k, hk, hlive⟩⟩
    simp [selectServ, hne, hid, bind, Except.bind]
  | leastConn =>
    obtain ⟨id, hrun, hid⟩ := @scanServ_selects (·.clntCnt) t maxClntCnt minIndex
      hcnt hpos
    exact ⟨id, _, by simp [selectServ, hrun, bind, Except.bind], hr, hlt, hid⟩
  | resourceBased =>
    obtain ⟨id, hrun, hid⟩ := @scanServ_selects (·.resourceUsage) t intMax minIndex
      hcnt hpos
    exact ⟨id, _, by simp [selectServ, hrun, bind, Except.bind], hr, hlt, hid⟩

theorem selectServ_unset {algo : Algorithm} {t : Tables} {minIndex id recent : Int}
    (hcnt : t.servCnt = t.liveCount) (hpos : t.servCnt ≠ 0) (hunset : SelectsUnset algo t)
    (h : selectServ algo t minIndex = .ok (id, recent)) : id = minIndex := by
  have hscan {key : ServListNode → Int} {start id : Int}
      (hall : ∀ i, t.live i → start ≤ key (t.servList i))
      (hrun : scanServ key t.servList maxClntCnt 0 t.servCnt start minIndex = .ok id) :
      id = minIndex := by
    obtain ⟨id', hrun', hres⟩ := @scanServ_result key t start minIndex hcnt hpos
    rw [hrun] at hrun'
    cases hrun'
    rcases hres with ⟨hid, _⟩ | ⟨k, _, hlt, hk, _⟩
    · exact hid
    · exact absurd hlt (not_lt.mpr (hall k hk.2))
  cases algo with
  | rr => exact hunset.elim
  | leastConn =>
    simp only [selectServ, bind, Except.bind] at h
    split at h
    · contradiction
    · rename_i hrun
      cases h
      exact hscan hunset hrun
  | resourceBased =>
    simp only [selectServ, bind, Except.bind] at h
    split at h
    · contradiction
    · rename_i hrun
      cases h
      exact hscan hunset hrun

end LoadBalancer
