import IotLab.Library.CyclicSweep
import IotLab.LoadBalancer.Main

set_option autoImplicit false

namespace LoadBalancer
open SlotTable CyclicSweep Transitions

/-- What happens to the table of servers: a join, a departure, a selection. -/
inductive ChurnOp where
  | join (sock : Int) (ip : BitVec 32) (port : BitVec 16)
  | leave (id : Fin maxServCnt)
  | select (minIndex : Int)
  deriving DecidableEq

def ChurnOp.run (t : Tables) : ChurnOp → Result (Tables × Option Int)
  | .join sock ip port => .ok ((addServerInfo t sock ip port).1, none)
  | .leave id => .ok (deleteServerNode t id, none)
  | .select minIndex => do
    let (id, recent) ← selectServ .rr t minIndex
    .ok ({ t with recentServId := recent }, some id)

def ChurnOp.canOccur (t : Tables) : ChurnOp → Prop
  | .select _ => ∃ i, t.live i
  | _ => True

instance ChurnOp.decidableCanOccur (t : Tables) (op : ChurnOp) : Decidable (op.canOccur t) :=
  match op with
  | .select _ => inferInstanceAs (Decidable (∃ i, t.live i))
  | .join _ _ _ | .leave _ => inferInstanceAs (Decidable True)

structure Churned where
  before : Tables
  op : ChurnOp
  selected : Option Int

def churn : System Tables Churned where
  init t := t.recentServId = 0
  step t l u := l.before = t ∧ l.op.canOccur t ∧ l.op.run t = .ok (u, l.selected)

def Churned.PassesOver (i : Fin maxServCnt) (l : Churned) : Prop :=
  ∃ k : Fin maxServCnt, l.selected = some (k : Int) ∧
    roundsTo l.before.recentServId i < roundsTo l.before.recentServId k

instance (i : Fin maxServCnt) : DecidablePred (Churned.PassesOver i) := fun l =>
  inferInstanceAs (Decidable (∃ k : Fin maxServCnt, l.selected = some (k : Int) ∧
    roundsTo l.before.recentServId i < roundsTo l.before.recentServId k))

theorem roundsTo_natCast (c : Nat) (i : Fin maxServCnt) :
    roundsTo c i = rounds maxServCnt c i := by
  simp [roundsTo, rounds]

section Loop
variable {servList : Fin maxServCnt → ServListNode} {n : Nat} {recent id : Int}

theorem roundsTo_one {k : Fin maxServCnt} (h : 0 ≤ recent) (hlt : recent < maxServCnt)
    (hk : nextServ recent = k.val) : roundsTo recent k = 1 := by
  have h5 := maxServCnt_eq
  unfold nextServ at hk
  unfold roundsTo
  split at hk <;> split <;> omega

theorem rrLoop_first (h : 0 ≤ recent) (hlt : recent < maxServCnt)
    (hrun : rrLoop servList n recent = .ok id) :
    ∃ i : Fin maxServCnt, id = i.val ∧ (servList i).sock ≠ 0 ∧
      ∀ k, (servList k).sock ≠ 0 → roundsTo recent i ≤ roundsTo recent k := by
  induction n generalizing recent with
  | zero => simp [rrLoop] at hrun
  | succ n ih =>
    obtain ⟨j, hj⟩ := nextServ_range h hlt
    simp only [rrLoop, hj, servAt_coe, bind, Except.bind] at hrun
    by_cases hlive : (servList j).sock ≠ 0
    · rw [if_pos hlive] at hrun
      cases hrun
      refine ⟨j, rfl, hlive, fun k _ => ?_⟩
      rw [roundsTo_one h hlt hj]
      exact roundsTo_pos h hlt k
    · rw [if_neg hlive] at hrun
      have hne (k : Fin maxServCnt) (hk : (servList k).sock ≠ 0) : j ≠ k :=
        fun heq => hlive (heq ▸ hk)
      obtain ⟨i, hi, hlivei, hleast⟩ := ih (by omega) (by omega) hrun
      refine ⟨i, hi, hlivei, fun k hk => ?_⟩
      rw [roundsTo_next h hlt hj (hne i hlivei), roundsTo_next h hlt hj (hne k hk)]
      have := hleast k hk
      omega

end Loop

abbrev RecentInRange (t : Tables) : Prop := 0 ≤ t.recentServId ∧ t.recentServId < maxServCnt

section Select
variable {t : Tables} {minIndex : Int}

theorem selectServ_rr (h : RecentInRange t) : selectServ .rr t minIndex =
    (rrLoop t.servList maxServCnt t.recentServId).map fun id => (id, id) := by
  have hne : t.recentServId ≠ -1 := by omega
  simp only [selectServ, if_neg hne]
  cases rrLoop t.servList maxServCnt t.recentServId with
  | error e => rfl
  | ok id => rfl

/-- With a live server a selection ends, at the first live one behind the last selected. -/
theorem selectServ_rr_first (h : RecentInRange t) (hlive : ∃ i, t.live i) :
    ∃ i : Fin maxServCnt, selectServ .rr t minIndex = .ok (i, i) ∧ t.live i ∧
      ∀ k, t.live k → roundsTo t.recentServId i ≤ roundsTo t.recentServId k := by
  obtain ⟨j, hj⟩ := hlive
  obtain ⟨id, hrun⟩ := rrLoop_total h.1 h.2 hj
  obtain ⟨i, rfl, hi, hleast⟩ := rrLoop_first h.1 h.2 hrun
  refine ⟨i, ?_, hi, hleast⟩
  rw [selectServ_rr h, hrun]
  rfl

end Select

section Run
variable {t u : Tables} {l : Churned} {ls : List Churned}

theorem ChurnOp.recent_of_none {op : ChurnOp} (h : op.run t = .ok (u, none)) :
    u.recentServId = t.recentServId := by
  cases op with
  | join sock ip port =>
    obtain ⟨rfl, -⟩ := Prod.mk.inj (Except.ok.inj h)
    unfold addServerInfo
    split <;> rfl
  | leave id =>
    obtain ⟨rfl, -⟩ := Prod.mk.inj (Except.ok.inj h)
    rfl
  | select minIndex =>
    cases hsel : selectServ .rr t minIndex with
    | error e => simp [ChurnOp.run, hsel, bind, Except.bind] at h
    | ok r => simp [ChurnOp.run, hsel, bind, Except.bind] at h

/-- A selection of `id`, as the sweep of a cursor over the slots. -/
def Churned.sweepTo (l : Churned) (id : Int) : Sweep where
  start := l.before.recentServId.toNat
  stop := id.toNat
  live := fun k => ∃ i : Fin maxServCnt, i.val = k ∧ l.before.live i

def Churned.sweep (l : Churned) : Option Sweep := l.selected.map l.sweepTo

theorem churn_selected {id : Int} (h : RecentInRange t) (hstep : churn.step t l u)
    (hsel : l.selected = some id) : ∃ i : Fin maxServCnt, id = i ∧ u.recentServId = i ∧
      l.before = t ∧ t.live i ∧
      ∀ k, t.live k → roundsTo t.recentServId i ≤ roundsTo t.recentServId k := by
  obtain ⟨before, op, selected⟩ := l
  obtain ⟨rfl, hcan, hrun⟩ := hstep
  cases op with
  | join sock ip port =>
    obtain ⟨-, rfl⟩ := Prod.mk.inj (Except.ok.inj hrun)
    cases hsel
  | leave id =>
    obtain ⟨-, rfl⟩ := Prod.mk.inj (Except.ok.inj hrun)
    cases hsel
  | select minIndex =>
    obtain ⟨i, hi, hlive, hleast⟩ := @selectServ_rr_first _ minIndex h hcan
    simp only [ChurnOp.run, hi, bind, Except.bind] at hrun
    obtain ⟨rfl, rfl⟩ := Prod.mk.inj (Except.ok.inj hrun)
    exact ⟨i, (Option.some.inj hsel).symm, rfl, rfl, hlive, hleast⟩

theorem churn_unselected (hstep : churn.step t l u) (hsel : l.selected = none) :
    u.recentServId = t.recentServId :=
  ChurnOp.recent_of_none (hsel ▸ hstep.2.2)

theorem churn_inRange (h : RecentInRange t) (hstep : churn.step t l u) : RecentInRange u := by
  cases hsel : l.selected with
  | none =>
    have hu := churn_unselected hstep hsel
    exact ⟨hu ▸ h.1, hu ▸ h.2⟩
  | some id =>
    obtain ⟨i, -, hu, -⟩ := churn_selected h hstep hsel
    have hi := i.isLt
    exact ⟨by omega, by omega⟩

theorem run_inRange (h : RecentInRange t) (hrun : Run churn t ls u) : RecentInRange u := by
  induction hrun with
  | nil => exact h
  | cons hstep _ ih => exact ih (churn_inRange h hstep)

theorem churn_sweep_first {id : Int} (h : RecentInRange t) (hstep : churn.step t l u)
    (hsel : l.selected = some id) : (l.sweepTo id).First maxServCnt ∧
      (l.sweepTo id).start = t.recentServId.toNat ∧
        (l.sweepTo id).stop = u.recentServId.toNat := by
  obtain ⟨i, rfl, hu, rfl, hlive, hleast⟩ := churn_selected h hstep hsel
  have hcast : ((l.before.recentServId.toNat : Nat) : Int) = l.before.recentServId :=
    Int.toNat_of_nonneg h.1
  have hstart : l.before.recentServId.toNat < maxServCnt := (Int.toNat_lt h.1).mpr h.2
  refine ⟨⟨hstart, i.isLt, ⟨i, rfl, hlive⟩, ?_⟩, rfl, by rw [hu]; rfl⟩
  rintro k hk ⟨j, rfl, hj⟩
  have hle := hleast j hj
  rw [← hcast, roundsTo_natCast, roundsTo_natCast] at hle
  exact hle

theorem run_chain (h : RecentInRange t) (hrun : Run churn t ls u) :
    Chain maxServCnt t.recentServId.toNat (ls.filterMap Churned.sweep) u.recentServId.toNat := by
  induction hrun with
  | nil => exact .nil _
  | @cons t v u l ls hstep _ ih =>
    have ih := ih (churn_inRange h hstep)
    cases hsel : l.selected with
    | none =>
      rw [List.filterMap_cons_none (by rw [Churned.sweep, hsel]; rfl)]
      rw [churn_unselected hstep hsel] at ih
      exact ih
    | some id =>
      obtain ⟨hfirst, hstart, hstop⟩ := churn_sweep_first h hstep hsel
      rw [List.filterMap_cons_some (by rw [Churned.sweep, hsel]; rfl)]
      rw [← hstop] at ih
      rw [← hstart]
      exact .cons hfirst ih

theorem run_selected (h : RecentInRange t) (hrun : Run churn t ls u) {id : Int} (hl : l ∈ ls)
    (hsel : l.selected = some id) : RecentInRange l.before ∧
      ∃ i : Fin maxServCnt, id = i ∧ l.before.live i ∧
        ∀ k, l.before.live k →
          roundsTo l.before.recentServId i ≤ roundsTo l.before.recentServId k := by
  induction hrun with
  | nil => cases hl
  | cons hstep _ ih =>
    rcases List.mem_cons.mp hl with rfl | hl
    · obtain ⟨i, hi, -, rfl, hlive, hleast⟩ := churn_selected h hstep hsel
      exact ⟨h, i, hi, hlive, hleast⟩
    · exact ih (churn_inRange h hstep) hl

theorem not_passesOver (h : RecentInRange t) (hrun : Run churn t ls u) (hl : l ∈ ls)
    {i : Fin maxServCnt} (hlive : l.before.live i) : ¬l.PassesOver i := by
  rintro ⟨k, hsel, hlt⟩
  obtain ⟨-, k', hk, -, hleast⟩ := run_selected h hrun hl hsel
  obtain rfl : k = k' := Fin.ext (by omega)
  have := hleast i hlive
  omega

theorem countP_stops (h : RecentInRange t) (hrun : Run churn t ls u) (k : Fin maxServCnt) :
    (ls.filterMap Churned.sweep).countP (·.stop = k.val) =
      ls.countP (·.selected = some (k : Int)) := by
  rw [List.countP_filterMap]
  refine List.countP_congr fun l hl => ?_
  cases hsel : l.selected with
  | none => simp [Churned.sweep, hsel]
  | some id =>
    obtain ⟨-, i, rfl, -⟩ := run_selected h hrun hl hsel
    simp [Churned.sweep, Churned.sweepTo, hsel]

theorem countP_passes (h : RecentInRange t) (hrun : Run churn t ls u) (i : Fin maxServCnt) :
    (ls.filterMap Churned.sweep).countP (Sweep.Passes maxServCnt i) =
      ls.countP (·.PassesOver i) := by
  rw [List.countP_filterMap]
  refine List.countP_congr fun l hl => ?_
  cases hsel : l.selected with
  | none => simp [Churned.sweep, Churned.PassesOver, hsel]
  | some id =>
    obtain ⟨hbefore, j, rfl, -⟩ := run_selected h hrun hl hsel
    have hcast : ((l.before.recentServId.toNat : Nat) : Int) = l.before.recentServId :=
      Int.toNat_of_nonneg hbefore.1
    have hrounds (k : Fin maxServCnt) : roundsTo l.before.recentServId k =
        rounds maxServCnt l.before.recentServId.toNat k := by
      rw [← roundsTo_natCast, hcast]
    have hpass : l.PassesOver i ↔
        roundsTo l.before.recentServId i < roundsTo l.before.recentServId j := by
      constructor
      · rintro ⟨k, hk, hlt⟩
        obtain rfl : j = k := Fin.ext (by rw [hsel] at hk; simpa using hk)
        exact hlt
      · exact fun hlt => ⟨j, hsel, hlt⟩
    rw [hrounds, hrounds] at hpass
    simp only [Churned.sweep, hsel, Option.map_some, Option.getD_some, decide_eq_true_iff, hpass]
    exact Iff.rfl

end Run

/-- `mid` is what happens from one selection of index `i` to `second`, the next one. -/
def Consecutive (ls : List Churned) (i : Fin maxServCnt) (mid : List Churned)
    (second : Churned) : Prop :=
  ∃ pre first post, ls = pre ++ first :: (mid ++ second :: post) ∧
    first.selected = some (i : Int) ∧ second.selected = some (i : Int) ∧
      ∀ l ∈ mid, l.selected ≠ some (i : Int)

/-- Between two selections of one index every server that stays is selected once, and once
more for each selection that goes past the index. -/
theorem selected_between {t u : Tables} {ls mid : List Churned} {second : Churned}
    {i k : Fin maxServCnt} (h : RecentInRange t) (hrun : Run churn t ls u)
    (hcons : Consecutive ls i mid second) (hki : k ≠ i)
    (hlive : ∀ l ∈ mid ++ [second], l.before.live k) :
    mid.countP (·.selected = some (k : Int)) = mid.countP (·.PassesOver i) + 1 := by
  obtain ⟨pre, first, post, rfl, hfirst, hsecond, hnot⟩ := hcons
  obtain ⟨t₁, hpre, hrest⟩ := hrun.split
  have h₁ := run_inRange h hpre
  cases hrest with
  | @cons _ t₂ _ _ _ hstep hrest =>
    obtain ⟨i', hi', hrecent, -⟩ := churn_selected h₁ hstep hfirst
    obtain rfl : i = i' := Fin.ext (by omega)
    have h₂ := churn_inRange h₁ hstep
    obtain ⟨t₃, hmid, hrest⟩ := hrest.split
    have h₃ := run_inRange h₂ hmid
    cases hrest with
    | @cons _ t₄ _ _ _ hstep₂ _ =>
      obtain ⟨hs, hstart, -⟩ := churn_sweep_first h₃ hstep₂ hsecond
      have hchain := run_chain h₂ hmid
      rw [hrecent, Int.toNat_natCast] at hchain
      have hsweep {s : Sweep} (hmem : s ∈ mid.filterMap Churned.sweep) :
          s.stop ≠ i.val ∧ s.live k.val := by
        obtain ⟨l, hl, hls⟩ := List.mem_filterMap.mp hmem
        obtain ⟨id, hsel, rfl⟩ := Option.map_eq_some_iff.mp hls
        obtain ⟨-, j, rfl, -⟩ := run_selected h₂ hmid hl hsel
        refine ⟨fun hji => hnot l hl ?_, k, rfl, hlive l (List.mem_append_left _ hl)⟩
        rw [hsel]
        exact congrArg (fun n : Nat => some (n : Int)) hji
      have hstops := hchain.stops_between hstart hs rfl (fun s hs => (hsweep hs).1) k.isLt
        (fun hv => hki (Fin.ext hv)) (fun s hs => (hsweep hs).2)
        ⟨k, rfl, hlive second (by simp)⟩
      rw [countP_stops h₂ hmid, countP_passes h₂ hmid] at hstops
      exact hstops

section Demo

def ChurnOp.next (t : Tables) (op : ChurnOp) : Option (Churned × Tables) :=
  if op.canOccur t then
    match op.run t with
    | .ok (u, selected) => some (⟨t, op, selected⟩, u)
    | .error _ => none
  else none

def replay : Tables → List ChurnOp → Option (List Churned × Tables)
  | t, [] => some ([], t)
  | t, op :: ops => do
    let (l, u) ← op.next t
    let (ls, v) ← replay u ops
    some (l :: ls, v)

theorem ChurnOp.next_step {t u : Tables} {op : ChurnOp} {l : Churned}
    (h : op.next t = some (l, u)) : churn.step t l u := by
  unfold ChurnOp.next at h
  split at h
  · rename_i hcan
    cases hrun : op.run t with
    | error e => simp [hrun] at h
    | ok r =>
      simp only [hrun] at h
      cases h
      exact ⟨rfl, hcan, hrun⟩
  · cases h

theorem replay_run {t u : Tables} {ops : List ChurnOp} {ls : List Churned}
    (h : replay t ops = some (ls, u)) : Run churn t ls u := by
  induction ops generalizing t ls with
  | nil =>
    cases h
    exact .nil _
  | cons op ops ih =>
    obtain ⟨⟨l, v⟩, hop, h⟩ := Option.bind_eq_some_iff.mp h
    obtain ⟨⟨ls', w⟩, hops, h⟩ := Option.bind_eq_some_iff.mp h
    cases h
    exact .cons (ChurnOp.next_step hop) (ih hops)

def rejoining : List ChurnOp :=
  [.join 5 1 1, .join 6 2 2, .select 0, .leave 1, .select 0, .select 0, .join 7 2 2, .select 0]

def rejoinedAsTold (r : List Churned × Tables) : Bool :=
  r.1.map (·.selected) = [none, none, some 1, none, some 0, some 0, none, some 1] ∧
    (∀ l ∈ r.1.drop 3, l.before.live 0) ∧ r.2.live 0

theorem rejoining_run : ∃ u ls mid second, Run churn .start ls u ∧ u.live 0 ∧
    Consecutive ls 1 mid second ∧ (∀ l ∈ mid ++ [second], l.before.live 0) ∧
      mid.countP (·.selected = some ((0 : Fin maxServCnt) : Int)) = 2 := by
  have htold : (replay .start rejoining).any rejoinedAsTold = true := by decide
  obtain ⟨⟨ls, u⟩, hrun, htold⟩ := (Option.any_eq_true ..).mp htold
  obtain ⟨hsel, hlive, hu⟩ := of_decide_eq_true htold
  simp only [List.map_eq_cons_iff, List.map_eq_nil_iff] at hsel
  obtain ⟨l₀, _, rfl, h₀, l₁, _, rfl, h₁, l₂, _, rfl, h₂, l₃, _, rfl, h₃, l₄, _, rfl, h₄,
    l₅, _, rfl, h₅, l₆, _, rfl, h₆, l₇, _, rfl, h₇, rfl⟩ := hsel
  refine ⟨u, _, [l₃, l₄, l₅, l₆], l₇, replay_run hrun, hu,
    ⟨[l₀, l₁], l₂, [], rfl, h₂, h₇, ?_⟩, hlive, ?_⟩
  · simp only [List.forall_mem_cons, h₃, h₄, h₅, h₆]
    decide
  · simp [h₃, h₄, h₅, h₆]

end Demo

/-- Every selection ends at a live server. Between two selections of one index every other
server that stays is selected once, and once more for each selection that goes past the
index, which then is free. -/
theorem rr_fairness {t u : Tables} {ls : List Churned} (hinit : churn.init t)
    (hrun : Run churn t ls u) :
    (∀ minIndex, (∃ i, u.live i) →
      ∃ i : Fin maxServCnt, selectServ .rr u minIndex = .ok (i, i) ∧ u.live i) ∧
    ∀ i k mid second, Consecutive ls i mid second → k ≠ i →
      (∀ l ∈ mid ++ [second], l.before.live k) →
        mid.countP (·.selected = some (k : Int)) = mid.countP (·.PassesOver i) + 1 ∧
        ∀ l ∈ mid, l.PassesOver i → ¬l.before.live i := by
  have h : RecentInRange t := ⟨hinit.ge, by rw [hinit]; decide⟩
  refine ⟨fun minIndex hlive => ?_, fun i k mid second hcons hki hlive => ?_⟩
  · obtain ⟨i, hsel, hi, -⟩ := selectServ_rr_first (run_inRange h hrun) hlive
    exact ⟨i, hsel, hi⟩
  · refine ⟨selected_between h hrun hcons hki hlive, fun l hl hpass hi => ?_⟩
    obtain ⟨pre, first, post, rfl, -⟩ := hcons
    exact not_passesOver h hrun (by simp [hl]) hi hpass

theorem rr_fairness_rejoining : ∃ (u : Tables) (mid : List Churned),
    (∃ i : Fin maxServCnt, selectServ .rr u 0 = .ok (i, i) ∧ u.live i) ∧
      mid.countP (·.selected = some ((0 : Fin maxServCnt) : Int)) =
        mid.countP (·.PassesOver 1) + 1 := by
  obtain ⟨u, ls, mid, second, hrun, hu, hcons, hlive, -⟩ := rejoining_run
  obtain ⟨hends, hbetween⟩ := rr_fairness (t := .start) rfl hrun
  exact ⟨u, mid, hends 0 ⟨0, hu⟩, (hbetween 1 0 mid second hcons (by decide) hlive).1⟩

/-- A server that goes and comes back is passed over: server 0 is then selected twice. -/
theorem rr_unfair_to_rejoined : ∃ t u ls mid second, churn.init t ∧ Run churn t ls u ∧
    Consecutive ls 1 mid second ∧ (∀ l ∈ mid ++ [second], l.before.live 0) ∧
      mid.countP (·.selected = some ((0 : Fin maxServCnt) : Int)) ≠ 1 := by
  obtain ⟨u, ls, mid, second, hrun, -, hcons, hlive, htwice⟩ := rejoining_run
  exact ⟨.start, u, ls, mid, second, rfl, hrun, hcons, hlive, by omega⟩

end LoadBalancer
