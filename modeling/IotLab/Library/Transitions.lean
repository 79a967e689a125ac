import Mathlib.Data.List.Induction
import Mathlib.Tactic.Common

/-!
Labelled transition systems: finite runs, reachable states, the induction rule for
invariants, runs whose steps all meet a condition, runs found by execution, and systems that
carry an observer recording what has happened so far.
-/

set_option autoImplicit false

namespace Transitions

structure System (σ τ : Type) where
  init : σ → Prop
  step : σ → τ → σ → Prop

inductive Run {σ τ : Type} (S : System σ τ) : σ → List τ → σ → Prop where
  | nil (s : σ) : Run S s [] s
  | cons {s t u : σ} {l : τ} {ls : List τ} : S.step s l t → Run S t ls u → Run S s (l :: ls) u

inductive Reachable {σ τ : Type} (S : System σ τ) : σ → Prop where
  | init {s : σ} : S.init s → Reachable S s
  | step {s t : σ} {l : τ} : Reachable S s → S.step s l t → Reachable S t

section Basic
variable {σ τ : Type} {S : System σ τ}

theorem Run.single {s t : σ} {l : τ} (h : S.step s l t) : Run S s [l] t := .cons h (.nil t)

theorem Run.append {s t u : σ} {ls ms : List τ} (h : Run S s ls t) (k : Run S t ms u) :
    Run S s (ls ++ ms) u := by
  induction h with
  | nil => exact k
  | cons hstep _ ih => exact .cons hstep (ih k)

theorem Run.split {s u : σ} {ls ms : List τ} (h : Run S s (ls ++ ms) u) :
    ∃ t, Run S s ls t ∧ Run S t ms u := by
  induction ls generalizing s with
  | nil => exact ⟨s, .nil s, h⟩
  | cons l ls ih =>
    cases h with
    | cons hstep hrest =>
      obtain ⟨t, hls, hms⟩ := ih hrest
      exact ⟨t, .cons hstep hls, hms⟩

/-- What does not hold before a run and holds after it was made true by one of its steps, and
the steps since then kept it true. -/
theorem Run.origin {P : σ → Prop} {Q : τ → Prop}
    (hkeep : ∀ s l t, S.step s l t → P s → P t → Q l) {s u : σ} {ls : List τ}
    (h : Run S s ls u) (hs : ¬P s) (hu : P u) :
    ∃ xs l ys t t', ls = xs ++ l :: ys ∧ Run S s xs t ∧ ¬P t ∧ S.step t l t' ∧ P t' ∧
      ∀ m ∈ ys, Q m := by
  induction ls using List.reverseRecOn generalizing u with
  | nil =>
    cases h
    exact absurd hu hs
  | append_singleton ls l ih =>
    obtain ⟨t, hls, hlast⟩ := h.split
    cases hlast with
    | cons hstep hnil =>
      cases hnil
      by_cases ht : P t
      · obtain ⟨xs, k, ys, v, v', rfl, hrun, hv, hk, hv', hys⟩ := ih hls ht
        refine ⟨xs, k, ys ++ [l], v, v', by simp, hrun, hv, hk, hv', fun m hm => ?_⟩
        rcases List.mem_append.mp hm with hm | hm
        · exact hys m hm
        · rw [List.mem_singleton.mp hm]
          exact hkeep t l u hstep ht hu
      · exact ⟨ls, l, [], t, u, rfl, hls, ht, hstep, hu, fun m hm => absurd hm List.not_mem_nil⟩

theorem Run.reachable {s t : σ} {ls : List τ} (h : Run S s ls t) (hs : Reachable S s) :
    Reachable S t := by
  induction h with
  | nil => exact hs
  | cons hstep _ ih => exact ih (.step hs hstep)

/-- The invariant rule. The step may use that the state it starts from is reachable. -/
theorem Reachable.invariant {I : σ → Prop} (hinit : ∀ s, S.init s → I s)
    (hstep : ∀ s l t, Reachable S s → I s → S.step s l t → I t) {s : σ}
    (h : Reachable S s) : I s := by
  induction h with
  | init hs => exact hinit _ hs
  | step hs hst ih => exact hstep _ _ _ hs ih hst

theorem Run.length_le {I : σ → Prop} {m : σ → Nat}
    (hstep : ∀ s l t, I s → S.step s l t → I t ∧ m t < m s) {s t : σ} {ls : List τ}
    (h : Run S s ls t) (hs : I s) : ls.length + m t ≤ m s := by
  induction h with
  | nil s => simp
  | cons hst _ ih =>
    obtain ⟨ht, hlt⟩ := hstep _ _ _ hs hst
    have := ih ht
    simp only [List.length_cons]
    omega

/-- The steps of a kind, where each makes a number smaller and no other step makes it larger. -/
theorem Run.countP_le {I : σ → Prop} {m : σ → Nat} {p : τ → Bool}
    (hstep : ∀ s l t, I s → S.step s l t → I t ∧ m t + (if p l then 1 else 0) ≤ m s) {s t : σ}
    {ls : List τ} (h : Run S s ls t) (hs : I s) : ls.countP p + m t ≤ m s := by
  induction h with
  | nil s => simp
  | cons hst _ ih =>
    obtain ⟨ht, hle⟩ := hstep _ _ _ hs hst
    have := ih ht
    rw [List.countP_cons]
    omega

/-- The rule for completion: a run leads to the end where one leads to less, as long as there is
something left. -/
theorem exists_run_of_progress {I done : σ → Prop} {m : σ → Nat}
    (hprogress : ∀ s, I s → ¬done s → ∃ ls t, Run S s ls t ∧ I t ∧ m t < m s) {s : σ} (hs : I s) :
    ∃ ls t, Run S s ls t ∧ done t := by
  obtain ⟨w, hw⟩ : ∃ w, m s = w := ⟨_, rfl⟩
  induction w using Nat.strongRecOn generalizing s with
  | ind w ih =>
    by_cases hdone : done s
    · exact ⟨[], s, .nil s, hdone⟩
    · obtain ⟨ls, t, hrun, ht, hlt⟩ := hprogress s hs hdone
      obtain ⟨ls', u, hrun', hend⟩ := ih _ (hw ▸ hlt) ht rfl
      exact ⟨ls ++ ls', u, hrun.append hrun', hend⟩

end Basic

/-- The runs all of whose steps meet a condition on the state before and the label. -/
def System.restrict {σ τ : Type} (S : System σ τ) (ok : σ → τ → Prop) : System σ τ where
  init := S.init
  step s l t := ok s l ∧ S.step s l t

theorem Reachable.of_restrict {σ τ : Type} {S : System σ τ} {ok : σ → τ → Prop} {s : σ}
    (h : Reachable (S.restrict ok) s) : Reachable S s := by
  induction h with
  | init hs => exact .init hs
  | step _ hst ih => exact .step ih hst.2

theorem Reachable.to_restrict {σ τ : Type} {S : System σ τ} {ok : σ → τ → Prop} {s : σ}
    (hok : ∀ s l, ok s l) (h : Reachable S s) : Reachable (S.restrict ok) s := by
  induction h with
  | init hs => exact .init hs
  | step _ hst ih => exact .step ih ⟨hok _ _, hst⟩

theorem Run.of_restrict {σ τ : Type} {S : System σ τ} {ok : σ → τ → Prop} {s t : σ}
    {ls : List τ} (h : Run (S.restrict ok) s ls t) : Run S s ls t := by
  induction h with
  | nil s => exact .nil s
  | cons hst _ ih => exact .cons hst.2 ih

def runsTo {σ ε τ : Type} (next : σ → ε → Option (τ × σ)) (test : σ → Bool) :
    σ → List ε → Bool
  | s, [] => test s
  | s, e :: rest =>
    match next s e with
    | some (_, t) => runsTo next test t rest
    | none => false

/-- What an executable step function runs to, the system runs to. -/
theorem run_of_runsTo {σ ε τ : Type} {S : System σ τ} {event : τ → ε}
    {next : σ → ε → Option (τ × σ)} {test : σ → Bool}
    (hnext : ∀ s e l t, next s e = some (l, t) → event l = e ∧ S.step s l t) {s : σ}
    {events : List ε} (h : runsTo next test s events = true) :
    ∃ t ls, ls.map event = events ∧ Run S s ls t ∧ test t = true := by
  induction events generalizing s with
  | nil => exact ⟨s, [], rfl, .nil s, h⟩
  | cons e rest ih =>
    simp only [runsTo] at h
    cases hn : next s e with
    | none => simp [hn] at h
    | some r =>
      obtain ⟨l, u⟩ := r
      simp only [hn] at h
      obtain ⟨hl, hstep⟩ := hnext s e l u hn
      obtain ⟨t, ls, hls, hrun, htest⟩ := ih h
      exact ⟨t, l :: ls, by simp [hl, hls], .cons hstep hrun, htest⟩

/-- A system together with an observer, which starts from `m₀` and looks at every step. -/
def System.observe {σ τ μ : Type} (S : System σ τ) (m₀ : μ) (look : μ → σ → τ → σ → μ) :
    System (σ × μ) τ where
  init p := S.init p.1 ∧ p.2 = m₀
  step p l q := S.step p.1 l q.1 ∧ q.2 = look p.2 p.1 l q.1

section Observe
variable {σ τ μ : Type} {S : System σ τ} {m₀ : μ} {look : μ → σ → τ → σ → μ}

theorem Reachable.of_observe {p : σ × μ} (h : Reachable (S.observe m₀ look) p) :
    Reachable S p.1 := by
  induction h with
  | init hs => exact .init hs.1
  | step _ hst ih => exact .step ih hst.1

/-- An observer never hinders a run: every reachable state is reached with some record. -/
theorem Reachable.observed {s : σ} (h : Reachable S s) :
    ∃ m, Reachable (S.observe m₀ look) (s, m) := by
  induction h with
  | init hs => exact ⟨m₀, .init ⟨hs, rfl⟩⟩
  | @step s t l _ hst ih =>
    obtain ⟨m, hm⟩ := ih
    exact ⟨look m s l t, .step hm ⟨hst, rfl⟩⟩

theorem Run.of_observe {p q : σ × μ} {ls : List τ} (h : Run (S.observe m₀ look) p ls q) :
    Run S p.1 ls q.1 := by
  induction h with
  | nil => exact .nil _
  | cons hst _ ih => exact .cons hst.1 ih

theorem Run.observed {s t : σ} {ls : List τ} (h : Run S s ls t) {m : μ} :
    ∃ m', Run (S.observe m₀ look) (s, m) ls (t, m') := by
  induction h generalizing m with
  | nil => exact ⟨m, .nil _⟩
  | @cons s t u l ls hst _ ih =>
    obtain ⟨m', hrun⟩ := @ih (look m s l t)
    exact ⟨m', .cons ⟨hst, rfl⟩ hrun⟩

def observeNext {ε : Type} (next : σ → ε → Option (τ × σ)) (look : μ → σ → τ → σ → μ)
    (p : σ × μ) (e : ε) : Option (τ × (σ × μ)) :=
  (next p.1 e).map fun r => (r.1, (r.2, look p.2 p.1 r.1 r.2))

theorem observeNext_step {ε : Type} {event : τ → ε} {next : σ → ε → Option (τ × σ)}
    {ok : σ → ε → Prop}
    (hnext : ∀ s e l t, next s e = some (l, t) → event l = e ∧ ok s e ∧ S.step s l t)
    (p : σ × μ) (e : ε) (l : τ) (q : σ × μ) (h : observeNext next look p e = some (l, q)) :
    event l = e ∧ ((S.observe m₀ look).restrict fun p l => ok p.1 (event l)).step p l q := by
  obtain ⟨⟨l', s'⟩, hn, hr⟩ := Option.map_eq_some_iff.mp h
  cases hr
  obtain ⟨hl, hok, hstep⟩ := hnext p.1 e l' s' hn
  subst hl
  exact ⟨rfl, hok, hstep, rfl⟩

end Observe

end Transitions
