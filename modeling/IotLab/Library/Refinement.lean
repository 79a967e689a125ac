import IotLab.Library.Transitions

/-!
Refinement between labelled transition systems: an abstraction function, and what each
concrete step shows as a list of abstract labels. What a run has shown is then a run of the
abstract system. Where each step shows one item, a run can be read backwards from what it has
shown.
-/

set_option autoImplicit false

namespace Transitions

section Record
variable {σ τ β : Type}

/-- A system that also keeps what its steps have shown so far. -/
def System.record (S : System σ τ) (shows : σ → τ → σ → List β) : System (σ × List β) τ :=
  S.observe [] fun shown s l t => shown ++ shows s l t

variable {S : System σ τ} {shows : σ → τ → σ → List β}

def recordNext {ε : Type} (next : σ → ε → Option (τ × σ)) (shows : σ → τ → σ → List β)
    (p : σ × List β) (e : ε) : Option (τ × (σ × List β)) :=
  (next p.1 e).map fun r => (r.1, (r.2, p.2 ++ shows p.1 r.1 r.2))

theorem recorded_of_runsTo {ε : Type} {event : τ → ε} {next : σ → ε → Option (τ × σ)}
    (hnext : ∀ s e l t, next s e = some (l, t) → event l = e ∧ S.step s l t)
    {test : σ × List β → Bool} {s : σ} {events : List ε} (hs : S.init s)
    (h : runsTo (recordNext next shows) test (s, []) events = true) :
    ∃ p, Reachable (S.record shows) p ∧ test p = true := by
  obtain ⟨p, ls, _, hrun, htest⟩ := @run_of_runsTo _ _ _ (S.record shows) event
    (recordNext next shows) test (fun p e l q hn => by
      obtain ⟨⟨l', s'⟩, hnext', hr⟩ := Option.map_eq_some_iff.mp hn
      cases hr
      obtain ⟨hl, hstep⟩ := hnext p.1 e l' s' hnext'
      exact ⟨hl, hstep, rfl⟩) (s, []) events h
  exact ⟨p, hrun.reachable (.init ⟨hs, rfl⟩), htest⟩

end Record

section Items
variable {σ τ β : Type} {S : System σ τ} {f : σ → τ → σ → β} {t : σ} {xs ys : List β} {x : β}

theorem Reachable.last_item (h : Reachable (S.record fun s l t => [f s l t]) (t, xs ++ [x])) :
    ∃ s l, Reachable (S.record fun s l t => [f s l t]) (s, xs) ∧ S.step s l t ∧ f s l t = x := by
  generalize hp : (t, xs ++ [x]) = p at h
  cases h with
  | init hinit =>
    rw [← hp] at hinit
    exact absurd hinit.2 (List.append_ne_nil_of_right_ne_nil xs (List.cons_ne_nil x []))
  | @step q _ l hq hstep =>
    rw [← hp] at hstep
    obtain ⟨hstep, hlook⟩ := hstep
    obtain ⟨hxs, hx⟩ := List.append_inj' hlook rfl
    obtain rfl : xs = q.2 := hxs
    exact ⟨q.1, l, hq, hstep, (List.head_eq_of_cons_eq hx).symm⟩

theorem Reachable.earlier (h : Reachable (S.record fun s l t => [f s l t]) (t, xs ++ ys)) :
    ∃ s, Reachable (S.record fun s l t => [f s l t]) (s, xs) := by
  induction ys using List.reverseRecOn generalizing t with
  | nil =>
    rw [List.append_nil] at h
    exact ⟨t, h⟩
  | append_singleton ys y ih =>
    rw [← List.append_assoc] at h
    obtain ⟨s, _, hs, -, -⟩ := h.last_item
    exact ih hs

end Items

/-- Every step of `S` from a state with the invariant shows a run of `A` between the
abstractions, and keeps the invariant. The step may use what is known of the reachable states
of `A`. -/
structure Refines {σ τ α β : Type} (S : System σ τ) (A : System α β) (inv : σ → Prop)
    (shows : σ → τ → σ → List β) (abs : σ → α) : Prop where
  start : ∀ s, S.init s → inv s ∧ A.init (abs s)
  step : ∀ s l t, inv s → Reachable A (abs s) → S.step s l t →
    inv t ∧ Run A (abs s) (shows s l t) (abs t)

section Refines
variable {σ τ α β : Type} {S : System σ τ} {A : System α β} {inv : σ → Prop}
  {shows : σ → τ → σ → List β} {abs : σ → α}

theorem Refines.run (h : Refines S A inv shows abs) {p : σ × List β}
    (hp : Reachable (S.record shows) p) :
    inv p.1 ∧ ∃ a, A.init a ∧ Run A a p.2 (abs p.1) := by
  induction hp with
  | @init p hs =>
    obtain ⟨hs, hp⟩ := hs
    obtain ⟨hinv, hinit⟩ := h.start p.1 hs
    refine ⟨hinv, abs p.1, hinit, ?_⟩
    rw [hp]
    exact .nil _
  | @step p q l _ hst ih =>
    obtain ⟨hinv, a, ha, hrun⟩ := ih
    obtain ⟨hst, hq⟩ := hst
    obtain ⟨hinv', hmore⟩ := h.step p.1 l q.1 hinv (hrun.reachable (.init ha)) hst
    refine ⟨hinv', a, ha, ?_⟩
    rw [hq]
    exact hrun.append hmore

theorem Refines.reachable (h : Refines S A inv shows abs) {s : σ} (hs : Reachable S s) :
    inv s ∧ Reachable A (abs s) := by
  obtain ⟨shown, hp⟩ := @Reachable.observed _ _ _ S [] (fun m s l t => m ++ shows s l t) s hs
  obtain ⟨hinv, a, ha, hrun⟩ := h.run hp
  exact ⟨hinv, hrun.reachable (.init ha)⟩

end Refines

end Transitions
