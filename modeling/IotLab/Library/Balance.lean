import Mathlib.Algebra.Order.Monoid.Defs
import Mathlib.Data.Set.Defs
import Mathlib.Logic.Function.Basic
import Mathlib.Tactic.Common

/-!
Loads that are kept together by giving each new load to a least loaded place.
-/

set_option autoImplicit false

namespace Balance
variable {ι α : Type} [AddCommMonoid α] [LinearOrder α]

/-- No load of a place in `S` is more than `d` above that of another. -/
def Spread (S : Set ι) (d : α) (load : ι → α) : Prop :=
  ∀ i ∈ S, ∀ k ∈ S, load i ≤ load k + d

def Least (S : Set ι) (load : ι → α) (i : ι) : Prop := i ∈ S ∧ ∀ k ∈ S, load i ≤ load k

variable {S : Set ι} {d : α} {load : ι → α} {i : ι} [IsOrderedAddMonoid α]

theorem Spread.of_equal (hd : 0 ≤ d) (h : ∀ i ∈ S, ∀ k ∈ S, load i = load k) :
    Spread S d load := by
  intro i hi k hk
  rw [h i hi k hk]
  exact le_add_of_nonneg_right hd

theorem Spread.give [DecidableEq ι] (hd : 0 ≤ d) (h : Spread S d load) (hi : Least S load i) :
    Spread S d (Function.update load i (load i + d)) := by
  intro k hk m hm
  by_cases hki : k = i
  · by_cases hmi : m = i
    · rw [hki, hmi]
      exact le_add_of_nonneg_right hd
    · rw [hki, Function.update_self, Function.update_of_ne hmi]
      exact add_le_add_left (hi.2 m hm) d
  · rw [Function.update_of_ne hki]
    by_cases hmi : m = i
    · rw [hmi, Function.update_self]
      exact (h k hk i hi.1).trans (le_add_of_nonneg_right hd)
    · rw [Function.update_of_ne hmi]
      exact h k hk m hm

end Balance
