import Mathlib.Data.Fintype.Card
import Mathlib.Data.List.FinRange
import Mathlib.Logic.Function.Basic
import Mathlib.Tactic.Ring

/-!
Fixed-size tables indexed by `Fin n`, as C programs use them: an access through a signed
index that may be out of range and then faults, a search for the first slot with a property, a
loop over all slots, what no two slots hold, and the number of slots with a property.
-/

set_option autoImplicit false

namespace SlotTable

/-- A C array access: the index is a signed integer, and one outside the array faults. -/
def index {ε : Type} (fault : ε) (n : Nat) (i : Int) : Except ε (Fin n) :=
  if h : 0 ≤ i ∧ i < n then .ok ⟨i.toNat, by omega⟩ else .error fault

theorem index_eq_ok {ε : Type} {fault : ε} {n : Nat} {i : Int} {k : Fin n} :
    index fault n i = .ok k ↔ i = k := by
  unfold index
  split
  · rename_i h
    simp only [Except.ok.injEq, Fin.ext_iff]
    omega
  · rename_i h
    have hk := k.isLt
    simp only [reduceCtorEq, false_iff]
    omega

@[simp] theorem index_coe {ε : Type} {fault : ε} {n : Nat} (k : Fin n) :
    index fault n (k.val : Int) = .ok k := index_eq_ok.mpr rfl

/-- The first slot with a property, as a `for` loop with a `break` finds it. -/
def firstSlot {n : Nat} (p : Fin n → Bool) : Option (Fin n) := (List.finRange n).find? p

theorem firstSlot_eq_some {n : Nat} {p : Fin n → Bool} {j : Fin n} :
    firstSlot p = some j ↔ p j ∧ ∀ i, i < j → p i = false := by
  rw [firstSlot, ← Fin.find?_eq_find?_finRange, Fin.find?_eq_some_iff]

theorem firstSlot_eq_none {n : Nat} {p : Fin n → Bool} :
    firstSlot p = none ↔ ∀ i, p i = false := by
  rw [firstSlot, ← Fin.find?_eq_find?_finRange, Fin.find?_eq_none_iff]

theorem firstSlot_of_unique {n : Nat} {p : Fin n → Bool} {j : Fin n} (hj : p j)
    (h : ∀ i, p i → i = j) : firstSlot p = some j := by
  refine firstSlot_eq_some.mpr ⟨hj, fun i hi => ?_⟩
  cases hp : p i with
  | false => rfl
  | true => exact absurd (h i hp) (ne_of_lt hi)

def forSlots {n : Nat} {σ : Type} (visit : σ → Fin n → σ) (s : σ) : σ :=
  (List.finRange n).foldl visit s

/-- The loop rule: an invariant indexed by the number of slots already visited. -/
theorem forSlots_invariant {n : Nat} {σ : Type} (I : Nat → σ → Prop)
    (visit : σ → Fin n → σ) (s : σ) (hstart : I 0 s)
    (hvisit : ∀ t (k : Fin n), I k t → I (k + 1) (visit t k)) : I n (forSlots visit s) := by
  unfold forSlots
  induction n with
  | zero => simpa using hstart
  | succ n ih =>
    have h := ih (fun t k => visit t k.castSucc) (fun t k hk => hvisit t k.castSucc hk)
    rw [List.finRange_succ_last, List.foldl_append, List.foldl_map]
    exact hvisit _ (Fin.last n) h

theorem holder_unique {ι α : Type} (held held' : ι → α → Prop) (j : ι)
    (hother : ∀ i x, i ≠ j → held' i x → held i x) (hnew : ∀ i x, held' j x → ¬held i x)
    (h : ∀ i k x, held i x → held k x → i = k) {i k : ι} {x : α} (hi : held' i x)
    (hk : held' k x) : i = k := by
  by_cases hij : i = j
  · by_cases hkj : k = j
    · exact hij.trans hkj.symm
    · exact absurd (hother k x hkj hk) (hnew k x (hij ▸ hi))
  · by_cases hkj : k = j
    · exact absurd (hother i x hij hi) (hnew i x (hkj ▸ hk))
    · exact h i k x (hother i x hij hi) (hother k x hkj hk)

def count {n : Nat} (p : Fin n → Prop) [DecidablePred p] : Nat := (Finset.univ.filter p).card

section Count
variable {n : Nat} {p q r : Fin n → Prop} [DecidablePred p] [DecidablePred q] [DecidablePred r]

theorem count_congr (h : ∀ i, p i ↔ q i) : count p = count q := by
  unfold count
  rw [Finset.filter_congr (fun i _ => h i)]

theorem count_mono (h : ∀ i, p i → q i) : count p ≤ count q :=
  Finset.card_le_card (Finset.monotone_filter_right _ (fun i _ => h i))

theorem count_le : count p ≤ n := by
  have h := Finset.card_le_univ (Finset.univ.filter p)
  simpa [count] using h

theorem count_eq_zero : count p = 0 ↔ ∀ i, ¬p i := by
  simp [count, Finset.filter_eq_empty_iff]

theorem count_pos : 0 < count p ↔ ∃ i, p i := by
  simp [Nat.pos_iff_ne_zero, count_eq_zero]

theorem exists_not_of_count_lt (h : count p < n) : ∃ i, ¬p i := by
  by_contra hall
  have hall : ∀ i, p i := by simpa using hall
  have hn : count p = n := by simp [count, hall]
  omega

theorem count_lt_of_not {j : Fin n} (hj : ¬p j) : count p < n := by
  have h : Finset.univ.filter p ⊂ Finset.univ :=
    Finset.ssubset_univ_iff.mpr (fun h => hj (by simpa using h.ge (Finset.mem_univ j)))
  simpa [count] using Finset.card_lt_card h

theorem count_gain {j : Fin n} (hp : ¬p j) (hq : q j) (h : ∀ i, i ≠ j → (q i ↔ p i)) :
    count q = count p + 1 := by
  have hset : Finset.univ.filter q = insert j (Finset.univ.filter p) := by
    ext i
    by_cases hi : i = j
    · subst hi; simp [hq]
    · simp [hi, h i hi]
  rw [count, hset, Finset.card_insert_of_notMem (by simp [hp])]
  rfl

theorem count_split (h : ∀ i, p i ↔ q i ∨ r i) (hd : ∀ i, q i → ¬r i) :
    count p = count q + count r := by
  have hset : Finset.univ.filter p = Finset.univ.filter q ∪ Finset.univ.filter r := by
    ext i; simp [h i]
  rw [count, hset, Finset.card_union_of_disjoint]
  · rfl
  · rw [Finset.disjoint_filter]
    exact fun i _ => hd i

theorem count_below_succ (k : Fin n) :
    count (fun i => i.val < k.val + 1 ∧ p i) =
      count (fun i => i.val < k.val ∧ p i) + if p k then 1 else 0 := by
  split
  · rename_i hk
    refine count_gain (j := k) (by simp) (by simp [hk]) (fun i hi => ?_)
    have hne : i.val ≠ k.val := fun h => hi (Fin.ext h)
    constructor
    · intro h
      exact ⟨by omega, h.2⟩
    · intro h
      exact ⟨by omega, h.2⟩
  · rename_i hk
    rw [Nat.add_zero]
    refine count_congr (fun i => ⟨fun h => ?_, fun h => ⟨by omega, h.2⟩⟩)
    have hne : i.val ≠ k.val := fun hv => hk (by simpa [Fin.ext hv] using h.2)
    exact ⟨by omega, h.2⟩

theorem count_from (k : Fin n) :
    count (fun i => k.val ≤ i.val ∧ p i) =
      count (fun i => k.val + 1 ≤ i.val ∧ p i) + if p k then 1 else 0 := by
  split
  · rename_i hk
    refine count_gain (j := k) (by simp) (by simp [hk]) (fun i hi => ?_)
    have hne : i.val ≠ k.val := fun h => hi (Fin.ext h)
    constructor
    · intro h
      exact ⟨by omega, h.2⟩
    · intro h
      exact ⟨by omega, h.2⟩
  · rename_i hk
    rw [Nat.add_zero]
    refine count_congr (fun i => ⟨fun h => ?_, fun h => ⟨by omega, h.2⟩⟩)
    have hne : i.val ≠ k.val := fun hv => hk (by simpa [Fin.ext hv] using h.2)
    exact ⟨by omega, h.2⟩

end Count

end SlotTable
