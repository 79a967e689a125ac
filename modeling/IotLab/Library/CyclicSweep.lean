import Mathlib.Tactic.Common

/-!
A cursor that goes round a ring of `n` places and stops at the first live one, again and again,
while which places are live may change: between two stops at one place every other place that
stays live is stopped at once, and once more for every time the cursor passed the first over.
-/

set_option autoImplicit false

namespace CyclicSweep

/-- How many rounds after place `c` the cursor comes to place `k`; a whole turn to `c` itself. -/
def rounds (n c k : Nat) : Nat := if c < k then k - c else k + n - c

/-- One sweep of the cursor, with the places that are live. -/
structure Sweep where
  start : Nat
  stop : Nat
  live : Nat → Prop

structure Sweep.First (n : Nat) (s : Sweep) : Prop where
  start_lt : s.start < n
  stop_lt : s.stop < n
  stop_live : s.live s.stop
  least : ∀ k < n, s.live k → rounds n s.start s.stop ≤ rounds n s.start k

def Sweep.Passes (n i : Nat) (s : Sweep) : Prop := rounds n s.start i < rounds n s.start s.stop

instance (n i : Nat) : DecidablePred (Sweep.Passes n i) := fun s =>
  inferInstanceAs (Decidable (rounds n s.start i < rounds n s.start s.stop))

/-- Sweeps of which each starts where the one before stopped. -/
inductive Chain (n : Nat) : Nat → List Sweep → Nat → Prop where
  | nil (c : Nat) : Chain n c [] c
  | cons {s : Sweep} {rest : List Sweep} {d : Nat} (hs : s.First n)
      (hrest : Chain n s.stop rest d) :
      Chain n s.start (s :: rest) d

section Turns
variable {n c d i k : Nat} {s : Sweep} {sweeps : List Sweep}

theorem rounds_self (n c : Nat) : rounds n c c = n := by
  simp [rounds]

theorem rounds_inj (hc : c < n) (hi : i < n) (hk : k < n) (h : rounds n c i = rounds n c k) :
    i = k := by
  unfold rounds at h
  split_ifs at h <;> omega

theorem rounds_add (hc : c < n) (hd : d < n) (hk : k < n) (h : rounds n c d < rounds n c k) :
    rounds n c d + rounds n d k = rounds n c k := by
  unfold rounds at h ⊢
  split_ifs at h ⊢ <;> omega

theorem rounds_turn (hc : c < n) (hd : d < n) (h : rounds n c k < rounds n c d) :
    rounds n c d + rounds n d k = n + rounds n c k := by
  unfold rounds at h ⊢
  split_ifs at h ⊢ <;> omega

def travelled (n : Nat) : List Sweep → Nat
  | [] => 0
  | s :: rest => rounds n s.start s.stop + travelled n rest

theorem Chain.turns_of_passed (h : Chain n c sweeps d) (hi : i < n)
    (hnot : ∀ s ∈ sweeps, s.stop ≠ i) :
    travelled n sweeps + rounds n d i = n * sweeps.countP (Sweep.Passes n i) + rounds n c i := by
  induction h with
  | nil => simp [travelled]
  | @cons s rest d hs _ ih =>
    have ih := ih (fun s' hs' => hnot s' (List.mem_cons_of_mem _ hs'))
    have hne : rounds n s.start s.stop ≠ rounds n s.start i := fun h =>
      hnot s (List.mem_cons_self ..) (rounds_inj hs.start_lt hs.stop_lt hi h)
    rw [travelled]
    rw [List.countP_cons]
    by_cases hp : s.Passes n i
    · have hturn := rounds_turn hs.start_lt hs.stop_lt hp
      rw [if_pos (by simpa using hp), Nat.mul_succ]
      omega
    · have hadd := rounds_add hs.start_lt hs.stop_lt hi (by unfold Sweep.Passes at hp; omega)
      rw [if_neg (by simpa using hp), Nat.add_zero]
      omega

theorem Chain.turns_of_live (h : Chain n c sweeps d) (hk : k < n)
    (hlive : ∀ s ∈ sweeps, s.live k) :
    travelled n sweeps + rounds n d k = n * sweeps.countP (·.stop = k) + rounds n c k := by
  induction h with
  | nil => simp [travelled]
  | @cons s rest d hs _ ih =>
    have ih := ih (fun s' hs' => hlive s' (List.mem_cons_of_mem _ hs'))
    have hle := hs.least k hk (hlive s (List.mem_cons_self ..))
    rw [travelled]
    rw [List.countP_cons]
    by_cases hstop : s.stop = k
    · have hself := rounds_self n k
      rw [if_pos (by simpa using hstop), Nat.mul_succ]
      rw [hstop] at ih ⊢
      omega
    · have hne : rounds n s.start s.stop ≠ rounds n s.start k := fun h =>
        hstop (rounds_inj hs.start_lt hs.stop_lt hk h)
      have hadd := rounds_add hs.start_lt hs.stop_lt hk (by omega)
      rw [if_neg (by simpa using hstop), Nat.add_zero]
      omega

/-- From one stop at place `i` to the next, place `k` is live: it is stopped at once more than
`i` is passed over. -/
theorem Chain.stops_between (h : Chain n i sweeps d) (hd : s.start = d) (hs : s.First n)
    (hstop : s.stop = i) (hnot : ∀ s' ∈ sweeps, s'.stop ≠ i) (hk : k < n) (hki : k ≠ i)
    (hlive : ∀ s' ∈ sweeps, s'.live k) (hlast : s.live k) :
    sweeps.countP (·.stop = k) = sweeps.countP (Sweep.Passes n i) + 1 := by
  have hi : i < n := hstop ▸ hs.stop_lt
  have hpassed := h.turns_of_passed hi hnot
  have hstops := h.turns_of_live hk hlive
  have hle := hs.least k hk hlast
  have hne : rounds n s.start s.stop ≠ rounds n s.start k := fun h =>
    hki ((rounds_inj hs.start_lt hs.stop_lt hk h).symm.trans hstop)
  have hadd := rounds_add hs.start_lt hs.stop_lt hk (by omega)
  rw [hd, hstop] at hadd
  rw [rounds_self] at hpassed
  have hmul : n * sweeps.countP (·.stop = k) = n * (sweeps.countP (Sweep.Passes n i) + 1) := by
    rw [Nat.mul_succ]
    omega
  exact Nat.eq_of_mul_eq_mul_left (by omega) hmul

end Turns

end CyclicSweep
