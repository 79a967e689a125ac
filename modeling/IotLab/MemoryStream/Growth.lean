import IotLab.MemoryStream.Stream

set_option autoImplicit false

namespace MemoryStream
open HostMemory

def grown (cap resultHead : Nat) : Nat :=
  if resultHead > cap then max (u32 (cap * 2)) resultHead else cap

theorem grown_lt {cap n : Nat} (hcap : cap < 2 ^ 32) (hn : n < 2 ^ 32) : grown cap n < 2 ^ 32 := by
  have hdouble : u32 (cap * 2) < 2 ^ 32 := Nat.mod_lt _ (by decide)
  unfold grown
  split <;> omega

theorem le_grown (cap n : Nat) : n ≤ grown cap n := by
  unfold grown
  split <;> omega

theorem le_grown_left (cap n : Nat) : cap ≤ grown cap n := by
  unfold grown
  split <;> omega

def capacityAfter (cap head : Nat) : List Nat → Nat
  | [] => cap
  | n :: sizes => capacityAfter (grown cap (head + n)) (head + n) sizes

namespace OutputMemoryStream
variable {s : OutputMemoryStream}

theorem reserve_grown (n : Nat) : (s.reserve n).mCapacity = grown s.mCapacity n :=
  reserve_mCapacity s n

theorem write_eq (hcap : s.mCapacity < 2 ^ 32) (data : List Byte) :
    s.write data = if s.mHead + data.length < 2 ^ 32 then
      .ok ⟨store s.mBuffer s.mHead data, s.mHead + data.length,
        grown s.mCapacity (s.mHead + data.length), s.mBitHead⟩
      else .error .outOfBounds := by
  split
  · rename_i hlt
    have hu : u32 (s.mHead + u32 data.length) = s.mHead + data.length := by
      rw [u32_of_lt (show data.length < 2 ^ 32 by omega), u32_of_lt hlt]
    simp only [write, hu, reserve_mHead, reserve_grown, if_pos (le_grown _ _), reserve_mBuffer,
      reserve_mBitHead]
  · rename_i hge
    have hroom : (s.reserve (u32 (s.mHead + u32 data.length))).mCapacity < 2 ^ 32 := by
      rw [reserve_grown]
      exact grown_lt hcap (Nat.mod_lt _ (by decide))
    simp only [write, reserve_mHead]
    rw [if_neg (by omega)]

theorem write_row (hcap : s.mCapacity < 2 ^ 32) (data : List Byte) (chunks : List (List Byte)) :
    (data :: chunks).foldlM write s = if s.mHead + (data :: chunks).flatten.length < 2 ^ 32 then
      .ok ⟨store s.mBuffer s.mHead (data :: chunks).flatten,
        s.mHead + (data :: chunks).flatten.length,
        capacityAfter s.mCapacity s.mHead ((data :: chunks).map List.length), s.mBitHead⟩
      else .error .outOfBounds := by
  induction chunks generalizing s data with
  | nil =>
    rw [List.foldlM_cons, write_eq hcap]
    simp only [List.flatten_cons, List.flatten_nil, List.append_nil]
    split <;> rfl
  | cons data' chunks ih =>
    rw [List.foldlM_cons, write_eq hcap]
    by_cases hlt : s.mHead + data.length < 2 ^ 32
    · rw [if_pos hlt]
      simp only [bind, Except.bind]
      rw [ih (grown_lt hcap hlt)]
      simp only [List.flatten_cons, List.length_append, Nat.add_assoc, store_append,
        List.map_cons, capacityAfter]
    · rw [if_neg hlt, if_neg (by rw [List.flatten_cons, List.length_append]; omega)]
      rfl

theorem write_chunks (chunks : List (List Byte)) (hcap : s.mCapacity < 2 ^ 32)
    (hhead : s.mHead ≤ s.mCapacity) :
    chunks.foldlM write s = if s.mHead + chunks.flatten.length < 2 ^ 32 then
      .ok ⟨store s.mBuffer s.mHead chunks.flatten, s.mHead + chunks.flatten.length,
        capacityAfter s.mCapacity s.mHead (chunks.map List.length), s.mBitHead⟩
      else .error .outOfBounds := by
  cases chunks with
  | nil =>
    rw [if_pos (by simpa using Nat.lt_of_le_of_lt hhead hcap)]
    simp [capacityAfter]
    rfl
  | cons data chunks => exact write_row hcap data chunks

end OutputMemoryStream

/-- The capacities of a stream: a first one doubled while the double fits into 32 bits, and the
exact length from then on. -/
def Grown (base head cap : Nat) : Prop :=
  (∃ k, cap = base * 2 ^ k ∧ head ≤ cap ∧ ∀ j < k, base * 2 ^ j < head) ∨
    cap = head ∧ ∃ j, base * 2 ^ j < head ∧ 2 ^ 32 ≤ base * 2 ^ (j + 1)

/-- The first capacity of the row that holds `head` bytes holds two more. -/
def Room (base head : Nat) : Prop :=
  ∃ k, (∀ j < k, base * 2 ^ j < head) ∧ head + 2 < base * 2 ^ k ∧ base * 2 ^ k < 2 ^ 32

section Grown
variable {base head cap : Nat}

theorem Room.lt (h : Room base head) : head + 3 < 2 ^ 32 := by
  obtain ⟨k, -, hroom, hlt⟩ := h
  omega

theorem Grown.step (h : Grown base head cap) (hbase : 32 ≤ base) (hcap : cap < 2 ^ 32) {n : Nat}
    (hn : n ≤ 32) : Grown base (head + n) (grown cap (head + n)) := by
  rcases h with ⟨k, hk, hle, hmin⟩ | ⟨rfl, j, hj, hbig⟩
  · have hpow : 32 ≤ base * 2 ^ k :=
      Nat.le_trans hbase (Nat.le_mul_of_pos_right _ (Nat.two_pow_pos k))
    unfold grown
    split
    · rename_i hgt
      by_cases hdouble : cap * 2 < 2 ^ 32
      · rw [u32_of_lt hdouble, Nat.max_eq_left (by omega)]
        refine .inl ⟨k + 1, by rw [hk, Nat.pow_succ, Nat.mul_assoc], by omega, fun j hj => ?_⟩
        rcases Nat.lt_succ_iff_lt_or_eq.mp hj with hlt | rfl
        · have := hmin j hlt
          omega
        · omega
      · have hwrap : u32 (cap * 2) = cap * 2 - 2 ^ 32 := by
          unfold u32
          omega
        rw [hwrap, Nat.max_eq_right (by omega)]
        have hpow : base * 2 ^ (k + 1) = cap * 2 := by rw [hk, Nat.pow_succ, Nat.mul_assoc]
        exact .inr ⟨rfl, k, by omega, by omega⟩
    · refine .inl ⟨k, hk, by omega, fun j hj => ?_⟩
      have := hmin j hj
      omega
  · have hwrap : u32 (cap * 2) < cap := by
      have hpow : base * 2 ^ (j + 1) = base * 2 ^ j * 2 := by rw [Nat.pow_succ, Nat.mul_assoc]
      unfold u32
      omega
    have hnext : grown cap (cap + n) = cap + n := by
      unfold grown
      split <;> omega
    exact .inr ⟨hnext, j, by omega, hbig⟩

theorem Grown.capacityAfter (h : Grown base head cap) (hbase : 32 ≤ base) {n : Nat}
    (hn : n ≤ 32) (f : Nat) (hcap : cap < 2 ^ 32) (hlt : head + n * f < 2 ^ 32) :
    Grown base (head + n * f) (capacityAfter cap head (List.replicate f n)) ∧
      MemoryStream.capacityAfter cap head (List.replicate f n) < 2 ^ 32 := by
  induction f generalizing head cap with
  | zero => exact ⟨h, hcap⟩
  | succ f ih =>
    rw [Nat.mul_succ] at hlt ⊢
    have hnext := ih (h.step hbase hcap hn) (grown_lt hcap (by omega)) (by omega)
    rw [Nat.add_assoc, Nat.add_comm n] at hnext
    exact hnext

theorem Grown.room_iff (h : Grown base head cap) (hcap : cap < 2 ^ 32) :
    head + 2 < cap ↔ Room base head := by
  have hmono {i j : Nat} (hij : i ≤ j) : base * 2 ^ i ≤ base * 2 ^ j :=
    Nat.mul_le_mul_left _ (Nat.pow_le_pow_right (by decide) hij)
  constructor
  · intro hroom
    rcases h with ⟨k, rfl, -, hmin⟩ | ⟨rfl, -⟩
    · exact ⟨k, hmin, hroom, hcap⟩
    · omega
  · rintro ⟨k, hmin, hroom, hlt⟩
    rcases h with ⟨k', rfl, hle, hmin'⟩ | ⟨rfl, j, hj, hbig⟩
    · rcases Nat.lt_trichotomy k k' with hkk | rfl | hkk
      · have := hmin' k hkk
        omega
      · exact hroom
      · have := hmin k' hkk
        omega
    · rcases le_or_gt k j with hkj | hkj
      · have := hmono hkj
        omega
      · have hle : base * 2 ^ (j + 1) ≤ base * 2 ^ k := hmono hkj
        omega

end Grown

end MemoryStream
