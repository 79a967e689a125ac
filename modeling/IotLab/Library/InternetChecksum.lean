import IotLab.Library.HostMemory

/-!
The Internet checksum of RFC 1071: the end-around-carry sum of 16-bit words, which is the
representative of their plain sum modulo 65535, whatever the byte order; and the check that a
receiver makes of a block whose checksum field was filled in.
-/

set_option autoImplicit false

namespace InternetChecksum
open HostMemory

/-- Among the numbers up to `m` the one that is `s` modulo `m`; it is 0 for 0 only. -/
def residue (m s : Nat) : Nat := if s = 0 then 0 else (s - 1) % m + 1

section Residue
variable {m r s : Nat}

theorem residue_eq_zero : residue m s = 0 ↔ s = 0 := by
  unfold residue
  split <;> omega

theorem residue_le (hm : 0 < m) : residue m s ≤ m := by
  have hlt := Nat.mod_lt (s - 1) hm
  unfold residue
  split <;> omega

theorem residue_mod : residue m s % m = s % m := by
  unfold residue
  split
  · rename_i h
    rw [h]
  · rw [Nat.mod_add_mod]
    congr 1
    omega

theorem residue_unique (hm : 0 < m) (hr : r ≤ m) (hzero : r = 0 ↔ s = 0) (hmod : r % m = s % m) :
    r = residue m s := by
  have hle := @residue_le m s hm
  have hz := @residue_eq_zero m s
  rw [← @residue_mod m s] at hmod
  by_cases hrm : r = m
  · rw [hrm, Nat.mod_self] at hmod
    rcases Nat.lt_or_eq_of_le hle with hlt | heq
    · rw [Nat.mod_eq_of_lt hlt] at hmod
      omega
    · exact hrm.trans heq.symm
  · rw [Nat.mod_eq_of_lt (by omega)] at hmod
    rcases Nat.lt_or_eq_of_le hle with hlt | heq
    · rwa [Nat.mod_eq_of_lt hlt] at hmod
    · rw [heq, Nat.mod_self] at hmod
      omega

theorem residue_add (hm : 0 < m) (a b : Nat) : residue m (a + residue m b) = residue m (a + b) := by
  refine residue_unique hm (residue_le hm) ?_ ?_
  · have hb := @residue_eq_zero m b
    rw [residue_eq_zero]
    omega
  · rw [residue_mod, Nat.add_mod, residue_mod, ← Nat.add_mod]

theorem residue_mul (hm : 0 < m) (k a : Nat) :
    residue m (k * residue m a) = residue m (k * a) := by
  refine residue_unique hm (residue_le hm) ?_ ?_
  · rw [residue_eq_zero, Nat.mul_eq_zero, Nat.mul_eq_zero, residue_eq_zero]
  · rw [residue_mod, Nat.mul_mod, residue_mod, ← Nat.mul_mod]

theorem residue_eq_max (hm : 0 < m) : residue m s = m ↔ s ≠ 0 ∧ s % m = 0 := by
  constructor
  · intro h
    refine ⟨fun h0 => ?_, ?_⟩
    · rw [residue_eq_zero.mpr h0] at h
      omega
    · rw [← residue_mod, h, Nat.mod_self]
  · rintro ⟨hs, hmod⟩
    refine (residue_unique hm (le_refl m)
      ⟨fun h => absurd h (by omega), fun h => absurd h hs⟩ ?_).symm
    rw [hmod, Nat.mod_self]

end Residue

def addCarry (a b : BitVec 16) : BitVec 16 :=
  if a.toNat + b.toNat < 2 ^ 16 then a + b else a + b + 1

def carrySum (words : List (BitVec 16)) : BitVec 16 := words.foldr addCarry 0

/-- The 16-bit words of a block as a little-endian host holds them; an odd last byte counts as
if a zero byte followed. -/
def hostWords : List Byte → List (BitVec 16)
  | a :: b :: rest => (b ++ a) :: hostWords rest
  | [a] => [(0 : Byte) ++ a]
  | [] => []

def networkWords (bytes : List Byte) : List (BitVec 16) := (hostWords bytes).map swap16

/-- The value of RFC 1071, as the host holds it. -/
def rfcChecksum (bytes : List Byte) : BitVec 16 := ~~~carrySum (hostWords bytes)

def wordTotal (bytes : List Byte) : Nat := ((hostWords bytes).map BitVec.toNat).sum

def setWord (bytes : List Byte) (off : Nat) (v : BitVec 16) : List Byte :=
  bytes.take off ++ bytes16 v ++ bytes.drop (off + 2)

section Sum
variable {a b : BitVec 16}

theorem addCarry_toNat : (addCarry a b).toNat = residue 65535 (a.toNat + b.toNat) := by
  have ha := a.isLt
  have hb := b.isLt
  refine residue_unique (by omega) ?_ ?_ ?_
  · have := (addCarry a b).isLt
    omega
  all_goals
    unfold addCarry
    split
    · rename_i h
      rw [BitVec.toNat_add_of_lt h]
    · have hone : (1 : BitVec 16).toNat = 1 := rfl
      rw [BitVec.toNat_add, BitVec.toNat_add, hone]
      omega

theorem carrySum_toNat (words : List (BitVec 16)) :
    (carrySum words).toNat = residue 65535 (words.map BitVec.toNat).sum := by
  induction words with
  | nil => rfl
  | cons w rest ih =>
    rw [carrySum, List.foldr_cons, ← carrySum, addCarry_toNat, ih, residue_add (by omega)]
    rfl

theorem swap16_toNat (v : BitVec 16) : (swap16 v).toNat = v.toNat % 256 * 256 + v.toNat / 256 := by
  have hv := v.isLt
  rw [swap16, append_byte_toNat, BitVec.extractLsb'_toNat, BitVec.extractLsb'_toNat]
  simp only [Nat.shiftRight_eq_div_pow]
  omega

theorem swap16_residue (v : BitVec 16) : (swap16 v).toNat = residue 65535 (256 * v.toNat) := by
  have hv := v.isLt
  have hswap := swap16_toNat v
  refine residue_unique (by omega) (by omega) ?_ ?_
  · rw [hswap]
    omega
  · rw [hswap]
    omega

theorem swap16_addCarry (a b : BitVec 16) :
    swap16 (addCarry a b) = addCarry (swap16 a) (swap16 b) := by
  refine BitVec.eq_of_toNat_eq ?_
  rw [swap16_residue, addCarry_toNat, addCarry_toNat, residue_mul (by omega), Nat.mul_add,
    swap16_residue, swap16_residue, residue_add (by omega), Nat.add_comm (residue _ _),
    residue_add (by omega), Nat.add_comm]

/-- The sum of the words in network byte order is the sum in host byte order, swapped. -/
theorem carrySum_networkWords (bytes : List Byte) :
    carrySum (networkWords bytes) = swap16 (carrySum (hostWords bytes)) := by
  rw [networkWords]
  induction hostWords bytes with
  | nil => rfl
  | cons w rest ih =>
    rw [List.map_cons, carrySum, List.foldr_cons, ← carrySum, ih, ← swap16_addCarry]
    rfl

end Sum

section Total
variable {l : List Byte}

theorem hostWords_append {front : List Byte} (back : List Byte) (h : front.length % 2 = 0) :
    hostWords (front ++ back) = hostWords front ++ hostWords back := by
  induction front using hostWords.induct with
  | case1 a b rest ih =>
    simp only [List.cons_append, hostWords]
    rw [ih (by simp only [List.length_cons] at h; omega)]
  | case2 a => simp at h
  | case3 => rfl

theorem wordTotal_append {front : List Byte} (back : List Byte) (h : front.length % 2 = 0) :
    wordTotal (front ++ back) = wordTotal front + wordTotal back := by
  rw [wordTotal, hostWords_append back h, List.map_append, List.sum_append]
  rfl

theorem wordTotal_bytes16 (v : BitVec 16) : wordTotal (bytes16 v) = v.toNat := by
  rw [wordTotal, bytes16, hostWords, bytes16_append]
  simp [hostWords]

theorem wordTotal_le (l : List Byte) : wordTotal l ≤ 65535 * ((l.length + 1) / 2) := by
  induction l using hostWords.induct with
  | case1 a b rest ih =>
    have hw := (b ++ a : BitVec 16).isLt
    rw [wordTotal] at ih ⊢
    simp only [hostWords, List.map_cons, List.sum_cons, List.length_cons]
    omega
  | case2 a =>
    have hw := ((0 : Byte) ++ a : BitVec 16).isLt
    simp only [wordTotal, hostWords, List.map_cons, List.map_nil, List.sum_cons, List.sum_nil,
      List.length_singleton]
    omega
  | case3 => simp [wordTotal, hostWords]

theorem wordTotal_setWord {off : Nat} (heven : off % 2 = 0) (hin : off + 2 ≤ l.length)
    (v : BitVec 16) : wordTotal (setWord l off v) = wordTotal (setWord l off 0) + v.toNat := by
  have hfront : (l.take off).length = off := List.length_take_of_le (by omega)
  have hword (w : BitVec 16) : wordTotal (setWord l off w) =
      wordTotal (l.take off) + w.toNat + wordTotal (l.drop (off + 2)) := by
    rw [setWord, List.append_assoc, wordTotal_append _ (by omega), wordTotal_append _ (by simp),
      wordTotal_bytes16, Nat.add_assoc]
  rw [hword, hword]
  have hzero : (0 : BitVec 16).toNat = 0 := rfl
  omega

def Verifies (bytes : List Byte) : Prop := carrySum (networkWords bytes) = 0xffff

instance (bytes : List Byte) : Decidable (Verifies bytes) :=
  inferInstanceAs (Decidable (carrySum (networkWords bytes) = 0xffff))

theorem swap16_eq_ones {v : BitVec 16} : swap16 v = 0xffff ↔ v.toNat = 65535 := by
  have hv := v.isLt
  have hones : (0xffff : BitVec 16).toNat = 65535 := rfl
  rw [← BitVec.toNat_inj, swap16_toNat, hones]
  omega

theorem verifies_iff : Verifies l ↔ wordTotal l ≠ 0 ∧ wordTotal l % 65535 = 0 := by
  rw [Verifies, carrySum_networkWords, swap16_eq_ones, carrySum_toNat, residue_eq_max (by omega)]
  rfl

theorem setWord_length {off : Nat} (hin : off + 2 ≤ l.length) (v : BitVec 16) :
    (setWord l off v).length = l.length := by
  simp only [setWord, List.length_append, List.length_take, List.length_drop, bytes16_length]
  omega

theorem rfcChecksum_toNat : (rfcChecksum l).toNat = 65535 - residue 65535 (wordTotal l) := by
  rw [rfcChecksum, BitVec.toNat_not, carrySum_toNat]
  rfl

/-- A block filled in with the RFC value passes the receiver's check. -/
theorem verifies_rfc {off : Nat} (heven : off % 2 = 0) (hin : off + 2 ≤ l.length) :
    Verifies (setWord l off (rfcChecksum (setWord l off 0))) := by
  have hle := @residue_le 65535 (wordTotal (setWord l off 0)) (by omega)
  have hmod := @residue_mod 65535 (wordTotal (setWord l off 0))
  have hzero := @residue_eq_zero 65535 (wordTotal (setWord l off 0))
  rw [verifies_iff, wordTotal_setWord heven hin, rfcChecksum_toNat]
  generalize residue 65535 (wordTotal (setWord l off 0)) = r at hle hmod hzero
  constructor
  · omega
  · rw [Nat.add_mod, ← hmod, ← Nat.add_mod, Nat.add_sub_cancel' hle, Nat.mod_self]

end Total

end InternetChecksum
