import IotLab.Library.InternetChecksum
import IotLab.LoadBalancer.Checksum

set_option autoImplicit false

namespace LoadBalancer
open HostMemory InternetChecksum

def FoldsOnce (bytes : List Byte) : Prop :=
  wordTotal bytes % 65536 + wordTotal bytes / 65536 < 65536

instance (bytes : List Byte) : Decidable (FoldsOnce bytes) :=
  inferInstanceAs (Decidable (wordTotal bytes % 65536 + wordTotal bytes / 65536 < 65536))

def maxChecksumLength : Nat := 12 + 65535

section Value
variable {l : List Byte}

theorem checksumSum_toNat (l : List Byte) (sum : BitVec 32) :
    (checksumSum l sum).toNat = (sum.toNat + wordTotal l) % 2 ^ 32 := by
  induction l, sum using checksumSum.induct with
  | case1 a b rest sum ih =>
    rw [checksumSum, ih, BitVec.toNat_add, BitVec.toNat_setWidth]
    simp only [wordTotal, hostWords, List.map_cons, List.sum_cons]
    have hw := (b ++ a : BitVec 16).isLt
    omega
  | case2 a sum =>
    have ha := a.isLt
    have hw : ((0 : Byte) ++ a : BitVec 16).toNat = a.toNat := by
      rw [append_byte_toNat]
      simp
    simp only [checksumSum, BitVec.toNat_add, BitVec.toNat_setWidth, wordTotal, hostWords,
      List.map_cons, List.map_nil, List.sum_cons, List.sum_nil, hw]
    omega
  | case3 sum =>
    have hlt := sum.isLt
    simp only [checksumSum, wordTotal, hostWords, List.map_nil, List.sum_nil]
    omega

theorem wordTotal_lt (h : l.length ≤ maxChecksumLength) : wordTotal l < 2 ^ 32 := by
  have hle := wordTotal_le l
  unfold maxChecksumLength at h
  omega

theorem checksum_toNat (h : l.length ≤ maxChecksumLength) :
    (checksum l).toNat = 65535 - (wordTotal l % 65536 + wordTotal l / 65536) % 65536 := by
  have hlt := wordTotal_lt h
  have hzero : (0 : BitVec 32).toNat = 0 := rfl
  have hsum : (checksumSum l 0).toNat = wordTotal l := by
    rw [checksumSum_toNat, hzero]
    omega
  have hfold : (checksumFold (checksumSum l 0)).toNat =
      wordTotal l % 65536 + wordTotal l / 65536 := by
    rw [checksumFold_toNat, hsum]
  have hchecksum : checksum l = (~~~checksumFold (checksumSum l 0)).setWidth 16 := rfl
  rw [hchecksum, BitVec.toNat_setWidth, BitVec.toNat_not, hfold]
  omega

theorem checksum_eq_rfc (h : l.length ≤ maxChecksumLength) :
    checksum l = rfcChecksum l ↔ FoldsOnce l := by
  have hlt := wordTotal_lt h
  have hle := @residue_le 65535 (wordTotal l) (by omega)
  rw [← BitVec.toNat_inj, checksum_toNat h, rfcChecksum_toNat, FoldsOnce]
  constructor
  · intro heq
    by_contra hcarry
    have hres : wordTotal l % 65536 + wordTotal l / 65536 - 65535 = residue 65535 (wordTotal l) :=
      residue_unique (by omega) (by omega) (by omega) (by omega)
    omega
  · intro hcarry
    have hres : wordTotal l % 65536 + wordTotal l / 65536 = residue 65535 (wordTotal l) :=
      residue_unique (by omega) (by omega) (by omega) (by omega)
    omega

theorem verifies_filled {off : Nat} (heven : off % 2 = 0) (hin : off + 2 ≤ l.length)
    (h : l.length ≤ maxChecksumLength) :
    Verifies (setWord l off (checksum (setWord l off 0))) ↔ FoldsOnce (setWord l off 0) := by
  have hlen := setWord_length hin 0
  have hlt := wordTotal_lt (hlen.trans_le h)
  rw [verifies_iff, wordTotal_setWord heven hin, checksum_toNat (hlen.trans_le h), FoldsOnce]
  constructor
  · rintro ⟨-, hmod⟩
    omega
  · intro hcarry
    rw [Nat.mod_eq_of_lt hcarry]
    refine ⟨by omega, ?_⟩
    have hmul (S : Nat) (hS : S % 65536 + S / 65536 < 65536) :
        S + (65535 - (S % 65536 + S / 65536)) = 65535 * (S / 65536 + 1) := by omega
    rw [hmul _ hcarry, Nat.mul_mod_right]

end Value

end LoadBalancer
