import IotLab.Library.HostMemory

set_option autoImplicit false

namespace MemoryStream
open HostMemory

/-- The operands are promoted to `int`. -/
def byteSwap2 (inData : BitVec 16) : BitVec 16 :=
  (inData.setWidth 32 >>> 8 ||| inData.setWidth 32 <<< 8).setWidth 16

def byteSwap4 (inData : BitVec 32) : BitVec 32 :=
  (inData >>> 24 &&& 0x000000ff#32) |||
  (inData >>> 8 &&& 0x0000ff00#32) |||
  (inData <<< 8 &&& 0x00ff0000#32) |||
  (inData <<< 24 &&& 0xff000000#32)

def byteSwap8 (inData : BitVec 64) : BitVec 64 :=
  (inData >>> 56 &&& 0x00000000000000ff#64) |||
  (inData >>> 40 &&& 0x000000000000ff00#64) |||
  (inData >>> 24 &&& 0x0000000000ff0000#64) |||
  (inData >>> 8 &&& 0x00000000ff000000#64) |||
  (inData <<< 8 &&& 0x000000ff00000000#64) |||
  (inData <<< 24 &&& 0x0000ff0000000000#64) |||
  (inData <<< 40 &&& 0x00ff000000000000#64) |||
  (inData <<< 56 &&& 0xff00000000000000#64)

inductive Size where
  | one | two | four | eight
  deriving DecidableEq, Repr

@[reducible] def Size.bits : Size → Nat
  | .one => 8
  | .two => 16
  | .four => 32
  | .eight => 64

def Size.bytes : Size → Nat
  | .one => 1
  | .two => 2
  | .four => 4
  | .eight => 8

def byteSwap : (z : Size) → BitVec z.bits → BitVec z.bits
  | .one, inData => inData
  | .two, inData => byteSwap2 inData
  | .four, inData => byteSwap4 inData
  | .eight, inData => byteSwap8 inData

def bytesOf : (z : Size) → BitVec z.bits → List Byte
  | .one, v => [v]
  | .two, v => bytes16 v
  | .four, v => bytes32 v
  | .eight, v => bytes64 v

def valueOf : (z : Size) → List Byte → BitVec z.bits
  | .one, bs => bs.getD 0 0
  | .two, bs => bs.getD 1 0 ++ bs.getD 0 0
  | .four, bs => word32 bs
  | .eight, bs => word64 bs

section Bytes
variable {z : Size}

@[simp] theorem bytesOf_length (v : BitVec z.bits) : (bytesOf z v).length = z.bytes := by
  cases z <;> rfl

@[simp] theorem valueOf_bytesOf (v : BitVec z.bits) : valueOf z (bytesOf z v) = v := by
  cases z with
  | one => rfl
  | two => exact bytes16_append v
  | four => exact word32_bytes32 v
  | eight => exact word64_bytes64 v

theorem bytesOf_injective {v v' : BitVec z.bits} (h : bytesOf z v = bytesOf z v') : v = v' := by
  rw [← valueOf_bytesOf v, h, valueOf_bytesOf]

end Bytes

def octet {w : Nat} (x : BitVec w) (c : Nat) : Byte := x.extractLsb' (8 * c) 8

section Octets
variable {w b c k : Nat} {x : BitVec w}

theorem octet_or (x y : BitVec w) (c : Nat) : octet (x ||| y) c = octet x c ||| octet y c :=
  BitVec.extractLsb'_or

theorem mask_getLsbD {r : Nat} (hr : r < 8) (hc : 8 * c + 8 ≤ w) :
    (255#w <<< (8 * b)).getLsbD (8 * c + r) = decide (c = b) := by
  rw [BitVec.getLsbD_shiftLeft, BitVec.getLsbD_ofNat, show 255 = 2 ^ 8 - 1 from rfl,
    Nat.testBit_two_pow_sub_one]
  simp only [← Bool.decide_and, ← decide_not, decide_eq_decide]
  omega

theorem octet_mask (hc : 8 * c + 8 ≤ w) :
    octet (x &&& 255#w <<< (8 * b)) c = if c = b then octet x c else 0 := by
  refine BitVec.eq_of_getLsbD_eq fun r hr => ?_
  simp only [octet, BitVec.getLsbD_extractLsb', BitVec.getLsbD_and, mask_getLsbD hr hc]
  split <;> rename_i heq <;> simp [heq]

theorem octet_right (x : BitVec w) (k c : Nat) : octet (x >>> (8 * k)) c = octet x (c + k) := by
  refine BitVec.eq_of_getLsbD_eq fun r hr => ?_
  simp only [octet, BitVec.getLsbD_extractLsb', BitVec.getLsbD_ushiftRight]
  rw [show 8 * k + (8 * c + r) = 8 * (c + k) + r by omega]

theorem octet_left (hc : 8 * c + 8 ≤ w) :
    octet (x <<< (8 * k)) c = if k ≤ c then octet x (c - k) else 0 := by
  refine BitVec.eq_of_getLsbD_eq fun r hr => ?_
  simp only [octet, BitVec.getLsbD_extractLsb', BitVec.getLsbD_shiftLeft]
  split
  · rw [show 8 * c + r - 8 * k = 8 * (c - k) + r by omega]
    simp [show 8 * c + r < w by omega, show ¬8 * c + r < 8 * k by omega]
  · simp [show 8 * c + r < 8 * k by omega]

theorem octet_part {n : Nat} (hc : 8 * c + 8 ≤ n) :
    octet (x.extractLsb' (8 * k) n) c = octet x (k + c) := by
  refine BitVec.eq_of_getLsbD_eq fun r hr => ?_
  simp only [octet, BitVec.getLsbD_extractLsb']
  rw [show 8 * k + (8 * c + r) = 8 * (k + c) + r by omega]
  simp [show 8 * c + r < n by omega]

theorem octet_setWidth {n : Nat} (hc : 8 * c + 8 ≤ n) : octet (x.setWidth n) c = octet x c := by
  refine BitVec.eq_of_getLsbD_eq fun r hr => ?_
  simp only [octet, BitVec.getLsbD_extractLsb', BitVec.getLsbD_setWidth]
  simp [show 8 * c + r < n by omega]

theorem octet_beyond (hc : w ≤ 8 * c) : octet x c = 0 := by
  refine BitVec.eq_of_getLsbD_eq fun r hr => ?_
  simp [octet, BitVec.getLsbD_of_ge x (8 * c + r) (by omega)]

end Octets

theorem bytes16_byteSwap2 (v : BitVec 16) : bytes16 (byteSwap2 v) = (bytes16 v).reverse := by
  have hswap : byteSwap2 v =
      (v.setWidth 32 >>> (8 * 1) ||| v.setWidth 32 <<< (8 * 1)).setWidth 16 := rfl
  have hbytes (x : BitVec 16) : bytes16 x = [octet x 0, octet x 1] := rfl
  rw [hbytes, hbytes, hswap]
  simp (disch := decide) only [octet_or, octet_right, octet_left, octet_setWidth]
  simp [octet_beyond]

theorem bytes32_byteSwap4 (v : BitVec 32) : bytes32 (byteSwap4 v) = (bytes32 v).reverse := by
  have hswap : byteSwap4 v =
      (v >>> (8 * 3) &&& 255#32 <<< (8 * 0)) ||| (v >>> (8 * 1) &&& 255#32 <<< (8 * 1)) |||
      (v <<< (8 * 1) &&& 255#32 <<< (8 * 2)) ||| (v <<< (8 * 3) &&& 255#32 <<< (8 * 3)) := rfl
  have hbytes (x : BitVec 32) : bytes32 x = [octet x 0, octet x 1, octet x 2, octet x 3] := rfl
  rw [hbytes, hbytes, hswap]
  simp (disch := decide) only [octet_or, octet_mask, octet_right, octet_left]
  simp

theorem bytes64_eq (v : BitVec 64) : bytes64 v = [octet v 0, octet v 1, octet v 2, octet v 3,
    octet v 4, octet v 5, octet v 6, octet v 7] := by
  have hparts : bytes64 v =
      [octet (v.extractLsb' (8 * 0) 32) 0, octet (v.extractLsb' (8 * 0) 32) 1,
        octet (v.extractLsb' (8 * 0) 32) 2, octet (v.extractLsb' (8 * 0) 32) 3,
        octet (v.extractLsb' (8 * 4) 32) 0, octet (v.extractLsb' (8 * 4) 32) 1,
        octet (v.extractLsb' (8 * 4) 32) 2, octet (v.extractLsb' (8 * 4) 32) 3] := rfl
  rw [hparts]
  simp (disch := decide) only [octet_part]

theorem bytes64_byteSwap8 (v : BitVec 64) : bytes64 (byteSwap8 v) = (bytes64 v).reverse := by
  have hswap : byteSwap8 v =
      (v >>> (8 * 7) &&& 255#64 <<< (8 * 0)) ||| (v >>> (8 * 5) &&& 255#64 <<< (8 * 1)) |||
      (v >>> (8 * 3) &&& 255#64 <<< (8 * 2)) ||| (v >>> (8 * 1) &&& 255#64 <<< (8 * 3)) |||
      (v <<< (8 * 1) &&& 255#64 <<< (8 * 4)) ||| (v <<< (8 * 3) &&& 255#64 <<< (8 * 5)) |||
      (v <<< (8 * 5) &&& 255#64 <<< (8 * 6)) ||| (v <<< (8 * 7) &&& 255#64 <<< (8 * 7)) := rfl
  rw [bytes64_eq, bytes64_eq, hswap]
  simp (disch := decide) only [octet_or, octet_mask, octet_right, octet_left]
  simp

theorem word64_toNat (bs : List Byte) :
    (word64 bs).toNat = (word32 bs).toNat + 2 ^ 32 * (word32 (bs.drop 4)).toNat := by
  rw [word64, BitVec.toNat_append, Nat.shiftLeft_eq, Nat.mul_comm,
    ← Nat.two_pow_add_eq_or_of_lt (word32 bs).isLt, Nat.add_comm]

theorem byteSwap8_high {v : BitVec 64} (hv : v.toNat < 2 ^ 32) :
    (byteSwap8 v).toNat % 2 ^ 32 = 0 ∧ (v.toNat ≠ 0 → 2 ^ 32 ≤ (byteSwap8 v).toNat) := by
  have hvalue : v.toNat = (word64 (bytes64 v)).toNat := by rw [word64_bytes64]
  have hswapped : (byteSwap8 v).toNat = (word64 (bytes64 v).reverse).toNat := by
    rw [← bytes64_byteSwap8, word64_bytes64]
  rw [bytes64_eq, word64_toNat, word32_toNat, word32_toNat] at hvalue hswapped
  simp only [List.reverse_cons, List.reverse_nil, List.nil_append, List.cons_append,
    List.getD_cons_zero, List.getD_cons_succ, List.drop_succ_cons, List.drop_zero]
    at hvalue hswapped
  have h4 : (octet v 4).toNat = 0 := by omega
  have h5 : (octet v 5).toNat = 0 := by omega
  have h6 : (octet v 6).toNat = 0 := by omega
  have h7 : (octet v 7).toNat = 0 := by omega
  rw [h4, h5, h6, h7] at hvalue hswapped
  omega

theorem bytesOf_byteSwap (z : Size) (v : BitVec z.bits) :
    bytesOf z (byteSwap z v) = (bytesOf z v).reverse := by
  cases z with
  | one => rfl
  | two => exact bytes16_byteSwap2 v
  | four => exact bytes32_byteSwap4 v
  | eight => exact bytes64_byteSwap8 v

@[simp] theorem byteSwap_byteSwap (z : Size) (v : BitVec z.bits) :
    byteSwap z (byteSwap z v) = v := by
  refine bytesOf_injective ?_
  rw [bytesOf_byteSwap, bytesOf_byteSwap, List.reverse_reverse]

end MemoryStream
