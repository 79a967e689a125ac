import IotLab.MemoryStream.Stream

set_option autoImplicit false

namespace MemoryStream
open HostMemory

section Bytes
variable (v c : Byte) {h k : Nat}

theorem ofNat_two_pow_sub_one_getLsbD {w j : Nat} (hk : k ≤ w) :
    (BitVec.ofNat w (2 ^ k - 1)).getLsbD j = decide (j < k) := by
  rw [BitVec.getLsbD_ofNat, Nat.testBit_two_pow_sub_one]
  by_cases hj : j < k
  · simp [hj, show j < w by omega]
  · simp [hj]

theorem firstSegment (hh : h < 8) :
    (v &&& BitVec.ofNat 8 (2 ^ (8 - h) - 1)) <<< h = v <<< h := by
  refine BitVec.eq_of_getLsbD_eq fun j hj => ?_
  simp only [BitVec.getLsbD_shiftLeft, BitVec.getLsbD_and,
    ofNat_two_pow_sub_one_getLsbD (show 8 - h ≤ 8 by omega)]
  by_cases hjh : j < h
  · simp [hjh]
  · simp [show j - h < 8 - h by omega]

theorem secondSegment (hh : h < 8) :
    (v &&& ~~~(BitVec.ofNat 8 (2 ^ (8 - h) - 1))) >>> (8 - h) = v >>> (8 - h) := by
  refine BitVec.eq_of_getLsbD_eq fun j hj => ?_
  simp only [BitVec.getLsbD_ushiftRight, BitVec.getLsbD_and, BitVec.getLsbD_not,
    ofNat_two_pow_sub_one_getLsbD (show 8 - h ≤ 8 by omega)]
  by_cases hj8 : 8 - h + j < 8
  · simp [hj8]
  · rw [BitVec.getLsbD_of_ge v _ (by omega)]
    simp

theorem charToInt_getLsbD (signed : Bool) {j : Nat} (hj : j < 32) :
    (charToInt signed c).getLsbD j = if j < 8 then c.getLsbD j else signed && c.msb := by
  unfold charToInt
  split
  · rename_i hsigned
    simp only [BitVec.getLsbD_signExtend, hj, hsigned, decide_true, Bool.true_and]
  · rename_i hsigned
    simp only [BitVec.getLsbD_setWidth, hj, decide_true, Bool.true_and, hsigned, Bool.false_and]
    split
    · rfl
    · exact BitVec.getLsbD_of_ge c j (by omega)

def lowPart (signed : Bool) (h : Nat) (c : Byte) : Byte :=
  if signed then c.sshiftRight h else c >>> h

theorem lowPart_getLsbD (signed : Bool) {j : Nat} (hj : j < 8) :
    (lowPart signed h c).getLsbD j = if h + j < 8 then c.getLsbD (h + j) else signed && c.msb := by
  unfold lowPart
  split
  · rename_i hsigned
    simp [BitVec.getLsbD_sshiftRight, hsigned, show ¬8 ≤ j by omega]
  · rename_i hsigned
    simp only [BitVec.getLsbD_ushiftRight, hsigned, Bool.false_and]
    split
    · rfl
    · exact BitVec.getLsbD_of_ge c _ (by omega)

theorem charToInt_lowPart (signed : Bool) (hh : h < 8) :
    ((charToInt signed c &&& ~~~(BitVec.ofNat 32 (2 ^ h - 1))).sshiftRight h).setWidth 8 =
      lowPart signed h c := by
  refine BitVec.eq_of_getLsbD_eq fun j hj => ?_
  have hhj : h + j < 32 := by omega
  rw [lowPart_getLsbD c signed hj]
  simp only [BitVec.getLsbD_setWidth, BitVec.getLsbD_sshiftRight, BitVec.getLsbD_and,
    BitVec.getLsbD_not, ofNat_two_pow_sub_one_getLsbD (show h ≤ 32 by omega), hj, hhj,
    charToInt_getLsbD c signed hhj]
  simp [show ¬32 ≤ j by omega]

theorem charToInt_highPart (signed : Bool) (r : Byte) {f : Nat} (hk : k ≤ 8) :
    (((charToInt signed c &&& BitVec.ofNat 32 (2 ^ k - 1)) <<< f) ||| r.setWidth 32).setWidth 8 =
      ((c &&& BitVec.ofNat 8 (2 ^ k - 1)) <<< f) ||| r := by
  refine BitVec.eq_of_getLsbD_eq fun j hj => ?_
  simp only [BitVec.getLsbD_setWidth, BitVec.getLsbD_or, BitVec.getLsbD_shiftLeft,
    BitVec.getLsbD_and, ofNat_two_pow_sub_one_getLsbD (show k ≤ 32 by omega),
    ofNat_two_pow_sub_one_getLsbD hk, charToInt_getLsbD c signed (show j - f < 32 by omega), hj]
  simp [show j - f < 8 by omega, show j < 32 by omega]

theorem charToInt_within (signed : Bool) {n : Nat} (hn : h + n < 8) :
    ((charToInt signed c &&& ((BitVec.ofNat 32 (2 ^ (h + n) - 1) &&&
      ~~~(BitVec.ofNat 32 (2 ^ h - 1))).setWidth 8).setWidth 32) >>> h).setWidth 8 =
      (c >>> h) &&& BitVec.ofNat 8 (2 ^ n - 1) := by
  refine BitVec.eq_of_getLsbD_eq fun j hj => ?_
  have hhj : h + j < 32 := by omega
  simp only [BitVec.getLsbD_setWidth, BitVec.getLsbD_ushiftRight, BitVec.getLsbD_and,
    BitVec.getLsbD_not, ofNat_two_pow_sub_one_getLsbD (show h + n ≤ 32 by omega),
    ofNat_two_pow_sub_one_getLsbD (show h ≤ 32 by omega),
    ofNat_two_pow_sub_one_getLsbD (show n ≤ 8 by omega), hj, hhj,
    charToInt_getLsbD c signed hhj]
  by_cases hjn : j < n
  · simp [hjn, show h + j < 8 by omega]
  · simp [hjn]

/-- The bits of a field taken from two bytes: those of the first byte from `h` on, then those of
the second byte, with the sign of the first over all of them. -/
theorem across_getLsbD (signed : Bool) (c' : Byte) {n j : Nat} (hn8 : n ≤ 8)
    (hj : j < 8) :
    (((c' &&& BitVec.ofNat 8 (2 ^ (n - (8 - h)) - 1)) <<< (8 - h)) |||
        lowPart signed h c).getLsbD j =
      if j < 8 - h then c.getLsbD (h + j)
      else decide (j < n) && c'.getLsbD (j - (8 - h)) || signed && c.msb := by
  simp only [BitVec.getLsbD_or, BitVec.getLsbD_shiftLeft, BitVec.getLsbD_and,
    ofNat_two_pow_sub_one_getLsbD (show n - (8 - h) ≤ 8 by omega), lowPart_getLsbD c signed hj, hj]
  by_cases hlow : j < 8 - h
  · simp [hlow, show h + j < 8 by omega]
  · rw [if_neg hlow, if_neg (show ¬h + j < 8 by omega)]
    simp only [hlow, decide_true, decide_false, Bool.not_false, Bool.true_and,
      Bool.and_comm (c'.getLsbD _)]
    rw [decide_eq_decide.mpr (show j - (8 - h) < n - (8 - h) ↔ j < n by omega)]

end Bytes

theorem bitHead_across {h n : Nat} (hn : 8 ≤ h + n) (hlt : h + n < 16) :
    Fin.ofNat 8 ((h + n) % 8) = ⟨h + n - 8, by omega⟩ := by
  refine Fin.ext ?_
  simp only [Fin.ofNat]
  omega

namespace OutputMemoryStream
variable {s : OutputMemoryStream} {v : Byte} {n : Nat}

def mixed (s : OutputMemoryStream) (v : Byte) : Byte := s.mBuffer s.mHead ||| v <<< s.mBitHead.val

theorem writeBits_within (hn : s.mBitHead + n < 8) :
    s.writeBits v n = if s.mHead < s.mCapacity then
      .ok { s with
        mBuffer := Function.update s.mBuffer s.mHead (s.mixed v)
        mBitHead := ⟨s.mBitHead + n, hn⟩ }
      else .error .outOfBounds := by
  have hmod : (s.mBitHead + n) % 2 ^ 16 = s.mBitHead + n := Nat.mod_eq_of_lt (by omega)
  have hbit : Fin.ofNat 8 (s.mBitHead + n) = ⟨s.mBitHead + n, hn⟩ :=
    Fin.ext (Nat.mod_eq_of_lt hn)
  simp only [writeBits, hmod, if_neg (show ¬s.mBitHead + n > 7 by omega), orByte, setByte, hbit]
  split <;> rfl

theorem writeBits_across (hn : 8 ≤ s.mBitHead + n) (hn8 : n ≤ 8) (hhead : s.mHead + 1 < 2 ^ 32) :
    s.writeBits v n = if s.mHead + 1 < (s.reserve (s.mHead + 1)).mCapacity then
      .ok { s.reserve (s.mHead + 1) with
        mBuffer := Function.update (Function.update s.mBuffer s.mHead (s.mixed v)) (s.mHead + 1)
          (v >>> (8 - s.mBitHead.val))
        mHead := s.mHead + 1
        mBitHead := ⟨s.mBitHead + n - 8, by omega⟩ }
      else .error .outOfBounds := by
  have hmod : (s.mBitHead + n) % 2 ^ 16 = s.mBitHead + n := Nat.mod_eq_of_lt (by omega)
  simp only [writeBits, hmod, if_pos (show s.mBitHead + n > 7 by omega), u32_of_lt hhead, orByte,
    setByte, reserve_mBuffer, reserve_mHead, reserve_mBitHead, firstSegment v s.mBitHead.isLt,
    secondSegment v s.mBitHead.isLt, bitHead_across hn (by omega)]
  by_cases hcap : s.mHead + 1 < (s.reserve (s.mHead + 1)).mCapacity
  · rw [if_pos hcap, if_pos (show s.mHead < (s.reserve (s.mHead + 1)).mCapacity by omega)]
    simp only [bind, Except.bind, if_pos hcap]
    rfl
  · rw [if_neg hcap]
    split
    · simp only [bind, Except.bind, if_neg hcap]
    · rfl

/-- A field that reaches the next byte of a buffer that holds the byte at the head: the test of
`WriteBits` never lets it grow. -/
theorem writeBits_across_full (hn : 8 ≤ s.mBitHead + n) (hn8 : n ≤ 8)
    (hhead : s.mHead < s.mCapacity) (hcap : s.mCapacity < 2 ^ 32) :
    s.writeBits v n = if s.mHead + 1 < s.mCapacity then
      .ok ⟨Function.update (Function.update s.mBuffer s.mHead (s.mixed v)) (s.mHead + 1)
        (v >>> (8 - s.mBitHead.val)), s.mHead + 1, s.mCapacity,
        ⟨s.mBitHead + n - 8, by omega⟩⟩
      else .error .outOfBounds := by
  have hsame : s.reserve (s.mHead + 1) = s := if_neg (by omega)
  rw [writeBits_across hn hn8 (by omega), hsame]

end OutputMemoryStream

namespace InputMemoryStream
variable {s : InputMemoryStream} {n : Nat} {c c' : Byte}

theorem byteAt_eq_ok {i : Nat} : s.byteAt i = .ok c ↔ s.mBuffer[i]? = some c := by
  unfold byteAt
  cases s.mBuffer[i]? <;> simp

theorem readBits_within (signed : Bool) (hn : s.mBitHead + n < 8)
    (hc : s.mBuffer[s.mHead]? = some c) :
    s.readBits signed n = .ok ((c >>> s.mBitHead.val) &&& BitVec.ofNat 8 (2 ^ n - 1),
      { s with mBitHead := ⟨s.mBitHead + n, hn⟩ }) := by
  have hmod : (s.mBitHead + n) % 2 ^ 16 = s.mBitHead + n := Nat.mod_eq_of_lt (by omega)
  have hbit : Fin.ofNat 8 (s.mBitHead + n) = ⟨s.mBitHead + n, hn⟩ :=
    Fin.ext (Nat.mod_eq_of_lt hn)
  simp only [readBits, hmod, if_neg (show ¬s.mBitHead + n > 7 by omega),
    if_pos (show s.mBitHead + n < 32 by omega), byteAt_eq_ok.mpr hc, bind, Except.bind,
    charToInt_within c signed hn, hbit]

theorem readBits_across (signed : Bool) (hn : 8 ≤ s.mBitHead + n) (hn8 : n ≤ 8)
    (hhead : s.mHead + 1 < 2 ^ 32) (hc : s.mBuffer[s.mHead]? = some c)
    (hc' : s.mBuffer[s.mHead + 1]? = some c') :
    s.readBits signed n =
      .ok (((c' &&& BitVec.ofNat 8 (2 ^ (n - (8 - s.mBitHead.val)) - 1)) <<<
          (8 - s.mBitHead.val)) ||| lowPart signed s.mBitHead.val c,
        { s with mHead := s.mHead + 1, mBitHead := ⟨s.mBitHead + n - 8, by omega⟩ }) := by
  have hmod : (s.mBitHead + n) % 2 ^ 16 = s.mBitHead + n := Nat.mod_eq_of_lt (by omega)
  have hsecond : (n - (8 - s.mBitHead.val)) % 2 ^ 8 = n - (8 - s.mBitHead.val) :=
    Nat.mod_eq_of_lt (by omega)
  simp only [readBits, hmod, if_pos (show s.mBitHead + n > 7 by omega), u32_of_lt hhead, hsecond,
    if_pos (show n - (8 - s.mBitHead.val) < 32 by omega), byteAt_eq_ok.mpr hc,
    byteAt_eq_ok.mpr hc', bind, Except.bind, charToInt_lowPart c signed s.mBitHead.isLt,
    charToInt_highPart c' signed _ (show n - (8 - s.mBitHead.val) ≤ 8 by omega),
    bitHead_across hn (by omega)]

section Iff
variable {signed : Bool} {v : Byte} {s' : InputMemoryStream}

theorem byteAt_eq_error {i : Nat} (h : s.mBuffer[i]? = none) :
    s.byteAt i = .error .outOfBounds := by
  simp only [byteAt, h]

theorem readBits_within_eq_ok (hn : s.mBitHead + n < 8) : s.readBits signed n = .ok (v, s') ↔
    ∃ c, s.mBuffer[s.mHead]? = some c ∧
      v = (c >>> s.mBitHead.val) &&& BitVec.ofNat 8 (2 ^ n - 1) ∧
      s' = { s with mBitHead := ⟨s.mBitHead + n, hn⟩ } := by
  cases hc : s.mBuffer[s.mHead]? with
  | some c =>
    rw [readBits_within signed hn hc]
    simp only [Except.ok.injEq, Prod.mk.injEq, Option.some.injEq, exists_eq_left']
    exact ⟨fun h => ⟨h.1.symm, h.2.symm⟩, fun h => ⟨h.1.symm, h.2.symm⟩⟩
  | none =>
    have hmod : (s.mBitHead + n) % 2 ^ 16 = s.mBitHead + n := Nat.mod_eq_of_lt (by omega)
    simp only [readBits, hmod, if_neg (show ¬s.mBitHead + n > 7 by omega),
      if_pos (show s.mBitHead + n < 32 by omega), byteAt_eq_error hc, bind, Except.bind]
    simp

theorem readBits_across_eq_ok (hn : 8 ≤ s.mBitHead + n) (hn8 : n ≤ 8)
    (hhead : s.mHead + 1 < 2 ^ 32) : s.readBits signed n = .ok (v, s') ↔
      ∃ c c', s.mBuffer[s.mHead]? = some c ∧ s.mBuffer[s.mHead + 1]? = some c' ∧
        v = ((c' &&& BitVec.ofNat 8 (2 ^ (n - (8 - s.mBitHead.val)) - 1)) <<<
          (8 - s.mBitHead.val)) ||| lowPart signed s.mBitHead.val c ∧
        s' = { s with mHead := s.mHead + 1, mBitHead := ⟨s.mBitHead + n - 8, by omega⟩ } := by
  have hmod : (s.mBitHead + n) % 2 ^ 16 = s.mBitHead + n := Nat.mod_eq_of_lt (by omega)
  have hsecond : (n - (8 - s.mBitHead.val)) % 2 ^ 8 = n - (8 - s.mBitHead.val) :=
    Nat.mod_eq_of_lt (by omega)
  cases hc : s.mBuffer[s.mHead]? with
  | none =>
    simp only [readBits, hmod, if_pos (show s.mBitHead + n > 7 by omega), hsecond,
      if_pos (show n - (8 - s.mBitHead.val) < 32 by omega), byteAt_eq_error hc, bind, Except.bind]
    simp
  | some c =>
    cases hc' : s.mBuffer[s.mHead + 1]? with
    | none =>
      simp only [readBits, hmod, if_pos (show s.mBitHead + n > 7 by omega), hsecond,
        if_pos (show n - (8 - s.mBitHead.val) < 32 by omega), u32_of_lt hhead,
        byteAt_eq_ok.mpr hc, byteAt_eq_error hc', bind, Except.bind]
      simp
    | some c' =>
      rw [readBits_across signed hn hn8 hhead hc hc']
      simp only [Except.ok.injEq, Prod.mk.injEq, Option.some.injEq, exists_eq_left',
        exists_and_left]
      exact ⟨fun h => ⟨h.1.symm, h.2.symm⟩, fun h => ⟨h.1.symm, h.2.symm⟩⟩

end Iff

end InputMemoryStream

end MemoryStream
