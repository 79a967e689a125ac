import IotLab.MemoryStream.Layout

set_option autoImplicit false

namespace MemoryStream
open HostMemory

def blockMem (block : List Byte) : Mem := fun i => block.getD i 0

namespace InputMemoryStream

def position (s : InputMemoryStream) : Nat := 8 * s.mHead + s.mBitHead

/-- The block is the `mCapacity` bytes of the stream, so a look behind them is a failure. -/
structure Bounded (s : InputMemoryStream) : Prop where
  length : s.mBuffer.length = s.mCapacity
  capacity : s.mCapacity < 2 ^ 32

def Extracts (signed : Bool) : InputMemoryStream → List Nat → Prop
  | _, [] => True
  | s, n :: ns => ∃ v s', s.readBits signed n = .ok (v, s') ∧
    v.toNat = fieldAt (blockMem s.mBuffer) s.position n ∧ s'.position = s.position + n ∧
    s'.mBuffer = s.mBuffer ∧ s'.mCapacity = s.mCapacity ∧ Extracts signed s' ns

end InputMemoryStream

/-- What a call at bit `p` needs where it reaches the end of the byte: a byte behind it, and, if
a signed byte is cut and its top bit is set, 8 bits of which those from the next byte are set. -/
def Readable (signed : Bool) (block : List Byte) (p n : Nat) : Prop :=
  8 ≤ p % 8 + n → p / 8 + 1 < block.length ∧
    (signed = true → 0 < p % 8 → bitAt (blockMem block) (8 * (p / 8) + 7) = true →
      n = 8 ∧ ∀ j < p % 8, bitAt (blockMem block) (8 * (p / 8 + 1) + j) = true)

def EachReadable (signed : Bool) (block : List Byte) : Nat → List Nat → Prop
  | _, [] => True
  | p, n :: ns => Readable signed block p n ∧ EachReadable signed block (p + n) ns

def totalBits : List Nat → Nat
  | [] => 0
  | n :: ns => n + totalBits ns

section Bits
variable {v c c' : Byte} {m : Mem} {block : List Byte} {p n k : Nat} {signed : Bool}

theorem toNat_eq_fieldAt (hn : n ≤ 8) : v.toNat = fieldAt m p n ↔
    ∀ j < 8, v.getLsbD j = (decide (j < n) && bitAt m (p + j)) := by
  constructor
  · intro h j _
    rw [← fieldAt_testBit, ← h, BitVec.testBit_toNat]
  · intro h
    refine Nat.eq_of_testBit_eq fun j => ?_
    rw [fieldAt_testBit, BitVec.testBit_toNat]
    by_cases hj : j < 8
    · exact h j hj
    · rw [BitVec.getLsbD_of_ge v _ (Nat.not_lt.mp hj)]
      simp [show ¬j < n by omega]

theorem blockMem_eq (h : block[k]? = some c) : blockMem block k = c := by
  rw [blockMem, List.getD_eq_getElem?_getD, h]
  rfl

theorem bitAt_block (h : block[k]? = some c) {i j : Nat} (hi : i = 8 * k + j) (hj : j < 8) :
    bitAt (blockMem block) i = c.getLsbD j := by
  rw [hi, bitAt_eq _ _ hj, blockMem_eq h]

/-- A field from two bytes is the number in its bits unless a sign gets in its way. -/
theorem across_eq_fieldAt {h : Nat} (hh : h < 8) (hn : 8 ≤ h + n) (hn8 : n ≤ 8)
    (hc : block[k]? = some c) (hc' : block[k + 1]? = some c') :
    (((c' &&& BitVec.ofNat 8 (2 ^ (n - (8 - h)) - 1)) <<< (8 - h)) ||| lowPart signed h c).toNat =
        fieldAt (blockMem block) (8 * k + h) n ↔
      (signed = true → 0 < h → c.msb = true → n = 8 ∧ ∀ j < h, c'.getLsbD j = true) := by
  have hlow (j : Nat) (hj : j < 8 - h) : bitAt (blockMem block) (8 * k + h + j) =
      c.getLsbD (h + j) := bitAt_block hc (by omega) (by omega)
  have hhigh (j : Nat) (hle : 8 - h ≤ j) (hj : j < 8) : bitAt (blockMem block) (8 * k + h + j) =
      c'.getLsbD (j - (8 - h)) := bitAt_block hc' (by omega) (by omega)
  rw [toNat_eq_fieldAt hn8]
  constructor
  · rintro heq rfl hpos hsign
    have hset (j : Nat) (hle : 8 - h ≤ j) (hj : j < 8) :
        j < n ∧ c'.getLsbD (j - (8 - h)) = true := by
      have hj' := heq j hj
      rw [across_getLsbD c true c' hn8 hj, if_neg (Nat.not_lt.mpr hle), hsign,
        hhigh j hle hj] at hj'
      simpa using hj'.symm
    have h7 := (hset 7 (by omega) (by decide)).1
    refine ⟨by omega, fun j hj => ?_⟩
    have hjh := (hset (8 - h + j) (by omega) (by omega)).2
    rwa [Nat.add_sub_cancel_left] at hjh
  · intro hsign j hj
    rw [across_getLsbD c signed c' hn8 hj]
    by_cases hlt : j < 8 - h
    · rw [if_pos hlt, hlow j hlt]
      simp [show j < n by omega]
    · rw [if_neg hlt, hhigh j (Nat.not_lt.mp hlt) hj]
      cases hfill : signed && c.msb with
      | false => simp
      | true =>
        rw [Bool.and_eq_true] at hfill
        obtain ⟨rfl, hones⟩ := hsign hfill.1 (by omega) hfill.2
        simp [hj, hones (j - (8 - h)) (by omega)]

end Bits

namespace InputMemoryStream

section Calls
variable {s s' : InputMemoryStream} {v : Byte} {n : Nat} {ns : List Nat} {signed : Bool}

theorem position_div (s : InputMemoryStream) : s.position / 8 = s.mHead := by
  unfold position
  omega

theorem position_mod (s : InputMemoryStream) : s.position % 8 = s.mBitHead := by
  unfold position
  omega

theorem readBits_moves (hn8 : n ≤ 8) (hhead : s.mHead + 1 < 2 ^ 32)
    (h : s.readBits signed n = .ok (v, s')) :
    s'.position = s.position + n ∧ s'.mBuffer = s.mBuffer ∧ s'.mCapacity = s.mCapacity := by
  unfold position
  by_cases hn : s.mBitHead + n < 8
  · obtain ⟨c, -, -, rfl⟩ := (readBits_within_eq_ok hn).mp h
    exact ⟨by simp only; omega, rfl, rfl⟩
  · obtain ⟨c, c', -, -, -, rfl⟩ := (readBits_across_eq_ok (by omega) hn8 hhead).mp h
    exact ⟨by simp only; omega, rfl, rfl⟩

theorem readBits_eq_fieldAt (hs : s.Bounded) (hpos : 1 ≤ n) (hn8 : n ≤ 8)
    (hend : s.position + n ≤ 8 * s.mCapacity) :
    (∃ v s', s.readBits signed n = .ok (v, s') ∧
      v.toNat = fieldAt (blockMem s.mBuffer) s.position n) ↔
      Readable signed s.mBuffer s.position n := by
  have hlen := hs.length
  have hcap := hs.capacity
  have hp : s.position = 8 * s.mHead + s.mBitHead := rfl
  obtain ⟨c, hc⟩ : ∃ c, s.mBuffer[s.mHead]? = some c :=
    ⟨_, List.getElem?_eq_getElem (by omega)⟩
  unfold Readable
  rw [position_div, position_mod]
  by_cases hn : s.mBitHead + n < 8
  · refine iff_of_true ⟨_, _, readBits_within signed hn hc, ?_⟩ (by omega)
    rw [toNat_eq_fieldAt hn8]
    intro j hj
    rw [BitVec.getLsbD_and, BitVec.getLsbD_ushiftRight, ofNat_two_pow_sub_one_getLsbD hn8,
      Bool.and_comm]
    by_cases hjn : j < n
    · rw [hp, Nat.add_assoc, bitAt_block hc rfl (by omega)]
    · simp [hjn]
  · have hsign : bitAt (blockMem s.mBuffer) (8 * s.mHead + 7) = c.msb := by
      rw [bitAt_block hc rfl (by decide), BitVec.msb_eq_getLsbD_last]
    rw [hsign, forall_prop_of_true (show 8 ≤ s.mBitHead.val + n by omega)]
    by_cases hroom : s.mHead + 1 < s.mBuffer.length
    · have hc' : s.mBuffer[s.mHead + 1]? = some s.mBuffer[s.mHead + 1] :=
        List.getElem?_eq_getElem hroom
      generalize s.mBuffer[s.mHead + 1] = c' at hc'
      have hread := readBits_across signed (by omega) hn8 (by omega) hc hc'
      have hfield := @across_eq_fieldAt c c' s.mBuffer n s.mHead signed s.mBitHead.val
        s.mBitHead.isLt (by omega) hn8 hc hc'
      have hnext (j : Nat) (hj : j < s.mBitHead.val) :
          bitAt (blockMem s.mBuffer) (8 * (s.mHead + 1) + j) = c'.getLsbD j :=
        bitAt_block hc' rfl (by omega)
      simp only [hread, Except.ok.injEq, Prod.mk.injEq, and_assoc, exists_and_left,
        exists_eq_left', hroom, true_and]
      rw [hp, hfield]
      refine imp_congr_right fun _ => imp_congr_right fun _ => imp_congr_right fun _ =>
        and_congr_right fun _ => forall₂_congr fun j hj => ?_
      rw [hnext j hj]
    · refine iff_of_false ?_ fun h => hroom h.1
      rintro ⟨v, s', hread, -⟩
      obtain ⟨_, c', -, hc', -⟩ := (readBits_across_eq_ok (by omega) hn8 (by omega)).mp hread
      exact hroom (List.getElem?_eq_some_iff.mp hc').1

end Calls

/-- Every call of a sequence gives exactly the bits at the cursor when every place is
readable, and only then. -/
theorem extracts_iff {s : InputMemoryStream} {signed : Bool} {ns : List Nat} (hs : s.Bounded)
    (hns : ∀ n ∈ ns, 1 ≤ n ∧ n ≤ 8) (hend : s.position + totalBits ns ≤ 8 * s.mCapacity) :
    Extracts signed s ns ↔ EachReadable signed s.mBuffer s.position ns := by
  induction ns generalizing s with
  | nil => exact Iff.rfl
  | cons n ns ih =>
    obtain ⟨hpos, hn8⟩ := hns n (by simp)
    rw [totalBits] at hend
    have hhead : s.mHead + 1 < 2 ^ 32 := by
      have hcap := hs.capacity
      have hp : s.position = 8 * s.mHead + s.mBitHead := rfl
      omega
    have hcall := @readBits_eq_fieldAt s n signed hs hpos hn8 (by omega)
    have hrest {v : Byte} {s' : InputMemoryStream} (hread : s.readBits signed n = .ok (v, s')) :
        Extracts signed s' ns ↔ EachReadable signed s.mBuffer (s.position + n) ns := by
      obtain ⟨hposition, hbuffer, hcapacity⟩ := readBits_moves hn8 hhead hread
      have hs' : s'.Bounded := ⟨by rw [hbuffer, hcapacity, hs.length], by rw [hcapacity]; exact
        hs.capacity⟩
      rw [ih hs' (fun n hn => hns n (by simp [hn])) (by rw [hposition, hcapacity]; omega), hbuffer,
        hposition]
    rw [Extracts, EachReadable, ← hcall]
    constructor
    · rintro ⟨v, s', hread, hval, -, -, -, hmore⟩
      exact ⟨⟨v, s', hread, hval⟩, (hrest hread).mp hmore⟩
    · rintro ⟨⟨v, s', hread, hval⟩, hmore⟩
      obtain ⟨hposition, hbuffer, hcapacity⟩ := readBits_moves hn8 hhead hread
      exact ⟨v, s', hread, hval, hposition, hbuffer, hcapacity, (hrest hread).mpr hmore⟩

theorem extracts_three : Extracts false ⟨[0xb5, 0x2c], 0, 2, 0⟩ [5, 6, 4] :=
  (extracts_iff ⟨rfl, by decide⟩ (by decide) (by decide)).mpr
    ⟨fun h => absurd h (by decide), fun _ => ⟨by decide, fun h => absurd h (by decide)⟩,
      fun h => absurd h (by decide), trivial⟩

/-- A signed byte 0x80 cut in the middle gives 248 instead of 8; the last 8 bits of a block are
not read without a look behind it. -/
theorem sign_fills_field :
    readBits true ⟨[0x80, 0], 0, 2, 4⟩ 5 = .ok (248, ⟨[0x80, 0], 1, 2, 1⟩) ∧
    ¬Extracts true ⟨[0x80, 0], 0, 2, 4⟩ [5] ∧
    readBits false ⟨[7], 0, 1, 0⟩ 8 = .error .outOfBounds ∧ ¬Extracts false ⟨[7], 0, 1, 0⟩ [8] := by
  have hsign : readBits true ⟨[0x80, 0], 0, 2, 4⟩ 5 = .ok (248, ⟨[0x80, 0], 1, 2, 1⟩) := rfl
  have hlast : readBits false ⟨[7], 0, 1, 0⟩ 8 = .error .outOfBounds := rfl
  refine ⟨hsign, ?_, hlast, ?_⟩
  · rintro ⟨v, s', hread, hval, -⟩
    rw [hsign] at hread
    obtain ⟨rfl, rfl⟩ := Prod.mk.inj (Except.ok.inj hread)
    exact absurd hval (by decide)
  · rintro ⟨v, s', hread, -⟩
    rw [hlast] at hread
    contradiction

end InputMemoryStream

end MemoryStream
