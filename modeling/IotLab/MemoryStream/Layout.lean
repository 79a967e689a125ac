import IotLab.Library.Fallible
import IotLab.MemoryStream.RoundTrip

set_option autoImplicit false

namespace MemoryStream
open HostMemory OutputMemoryStream Fallible

structure Field where
  value : Byte
  width : Nat
  pos : 1 ≤ width
  le : width ≤ 8
  deriving DecidableEq

def Field.write (f : Field) (s : OutputMemoryStream) : Result OutputMemoryStream :=
  s.writeBits f.value f.width

def writeFields (s : OutputMemoryStream) (fs : List Field) : Result OutputMemoryStream :=
  fs.foldlM (fun s f => f.write s) s

def totalWidth : List Field → Nat
  | [] => 0
  | f :: fs => f.width + totalWidth fs

/-- A field written at bit `p` sets bit `i`: with a bit of its value, which may be a surplus
one, in the byte of `p` or, if the field reaches the end of that byte, in the next. -/
def Field.Sets (f : Field) (p i : Nat) : Prop :=
  p ≤ i ∧ f.value.getLsbD (i - p) = true ∧ (i / 8 = p / 8 ∨ 8 ≤ p % 8 + f.width)

def SetBy : Nat → List Field → Nat → Prop
  | _, [], _ => False
  | p, f :: fs, i => f.Sets p i ∨ SetBy (p + f.width) fs i

/-- Bit `i` was set before and lies in no byte that the cursor enters on its way from bit `p`
to bit `q`: such a byte is overwritten first. -/
def Remains (m : Mem) (p q i : Nat) : Prop :=
  bitAt m i = true ∧ ¬(p / 8 < i / 8 ∧ i / 8 ≤ q / 8)

theorem bitAt_update (m : Mem) (k : Nat) (b : Byte) (i : Nat) :
    bitAt (Function.update m k b) i = if i / 8 = k then b.getLsbD (i % 8) else bitAt m i := by
  unfold bitAt
  split
  · rename_i hk
    rw [hk, Function.update_self]
  · rename_i hk
    rw [Function.update_of_ne hk]

section Step
variable {s s' t : OutputMemoryStream} {f g : Field}

theorem Field.write_within (hn : s.mBitHead + f.width < 8) (h : f.write s = .ok s') :
    s.mHead < s.mCapacity ∧ s'.mHead = s.mHead ∧ s'.mCapacity = s.mCapacity ∧
      s'.mBitHead.val = s.mBitHead + f.width ∧
      s'.mBuffer = Function.update s.mBuffer s.mHead (s.mixed f.value) := by
  rw [Field.write, writeBits_within hn] at h
  split at h
  · rename_i hcap
    cases h
    exact ⟨hcap, rfl, rfl, rfl, rfl⟩
  · contradiction

theorem writeBits_head_lt {v : Byte} {n : Nat} (hcap : s.mCapacity < 2 ^ 32)
    (hn : 8 ≤ s.mBitHead + n) (hn8 : n ≤ 8) (h : s.writeBits v n = .ok s') :
    s.mHead + 1 < 2 ^ 32 := by
  have hmod : (s.mBitHead + n) % 2 ^ 16 = s.mBitHead + n := Nat.mod_eq_of_lt (by omega)
  simp only [writeBits, hmod, if_pos (show s.mBitHead + n > 7 by omega)] at h
  obtain ⟨s₁, hor, -⟩ := bind_eq_ok.mp h
  have hnext : (s.reserve (u32 (s.mHead + 1))).mCapacity < 2 ^ 32 := by
    rw [reserve_grown]
    exact grown_lt hcap (Nat.mod_lt _ (by decide))
  simp only [orByte, setByte, reserve_mHead] at hor
  split at hor
  · omega
  · contradiction

theorem Field.write_across (hcap : s.mCapacity < 2 ^ 32) (hn : 8 ≤ s.mBitHead + f.width)
    (h : f.write s = .ok s') :
    s.mHead + 1 < 2 ^ 32 ∧ s.mHead + 1 < s'.mCapacity ∧ s'.mHead = s.mHead + 1 ∧
      s'.mCapacity = grown s.mCapacity (s.mHead + 1) ∧
      s'.mBitHead.val = s.mBitHead + f.width - 8 ∧
      s'.mBuffer = Function.update (Function.update s.mBuffer s.mHead (s.mixed f.value))
        (s.mHead + 1) (f.value >>> (8 - s.mBitHead.val)) := by
  have hhead := writeBits_head_lt hcap hn f.le h
  rw [Field.write, writeBits_across hn f.le hhead] at h
  split at h
  · rename_i hroom
    cases h
    exact ⟨hhead, hroom, rfl, reserve_grown _, rfl, rfl⟩
  · contradiction

theorem position_div (s : OutputMemoryStream) : s.position / 8 = s.mHead := by
  unfold position
  omega

theorem position_mod (s : OutputMemoryStream) : s.position % 8 = s.mBitHead := by
  unfold position
  omega

theorem Field.write_position (hcap : s.mCapacity < 2 ^ 32) (h : f.write s = .ok s') :
    s'.mCapacity < 2 ^ 32 ∧ s'.position = s.position + f.width := by
  unfold position
  by_cases hn : s.mBitHead + f.width < 8
  · obtain ⟨-, hhead, hcap', hbit, -⟩ := f.write_within hn h
    omega
  · obtain ⟨hlt, -, hhead, hcap', hbit, -⟩ := f.write_across hcap (by omega) h
    have hgrown := grown_lt hcap hlt
    omega

theorem mixed_bit {v : Byte} {i : Nat} (hi : i / 8 = s.mHead) :
    (s.mixed v).getLsbD (i % 8) = true ↔
      bitAt s.mBuffer i = true ∨ s.position ≤ i ∧ v.getLsbD (i - s.position) = true := by
  have hbit : s.mBitHead.val ≤ i % 8 ↔ s.position ≤ i := by
    unfold position
    omega
  rw [mixed_getLsbD v (Nat.mod_lt _ (by decide)), ← hi, Bool.or_eq_true, Bool.and_eq_true,
    decide_eq_true_eq, hbit]
  refine or_congr Iff.rfl (and_congr_right fun hle => ?_)
  have hsub : i % 8 - s.mBitHead.val = i - s.position := by
    unfold position at hle ⊢
    omega
  rw [hsub]

theorem Field.Sets.lt {p i : Nat} (h : f.Sets p i) : i < p + 8 := by
  by_contra hge
  have hbit := h.2.1
  rw [BitVec.getLsbD_of_ge f.value _ (by omega)] at hbit
  contradiction

theorem Field.write_within_bitAt (hn : s.mBitHead + f.width < 8) (h : f.write s = .ok s')
    (i : Nat) : bitAt s'.mBuffer i = true ↔
      bitAt s.mBuffer i = true ∨ f.Sets s.position i := by
  obtain ⟨-, -, -, -, hbuffer⟩ := f.write_within hn h
  have hreach : ¬8 ≤ s.position % 8 + f.width := by
    rw [position_mod]
    omega
  rw [hbuffer, bitAt_update, Sets, position_div]
  split
  · rename_i hi
    rw [mixed_bit hi]
    simp [hi]
  · rename_i hi
    simp [hi, hreach]

theorem Field.write_across_bitAt (hcap : s.mCapacity < 2 ^ 32) (hn : 8 ≤ s.mBitHead + f.width)
    (h : f.write s = .ok s') (i : Nat) : bitAt s'.mBuffer i = true ↔
      (bitAt s.mBuffer i = true ∧ i / 8 ≠ s.mHead + 1) ∨ f.Sets s.position i := by
  obtain ⟨-, -, -, -, -, hbuffer⟩ := f.write_across hcap hn h
  have hmod := position_mod s
  have hdiv := position_div s
  rw [hbuffer, bitAt_update, bitAt_update, Sets]
  by_cases hnext : i / 8 = s.mHead + 1
  · have hsub : 8 - s.mBitHead.val + i % 8 = i - s.position := by
      unfold position
      omega
    rw [if_pos hnext, BitVec.getLsbD_ushiftRight, hsub]
    constructor
    · exact fun hv => .inr ⟨by omega, hv, .inr (by omega)⟩
    · rintro (⟨-, hnot⟩ | ⟨-, hv, -⟩)
      · exact absurd hnext hnot
      · exact hv
  · rw [if_neg hnext]
    by_cases hi : i / 8 = s.mHead
    · rw [if_pos hi, mixed_bit hi, hdiv]
      simp [hi]
    · rw [if_neg hi]
      constructor
      · exact fun hold => .inl ⟨hold, hnext⟩
      · rintro (⟨hold, -⟩ | hset)
        · exact hold
        · have hle := hset.1
          have hlt := Field.Sets.lt hset
          omega

theorem Field.write_bitAt (hcap : s.mCapacity < 2 ^ 32) (h : f.write s = .ok s') (i : Nat) :
    bitAt s'.mBuffer i = true ↔
      Remains s.mBuffer s.position s'.position i ∨ f.Sets s.position i := by
  unfold Remains
  rw [position_div, position_div]
  by_cases hn : s.mBitHead + f.width < 8
  · obtain ⟨-, hhead, -⟩ := f.write_within hn h
    have hstays : ¬(s.mHead < i / 8 ∧ i / 8 ≤ s'.mHead) := by omega
    rw [f.write_within_bitAt hn h, and_iff_left hstays]
  · obtain ⟨-, -, hhead, -⟩ := f.write_across hcap (by omega) h
    have henters : i / 8 ≠ s.mHead + 1 ↔ ¬(s.mHead < i / 8 ∧ i / 8 ≤ s'.mHead) := by omega
    rw [f.write_across_bitAt hcap (by omega) h, henters]

theorem Field.write_total (hcap : s.mCapacity < 2 ^ 32)
    (hroom : (s.position + f.width) / 8 < s.mCapacity) :
    ∃ s', f.write s = .ok s' ∧ s'.mCapacity = s.mCapacity := by
  unfold position at hroom
  by_cases hn : s.mBitHead + f.width < 8
  · exact ⟨_, (writeBits_within hn).trans (if_pos (by omega)), rfl⟩
  · have hle := f.le
    exact ⟨_, (writeBits_across_full (by omega) f.le (by omega) hcap).trans (if_pos (by omega)),
      rfl⟩

end Step

section Runs
variable {s s' out : OutputMemoryStream} {f : Field} {fs : List Field} {p i : Nat}

theorem writeFields_cons_ok : writeFields s (f :: fs) = .ok out ↔
    ∃ s', f.write s = .ok s' ∧ writeFields s' fs = .ok out := by
  rw [writeFields, List.foldlM_cons]
  exact bind_eq_ok

theorem writeFields_position (hcap : s.mCapacity < 2 ^ 32) (h : writeFields s fs = .ok out) :
    out.mCapacity < 2 ^ 32 ∧ out.position = s.position + totalWidth fs := by
  induction fs generalizing s with
  | nil =>
    cases h
    exact ⟨hcap, rfl⟩
  | cons f fs ih =>
    obtain ⟨s', hstep, hrest⟩ := writeFields_cons_ok.mp h
    obtain ⟨hcap', hpos⟩ := f.write_position hcap hstep
    obtain ⟨hout, hend⟩ := ih hcap' hrest
    refine ⟨hout, ?_⟩
    rw [totalWidth]
    omega

theorem writeFields_total (hcap : s.mCapacity < 2 ^ 32)
    (hroom : fs ≠ [] → (s.position + totalWidth fs) / 8 < s.mCapacity) :
    ∃ out, writeFields s fs = .ok out ∧ out.mCapacity = s.mCapacity := by
  induction fs generalizing s with
  | nil => exact ⟨s, rfl, rfl⟩
  | cons f fs ih =>
    have hroom := hroom (List.cons_ne_nil _ _)
    rw [totalWidth] at hroom
    obtain ⟨s', hstep, hsame⟩ := f.write_total hcap (by omega)
    obtain ⟨hcap', hpos⟩ := f.write_position hcap hstep
    obtain ⟨out, hrest, hend⟩ := ih hcap' fun _ => by omega
    exact ⟨out, writeFields_cons_ok.mpr ⟨s', hstep, hrest⟩, hend.trans hsame⟩

theorem Field.Sets.le (h : f.Sets p i) : i / 8 ≤ (p + f.width) / 8 := by
  have hlt := h.lt
  obtain ⟨hle, -, hreach⟩ := h
  omega

theorem SetBy.ge (h : SetBy p fs i) : p ≤ i := by
  induction fs generalizing p with
  | nil => exact h.elim
  | cons f fs ih =>
    rcases h with h | h
    · exact h.1
    · have := ih h
      omega

theorem setBy_append {before after : List Field} : SetBy p (before ++ after) i ↔
    SetBy p before i ∨ SetBy (p + totalWidth before) after i := by
  induction before generalizing p with
  | nil => simp [SetBy, totalWidth]
  | cons f before ih =>
    rw [List.cons_append, SetBy, SetBy, totalWidth, ih, or_assoc, Nat.add_assoc]

theorem writeFields_bitAt (hcap : s.mCapacity < 2 ^ 32) (h : writeFields s fs = .ok out) (i : Nat) :
    bitAt out.mBuffer i = true ↔
      Remains s.mBuffer s.position out.position i ∨ SetBy s.position fs i := by
  induction fs generalizing s with
  | nil =>
    cases h
    simp only [Remains, SetBy, or_false, iff_self_and]
    omega
  | cons f fs ih =>
    obtain ⟨s', hstep, hrest⟩ := writeFields_cons_ok.mp h
    obtain ⟨hcap', hpos⟩ := f.write_position hcap hstep
    have hend := (writeFields_position hcap' hrest).2
    have hbit := f.write_bitAt hcap hstep i
    rw [ih hcap' hrest, SetBy, Remains, Remains, hbit, Remains, hpos]
    constructor
    · rintro (⟨⟨hold, hbefore⟩ | hset, hafter⟩ | hset)
      · exact .inl ⟨hold, by omega⟩
      · exact .inr (.inl hset)
      · exact .inr (.inr hset)
    · rintro (⟨hold, hkept⟩ | hset | hset)
      · exact .inl ⟨.inl ⟨hold, by omega⟩, by omega⟩
      · have := hset.le
        exact .inl ⟨.inr hset, by omega⟩
      · exact .inr hset

theorem writeFields_agree (hcap : s.mCapacity < 2 ^ 32) (h : writeFields s fs = .ok out) :
    AgreeBelow s.position s.mBuffer out.mBuffer := by
  intro i hi
  have hend := (writeFields_position hcap h).2
  rw [Bool.eq_iff_iff, writeFields_bitAt hcap h, Remains]
  constructor
  · rintro (⟨hold, -⟩ | hset)
    · exact hold
    · have := hset.ge
      omega
  · exact fun hold => .inl ⟨hold, by omega⟩

end Runs

section Fitting
variable {f : Field} {fs : List Field} {p i : Nat}

def Field.Fitting (f : Field) : Prop := f.value.toNat < 2 ^ f.width

def Field.bits (f : Field) : List Bool := (List.range f.width).map fun j => f.value.getLsbD j

def bitString (fs : List Field) : List Bool := fs.flatMap Field.bits

@[simp] theorem Field.bits_length : f.bits.length = f.width := by simp [Field.bits]

theorem bitString_length : (bitString fs).length = totalWidth fs := by
  induction fs with
  | nil => rfl
  | cons f fs ih =>
    rw [bitString, List.flatMap_cons, List.length_append, Field.bits_length, totalWidth, ← ih]
    rfl

theorem Field.Fitting.sets_iff (h : f.Fitting) :
    f.Sets p i ↔ p ≤ i ∧ f.bits[i - p]? = some true := by
  have hbits : f.bits[i - p]? = some true ↔
      i - p < f.width ∧ f.value.getLsbD (i - p) = true := by
    simp only [Field.bits, List.getElem?_map, Option.map_eq_some_iff]
    constructor
    · rintro ⟨j, hj, hbit⟩
      obtain ⟨hlt, rfl⟩ := List.getElem?_eq_some_iff.mp hj
      rw [List.length_range] at hlt
      rw [List.getElem_range] at hbit
      exact ⟨hlt, hbit⟩
    · rintro ⟨hlt, hbit⟩
      exact ⟨i - p, List.getElem?_range hlt, hbit⟩
  rw [hbits, Field.Sets]
  constructor
  · rintro ⟨hle, hbit, -⟩
    refine ⟨hle, Nat.lt_of_not_le fun hge => ?_, hbit⟩
    rw [getLsbD_of_toNat_lt h hge] at hbit
    contradiction
  · rintro ⟨hle, hlt, hbit⟩
    have := f.le
    exact ⟨hle, hbit, by omega⟩

theorem setBy_iff_bitString (h : ∀ f ∈ fs, f.Fitting) :
    SetBy p fs i ↔ p ≤ i ∧ (bitString fs)[i - p]? = some true := by
  induction fs generalizing p with
  | nil => simp [SetBy, bitString]
  | cons f fs ih =>
    have hbits : bitString (f :: fs) = f.bits ++ bitString fs := rfl
    rw [SetBy, (h f (by simp)).sets_iff, ih (fun g hg => h g (by simp [hg])), hbits]
    by_cases hlt : i - p < f.width
    · rw [List.getElem?_append_left (by simpa using hlt)]
      refine or_iff_left_of_imp fun hrest => ?_
      have := f.pos
      omega
    · rw [List.getElem?_append_right (by simpa using hlt), Field.bits_length]
      have hnone : f.bits[i - p]? = none := List.getElem?_eq_none (by simpa using hlt)
      rw [hnone, Nat.sub_sub]
      simp only [reduceCtorEq, and_false, false_or]
      refine and_congr_left fun hrest => ?_
      omega

theorem writeFields_zeroed {s out : OutputMemoryStream} (hcap : s.mCapacity < 2 ^ 32)
    (hpos : s.position = 8 * s.mHead)
    (hzero : ∀ i, s.mHead ≤ i → i < s.mCapacity → s.mBuffer i = 0)
    (hroom : s.mHead + totalWidth fs / 8 < s.mCapacity) (hfit : ∀ f ∈ fs, f.Fitting)
    (h : writeFields s fs = .ok out) {k : Nat} (hk : k < 8 * (totalWidth fs / 8 + 1)) :
    bitAt out.mBuffer (8 * s.mHead + k) = true ↔ (bitString fs)[k]? = some true := by
  have hold : ¬Remains s.mBuffer (8 * s.mHead) out.position (8 * s.mHead + k) := by
    rintro ⟨hold, -⟩
    rw [bitAt, hzero _ (by omega) (by omega)] at hold
    simp at hold
  rw [writeFields_bitAt hcap h, setBy_iff_bitString hfit, hpos, Nat.add_sub_cancel_left]
  simp [hold]

end Fitting

/-- From a byte boundary on, in zeroed memory with room for the byte that the cursor comes to,
the fields lie one behind the other, the lowest bit first, with zeros behind them. -/
theorem writeFields_layout {s : OutputMemoryStream} {fs : List Field} (hcap : s.mCapacity < 2 ^ 32)
    (hbit : s.mBitHead = 0) (hzero : ∀ i, s.mHead ≤ i → i < s.mCapacity → s.mBuffer i = 0)
    (hroom : fs ≠ [] → s.mHead + totalWidth fs / 8 < s.mCapacity) (hfit : ∀ f ∈ fs, f.Fitting) :
    ∃ out, writeFields s fs = .ok out ∧
      (List.range (totalWidth fs)).map (fun k => bitAt out.mBuffer (8 * s.mHead + k)) =
        bitString fs ∧
      (fs ≠ [] → ∀ k, totalWidth fs ≤ k → k < 8 * (totalWidth fs / 8 + 1) →
        bitAt out.mBuffer (8 * s.mHead + k) = false) ∧
      (∀ i < s.mHead, out.mBuffer i = s.mBuffer i) ∧
      out.mHead = s.mHead + totalWidth fs / 8 ∧ out.mBitHead.val = totalWidth fs % 8 ∧
      out.getLength = s.mHead + (totalWidth fs + 7) / 8 := by
  have hpos : s.position = 8 * s.mHead := by simp [position, hbit]
  obtain ⟨out, hrun, hsame⟩ := writeFields_total hcap fun hne => by
    rw [hpos]
    have := hroom hne
    omega
  have hend := (writeFields_position hcap hrun).2
  have hset (hne : fs ≠ []) {k : Nat} (hk : k < 8 * (totalWidth fs / 8 + 1)) :
      bitAt out.mBuffer (8 * s.mHead + k) = true ↔ (bitString fs)[k]? = some true :=
    writeFields_zeroed hcap hpos hzero (hroom hne) hfit hrun hk
  have hbefore := ((agreeBelow_iff s.mBitHead.isLt).mp (writeFields_agree hcap hrun)).1
  have hhead : out.mHead = s.mHead + totalWidth fs / 8 := by
    have := position_div out
    omega
  have hbitHead : out.mBitHead.val = totalWidth fs % 8 := by
    have := position_mod out
    omega
  have hnil (hpositive : 0 < totalWidth fs) : fs ≠ [] := by
    rintro rfl
    simp [totalWidth] at hpositive
  refine ⟨out, hrun, ?_, fun hne k hle hk => ?_, hbefore, hhead, hbitHead, ?_⟩
  · refine List.ext_getElem (by simp [bitString_length]) fun k hk hk' => ?_
    simp only [List.length_map, List.length_range] at hk
    rw [List.getElem_map, List.getElem_range, Bool.eq_iff_iff, hset (hnil (by omega)) (by omega),
      List.getElem?_eq_getElem hk', Option.some.injEq]
  · rw [Bool.eq_false_iff, ne_eq, hset hne hk,
      List.getElem?_eq_none (by rw [bitString_length]; exact hle)]
    simp
  · rw [getLength_eq fun hpartial => by have := hroom (hnil (by omega)); omega]
    omega

def layoutStream : OutputMemoryStream :=
  { new fun i => if i < 2 then 7 else 0 with mHead := 2 }

theorem writeFields_layout_two :
    ∃ out, writeFields layoutStream [⟨5, 3, by decide, by decide⟩, ⟨200, 8, by decide, by decide⟩] =
        .ok out ∧
      (List.range 11).map (fun k => bitAt out.mBuffer (16 + k)) =
        [true, false, true, false, false, false, true, false, false, true, true] ∧
      out.mHead = 3 ∧ out.mBitHead.val = 3 ∧ out.getLength = 4 := by
  obtain ⟨out, hrun, hbits, -, -, hhead, hbit, hlen⟩ := @writeFields_layout layoutStream
    [⟨5, 3, by decide, by decide⟩, ⟨200, 8, by decide, by decide⟩] (by decide) rfl
    (fun i hi _ => if_neg (Nat.not_lt.mpr hi)) (fun _ => by decide) (by simp [Field.Fitting])
  exact ⟨out, hrun, hbits, hhead, hbit, hlen⟩

structure SameCursor (s t : OutputMemoryStream) : Prop where
  head : t.mHead = s.mHead
  capacity : t.mCapacity = s.mCapacity
  bitHead : t.mBitHead = s.mBitHead

section Isolation
variable {s t s' out : OutputMemoryStream} {f g : Field} {fs gs before after : List Field}
  {m m' : Mem} {p n i : Nat}

theorem Field.write_same (hst : SameCursor s t) (hw : g.width = f.width)
    (hcap : s.mCapacity < 2 ^ 32) (h : f.write s = .ok s') :
    ∃ t', g.write t = .ok t' ∧ SameCursor s' t' := by
  by_cases hn : s.mBitHead + f.width < 8
  · obtain ⟨hroom, hhead, hsame, hbit, -⟩ := f.write_within hn h
    have hn' : t.mBitHead + g.width < 8 := by rwa [hst.bitHead, hw]
    refine ⟨_, (writeBits_within hn').trans (if_pos (by rwa [hst.head, hst.capacity])), ?_⟩
    exact ⟨hst.head.trans hhead.symm, hst.capacity.trans hsame.symm,
      Fin.ext (by simp only [hst.bitHead, hw, hbit])⟩
  · obtain ⟨hlt, hroom, hhead, hsame, hbit, -⟩ := f.write_across hcap (by omega) h
    have hn' : 8 ≤ t.mBitHead + g.width := by
      rw [hst.bitHead, hw]
      omega
    have hgrown : (t.reserve (t.mHead + 1)).mCapacity = s'.mCapacity := by
      rw [reserve_grown, hst.head, hst.capacity, hsame]
    refine ⟨_, (writeBits_across hn' g.le (by rwa [hst.head])).trans
      (if_pos (by rwa [hgrown, hst.head])), ?_⟩
    exact ⟨by simp only [hst.head, hhead], hgrown,
      Fin.ext (by simp only [hst.bitHead, hw, hbit])⟩

theorem writeFields_same (hst : SameCursor s t) (hw : gs.map Field.width = fs.map Field.width)
    (hcap : s.mCapacity < 2 ^ 32) (h : writeFields s fs = .ok out) :
    ∃ out', writeFields t gs = .ok out' := by
  induction fs generalizing s t gs with
  | nil =>
    obtain rfl := List.map_eq_nil_iff.mp hw
    exact ⟨t, rfl⟩
  | cons f fs ih =>
    obtain ⟨g, gs, rfl, hg, hgs⟩ := List.map_eq_cons_iff.mp hw
    obtain ⟨s', hstep, hrest⟩ := writeFields_cons_ok.mp h
    obtain ⟨t', hstep', hst'⟩ := Field.write_same hst hg hcap hstep
    obtain ⟨out', hout'⟩ := ih hst' hgs (f.write_position hcap hstep).1 hrest
    exact ⟨out', writeFields_cons_ok.mpr ⟨t', hstep', hout'⟩⟩

def fieldAt (m : Mem) (p n : Nat) : Nat := Nat.ofBits fun j : Fin n => bitAt m (p + j)

theorem fieldAt_testBit (m : Mem) (p n j : Nat) :
    (fieldAt m p n).testBit j = (decide (j < n) && bitAt m (p + j)) := by
  by_cases hj : j < n
  · simp [fieldAt, hj]
  · rw [fieldAt, Nat.testBit_ofBits_ge _ _ (Nat.not_lt.mp hj)]
    simp [hj]

theorem fieldAt_eq_iff {v : Byte} : fieldAt m p n = v.toNat % 2 ^ n ↔
    ∀ j < n, bitAt m (p + j) = v.getLsbD j := by
  have hbit (j : Nat) : (v.toNat % 2 ^ n).testBit j = (decide (j < n) && v.getLsbD j) :=
    Nat.testBit_mod_two_pow ..
  constructor
  · intro h j hj
    have htest := congrArg (Nat.testBit · j) h
    simpa [fieldAt_testBit, hbit, hj] using htest
  · intro h
    refine Nat.eq_of_testBit_eq fun j => ?_
    rw [fieldAt_testBit, hbit]
    by_cases hj : j < n
    · rw [h j hj]
    · simp [hj]

def AgreeOutside (p n : Nat) (m m' : Mem) : Prop :=
  ∀ i, ¬(p ≤ i ∧ i < p + n) → bitAt m' i = bitAt m i

/-- Surplus bit `j` of a value written at bit `p` is shifted into the buffer. -/
def Spills (p n j : Nat) : Prop := n ≤ j ∧ j < 8 ∧ (p % 8 + j < 8 ∨ 8 ≤ p % 8 + n)

/-- Bit `i` is set whatever the value of the field between `before` and `after`. -/
def SetAnyway (s : OutputMemoryStream) (before : List Field) (n : Nat) (after : List Field)
    (i : Nat) : Prop :=
  Remains s.mBuffer s.position (s.position + totalWidth before + n + totalWidth after) i ∨
    SetBy s.position before i ∨ SetBy (s.position + totalWidth before + n) after i

theorem writeFields_split_bitAt (hcap : s.mCapacity < 2 ^ 32)
    (h : writeFields s (before ++ f :: after) = .ok out) (i : Nat) :
    bitAt out.mBuffer i = true ↔ SetAnyway s before f.width after i ∨
      f.Sets (s.position + totalWidth before) i := by
  have hwidth : totalWidth (before ++ f :: after) =
      totalWidth before + (f.width + totalWidth after) := by
    clear h
    induction before with
    | nil => simp [totalWidth]
    | cons g before ih =>
      rw [List.cons_append, totalWidth, totalWidth, ih]
      omega
  have hend := (writeFields_position hcap h).2
  rw [hwidth, ← Nat.add_assoc, ← Nat.add_assoc] at hend
  rw [writeFields_bitAt hcap h, setBy_append, SetBy, hend, SetAnyway, or_assoc, or_assoc]
  exact or_congr_right (or_congr_right or_comm)

theorem Field.sets_add {j : Nat} (hj : j < 8) : f.Sets p (p + j) ↔
    f.value.getLsbD j = true ∧ (p % 8 + j < 8 ∨ 8 ≤ p % 8 + f.width) := by
  rw [Field.Sets, Nat.add_sub_cancel_left]
  constructor
  · rintro ⟨-, hbit, hreach⟩
    exact ⟨hbit, by omega⟩
  · rintro ⟨hbit, hreach⟩
    exact ⟨by omega, hbit, by omega⟩

section Alone
variable {v : Byte} {others : Nat → Prop}

/-- A field among bits that are set anyway, with two values: they differ outside its place where
a surplus bit in which they differ is shifted into the buffer. -/
theorem agreeOutside_iff (hm : ∀ i, bitAt m i = true ↔ others i ∨ f.Sets p i)
    (hm' : ∀ i, bitAt m' i = true ↔ others i ∨ { f with value := v }.Sets p i) :
    AgreeOutside p f.width m m' ↔
      ∀ j, Spills p f.width j → v.getLsbD j ≠ f.value.getLsbD j → others (p + j) := by
  constructor
  · rintro hagree j ⟨hle, hlt, hreach⟩ hne
    by_contra hnot
    have hsame := Bool.eq_iff_iff.mp (hagree (p + j) (by omega))
    rw [hm, hm', Field.sets_add hlt, Field.sets_add hlt] at hsame
    exact hne (Bool.eq_iff_iff.mpr (by simpa [hnot, hreach] using hsame))
  · intro hspill i hi
    rw [Bool.eq_iff_iff, hm, hm']
    by_cases hin : p ≤ i ∧ i - p < 8
    · obtain ⟨j, rfl⟩ : ∃ j, i = p + j := ⟨i - p, by omega⟩
      have hlt : j < 8 := by omega
      rw [Field.sets_add hlt, Field.sets_add hlt]
      by_cases hreach : p % 8 + j < 8 ∨ 8 ≤ p % 8 + f.width
      · by_cases hv : v.getLsbD j = f.value.getLsbD j
        · rw [hv]
        · have hset := hspill j ⟨by omega, hlt, hreach⟩ hv
          simp [hset]
      · simp [hreach]
    · have hnone (g : Field) : ¬g.Sets p i := by
        intro hset
        have hle := hset.1
        have hlt := hset.lt
        omega
      simp [hnone]

theorem fieldAt_own_iff (hm : ∀ i, bitAt m i = true ↔ others i ∨ f.Sets p i) :
    fieldAt m p f.width = f.value.toNat % 2 ^ f.width ↔
      ∀ j < f.width, f.value.getLsbD j = false → ¬others (p + j) := by
  rw [fieldAt_eq_iff]
  refine forall₂_congr fun j hj => ?_
  have hw := f.le
  have hown := hm (p + j)
  rw [Field.sets_add (by omega), and_iff_left (by omega)] at hown
  rw [Bool.eq_iff_iff, hown]
  cases f.value.getLsbD j <;> simp

end Alone

/-- One field against the others: its value reaches out of its bits exactly where a surplus
bit is shifted into the buffer at a place that is not set anyway, and it is read as its low
bits exactly when none of its zeros is at such a place. -/
theorem field_isolation_iff (v : Byte) (hcap : s.mCapacity < 2 ^ 32)
    (h : writeFields s (before ++ f :: after) = .ok out) :
    ∃ out', writeFields s (before ++ { f with value := v } :: after) = .ok out' ∧
      (AgreeOutside (s.position + totalWidth before) f.width out.mBuffer out'.mBuffer ↔
        ∀ j, Spills (s.position + totalWidth before) f.width j →
          v.getLsbD j ≠ f.value.getLsbD j →
          SetAnyway s before f.width after (s.position + totalWidth before + j)) ∧
      (fieldAt out.mBuffer (s.position + totalWidth before) f.width =
          f.value.toNat % 2 ^ f.width ↔
        ∀ j < f.width, f.value.getLsbD j = false →
          ¬SetAnyway s before f.width after (s.position + totalWidth before + j)) := by
  obtain ⟨out', h'⟩ := @writeFields_same s s out (before ++ f :: after)
    (before ++ { f with value := v } :: after) ⟨rfl, rfl, rfl⟩ (by simp) hcap h
  have hbit := writeFields_split_bitAt hcap h
  have hbit' := writeFields_split_bitAt hcap h'
  exact ⟨out', h', agreeOutside_iff hbit hbit', fieldAt_own_iff hbit⟩

end Isolation

def fiveBits (v : Byte) : Field := ⟨v, 5, by decide, by decide⟩
def sixBits (v : Byte) : Field := ⟨v, 6, by decide, by decide⟩
def eightBits (v : Byte) : Field := ⟨v, 8, by decide, by decide⟩

theorem field_isolation_student : ∃ out out',
    writeFields (.new fun _ => 0) [fiveBits 13, sixBits 52, eightBits 100] = .ok out ∧
    writeFields (.new fun _ => 0) [fiveBits 13, sixBits 20, eightBits 100] = .ok out' ∧
    AgreeOutside 5 6 out.mBuffer out'.mBuffer := by
  obtain ⟨out, h, -⟩ := @writeFields_total (.new fun _ => 0)
    ([fiveBits 13] ++ sixBits 52 :: [eightBits 100]) (by decide) (fun _ => by decide)
  obtain ⟨out', h', hagree, -⟩ := field_isolation_iff 20 (by decide) h
  refine ⟨out, out', h, h', hagree.mpr fun j hj hne => absurd ?_ hne⟩
  have hsurplus : ∀ j < 8, 6 ≤ j → (20 : Byte).getLsbD j = (52 : Byte).getLsbD j := by decide
  exact hsurplus j hj.2.1 hj.1

/-- A value of 32 in a field of 5 bits sets the first bit of the field behind it. -/
theorem surplus_bit_leaks : ∃ out out',
    writeFields (.new fun _ => 0) [fiveBits 32, sixBits 0] = .ok out ∧
    writeFields (.new fun _ => 0) [fiveBits 0, sixBits 0] = .ok out' ∧
    ¬AgreeOutside 0 5 out.mBuffer out'.mBuffer ∧ fieldAt out.mBuffer 5 6 = 1 ∧
    fieldAt out'.mBuffer 5 6 = 0 := by
  refine ⟨_, _, rfl, rfl, fun h => ?_, by decide, by decide⟩
  exact absurd (h 5 (by decide)) (by decide)

end MemoryStream
