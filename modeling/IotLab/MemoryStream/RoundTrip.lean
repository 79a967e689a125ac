import IotLab.MemoryStream.Bits
import IotLab.MemoryStream.Growth

set_option autoImplicit false

namespace MemoryStream
open HostMemory

inductive Op where
  | bytes (data : List Byte)
  | bits (v : Byte) (n : Nat)
  deriving DecidableEq

def Op.write (op : Op) (s : OutputMemoryStream) : Result OutputMemoryStream :=
  match op with
  | .bytes data => s.write data
  | .bits v n => s.writeBits v n

def writeAll (s : OutputMemoryStream) (ops : List Op) : Result OutputMemoryStream :=
  ops.foldlM (fun s op => op.write s) s

def Op.readBack (signed : Bool) (op : Op) (s : InputMemoryStream) :
    Result (Op × InputMemoryStream) :=
  match op with
  | .bytes data => do
    let (got, s) ← s.read (u32 data.length)
    .ok (.bytes got, s)
  | .bits _ n => do
    let (got, s) ← s.readBits signed n
    .ok (.bits got n, s)

def readAll (signed : Bool) (s : InputMemoryStream) : List Op → Result (List Op × InputMemoryStream)
  | [] => .ok ([], s)
  | op :: rest => do
    let (got, s) ← op.readBack signed s
    let (gots, s) ← readAll signed s rest
    .ok (got :: gots, s)

/-- A sequence of calls on a fresh stream, and the matching ones over its `GetLength()` bytes,
behind which there may be more. -/
def roundTrip (signed : Bool) (heap : Mem) (behind : List Byte) (ops : List Op) :
    Result (List Op) := do
  let out ← writeAll (.new heap) ops
  let (got, _) ← readAll signed
    (.new (load out.mBuffer 0 out.getLength ++ behind) out.getLength) ops
  .ok got

def bitAt (m : Mem) (i : Nat) : Bool := (m (i / 8)).getLsbD (i % 8)

namespace OutputMemoryStream

def position (s : OutputMemoryStream) : Nat := 8 * s.mHead + s.mBitHead

structure Sized (s : OutputMemoryStream) : Prop where
  head : s.mHead ≤ s.mCapacity
  capacity : 2 ≤ s.mCapacity ∧ s.mCapacity < 2 ^ 32
  length : 0 < s.mBitHead.val → s.mHead + 1 < 2 ^ 32

end OutputMemoryStream

/-- The bits at the place of a field that are set already are bits of the field. -/
def Clean (s : OutputMemoryStream) (v : Byte) (n : Nat) : Prop :=
  ∀ j < 8, s.mBitHead.val ≤ j → j < s.mBitHead.val + n →
    (s.mBuffer s.mHead).getLsbD j = true → v.getLsbD (j - s.mBitHead.val) = true

/-- A signed reader finds the sign of the first byte wherever it fills it in. -/
def SignKept (signed : Bool) (s : OutputMemoryStream) (v : Byte) : Prop :=
  signed = true → 0 < s.mBitHead.val → v.getLsbD (7 - s.mBitHead.val) = true →
    ∀ j < 8, 8 - s.mBitHead.val ≤ j → v.getLsbD j = true

/-- The conditions on a call. Bytes: the length stays a 32-bit number, and the partly filled
byte at the head is overwritten with the bits it has. A field: its place is clean, it does not
end where the buffer does, and its sign is kept where it goes on in the next byte. -/
def Op.Keeps (signed : Bool) (s : OutputMemoryStream) : Op → Prop
  | .bytes data => s.mHead + data.length < 2 ^ 32 ∧
    (0 < s.mBitHead.val → s.mHead + data.length + 1 < 2 ^ 32) ∧
    ∀ b ∈ data.head?, ∀ j < s.mBitHead.val, b.getLsbD j = (s.mBuffer s.mHead).getLsbD j
  | .bits v n => Clean s v n ∧ (s.mBitHead.val + n < 8 → s.mHead < s.mCapacity) ∧
    (8 ≤ s.mBitHead.val + n → s.mHead + 1 ≠ s.mCapacity ∧
      (s.mHead = s.mCapacity → s.mCapacity < 2 ^ 31) ∧ SignKept signed s v)

def Op.Valid : Op → Prop
  | .bytes _ => True
  | .bits v n => 1 ≤ n ∧ n ≤ 8 ∧ v.toNat < 2 ^ n

def AllKeep (signed : Bool) : OutputMemoryStream → List Op → Prop
  | _, [] => True
  | s, op :: rest => op.Keeps signed s ∧ ∀ s', op.write s = .ok s' → AllKeep signed s' rest

def Op.nextBit (h : Nat) : Op → Nat
  | .bytes _ => h
  | .bits _ n => (h + n) % 8

/-- No field fills its byte, for a given number of bits in the byte at the start, without any
byte or field behind it. -/
def NotFilledLast : Nat → List Op → Prop
  | _, [] => True
  | h, .bytes _ :: rest => NotFilledLast h rest
  | h, .bits _ n :: rest =>
    ((h + n) % 8 = 0 → ∃ op ∈ rest, op ≠ .bytes []) ∧ NotFilledLast ((h + n) % 8) rest

section Fields
variable {v c c' : Byte} {h n : Nat}

theorem getLsbD_of_toNat_lt {j : Nat} (hv : v.toNat < 2 ^ n) (hj : n ≤ j) :
    v.getLsbD j = false := by
  have hlt : v.toNat < 2 ^ j := lt_of_lt_of_le hv (Nat.pow_le_pow_right (by decide) hj)
  exact Nat.testBit_lt_two_pow hlt

theorem field_within (hn : h + n < 8) (hv : v.toNat < 2 ^ n)
    (hc : ∀ j < n, c.getLsbD (h + j) = v.getLsbD j) :
    (c >>> h) &&& BitVec.ofNat 8 (2 ^ n - 1) = v := by
  refine BitVec.eq_of_getLsbD_eq fun j hj => ?_
  simp only [BitVec.getLsbD_and, BitVec.getLsbD_ushiftRight,
    ofNat_two_pow_sub_one_getLsbD (show n ≤ 8 by omega)]
  by_cases hjn : j < n
  · simp [hjn, hc j hjn]
  · simp [hjn, getLsbD_of_toNat_lt hv (Nat.not_lt.mp hjn)]

theorem field_across {signed : Bool} (hh : h < 8) (hn8 : n ≤ 8)
    (hv : v.toNat < 2 ^ n) (hc : ∀ j < 8 - h, c.getLsbD (h + j) = v.getLsbD j)
    (hc' : ∀ j < n - (8 - h), c'.getLsbD j = v.getLsbD (j + (8 - h)))
    (hsign : signed = true → 0 < h → v.getLsbD (7 - h) = true →
      ∀ j < 8, 8 - h ≤ j → v.getLsbD j = true) :
    ((c' &&& BitVec.ofNat 8 (2 ^ (n - (8 - h)) - 1)) <<< (8 - h)) ||| lowPart signed h c = v := by
  refine BitVec.eq_of_getLsbD_eq fun j hj => ?_
  rw [across_getLsbD c signed c' hn8 hj]
  by_cases hlow : j < 8 - h
  · rw [if_pos hlow, hc j hlow]
  · have hown : (decide (j < n) && c'.getLsbD (j - (8 - h))) = v.getLsbD j := by
      by_cases hjn : j < n
      · rw [hc' _ (by omega), show j - (8 - h) + (8 - h) = j by omega]
        simp [hjn]
      · rw [getLsbD_of_toNat_lt hv (Nat.not_lt.mp hjn)]
        simp [hjn]
    rw [if_neg hlow, hown]
    cases hfill : signed && c.msb with
    | false => simp
    | true =>
      rw [Bool.and_eq_true] at hfill
      have hmsb : v.getLsbD (7 - h) = true := by
        rw [← hc (7 - h) (by omega), show h + (7 - h) = 8 - 1 by omega,
          ← BitVec.msb_eq_getLsbD_last]
        exact hfill.2
      simp [hsign hfill.1 (by omega) hmsb j hj (Nat.not_lt.mp hlow)]

end Fields

section Position
variable {s s' out : OutputMemoryStream} {op : Op} {m m' : Mem}

open OutputMemoryStream

theorem bitAt_eq (m : Mem) (k : Nat) {j : Nat} (hj : j < 8) :
    bitAt m (8 * k + j) = (m k).getLsbD j := by
  rw [bitAt, Nat.mul_add_div (by decide), Nat.mul_add_mod, Nat.div_eq_of_lt hj,
    Nat.mod_eq_of_lt hj, Nat.add_zero]

def AgreeBelow (p : Nat) (m m' : Mem) : Prop := ∀ i < p, bitAt m' i = bitAt m i

theorem AgreeBelow.mono {p q : Nat} (h : AgreeBelow q m m') (hpq : p ≤ q) : AgreeBelow p m m' :=
  fun i hi => h i (by omega)

theorem AgreeBelow.trans {p : Nat} {m'' : Mem} (h : AgreeBelow p m m') (h' : AgreeBelow p m' m'') :
    AgreeBelow p m m'' :=
  fun i hi => (h' i hi).trans (h i hi)

theorem agreeBelow_iff {k h : Nat} (hh : h < 8) : AgreeBelow (8 * k + h) m m' ↔
    (∀ i < k, m' i = m i) ∧ ∀ j < h, (m' k).getLsbD j = (m k).getLsbD j := by
  constructor
  · intro hagree
    refine ⟨fun i hi => BitVec.eq_of_getLsbD_eq fun j hj => ?_, fun j hj => ?_⟩
    · rw [← bitAt_eq m' i hj, ← bitAt_eq m i hj]
      exact hagree _ (by omega)
    · rw [← bitAt_eq m' k (by omega), ← bitAt_eq m k (by omega)]
      exact hagree _ (by omega)
  · rintro ⟨hbytes, hbits⟩ i hi
    by_cases hik : i / 8 < k
    · rw [bitAt, bitAt, hbytes _ hik]
    · have hik' : i / 8 = k := by omega
      rw [bitAt, bitAt, hik']
      exact hbits _ (by omega)

/-- What a call does: it moves the cursor on and leaves what is behind it. -/
structure Moves (s s' : OutputMemoryStream) (op : Op) : Prop where
  sized : s'.Sized
  le : s.position ≤ s'.position
  lt : op ≠ .bytes [] → s.position < s'.position
  agree : AgreeBelow s.position s.mBuffer s'.mBuffer
  bitHead : s'.mBitHead.val = op.nextBit s.mBitHead

theorem grown_capacity (hs : s.Sized) {n : Nat} (hn : n < 2 ^ 32) :
    2 ≤ grown s.mCapacity n ∧ grown s.mCapacity n < 2 ^ 32 :=
  ⟨hs.capacity.1.trans (le_grown_left _ _), grown_lt hs.capacity.2 hn⟩

theorem write_bytes_moves (hs : s.Sized) {signed : Bool} {data : List Byte}
    (hok : (Op.bytes data).Keeps signed s) : ∃ s', s.write data = .ok s' ∧
      Moves s s' (.bytes data) ∧ s'.mHead = s.mHead + data.length ∧ s'.mBitHead = s.mBitHead ∧
      s'.mBuffer = store s.mBuffer s.mHead data := by
  obtain ⟨hlt, hlength, hfirst⟩ := hok
  have hagree : AgreeBelow s.position s.mBuffer (store s.mBuffer s.mHead data) := by
    refine (agreeBelow_iff s.mBitHead.isLt).mpr ⟨fun i hi => store_of_outside (.inl hi), ?_⟩
    intro j hj
    cases data with
    | nil => rw [store_of_outside (by simp)]
    | cons b rest =>
      have hb : store s.mBuffer s.mHead (b :: rest) s.mHead = b :=
        store_of_inside (k := 0) (by simp)
      rw [hb]
      exact hfirst b rfl j hj
  refine ⟨_, (write_eq hs.capacity.2 data).trans (if_pos hlt),
    ⟨⟨le_grown _ _, grown_capacity hs hlt, hlength⟩, ?_, ?_, hagree, rfl⟩, rfl, rfl, rfl⟩
  · simp only [position]
    omega
  · intro hne
    have hpos : 0 < data.length := List.length_pos_iff.mpr (fun h => hne (by rw [h]))
    simp only [position]
    omega

theorem mixed_getLsbD (v : Byte) {j : Nat} (hj : j < 8) : (s.mixed v).getLsbD j =
    ((s.mBuffer s.mHead).getLsbD j ||
      (decide (s.mBitHead.val ≤ j) && v.getLsbD (j - s.mBitHead.val))) := by
  simp only [mixed, BitVec.getLsbD_or, BitVec.getLsbD_shiftLeft, hj, decide_true, Bool.true_and]
  by_cases hh : j < s.mBitHead.val
  · simp [hh, show ¬s.mBitHead.val ≤ j by omega]
  · simp [hh, show s.mBitHead.val ≤ j by omega]

theorem Clean.found {v : Byte} {n j : Nat} (h : Clean s v n) (hj : j < n)
    (hj8 : s.mBitHead + j < 8) : (s.mixed v).getLsbD (s.mBitHead + j) = v.getLsbD j := by
  have hold := h (s.mBitHead.val + j) hj8 (by omega) (by omega)
  rw [mixed_getLsbD v hj8]
  rw [Nat.add_sub_cancel_left] at hold ⊢
  cases hb : (s.mBuffer s.mHead).getLsbD (s.mBitHead + j) with
  | false => simp
  | true => simp [hold hb]

theorem update_agree (v : Byte) : AgreeBelow s.position s.mBuffer
    (Function.update s.mBuffer s.mHead (s.mixed v)) := by
  refine (agreeBelow_iff s.mBitHead.isLt).mpr ⟨fun i hi => ?_, fun j hj => ?_⟩
  · rw [Function.update_of_ne (by omega)]
  · rw [Function.update_self, mixed_getLsbD v (by omega)]
    simp [show ¬s.mBitHead.val ≤ j by omega]

theorem write_within_moves (hs : s.Sized) {v : Byte} {n : Nat} (hpos : 1 ≤ n)
    (hn : s.mBitHead + n < 8) (hcap : s.mHead < s.mCapacity) :
    ∃ s', s.writeBits v n = .ok s' ∧ Moves s s' (.bits v n) ∧ s'.mHead = s.mHead ∧
      s'.mBitHead = ⟨s.mBitHead + n, hn⟩ ∧
      s'.mBuffer = Function.update s.mBuffer s.mHead (s.mixed v) := by
  refine ⟨_, (writeBits_within hn).trans (if_pos hcap), ⟨⟨hs.head, hs.capacity, ?_⟩, ?_, ?_,
    update_agree v, (Nat.mod_eq_of_lt hn).symm⟩, rfl, rfl, rfl⟩
  · intro _
    have := hs.capacity
    simp only
    omega
  · simp only [position]
    omega
  · intro _
    simp only [position]
    omega

theorem write_across_moves (hs : s.Sized) {v : Byte} {n : Nat} (hpos : 1 ≤ n) (hn8 : n ≤ 8)
    (hn : 8 ≤ s.mBitHead + n) (hcap : s.mHead + 1 ≠ s.mCapacity)
    (hgrow : s.mHead = s.mCapacity → s.mCapacity < 2 ^ 31) :
    ∃ s', s.writeBits v n = .ok s' ∧ Moves s s' (.bits v n) ∧ s'.mHead = s.mHead + 1 ∧
      s'.mBitHead = ⟨s.mBitHead + n - 8, by omega⟩ ∧
      s'.mBuffer = Function.update (Function.update s.mBuffer s.mHead (s.mixed v)) (s.mHead + 1)
        (v >>> (8 - s.mBitHead.val)) := by
  have hle := hs.head
  have hsize := hs.capacity
  have hhead : s.mHead + 1 < 2 ^ 32 := by omega
  have hroom : s.mHead + 1 < (s.reserve (s.mHead + 1)).mCapacity := by
    rw [reserve_grown]
    unfold grown
    split
    · rw [u32_of_lt (by omega)]
      omega
    · omega
  have hnext : 2 ≤ (s.reserve (s.mHead + 1)).mCapacity ∧
      (s.reserve (s.mHead + 1)).mCapacity < 2 ^ 32 := by
    rw [reserve_grown]
    exact grown_capacity hs hhead
  have hagree : AgreeBelow s.position s.mBuffer
      (Function.update (Function.update s.mBuffer s.mHead (s.mixed v)) (s.mHead + 1)
        (v >>> (8 - s.mBitHead.val))) := by
    refine (update_agree v).trans ((agreeBelow_iff s.mBitHead.isLt).mpr ⟨fun i hi => ?_, ?_⟩)
    · rw [Function.update_of_ne (by omega)]
    · intro j hj
      rw [Function.update_of_ne (by omega)]
  refine ⟨_, (writeBits_across hn hn8 hhead).trans (if_pos hroom),
    ⟨⟨hroom.le, hnext, ?_⟩, ?_, ?_, hagree, ?_⟩, rfl, rfl, rfl⟩
  · intro _
    simp only
    omega
  · simp only [position]
    omega
  · intro _
    simp only [position]
    omega
  · simp only [Op.nextBit]
    omega

def Shows (block : List Byte) (m : Mem) (p : Nat) : Prop :=
  ∀ i < p, ∃ c, block[i / 8]? = some c ∧ c.getLsbD (i % 8) = bitAt m i

theorem Shows.bits {block : List Byte} {p k h : Nat} (hshow : Shows block m p) (hpos : 0 < h)
    (hh : h ≤ 8) (hk : 8 * k + h ≤ p) :
    ∃ c, block[k]? = some c ∧ ∀ j < h, c.getLsbD j = (m k).getLsbD j := by
  obtain ⟨c, hc, -⟩ := hshow (8 * k) (by omega)
  rw [Nat.mul_div_cancel_left k (by decide)] at hc
  refine ⟨c, hc, fun j hj => ?_⟩
  obtain ⟨c', hc', hbit⟩ := hshow (8 * k + j) (by omega)
  rw [Nat.mul_add_div (by decide), Nat.div_eq_of_lt (by omega), Nat.add_zero, hc,
    Option.some.injEq] at hc'
  rw [Nat.mul_add_mod, Nat.mod_eq_of_lt (by omega), bitAt_eq m k (by omega)] at hbit
  rw [hc', hbit]

theorem Shows.byte {block : List Byte} {p k : Nat} (hshow : Shows block m p)
    (hk : 8 * k + 8 ≤ p) : block[k]? = some (m k) := by
  obtain ⟨c, hc, hbits⟩ := hshow.bits (h := 8) (by decide) (by decide) hk
  rw [hc, BitVec.eq_of_getLsbD_eq hbits]

theorem Shows.agree {block : List Byte} {p q : Nat} (h : Shows block m' q)
    (hagree : AgreeBelow p m m') (hpq : p ≤ q) : Shows block m p := by
  intro i hi
  obtain ⟨c, hc, hbit⟩ := h i (by omega)
  exact ⟨c, hc, hbit.trans (hagree i hi)⟩

end Position

structure Follows (block : List Byte) (r : InputMemoryStream) (s : OutputMemoryStream) : Prop where
  buffer : r.mBuffer = block
  head : r.mHead = s.mHead
  bitHead : r.mBitHead = s.mBitHead

def HasNext (block : List Byte) (s' : OutputMemoryStream) : Op → Prop
  | .bytes _ => True
  | .bits _ _ => s'.mBitHead.val = 0 → s'.mHead < block.length

section Read
variable {s s' : OutputMemoryStream} {r : InputMemoryStream} {block : List Byte} {signed : Bool}

open OutputMemoryStream

theorem readBack_bytes {data : List Byte} (hr : Follows block r s)
    (hlt : s.mHead + data.length < 2 ^ 32) (hhead : s'.mHead = s.mHead + data.length)
    (hbit : s'.mBitHead = s.mBitHead) (hbuffer : s'.mBuffer = store s.mBuffer s.mHead data)
    (hshow : Shows block s'.mBuffer s'.position) :
    ∃ r', (Op.bytes data).readBack signed r = .ok (.bytes data, r') ∧ Follows block r' s' := by
  have hbyte (k : Nat) (hk : k < data.length) : block[s.mHead + k]? = some (data.getD k 0) := by
    rw [hshow.byte (k := s.mHead + k) (by simp only [position, hhead]; omega), hbuffer,
      store_of_inside hk]
  have hlen : s.mHead + data.length ≤ block.length := by
    cases hsum : s.mHead + data.length with
    | zero => omega
    | succ k =>
      have hlast := hshow.byte (k := k) (by simp only [position, hhead]; omega)
      have := (List.getElem?_eq_some_iff.mp hlast).1
      omega
  have hgot : (block.drop s.mHead).take data.length = data := by
    refine List.ext_getElem? fun k => ?_
    by_cases hk : k < data.length
    · simp [hk, hbyte k hk]
    · simp [hk]
  have hread : r.read (u32 data.length) =
      .ok (data, { r with mHead := s.mHead + data.length }) := by
    rw [u32_of_lt (by omega)]
    simp only [InputMemoryStream.read, hr.head, hr.buffer, if_pos hlen, hgot, u32_of_lt hlt]
  refine ⟨{ r with mHead := s.mHead + data.length }, ?_, hr.buffer, hhead.symm, ?_⟩
  · simp [Op.readBack, hread, bind, Except.bind]
  · exact hr.bitHead.trans hbit.symm

theorem readBack_within {v : Byte} {n : Nat} (hr : Follows block r s) (hv : v.toNat < 2 ^ n)
    (hpos : 1 ≤ n) (hn : s.mBitHead + n < 8) (hclean : Clean s v n)
    (hhead : s'.mHead = s.mHead) (hbit : s'.mBitHead = ⟨s.mBitHead + n, hn⟩)
    (hbuffer : s'.mBuffer = Function.update s.mBuffer s.mHead (s.mixed v))
    (hshow : Shows block s'.mBuffer s'.position) :
    ∃ r', (Op.bits v n).readBack signed r = .ok (.bits v n, r') ∧ Follows block r' s' := by
  obtain ⟨c, hc, hcbits⟩ := hshow.bits (k := s.mHead) (h := s.mBitHead + n) (by omega) (by omega)
    (by simp only [position, hhead, hbit]; omega)
  have hfield : (c >>> s.mBitHead.val) &&& BitVec.ofNat 8 (2 ^ n - 1) = v := by
    refine field_within hn hv fun j hj => ?_
    rw [hcbits _ (by omega), hbuffer, Function.update_self]
    exact hclean.found hj (by omega)
  have hr' : r.mBitHead + n < 8 := by rw [hr.bitHead]; exact hn
  have hread := InputMemoryStream.readBits_within signed hr'
    (by rw [hr.buffer, hr.head]; exact hc)
  refine ⟨{ r with mBitHead := ⟨r.mBitHead + n, hr'⟩ }, ?_, hr.buffer, hr.head.trans hhead.symm, ?_⟩
  · simp only [Op.readBack, hread, bind, Except.bind, hr.bitHead, hfield]
  · simp only [hbit, hr.bitHead]

theorem readBack_across {v : Byte} {n : Nat} (hr : Follows block r s) (hv : v.toNat < 2 ^ n)
    (hn8 : n ≤ 8) (hn : 8 ≤ s.mBitHead + n) (hlt : s.mHead + 1 < 2 ^ 32)
    (hclean : Clean s v n) (hsign : SignKept signed s v)
    (hhead : s'.mHead = s.mHead + 1) (hbit : s'.mBitHead = ⟨s.mBitHead + n - 8, by omega⟩)
    (hbuffer : s'.mBuffer = Function.update (Function.update s.mBuffer s.mHead (s.mixed v))
      (s.mHead + 1) (v >>> (8 - s.mBitHead.val)))
    (hshow : Shows block s'.mBuffer s'.position) (hnext : HasNext block s' (.bits v n)) :
    ∃ r', (Op.bits v n).readBack signed r = .ok (.bits v n, r') ∧ Follows block r' s' := by
  have hc := hshow.byte (k := s.mHead) (by simp only [position, hhead]; omega)
  rw [hbuffer, Function.update_of_ne (by omega), Function.update_self] at hc
  obtain ⟨c', hc', hcbits'⟩ : ∃ c', block[s.mHead + 1]? = some c' ∧
      ∀ j < n - (8 - s.mBitHead.val), c'.getLsbD j = (v >>> (8 - s.mBitHead.val)).getLsbD j := by
    by_cases hfull : s.mBitHead + n = 8
    · have hlen := hnext (by rw [hbit]; simp only; omega)
      rw [hhead] at hlen
      exact ⟨block[s.mHead + 1], List.getElem?_eq_getElem hlen, fun j hj => by omega⟩
    · obtain ⟨c', hc', hcbits'⟩ := hshow.bits (k := s.mHead + 1) (h := s.mBitHead + n - 8)
        (by omega) (by omega) (by simp only [position, hhead, hbit]; omega)
      rw [hbuffer, Function.update_self] at hcbits'
      exact ⟨c', hc', fun j hj => hcbits' j (by omega)⟩
  have hfield : ((c' &&& BitVec.ofNat 8 (2 ^ (n - (8 - s.mBitHead.val)) - 1)) <<<
      (8 - s.mBitHead.val)) ||| lowPart signed s.mBitHead.val (s.mixed v) = v := by
    refine field_across s.mBitHead.isLt hn8 hv (fun j hj => ?_) (fun j hj => ?_) hsign
    · exact hclean.found (by omega) (by omega)
    · rw [hcbits' j hj, BitVec.getLsbD_ushiftRight, Nat.add_comm]
  have hread := InputMemoryStream.readBits_across signed (s := r) (n := n)
    (by rw [hr.bitHead]; exact hn) hn8 (by rw [hr.head]; exact hlt)
    (by rw [hr.buffer, hr.head]; exact hc) (by rw [hr.buffer, hr.head]; exact hc')
  refine ⟨{ r with mHead := r.mHead + 1, mBitHead := ⟨r.mBitHead + n - 8, by omega⟩ }, ?_,
    hr.buffer, ?_, ?_⟩
  · simp only [Op.readBack, hread, bind, Except.bind, hr.bitHead, hfield]
  · simp only [hhead, hr.head]
  · simp only [hbit, hr.bitHead]

/-- One call and the matching one: the writer moves on, and a reader that stands where it
stood and is shown what it wrote follows it. -/
theorem Op.Keeps.step {op : Op} (hok : op.Keeps signed s) (hs : s.Sized) (hvalid : op.Valid) :
    ∃ s', op.write s = .ok s' ∧ Moves s s' op ∧ ∀ block r, Follows block r s →
      Shows block s'.mBuffer s'.position → HasNext block s' op →
      ∃ r', op.readBack signed r = .ok (op, r') ∧ Follows block r' s' := by
  cases op with
  | bytes data =>
    obtain ⟨s', hrun, hmoves, hhead, hbit, hbuffer⟩ := write_bytes_moves hs hok
    exact ⟨s', hrun, hmoves, fun block r hr hshow _ =>
      readBack_bytes hr hok.1 hhead hbit hbuffer hshow⟩
  | bits v n =>
    obtain ⟨hpos, hn8, hv⟩ := hvalid
    obtain ⟨hclean, hwithin, hacross⟩ := hok
    by_cases hn : s.mBitHead + n < 8
    · obtain ⟨s', hrun, hmoves, hhead, hbit, hbuffer⟩ := write_within_moves hs hpos hn (hwithin hn)
      exact ⟨s', hrun, hmoves, fun block r hr hshow _ =>
        readBack_within hr hv hpos hn hclean hhead hbit hbuffer hshow⟩
    · obtain ⟨hcap, hgrow, hsign⟩ := hacross (by omega)
      obtain ⟨s', hrun, hmoves, hhead, hbit, hbuffer⟩ :=
        write_across_moves hs hpos hn8 (by omega) hcap hgrow
      have hlt : s.mHead + 1 < 2 ^ 32 := by
        have := hmoves.sized.head
        have := hmoves.sized.capacity
        omega
      exact ⟨s', hrun, hmoves, fun block r hr hshow hnext =>
        readBack_across hr hv hn8 (by omega) hlt hclean hsign hhead hbit hbuffer hshow hnext⟩

end Read

section Runs
variable {s out : OutputMemoryStream} {ops : List Op} {block : List Byte} {signed : Bool}

open OutputMemoryStream

theorem AllKeep.writeAll (hok : AllKeep signed s ops) (hs : s.Sized)
    (hvalid : ∀ op ∈ ops, op.Valid) : ∃ out, writeAll s ops = .ok out ∧ out.Sized ∧
      s.position ≤ out.position ∧ ((∃ op ∈ ops, op ≠ .bytes []) → s.position < out.position) ∧
      AgreeBelow s.position s.mBuffer out.mBuffer := by
  induction ops generalizing s with
  | nil => exact ⟨s, rfl, hs, le_refl _, by simp, fun _ _ => rfl⟩
  | cons op rest ih =>
    obtain ⟨s', hrun, hmoves, -⟩ := hok.1.step hs (hvalid op (by simp))
    obtain ⟨out, hout, hsized, hle, hlt, hagree⟩ :=
      ih (hok.2 s' hrun) hmoves.sized (fun op hop => hvalid op (by simp [hop]))
    refine ⟨out, ?_, hsized, hmoves.le.trans hle, ?_, hmoves.agree.trans (hagree.mono hmoves.le)⟩
    · simp only [MemoryStream.writeAll, List.foldlM_cons, hrun] at hout ⊢
      exact hout
    · rintro ⟨op', hop', hne⟩
      rcases List.mem_cons.mp hop' with rfl | hop'
      · exact lt_of_lt_of_le (hmoves.lt hne) hle
      · exact lt_of_le_of_lt hmoves.le (hlt ⟨op', hop', hne⟩)

theorem writeAll_cons {op : Op} {s' : OutputMemoryStream} (hrun : op.write s = .ok s') :
    MemoryStream.writeAll s (op :: ops) = MemoryStream.writeAll s' ops := by
  simp only [MemoryStream.writeAll, List.foldlM_cons, hrun]
  rfl

theorem AllKeep.readAll (hok : AllKeep signed s ops) (hs : s.Sized)
    (hvalid : ∀ op ∈ ops, op.Valid) (hout : MemoryStream.writeAll s ops = .ok out)
    (hshow : Shows block out.mBuffer out.position)
    (hnext : out.position < 8 * block.length ∨ NotFilledLast s.mBitHead ops)
    {r : InputMemoryStream} (hr : Follows block r s) :
    ∃ r', readAll signed r ops = .ok (ops, r') ∧ Follows block r' out := by
  induction ops generalizing s r with
  | nil =>
    cases hout
    exact ⟨r, rfl, hr⟩
  | cons op rest ih =>
    obtain ⟨s', hrun, hmoves, hread⟩ := hok.1.step hs (hvalid op (by simp))
    have hrest : ∀ op ∈ rest, op.Valid := fun op hop => hvalid op (by simp [hop])
    obtain ⟨out', hout', -, hle, hlt, hagree⟩ := (hok.2 s' hrun).writeAll hmoves.sized hrest
    rw [writeAll_cons hrun] at hout
    rw [hout, Except.ok.injEq] at hout'
    subst hout'
    have hhas : HasNext block s' op ∧
        (out.position < 8 * block.length ∨ NotFilledLast s'.mBitHead rest) := by
      rcases hnext with hlen | hlast
      · refine ⟨?_, .inl hlen⟩
        cases op with
        | bytes data => trivial
        | bits v n =>
          intro _
          have : s'.position = 8 * s'.mHead + s'.mBitHead := rfl
          omega
      · rw [hmoves.bitHead]
        cases op with
        | bytes data => exact ⟨trivial, .inr hlast⟩
        | bits v n =>
          refine ⟨fun hzero => ?_, .inr hlast.2⟩
          have hbit := hmoves.bitHead
          rw [hzero] at hbit
          have hfar := hlt (hlast.1 hbit.symm)
          have hpos : s'.position = 8 * s'.mHead + s'.mBitHead := rfl
          obtain ⟨c, hc, -⟩ := hshow (8 * s'.mHead) (by omega)
          rw [Nat.mul_div_cancel_left _ (by decide)] at hc
          exact (List.getElem?_eq_some_iff.mp hc).1
    obtain ⟨r₁, hgot, hr₁⟩ := hread block r hr (hshow.agree hagree hle) hhas.1
    obtain ⟨r₂, hgots, hr₂⟩ := ih (hok.2 s' hrun) hmoves.sized hrest hout hhas.2 hr₁
    refine ⟨r₂, ?_, hr₂⟩
    simp only [MemoryStream.readAll, hgot, hgots, bind, Except.bind]

theorem AllKeep.append {before after : List Op} (hok : AllKeep signed s (before ++ after)) :
    AllKeep signed s before ∧
      ∀ s', MemoryStream.writeAll s before = .ok s' → AllKeep signed s' after := by
  induction before generalizing s with
  | nil =>
    refine ⟨trivial, fun s' hs' => ?_⟩
    cases hs'
    exact hok
  | cons op rest ih =>
    refine ⟨⟨hok.1, fun s' hs' => (ih (hok.2 s' hs')).1⟩, fun s' hs' => ?_⟩
    cases hrun : op.write s with
    | error e =>
      simp only [MemoryStream.writeAll, List.foldlM_cons, hrun] at hs'
      contradiction
    | ok s₁ =>
      rw [writeAll_cons hrun] at hs'
      exact (ih (hok.2 s₁ hrun)).2 s' hs'

theorem writeAll_append {before after : List Op} {s' : OutputMemoryStream}
    (hrun : MemoryStream.writeAll s before = .ok s') :
    MemoryStream.writeAll s (before ++ after) = MemoryStream.writeAll s' after := by
  simp only [MemoryStream.writeAll, List.foldlM_append] at hrun ⊢
  rw [hrun]
  rfl

theorem new_sized (heap : Mem) : (OutputMemoryStream.new heap).Sized where
  head := by simp [OutputMemoryStream.new]
  capacity := by simp [OutputMemoryStream.new]
  length := by simp [OutputMemoryStream.new]

theorem getLength_eq (hlt : 0 < out.mBitHead.val → out.mHead + 1 < 2 ^ 32) :
    out.getLength = (out.position + 7) / 8 := by
  unfold getLength position
  split
  · rename_i hzero
    have h0 : out.mBitHead.val = 0 := by simp [hzero]
    omega
  · rename_i hne
    have hpos : 0 < out.mBitHead.val := Nat.pos_of_ne_zero fun h => hne (Fin.ext h)
    rw [u32_of_lt (hlt hpos)]
    omega

theorem shows_load (hs : out.Sized) (behind : List Byte) :
    Shows (load out.mBuffer 0 out.getLength ++ behind) out.mBuffer out.position := by
  intro i hi
  have hlen := getLength_eq hs.length
  have hlt : i / 8 < out.getLength := by omega
  refine ⟨out.mBuffer (i / 8), ?_, rfl⟩
  rw [List.getElem?_append_left (by simpa [load] using hlt)]
  simp [load, hlt]

end Runs

/-- In every sequence of calls whose conditions are met, the matching calls over the bytes of
the stream give back the values written, and no call alters what was written before it. -/
theorem stream_round_trip {signed : Bool} {heap : Mem} {ops : List Op}
    (hvalid : ∀ op ∈ ops, op.Valid) (hok : AllKeep signed (.new heap) ops) :
    (∀ behind, behind ≠ [] ∨ NotFilledLast 0 ops → roundTrip signed heap behind ops = .ok ops) ∧
      ∃ out, writeAll (.new heap) ops = .ok out ∧ ∀ before after s, ops = before ++ after →
        writeAll (.new heap) before = .ok s → AgreeBelow s.position s.mBuffer out.mBuffer := by
  obtain ⟨out, hout, hsized, -⟩ := hok.writeAll (new_sized heap) hvalid
  refine ⟨fun behind hbehind => ?_, out, hout, fun before after s hops hs => ?_⟩
  · have hr : Follows (load out.mBuffer 0 out.getLength ++ behind)
        (.new (load out.mBuffer 0 out.getLength ++ behind) out.getLength) (.new heap) :=
      ⟨rfl, rfl, rfl⟩
    have hnext : out.position < 8 * (load out.mBuffer 0 out.getLength ++ behind).length ∨
        NotFilledLast (OutputMemoryStream.new heap).mBitHead ops := by
      refine hbehind.imp (fun hne => ?_) id
      have hpos := List.length_pos_iff.mpr hne
      have hlen := getLength_eq hsized.length
      rw [List.length_append, load_length]
      omega
    obtain ⟨r, hread, -⟩ :=
      hok.readAll (new_sized heap) hvalid hout (shows_load hsized behind) hnext hr
    simp only [roundTrip, hout, hread, bind, Except.bind]
  · subst hops
    obtain ⟨hbefore, hafter⟩ := hok.append
    obtain ⟨s₁, hs₁, hsized₁, -⟩ :=
      hbefore.writeAll (new_sized heap) (fun op hop => hvalid op (by simp [hop]))
    rw [hs, Except.ok.injEq] at hs₁
    subst hs₁
    obtain ⟨out', hout', -, -, -, hagree⟩ :=
      (hafter s hs).writeAll hsized₁ (fun op hop => hvalid op (by simp [hop]))
    rw [writeAll_append hs, hout', Except.ok.injEq] at hout
    exact hout ▸ hagree

section Instances

instance (s : OutputMemoryStream) (v : Byte) (n : Nat) : Decidable (Clean s v n) := by
  unfold Clean
  infer_instance

instance (signed : Bool) (s : OutputMemoryStream) (v : Byte) : Decidable (SignKept signed s v) := by
  unfold SignKept
  infer_instance

instance (signed : Bool) (s : OutputMemoryStream) (op : Op) : Decidable (op.Keeps signed s) :=
  match op with
  | .bytes data => inferInstanceAs (Decidable (s.mHead + data.length < 2 ^ 32 ∧
      (0 < s.mBitHead.val → s.mHead + data.length + 1 < 2 ^ 32) ∧
      ∀ b ∈ data.head?, ∀ j < s.mBitHead.val, b.getLsbD j = (s.mBuffer s.mHead).getLsbD j))
  | .bits v n => inferInstanceAs (Decidable (Clean s v n ∧
      (s.mBitHead.val + n < 8 → s.mHead < s.mCapacity) ∧
      (8 ≤ s.mBitHead.val + n → s.mHead + 1 ≠ s.mCapacity ∧
        (s.mHead = s.mCapacity → s.mCapacity < 2 ^ 31) ∧ SignKept signed s v)))

instance decidableNotFilledLast : (h : Nat) → (ops : List Op) → Decidable (NotFilledLast h ops)
  | _, [] => isTrue trivial
  | h, .bytes _ :: rest => decidableNotFilledLast h rest
  | h, .bits _ n :: rest =>
    have := decidableNotFilledLast ((h + n) % 8) rest
    inferInstanceAs (Decidable (((h + n) % 8 = 0 → ∃ op ∈ rest, op ≠ .bytes []) ∧
      NotFilledLast ((h + n) % 8) rest))

instance (op : Op) : Decidable op.Valid :=
  match op with
  | .bytes _ => inferInstanceAs (Decidable True)
  | .bits v n => inferInstanceAs (Decidable (1 ≤ n ∧ n ≤ 8 ∧ v.toNat < 2 ^ n))

instance decidableAllKeep (signed : Bool) :
    (s : OutputMemoryStream) → (ops : List Op) → Decidable (AllKeep signed s ops)
  | _, [] => isTrue trivial
  | s, op :: rest =>
    match hrun : op.write s with
    | .error _ => decidable_of_iff (op.Keeps signed s)
        ⟨fun hk => ⟨hk, fun s' hs' => by simp [hrun] at hs'⟩, fun h => h.1⟩
    | .ok s' =>
      have := decidableAllKeep signed s' rest
      decidable_of_iff (op.Keeps signed s ∧ AllKeep signed s' rest)
        ⟨fun h => ⟨h.1, fun t ht => by
          rw [hrun, Except.ok.injEq] at ht
          exact ht ▸ h.2⟩, fun h => ⟨h.1, h.2 s' hrun⟩⟩

end Instances

theorem stream_round_trip_demo :
    roundTrip true (fun _ => 0) [] [.bytes [7], .bits 5 3, .bits 200 8, .bits 3 5, .bytes [1, 2]] =
      .ok [.bytes [7], .bits 5 3, .bits 200 8, .bits 3 5, .bytes [1, 2]] :=
  (stream_round_trip (by decide) (by decide)).1 [] (.inr (by decide))

/-- Bytes written behind a field that does not fill its byte overwrite the field. -/
theorem field_overwritten : (∀ op ∈ [Op.bits 1 1, .bytes [0]], op.Valid) ∧
    roundTrip true (fun _ => 0) [] [.bits 1 1, .bytes [0]] = .ok [.bits 0 1, .bytes [0]] ∧
    roundTrip false (fun _ => 0) [] [.bits 1 1, .bytes [0]] = .ok [.bits 0 1, .bytes [0]] := by
  decide

end MemoryStream
