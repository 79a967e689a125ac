import IotLab.Library.Fallible
import IotLab.MemoryStream.Bits
import IotLab.MemoryStream.ByteSwap

set_option autoImplicit false

namespace MemoryStream
open HostMemory Fallible

/-- What the allocator does: the memory that can be read from a new block on, if there is one,
and whether a vector can grow to a length. -/
structure Allocator where
  malloc : Nat → Option (List Byte)
  le_length : ∀ {n : Nat} {mem : List Byte}, malloc n = some mem → n ≤ mem.length
  resize : Nat → Bool

def Allocator.zeroed : Allocator where
  malloc n := if n < 2 ^ 31 then some (List.replicate (n + 1) 0) else none
  le_length := by
    intro n mem h
    split at h
    · cases h
      simp
    · contradiction
  resize n := n < 2 ^ 31

namespace OutputMemoryStream

def write32 (s : OutputMemoryStream) (outData : BitVec 32) : Result OutputMemoryStream :=
  s.write (bytes32 outData)

def writeSize (s : OutputMemoryStream) (outData : Nat) : Result OutputMemoryStream :=
  s.write (bytes64 (BitVec.ofNat 64 outData))

def writeString (s : OutputMemoryStream) (outString : List Byte) : Result OutputMemoryStream := do
  let s ← s.writeSize outString.length
  s.write outString

def writeVector (s : OutputMemoryStream) (outVector : List (BitVec 32)) :
    Result OutputMemoryStream := do
  let s ← s.writeSize outVector.length
  outVector.foldlM write32 s

end OutputMemoryStream

namespace InputMemoryStream

def read32 (s : InputMemoryStream) : Result (BitVec 32 × InputMemoryStream) := do
  let (inData, s) ← s.read 4
  .ok (word32 inData, s)

def readSize (s : InputMemoryStream) : Result (Nat × InputMemoryStream) := do
  let (inData, s) ← s.read 8
  .ok ((word64 inData).toNat, s)

/-- The count is a `size_t` for `malloc` and a `uint32_t` for `Read`; the string ends at the
first 0 of the new block or of the memory behind it. -/
def readString (alloc : Allocator) (s : InputMemoryStream) :
    Result (List Byte × InputMemoryStream) := do
  let (elementCount, s) ← s.readSize
  match alloc.malloc elementCount with
  | none => .error .nullPointer
  | some str =>
    let (inData, s) ← s.read (u32 elementCount)
    if inData.length ≤ elementCount then
      match cString (inData ++ str.drop inData.length) with
      | some inString => .ok (inString, s)
      | none => .error .unterminated
    else .error .outOfBounds

def readElements : Nat → InputMemoryStream → Result (List (BitVec 32) × InputMemoryStream)
  | 0, s => .ok ([], s)
  | n + 1, s => do
    let (element, s) ← s.read32
    let (elements, s) ← readElements n s
    .ok (element :: elements, s)

/-- `resize` throws where the vector cannot grow. -/
def readVector (alloc : Allocator) (s : InputMemoryStream) :
    Result (List (BitVec 32) × InputMemoryStream) := do
  let (elementCount, s) ← s.readSize
  if alloc.resize elementCount then readElements elementCount s else .error .exception

def readValue (z : Size) (s : InputMemoryStream) :
    Result (BitVec z.bits × InputMemoryStream) := do
  let (inData, s) ← s.read z.bytes
  .ok (valueOf z inData, s)

def readValues (z : Size) :
    Nat → InputMemoryStream → Result (List (BitVec z.bits) × InputMemoryStream)
  | 0, s => .ok ([], s)
  | n + 1, s => do
    let (element, s) ← s.readValue z
    let (elements, s) ← readValues z n s
    .ok (element :: elements, s)

def readVectorOf (z : Size) (alloc : Allocator) (s : InputMemoryStream) :
    Result (List (BitVec z.bits) × InputMemoryStream) := do
  let (elementCount, s) ← s.readSize
  if alloc.resize elementCount then readValues z elementCount s else .error .exception

theorem readElements_eq (n : Nat) (s : InputMemoryStream) :
    readElements n s = readValues .four n s := by
  induction n generalizing s with
  | zero => rfl
  | succ n ih =>
    simp only [readElements, readValues, ih]
    rfl

theorem readVector_eq (alloc : Allocator) (s : InputMemoryStream) :
    s.readVector alloc = s.readVectorOf .four alloc := by
  simp only [readVector, readVectorOf, readElements_eq]

end InputMemoryStream

namespace InputMemoryStream
variable {s s' : InputMemoryStream} {n : Nat}

def unread (s : InputMemoryStream) : List Byte := s.mBuffer.drop s.mHead

def advance (s : InputMemoryStream) (n : Nat) : InputMemoryStream := { s with mHead := s.mHead + n }

@[simp] theorem advance_mBuffer : (s.advance n).mBuffer = s.mBuffer := rfl

@[simp] theorem advance_mHead : (s.advance n).mHead = s.mHead + n := rfl

@[simp] theorem advance_advance (m : Nat) : (s.advance n).advance m = s.advance (n + m) := by
  simp [advance, Nat.add_assoc]

@[simp] theorem unread_advance : (s.advance n).unread = s.unread.drop n := by
  simp [unread]

structure Inside (s : InputMemoryStream) : Prop where
  head : s.mHead ≤ s.mBuffer.length
  length : s.mBuffer.length < 2 ^ 32

theorem Inside.advance (hs : s.Inside) (hn : n ≤ s.unread.length) : (s.advance n).Inside := by
  have hhead := hs.head
  rw [unread, List.length_drop] at hn
  exact ⟨by simp only [advance_mHead, advance_mBuffer]; omega, hs.length⟩

theorem read_eq_ok (hs : s.Inside) {bs : List Byte} : s.read n = .ok (bs, s') ↔
    n ≤ s.unread.length ∧ bs = s.unread.take n ∧ s' = s.advance n := by
  have hhead := hs.head
  have hlen := hs.length
  rw [unread, List.length_drop]
  unfold read
  split
  · rename_i hle
    rw [u32_of_lt (by omega), Except.ok.injEq, Prod.mk.injEq]
    constructor
    · rintro ⟨rfl, rfl⟩
      exact ⟨by omega, rfl, rfl⟩
    · rintro ⟨-, rfl, rfl⟩
      exact ⟨rfl, rfl⟩
  · rename_i hgt
    simp only [reduceCtorEq, false_iff]
    rintro ⟨hle, -⟩
    omega

theorem read_ne_exception : s.read n ≠ .error .exception := by
  unfold read
  split <;> simp

section Size
variable {z : Size}

theorem readValue_eq_ok (hs : s.Inside) {v : BitVec z.bits} : s.readValue z = .ok (v, s') ↔
    z.bytes ≤ s.unread.length ∧ v = valueOf z (s.unread.take z.bytes) ∧
      s' = s.advance z.bytes := by
  simp only [readValue, bind_eq_ok, Prod.exists, read_eq_ok hs, Except.ok.injEq, Prod.mk.injEq]
  constructor
  · rintro ⟨bs, t, ⟨hle, rfl, rfl⟩, rfl, rfl⟩
    exact ⟨hle, rfl, rfl⟩
  · rintro ⟨hle, rfl, rfl⟩
    exact ⟨_, _, ⟨hle, rfl, rfl⟩, rfl, rfl⟩

theorem readValue_ne_exception : s.readValue z ≠ .error .exception := by
  simp [readValue, bind_eq_error, read_ne_exception]

def values (z : Size) : Nat → List Byte → List (BitVec z.bits)
  | 0, _ => []
  | n + 1, bs => valueOf z (bs.take z.bytes) :: values z n (bs.drop z.bytes)

theorem values_bytesOf (elements : List (BitVec z.bits)) (rest : List Byte) :
    values z elements.length ((elements.map (bytesOf z)).flatten ++ rest) = elements := by
  induction elements with
  | nil => rfl
  | cons v elements ih =>
    rw [List.map_cons, List.flatten_cons, List.append_assoc, List.length_cons, values,
      List.take_left' (bytesOf_length v), List.drop_left' (bytesOf_length v), valueOf_bytesOf, ih]

theorem readValues_eq_ok (hs : s.Inside) {elements : List (BitVec z.bits)} :
    readValues z n s = .ok (elements, s') ↔ z.bytes * n ≤ s.unread.length ∧
      elements = values z n s.unread ∧ s' = s.advance (z.bytes * n) := by
  induction n generalizing s elements with
  | zero =>
    simp only [readValues, values, Except.ok.injEq, Prod.mk.injEq, Nat.mul_zero, Nat.zero_le,
      true_and]
    exact ⟨fun h => ⟨h.1.symm, h.2.symm⟩, fun h => ⟨h.1.symm, h.2.symm⟩⟩
  | succ n ih =>
    rw [Nat.mul_succ]
    simp only [readValues, values, bind_eq_ok, Prod.exists, readValue_eq_ok hs, Except.ok.injEq,
      Prod.mk.injEq]
    constructor
    · rintro ⟨v, t, ⟨hle, rfl, rfl⟩, es, t', hrest, rfl, rfl⟩
      obtain ⟨hn, rfl, rfl⟩ := (ih (hs.advance hle)).mp hrest
      rw [unread_advance, List.length_drop] at hn
      exact ⟨by omega, by rw [unread_advance], by rw [advance_advance, Nat.add_comm]⟩
    · rintro ⟨hle, rfl, rfl⟩
      have hone : z.bytes ≤ s.unread.length := by omega
      have hnext : s.advance (z.bytes * n + z.bytes) =
          (s.advance z.bytes).advance (z.bytes * n) := by
        rw [advance_advance, Nat.add_comm]
      refine ⟨_, _, ⟨hone, rfl, rfl⟩, _, _, (ih (hs.advance hone)).mpr ⟨?_, rfl, hnext⟩, ?_, rfl⟩
      · rw [unread_advance, List.length_drop]
        omega
      · rw [unread_advance]

theorem readValues_ne_exception : readValues z n s ≠ .error .exception := by
  induction n generalizing s with
  | zero => simp [readValues]
  | succ n ih => simp [readValues, bind_eq_error, readValue_ne_exception, ih]

end Size

theorem read32_eq_ok (hs : s.Inside) {v : BitVec 32} : s.read32 = .ok (v, s') ↔
    4 ≤ s.unread.length ∧ v = word32 (s.unread.take 4) ∧ s' = s.advance 4 :=
  readValue_eq_ok (z := .four) hs

theorem read32_ne_exception : s.read32 ≠ .error .exception := readValue_ne_exception (z := .four)

def countOf (bs : List Byte) : Nat := (word64 (bs.take 8)).toNat

theorem countOf_bytes64 {n : Nat} (hn : n < 2 ^ 64) (rest : List Byte) :
    countOf (bytes64 (BitVec.ofNat 64 n) ++ rest) = n := by
  rw [countOf, List.take_left' (bytes64_length _), word64_bytes64, BitVec.toNat_ofNat,
    Nat.mod_eq_of_lt hn]

theorem readSize_eq_ok (hs : s.Inside) : s.readSize = .ok (n, s') ↔
    8 ≤ s.unread.length ∧ n = countOf s.unread ∧ s' = s.advance 8 := by
  simp only [readSize, bind_eq_ok, Prod.exists, read_eq_ok hs, Except.ok.injEq, Prod.mk.injEq]
  constructor
  · rintro ⟨bs, t, ⟨hle, rfl, rfl⟩, rfl, rfl⟩
    exact ⟨hle, rfl, rfl⟩
  · rintro ⟨hle, rfl, rfl⟩
    exact ⟨_, _, ⟨hle, rfl, rfl⟩, rfl, rfl⟩

theorem readSize_ne_exception : s.readSize ≠ .error .exception := by
  simp [readSize, bind_eq_error, read_ne_exception]

theorem u32_le (n : Nat) : u32 n ≤ n := Nat.mod_le _ _

theorem readString_eq_ok {alloc : Allocator} (hs : s.Inside) {str : List Byte} :
    s.readString alloc = .ok (str, s') ↔ 8 ≤ s.unread.length ∧
      ∃ mem, alloc.malloc (countOf s.unread) = some mem ∧
        8 + u32 (countOf s.unread) ≤ s.unread.length ∧
        cString ((s.unread.drop 8).take (u32 (countOf s.unread)) ++
          mem.drop (u32 (countOf s.unread))) = some str ∧
        s' = s.advance (8 + u32 (countOf s.unread)) := by
  have hcopied (hm : 8 + u32 (countOf s.unread) ≤ s.unread.length) :
      ((s.unread.drop 8).take (u32 (countOf s.unread))).length = u32 (countOf s.unread) := by
    rw [List.length_take, List.length_drop]
    omega
  simp only [readString, bind_eq_ok, Prod.exists, readSize_eq_ok hs]
  constructor
  · rintro ⟨n, t, ⟨hle, rfl, rfl⟩, hrun⟩
    refine ⟨hle, ?_⟩
    cases hmem : alloc.malloc (countOf s.unread) with
    | none => simp [hmem] at hrun
    | some mem =>
      simp only [hmem, bind_eq_ok, Prod.exists, read_eq_ok (hs.advance hle), unread_advance,
        List.length_drop] at hrun
      obtain ⟨data, t, ⟨hm, rfl, rfl⟩, hrun⟩ := hrun
      rw [hcopied (by omega), if_pos (u32_le _)] at hrun
      split at hrun
      · rename_i hstr
        simp only [Except.ok.injEq, Prod.mk.injEq, advance_advance] at hrun
        exact ⟨mem, rfl, by omega, hrun.1 ▸ hstr, hrun.2.symm⟩
      · simp at hrun
  · rintro ⟨hle, mem, hmem, hm, hstr, rfl⟩
    refine ⟨_, _, ⟨hle, rfl, rfl⟩, ?_⟩
    simp only [hmem, bind_eq_ok, Prod.exists, read_eq_ok (hs.advance hle), unread_advance,
      List.length_drop]
    refine ⟨_, _, ⟨by omega, rfl, rfl⟩, ?_⟩
    rw [hcopied hm, if_pos (u32_le _)]
    simp only [hstr, advance_advance]

theorem readString_ne_exception {alloc : Allocator} :
    s.readString alloc ≠ .error .exception := by
  simp only [readString, ne_eq, bind_eq_error, readSize_ne_exception, false_or, Prod.exists,
    not_exists, not_and]
  intro n t _
  cases alloc.malloc n with
  | none => simp
  | some mem =>
    simp only [bind_eq_error, read_ne_exception, false_or, Prod.exists, not_exists, not_and]
    intro data t _
    split
    · split <;> simp
    · simp

def words : Nat → List Byte → List (BitVec 32)
  | 0, _ => []
  | n + 1, bs => word32 (bs.take 4) :: words n (bs.drop 4)

theorem words_eq (n : Nat) (bs : List Byte) : words n bs = values .four n bs := by
  induction n generalizing bs with
  | zero => rfl
  | succ n ih =>
    rw [words, ih]
    rfl

theorem words_bytes32 (elements : List (BitVec 32)) (rest : List Byte) :
    words elements.length ((elements.map bytes32).flatten ++ rest) = elements := by
  rw [words_eq]
  exact values_bytesOf (z := .four) elements rest

theorem readVectorOf_eq_ok {z : Size} {alloc : Allocator} (hs : s.Inside)
    {elements : List (BitVec z.bits)} :
    s.readVectorOf z alloc = .ok (elements, s') ↔ 8 ≤ s.unread.length ∧
      alloc.resize (countOf s.unread) = true ∧
      8 + z.bytes * countOf s.unread ≤ s.unread.length ∧
      elements = values z (countOf s.unread) (s.unread.drop 8) ∧
      s' = s.advance (8 + z.bytes * countOf s.unread) := by
  simp only [readVectorOf, bind_eq_ok, Prod.exists, readSize_eq_ok hs]
  constructor
  · rintro ⟨n, t, ⟨hle, rfl, rfl⟩, hrun⟩
    split at hrun
    · rename_i hresize
      obtain ⟨hn, rfl, rfl⟩ := (readValues_eq_ok (hs.advance hle)).mp hrun
      rw [unread_advance, List.length_drop] at hn
      exact ⟨hle, hresize, by omega, by rw [unread_advance], advance_advance _⟩
    · simp at hrun
  · rintro ⟨hle, hresize, hn, rfl, rfl⟩
    refine ⟨_, _, ⟨hle, rfl, rfl⟩, ?_⟩
    rw [if_pos hresize, readValues_eq_ok (hs.advance hle), unread_advance, List.length_drop,
      advance_advance]
    exact ⟨by omega, rfl, rfl⟩

theorem readVector_eq_ok {alloc : Allocator} (hs : s.Inside) {elements : List (BitVec 32)} :
    s.readVector alloc = .ok (elements, s') ↔ 8 ≤ s.unread.length ∧
      alloc.resize (countOf s.unread) = true ∧ 8 + 4 * countOf s.unread ≤ s.unread.length ∧
      elements = words (countOf s.unread) (s.unread.drop 8) ∧
      s' = s.advance (8 + 4 * countOf s.unread) := by
  rw [readVector_eq, words_eq]
  exact readVectorOf_eq_ok (z := .four) hs

theorem readVector_eq_exception {alloc : Allocator} (hs : s.Inside) :
    s.readVector alloc = .error .exception ↔
      8 ≤ s.unread.length ∧ alloc.resize (countOf s.unread) = false := by
  simp only [readVector_eq, readVectorOf, bind_eq_error, readSize_ne_exception, false_or,
    Prod.exists, readSize_eq_ok hs]
  constructor
  · rintro ⟨n, t, ⟨hle, rfl, rfl⟩, hrun⟩
    split at hrun
    · exact absurd hrun readValues_ne_exception
    · rename_i hresize
      exact ⟨hle, by simpa using hresize⟩
  · rintro ⟨hle, hresize⟩
    exact ⟨_, _, ⟨hle, rfl, rfl⟩, by simp [hresize]⟩

section Bits
variable {signed : Bool}

theorem byteAt_ne_exception {i : Nat} : s.byteAt i ≠ .error .exception := by
  unfold byteAt
  split <;> simp

theorem readBits_ne_exception : s.readBits signed n ≠ .error .exception := by
  simp only [readBits]
  split
  · split
    · simp [bind_eq_error, byteAt_ne_exception]
    · simp
  · split
    · simp [bind_eq_error, byteAt_ne_exception]
    · simp

end Bits

end InputMemoryStream

end MemoryStream
