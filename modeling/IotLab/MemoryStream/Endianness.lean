import IotLab.MemoryStream.ByteSwap
import IotLab.MemoryStream.Growth
import IotLab.MemoryStream.Values

set_option autoImplicit false

namespace MemoryStream
open HostMemory Fallible

structure Endianness where
  stream : Int
  platform : Int
  deriving DecidableEq

namespace Endianness

def shipped : Endianness := ⟨0, 0⟩

def writeValue (e : Endianness) (z : Size) (outData : BitVec z.bits) (s : OutputMemoryStream) :
    Result OutputMemoryStream :=
  if e.stream = e.platform then s.write (bytesOf z outData)
  else
    let swappedData := byteSwap z outData
    s.write (bytesOf z swappedData)

def writeString (e : Endianness) (outString : List Byte) (s : OutputMemoryStream) :
    Result OutputMemoryStream := do
  let elementCount := BitVec.ofNat 64 outString.length
  let s ← e.writeValue .eight elementCount s
  s.write outString

def writeVector (e : Endianness) (z : Size) (outVector : List (BitVec z.bits))
    (s : OutputMemoryStream) : Result OutputMemoryStream := do
  let elementCount := BitVec.ofNat 64 outVector.length
  let s ← e.writeValue .eight elementCount s
  outVector.foldlM (fun s element => e.writeValue z element s) s

end Endianness

section Shipped
variable (s : OutputMemoryStream)

/-- The overloads that the build has are those of its setting. -/
theorem Endianness.shipped_writeString (str : List Byte) :
    shipped.writeString str s = s.writeString str := rfl

theorem Endianness.shipped_writeVector (elements : List (BitVec 32)) :
    shipped.writeVector .four elements s = s.writeVector elements := rfl

end Shipped

/-- A run of `write` completes, and `read` gives the value back on a reader over the bytes
written so far that has come to where `write` began. -/
def ReadsBack {α : Type} (s : OutputMemoryStream)
    (write : OutputMemoryStream → Result OutputMemoryStream)
    (read : InputMemoryStream → Result (α × InputMemoryStream)) (v : α) : Prop :=
  ∃ out r, write s = .ok out ∧
    read ((InputMemoryStream.new (load out.mBuffer 0 out.mHead) out.mHead).advance s.mHead) =
      .ok (v, r)

def Endianness.sent (e : Endianness) (z : Size) (v : BitVec z.bits) : List Byte :=
  if e.stream = e.platform then bytesOf z v else (bytesOf z v).reverse

section Sent
variable {e : Endianness} {z : Size} {s : OutputMemoryStream}

@[simp] theorem Endianness.sent_length (v : BitVec z.bits) : (e.sent z v).length = z.bytes := by
  unfold sent
  split <;> simp

theorem Endianness.writeValue_eq (v : BitVec z.bits) :
    e.writeValue z v s = s.write (e.sent z v) := by
  unfold writeValue sent
  split
  · rfl
  · simp only [bytesOf_byteSwap]

theorem Endianness.writeString_eq (str : List Byte) : e.writeString str s =
    [e.sent .eight (BitVec.ofNat 64 str.length), str].foldlM OutputMemoryStream.write s := by
  simp [writeString, writeValue_eq]

theorem Endianness.writeVector_eq (elements : List (BitVec z.bits)) :
    e.writeVector z elements s =
      (e.sent .eight (BitVec.ofNat 64 elements.length) :: elements.map (e.sent z)).foldlM
        OutputMemoryStream.write s := by
  simp [writeVector, writeValue_eq, List.foldlM_map]

end Sent

section Receiver
variable {s : OutputMemoryStream} {bytes : List Byte}

def receiver (s : OutputMemoryStream) (bytes : List Byte) : InputMemoryStream :=
  (InputMemoryStream.new (load s.mBuffer 0 s.mHead ++ bytes) (s.mHead + bytes.length)).advance
    s.mHead

theorem unread_receiver : (receiver s bytes).unread = bytes := by
  simp [receiver, InputMemoryStream.unread, InputMemoryStream.new,
    List.drop_left' (load_length _ _ _)]

theorem receiver_inside (hlt : s.mHead + bytes.length < 2 ^ 32) : (receiver s bytes).Inside := by
  constructor <;> simp [receiver, InputMemoryStream.new, load_length]
  omega

/-- Writes one after the other are read back when they fit and the reader gets the value out of
their bytes. -/
theorem readsBack_iff {α : Type} {write : OutputMemoryStream → Result OutputMemoryStream}
    {read : InputMemoryStream → Result (α × InputMemoryStream)} {v : α} {data : List Byte}
    {chunks : List (List Byte)} (hcap : s.mCapacity < 2 ^ 32)
    (hwrite : write s = (data :: chunks).foldlM OutputMemoryStream.write s) :
    ReadsBack s write read v ↔ s.mHead + (data :: chunks).flatten.length < 2 ^ 32 ∧
      ∃ r, read (receiver s (data :: chunks).flatten) = .ok (v, r) := by
  have hload (bytes : List Byte) : load (store s.mBuffer s.mHead bytes) 0
      (s.mHead + bytes.length) = load s.mBuffer 0 s.mHead ++ bytes := by
    have h := load_store_append s.mBuffer 0 s.mHead bytes
    rwa [Nat.zero_add] at h
  rw [ReadsBack, hwrite, OutputMemoryStream.write_row hcap]
  split
  · rename_i hlt
    simp only [Except.ok.injEq, exists_and_left, exists_eq_left', hload, hlt, true_and]
    rfl
  · rename_i hge
    simp only [reduceCtorEq, false_and, exists_false, hge]

end Receiver

def turnedCount (n : Nat) : Nat := (word64 (bytes64 (BitVec.ofNat 64 n)).reverse).toNat

section Count
variable {e : Endianness} {n : Nat}

theorem turnedCount_eq (n : Nat) :
    turnedCount n = (byteSwap8 (BitVec.ofNat 64 n)).toNat := by
  rw [turnedCount, ← bytes64_byteSwap8, word64_bytes64]

theorem turnedCount_zero : turnedCount 0 = 0 := rfl

theorem turnedCount_high (hn : n < 2 ^ 32) :
    u32 (turnedCount n) = 0 ∧ (n ≠ 0 → 2 ^ 32 ≤ turnedCount n) := by
  have hvalue : (BitVec.ofNat 64 n).toNat = n := by
    rw [BitVec.toNat_ofNat, Nat.mod_eq_of_lt (by omega)]
  rw [turnedCount_eq, u32]
  have h := byteSwap8_high (v := BitVec.ofNat 64 n) (by omega)
  rwa [hvalue] at h

theorem countOf_sent (hn : n < 2 ^ 32) (rest : List Byte) :
    InputMemoryStream.countOf (e.sent .eight (BitVec.ofNat 64 n) ++ rest) =
      if e.stream = e.platform then n else turnedCount n := by
  unfold Endianness.sent
  split
  · exact InputMemoryStream.countOf_bytes64 (by omega) rest
  · rw [InputMemoryStream.countOf, List.take_left' (by simp [Size.bytes]), turnedCount]
    rfl

end Count

section Back
variable {e : Endianness} {z : Size} {s : OutputMemoryStream} {alloc : Allocator}

open InputMemoryStream

theorem valueOf_sent (v : BitVec z.bits) : valueOf z (e.sent z v) = v ↔
    e.stream = e.platform ∨ (bytesOf z v).reverse = bytesOf z v := by
  unfold Endianness.sent
  split
  · rename_i heq
    simp [heq]
  · rename_i hne
    rw [or_iff_right hne, ← bytesOf_byteSwap, valueOf_bytesOf]
    exact ⟨congrArg _, bytesOf_injective⟩

theorem value_readsBack_iff (hcap : s.mCapacity < 2 ^ 32) (v : BitVec z.bits) :
    ReadsBack s (e.writeValue z v) (readValue z) v ↔ s.mHead + z.bytes < 2 ^ 32 ∧
      (e.stream = e.platform ∨ (bytesOf z v).reverse = bytesOf z v) := by
  have hwrite : e.writeValue z v s = [e.sent z v].foldlM OutputMemoryStream.write s := by
    simp [Endianness.writeValue_eq]
  have hflat : [e.sent z v].flatten = e.sent z v := by simp
  rw [readsBack_iff hcap hwrite, hflat, Endianness.sent_length, ← valueOf_sent]
  refine and_congr_right fun hlt => ?_
  have hin : (receiver s (e.sent z v)).Inside := receiver_inside (by simpa using hlt)
  simp only [readValue_eq_ok hin, unread_receiver, Endianness.sent_length, le_refl, true_and,
    List.take_of_length_le (Nat.le_of_eq (Endianness.sent_length v)), exists_and_left, exists_eq,
    and_true]
  exact eq_comm

/-- What it takes for a string: with one endianness, no 0 in it and one behind the copy; with
two, that it is in the block that is allocated for the turned length. -/
def StringKept (e : Endianness) (alloc : Allocator) (str : List Byte) : Prop :=
  if e.stream = e.platform then
    0 ∉ str ∧ ∃ mem, alloc.malloc str.length = some mem ∧ mem[str.length]? = some 0
  else ∃ mem, alloc.malloc (turnedCount str.length) = some mem ∧ cString mem = some str

theorem string_readsBack_iff (hcap : s.mCapacity < 2 ^ 32) (str : List Byte) :
    ReadsBack s (e.writeString str) (readString alloc) str ↔
      s.mHead + 8 + str.length < 2 ^ 32 ∧ StringKept e alloc str := by
  have hflat : [e.sent .eight (BitVec.ofNat 64 str.length), str].flatten =
      e.sent .eight (BitVec.ofNat 64 str.length) ++ str := by simp
  have hlen : (e.sent .eight (BitVec.ofNat 64 str.length)).length = 8 := e.sent_length _
  rw [readsBack_iff hcap (Endianness.writeString_eq str), hflat, List.length_append, hlen,
    ← Nat.add_assoc]
  refine and_congr_right fun hlt => ?_
  have hin : (receiver s (e.sent .eight (BitVec.ofNat 64 str.length) ++ str)).Inside :=
    receiver_inside (by rw [List.length_append, hlen]; omega)
  simp only [readString_eq_ok hin, unread_receiver, List.length_append, hlen,
    countOf_sent (show str.length < 2 ^ 32 by omega), List.drop_left' hlen]
  unfold StringKept
  split
  · rw [u32_of_lt (by omega), List.take_length]
    simp only [cString_append]
    constructor
    · rintro ⟨-, -, mem, hmem, -, ⟨hzero, hend⟩, -⟩
      exact ⟨hzero, mem, hmem, hend⟩
    · rintro ⟨hzero, mem, hmem, hend⟩
      exact ⟨_, by omega, mem, hmem, le_refl _, ⟨hzero, hend⟩, rfl⟩
  · rw [(turnedCount_high (by omega)).1]
    simp only [List.take_zero, List.nil_append, List.drop_zero]
    constructor
    · rintro ⟨-, -, mem, hmem, -, hstr, -⟩
      exact ⟨mem, hmem, hstr⟩
    · rintro ⟨mem, hmem, hstr⟩
      exact ⟨_, by omega, mem, hmem, by omega, hstr, rfl⟩

theorem vector_readsBack_iff (hcap : s.mCapacity < 2 ^ 32) (elements : List (BitVec z.bits)) :
    ReadsBack s (e.writeVector z elements) (readVectorOf z alloc) elements ↔
      s.mHead + 8 + z.bytes * elements.length < 2 ^ 32 ∧ alloc.resize elements.length = true ∧
        (e.stream = e.platform ∨ elements = []) := by
  have hlen : (e.sent .eight (BitVec.ofNat 64 elements.length)).length = 8 := e.sent_length _
  have hall : (elements.map (e.sent z)).flatten.length = z.bytes * elements.length :=
    flatten_map_length e.sent_length elements
  have hpos : 1 ≤ z.bytes := by cases z <;> decide
  rw [readsBack_iff hcap (Endianness.writeVector_eq elements), List.flatten_cons,
    List.length_append, hlen, hall, ← Nat.add_assoc]
  refine and_congr_right fun hlt => ?_
  have hcount : elements.length ≤ z.bytes * elements.length := Nat.le_mul_of_pos_left _ hpos
  have hin : (receiver s (e.sent .eight (BitVec.ofNat 64 elements.length) ++
      (elements.map (e.sent z)).flatten)).Inside :=
    receiver_inside (by rw [List.length_append, hlen, hall]; omega)
  simp only [readVectorOf_eq_ok hin, unread_receiver, List.length_append, hlen, hall,
    countOf_sent (show elements.length < 2 ^ 32 by omega), List.drop_left' hlen]
  split
  · rename_i heq
    have hbytes : e.sent z = bytesOf z := funext fun v => if_pos heq
    have hback := values_bytesOf elements []
    rw [List.append_nil] at hback
    rw [hbytes, hback]
    simp [heq]
  · rename_i hne
    rw [or_iff_right hne]
    constructor
    · rintro ⟨r, -, hresize, hroom, -⟩
      have hnil : elements.length = 0 := by
        by_contra hnonzero
        have hhuge := (turnedCount_high (by omega)).2 hnonzero
        have hmul : turnedCount elements.length ≤ z.bytes * turnedCount elements.length :=
          Nat.le_mul_of_pos_left _ hpos
        omega
      rw [hnil, turnedCount_zero] at hresize
      exact ⟨by rw [hnil]; exact hresize, List.length_eq_zero_iff.mp hnil⟩
    · rintro ⟨hresize, rfl⟩
      rw [List.length_nil, turnedCount_zero]
      exact ⟨_, by simp, hresize, by simp, rfl, rfl⟩

end Back

/-- Each swap undoes itself, but `Read` does not swap: with two endiannesses a value comes back
exactly when its bytes read the same from both ends, a vector when it is empty, and a string
only out of what the allocator left in its block. -/
theorem endianness_agrees_iff (e : Endianness) (alloc : Allocator) {s : OutputMemoryStream}
    (hcap : s.mCapacity < 2 ^ 32) :
    (∀ z v, byteSwap z (byteSwap z v) = v) ∧
    (∀ z v, ReadsBack s (e.writeValue z v) (InputMemoryStream.readValue z) v ↔
      s.mHead + z.bytes < 2 ^ 32 ∧
        (e.stream = e.platform ∨ (bytesOf z v).reverse = bytesOf z v)) ∧
    (∀ str, ReadsBack s (e.writeString str) (InputMemoryStream.readString alloc) str ↔
      s.mHead + 8 + str.length < 2 ^ 32 ∧ StringKept e alloc str) ∧
    ∀ z elements, ReadsBack s (e.writeVector z elements) (InputMemoryStream.readVectorOf z alloc)
      elements ↔ s.mHead + 8 + z.bytes * elements.length < 2 ^ 32 ∧
        alloc.resize elements.length = true ∧ (e.stream = e.platform ∨ elements = []) :=
  ⟨fun z v => byteSwap_byteSwap z v, fun _ v => value_readsBack_iff hcap v,
    fun str => string_readsBack_iff hcap str, fun _ elements => vector_readsBack_iff hcap elements⟩

/-- A scalar, a string and a vector under the shipped settings, and under others a scalar that
reads the same from both ends. -/
theorem endianness_agrees_demo :
    ReadsBack (.new fun _ => 0) (Endianness.shipped.writeValue .two 0x1234#16)
      (InputMemoryStream.readValue .two) 0x1234#16 ∧
    ReadsBack (.new fun _ => 0) (Endianness.writeValue ⟨1, 0⟩ .four 0x12343412#32)
      (InputMemoryStream.readValue .four) 0x12343412#32 ∧
    ReadsBack (.new fun _ => 0) (Endianness.shipped.writeString [104, 105])
      (InputMemoryStream.readString .zeroed) [104, 105] ∧
    ReadsBack (.new fun _ => 0) (Endianness.shipped.writeVector .two [0x1234#16, 5#16])
      (InputMemoryStream.readVectorOf .two .zeroed) [0x1234#16, 5#16] := by
  have hcap : (OutputMemoryStream.new fun _ => 0).mCapacity < 2 ^ 32 := by decide
  obtain ⟨-, hvalue, hstring, hvector⟩ := endianness_agrees_iff .shipped .zeroed hcap
  obtain ⟨-, hswapped, -⟩ := endianness_agrees_iff ⟨1, 0⟩ .zeroed hcap
  refine ⟨(hvalue .two _).mpr ⟨by decide, .inl rfl⟩,
    (hswapped .four _).mpr ⟨by decide, .inr (by decide)⟩, (hstring _).mpr ⟨by decide, ?_⟩,
    (hvector .two _).mpr ⟨by decide, by decide, .inl rfl⟩⟩
  rw [StringKept, if_pos (by rfl)]
  exact ⟨by decide, _, rfl, rfl⟩

/-- Written under two endiannesses, 1 comes back as 0x01000000. -/
theorem swapped_one_misread :
    ∃ out r, Endianness.writeValue ⟨1, 0⟩ .four 1#32 (.new fun _ => 0) = .ok out ∧
      InputMemoryStream.readValue .four (.new (load out.mBuffer 0 out.mHead) out.mHead) =
        .ok (0x01000000#32, r) ∧
      ¬ReadsBack (.new fun _ => 0) (Endianness.writeValue ⟨1, 0⟩ .four 1#32)
        (InputMemoryStream.readValue .four) 1#32 := by
  refine ⟨_, _, rfl, rfl, ?_⟩
  rw [value_readsBack_iff (by decide)]
  decide

end MemoryStream
