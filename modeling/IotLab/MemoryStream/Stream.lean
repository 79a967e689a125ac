import IotLab.Library.HostMemory

/-!
The memory streams of lab 6: a buffer that grows as bytes and bit fields are written to it,
and a reader of bytes and bit fields over a received block. Neither cursor of a stream is
checked by its reader; an access outside the block is a failure here.
-/

set_option autoImplicit false

namespace MemoryStream
open HostMemory

/-- How a run ends that does not return: an access outside a block, a null or unterminated
string, a shift by more bits than an `int` has; or an exception, which the caller sees. -/
inductive Failure where
  | outOfBounds | nullPointer | unterminated | shiftCount | exception
  deriving DecidableEq, Repr

abbrev Result := Except Failure

def u32 (n : Nat) : Nat := n % 2 ^ 32

theorem u32_of_lt {n : Nat} (h : n < 2 ^ 32) : u32 n = n := Nat.mod_eq_of_lt h

/-- The buffer holds, at every offset that `realloc` has not reached yet, the byte that will
be found there when it does. -/
structure OutputMemoryStream where
  mBuffer : Mem
  mHead : Nat
  mCapacity : Nat
  mBitHead : Fin 8

namespace OutputMemoryStream

def new (heap : Mem) : OutputMemoryStream := ⟨heap, 0, 32, 0⟩

def reallocBuffer (s : OutputMemoryStream) (inNewLength : Nat) : OutputMemoryStream :=
  { s with mCapacity := inNewLength }

def getLength (s : OutputMemoryStream) : Nat :=
  if s.mBitHead = 0 then s.mHead else u32 (s.mHead + 1)

def reserve (s : OutputMemoryStream) (resultHead : Nat) : OutputMemoryStream :=
  if resultHead > s.mCapacity then s.reallocBuffer (max (u32 (s.mCapacity * 2)) resultHead)
  else s

section Reserve
variable (s : OutputMemoryStream) (n : Nat)

@[simp] theorem reserve_mBuffer : (s.reserve n).mBuffer = s.mBuffer := by
  unfold reserve reallocBuffer
  split <;> rfl

@[simp] theorem reserve_mHead : (s.reserve n).mHead = s.mHead := by
  unfold reserve reallocBuffer
  split <;> rfl

@[simp] theorem reserve_mBitHead : (s.reserve n).mBitHead = s.mBitHead := by
  unfold reserve reallocBuffer
  split <;> rfl

theorem reserve_mCapacity : (s.reserve n).mCapacity =
    if n > s.mCapacity then max (u32 (s.mCapacity * 2)) n else s.mCapacity := by
  unfold reserve reallocBuffer
  split <;> rfl

end Reserve

def write (s : OutputMemoryStream) (outData : List Byte) : Result OutputMemoryStream :=
  let resultHead := u32 (s.mHead + u32 outData.length)
  let s := s.reserve resultHead
  if s.mHead + outData.length ≤ s.mCapacity then
    .ok { s with mBuffer := store s.mBuffer s.mHead outData, mHead := resultHead }
  else .error .outOfBounds

def setByte (s : OutputMemoryStream) (i : Nat) (b : Byte) : Result OutputMemoryStream :=
  if i < s.mCapacity then .ok { s with mBuffer := Function.update s.mBuffer i b }
  else .error .outOfBounds

def orByte (s : OutputMemoryStream) (i : Nat) (b : Byte) : Result OutputMemoryStream :=
  s.setByte i (s.mBuffer i ||| b)

def writeBits (s : OutputMemoryStream) (outData : Byte) (outBitCount : Nat) :
    Result OutputMemoryStream :=
  let resultBitHead := (s.mBitHead + outBitCount) % 2 ^ 16
  if resultBitHead > 7 then do
    let resultHead := u32 (s.mHead + 1)
    let s := s.reserve resultHead
    let firstSegLen := 8 - s.mBitHead.val
    let mask := BitVec.ofNat 8 (2 ^ firstSegLen - 1)
    let s ← s.orByte s.mHead ((outData &&& mask) <<< s.mBitHead.val)
    let s ← s.setByte resultHead ((outData &&& ~~~mask) >>> firstSegLen)
    .ok { s with mHead := resultHead, mBitHead := Fin.ofNat 8 (resultBitHead % 8) }
  else do
    let s ← s.orByte s.mHead (outData <<< s.mBitHead.val)
    .ok { s with mBitHead := Fin.ofNat 8 resultBitHead }

end OutputMemoryStream

/-- The buffer is everything that can be read from the block's address on. -/
structure InputMemoryStream where
  mBuffer : List Byte
  mHead : Nat
  mCapacity : Nat
  mBitHead : Fin 8

def charToInt (signed : Bool) (c : Byte) : BitVec 32 :=
  if signed then c.signExtend 32 else c.setWidth 32

namespace InputMemoryStream

def new (inBuffer : List Byte) (inByteCount : Nat) : InputMemoryStream :=
  ⟨inBuffer, 0, inByteCount, 0⟩

/-- `Read`; a read beyond the capacity is noticed and goes on. -/
def read (s : InputMemoryStream) (inByteCount : Nat) : Result (List Byte × InputMemoryStream) :=
  let resultHead := u32 (s.mHead + inByteCount)
  if s.mHead + inByteCount ≤ s.mBuffer.length then
    .ok ((s.mBuffer.drop s.mHead).take inByteCount, { s with mHead := resultHead })
  else .error .outOfBounds

def byteAt (s : InputMemoryStream) (i : Nat) : Result Byte :=
  match s.mBuffer[i]? with
  | some b => .ok b
  | none => .error .outOfBounds

def readBits (signed : Bool) (s : InputMemoryStream) (inBitCount : Nat) :
    Result (Byte × InputMemoryStream) :=
  let resultBitHead := (s.mBitHead + inBitCount) % 2 ^ 16
  if resultBitHead > 7 then do
    let resultHead := u32 (s.mHead + 1)
    let firstSegLen := 8 - s.mBitHead.val
    let secondSegLen := (inBitCount - firstSegLen) % 2 ^ 8
    if secondSegLen < 32 then
      let c ← s.byteAt s.mHead
      let low := ~~~(BitVec.ofNat 32 (2 ^ s.mBitHead.val - 1))
      let readData := ((charToInt signed c &&& low).sshiftRight s.mBitHead.val).setWidth 8
      let c ← s.byteAt resultHead
      let high := BitVec.ofNat 32 (2 ^ secondSegLen - 1)
      let readData :=
        (((charToInt signed c &&& high) <<< firstSegLen) ||| readData.setWidth 32).setWidth 8
      .ok (readData, { s with mHead := resultHead, mBitHead := Fin.ofNat 8 (resultBitHead % 8) })
    else .error .shiftCount
  else if s.mBitHead + inBitCount < 32 then do
    let mask := (BitVec.ofNat 32 (2 ^ (s.mBitHead + inBitCount) - 1) &&&
      ~~~(BitVec.ofNat 32 (2 ^ s.mBitHead.val - 1))).setWidth 8
    let c ← s.byteAt s.mHead
    let readData := ((charToInt signed c &&& mask.setWidth 32) >>> s.mBitHead.val).setWidth 8
    .ok (readData, { s with mBitHead := Fin.ofNat 8 resultBitHead })
  else .error .shiftCount

end InputMemoryStream

end MemoryStream
