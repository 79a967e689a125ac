import IotLab.MemoryStream.Values

/-!
The student object of lab 6: written to a stream and sent over TCP, and read from what one
`recv` gives on the other side.
-/

set_option autoImplicit false

open HostMemory MemoryStream

namespace TCPSocket

/-- `recv` on a blocking socket, whose bytes come in the segments that TCP has cut: at most the
first of them. No segment is left when the peer has closed. -/
def recv (inLen : Nat) : List (List Byte) → List Byte
  | [] => []
  | segment :: _ => segment.take inLen

def receive (socket : Except Nat (List (List Byte))) (inData : List Byte) (inLen : Nat) :
    Int × List Byte :=
  match socket with
  | .error errno => (-errno, inData)
  | .ok segments =>
    let received := recv inLen segments
    (received.length, received ++ inData.drop received.length)

end TCPSocket

structure Student where
  mId : BitVec 32
  mHealth : BitVec 32
  mAbility : BitVec 32
  mName : List Byte
  mFriends : List (BitVec 32)
  mBitData1 : Byte
  mBitData2 : Byte
  mBitData3 : Byte
  deriving DecidableEq

namespace Student

def construct (id : BitVec 32) (name : List Byte) : Student := ⟨id, 100, 0, name, [], 13, 52, 100⟩

def kMaxPacketSize : Nat := 1470

def write (st : Student) (inStream : OutputMemoryStream) : Result OutputMemoryStream := do
  let inStream ← inStream.write32 st.mId
  let inStream ← inStream.write32 st.mHealth
  let inStream ← inStream.write32 st.mAbility
  let inStream ← inStream.writeString st.mName
  let inStream ← inStream.writeVector st.mFriends
  let inStream ← inStream.writeBits st.mBitData1 5
  let inStream ← inStream.writeBits st.mBitData2 6
  inStream.writeBits st.mBitData3 8

def read (signed : Bool) (alloc : Allocator) (inStream : InputMemoryStream) :
    Result (Student × InputMemoryStream) := do
  let (mId, inStream) ← inStream.read32
  let (mHealth, inStream) ← inStream.read32
  let (mAbility, inStream) ← inStream.read32
  let (mName, inStream) ← inStream.readString alloc
  let (mFriends, inStream) ← inStream.readVector alloc
  let (mBitData1, inStream) ← inStream.readBits signed 5
  let (mBitData2, inStream) ← inStream.readBits signed 6
  let (mBitData3, inStream) ← inStream.readBits signed 8
  .ok (⟨mId, mHealth, mAbility, mName, mFriends, mBitData1, mBitData2, mBitData3⟩, inStream)

def send (heap : Mem) (st : Student) : Result (List Byte) := do
  let stream ← st.write (.new heap)
  .ok (load stream.mBuffer 0 stream.getLength)

/-- `Receive` into a student; the result of the socket, an `int32_t`, becomes a `size_t`. -/
def receive (signed : Bool) (alloc : Allocator) (temporaryBuffer : List Byte)
    (socket : Except Nat (List (List Byte))) (st : Student) : Result Student :=
  let (result, temporaryBuffer) := TCPSocket.receive socket temporaryBuffer kMaxPacketSize
  let receivedByteCount := (result % 2 ^ 64).toNat
  if receivedByteCount > 0 then do
    let (st, _) ← read signed alloc (.new temporaryBuffer (u32 receivedByteCount))
    .ok st
  else .ok st

end Student
