import IotLab.Student.Transfer

set_option autoImplicit false

open HostMemory MemoryStream InputMemoryStream Fallible

namespace Student

/-- What `Receive` leaves: the student, how many bytes of the buffer `Read` has gone over, and
how often the buffer is freed. -/
structure Receipt where
  student : Student
  parsed : Nat
  freed : Nat
  deriving DecidableEq

def receiveBuffer (signed : Bool) (alloc : Allocator) (temporaryBuffer : List Byte)
    (socket : Except Nat (List (List Byte))) (st : Student) : Result Receipt :=
  let (result, temporaryBuffer) := TCPSocket.receive socket temporaryBuffer kMaxPacketSize
  let receivedByteCount := (result % 2 ^ 64).toNat
  if receivedByteCount > 0 then do
    let (st, stream) ← read signed alloc (.new temporaryBuffer (u32 receivedByteCount))
    .ok ⟨st, if stream.mBitHead.val = 0 then stream.mHead else stream.mHead + 1, 1⟩
  else .ok ⟨st, 0, 1⟩

inductive NothingReceived : Except Nat (List (List Byte)) → Prop where
  | failed (errno : Nat) (hlt : errno < 2 ^ 31) : NothingReceived (.error errno)
  | closed : NothingReceived (.ok [])

/-- The student is unchanged, no byte is parsed, and the buffer is freed once. -/
def LeavesIntact (signed : Bool) (alloc : Allocator) (buffer : List Byte)
    (socket : Except Nat (List (List Byte))) (st : Student) : Prop :=
  receiveBuffer signed alloc buffer socket st = .ok ⟨st, 0, 1⟩

section Receive
variable {signed : Bool} {alloc : Allocator} {buffer : List Byte}
  {socket : Except Nat (List (List Byte))} {st : Student}

theorem receive_eq_map : receive signed alloc buffer socket st =
    (receiveBuffer signed alloc buffer socket st).map (·.student) := by
  unfold receive receiveBuffer
  dsimp only
  split
  · cases read signed alloc (.new (TCPSocket.receive socket buffer kMaxPacketSize).2
      (u32 ((TCPSocket.receive socket buffer kMaxPacketSize).1 % 2 ^ 64).toNat)) <;> rfl
  · rfl

theorem errorCount_pos {errno : Nat} (hlt : errno < 2 ^ 31) :
    0 < ((-(errno : Int)) % 2 ^ 64).toNat ↔ errno ≠ 0 := by
  omega

theorem closed_intact : LeavesIntact signed alloc buffer (.ok []) st := by
  simp [LeavesIntact, receiveBuffer, TCPSocket.receive, TCPSocket.recv]

/-- After a failure the buffer is parsed as if it were full. -/
theorem failed_parses {errno : Nat} (hlt : errno < 2 ^ 31) (hne : errno ≠ 0)
    (hbuffer : buffer.length = kMaxPacketSize) {r : Receipt}
    (h : receiveBuffer signed alloc buffer (.error errno) st = .ok r) :
    ReadsAs signed alloc buffer r.student ∧ r.parsed = bitsOffset buffer + 3 := by
  have hlen : buffer.length < 2 ^ 32 := by
    rw [hbuffer]
    decide
  unfold receiveBuffer at h
  dsimp only [TCPSocket.receive] at h
  rw [if_pos ((errorCount_pos hlt).mpr hne)] at h
  obtain ⟨⟨got, stream⟩, hread, h⟩ := bind_eq_ok.mp h
  obtain ⟨hreads, rfl⟩ := (read_eq_ok hlen).mp hread
  cases h
  exact ⟨hreads, rfl⟩

/-- A closed connection leaves the student intact, a failure never does: an `errno` of 0 is
none. -/
theorem receive_intact_iff (hbuffer : buffer.length = kMaxPacketSize)
    (hsocket : NothingReceived socket) :
    LeavesIntact signed alloc buffer socket st ↔ socket = .ok [] ∨ socket = .error 0 := by
  cases hsocket with
  | closed => exact iff_of_true closed_intact (.inl rfl)
  | failed errno hlt =>
    by_cases hzero : errno = 0
    · subst hzero
      exact iff_of_true (by simp [LeavesIntact, receiveBuffer, TCPSocket.receive]) (.inr rfl)
    · refine iff_of_false (fun h => ?_) (by simp [hzero])
      have hparsed : 0 = bitsOffset buffer + 3 := (failed_parses hlt hzero hbuffer h).2
      omega

end Receive

theorem closed_leaves_seoeun :
    LeavesIntact true .zeroed (List.replicate kMaxPacketSize 0) (.ok []) seoeun :=
  (receive_intact_iff (List.length_replicate ..) .closed).mpr (.inl rfl)

/-- `recv` fails with ECONNRESET, the new buffer holds zeros, and the student is wiped. -/
theorem reset_wipes_seoeun :
    receiveBuffer true .zeroed (List.replicate kMaxPacketSize 0) (.error 104) seoeun =
      .ok ⟨⟨0, 0, 0, [], [], 0, 0, 0⟩, 31, 1⟩ ∧
    ¬LeavesIntact true .zeroed (List.replicate kMaxPacketSize 0) (.error 104) seoeun := by
  have hrun : receiveBuffer true .zeroed (List.replicate kMaxPacketSize 0) (.error 104) seoeun =
      .ok ⟨⟨0, 0, 0, [], [], 0, 0, 0⟩, 31, 1⟩ := by decide +kernel
  refine ⟨hrun, fun h => ?_⟩
  have hsame := hrun.symm.trans h
  simp at hsame

end Student
