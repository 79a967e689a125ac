import IotLab.Library.Fallible
import IotLab.Library.Transitions
import IotLab.TcpClientRaw.Packet

/-!
The raw TCP client: a SYN, the wait for its SYN-ACK, then a DATA packet for every line typed and
the wait for its acknowledgement. A raw socket delivers every TCP segment of the host.
-/

set_option autoImplicit false

namespace TcpClientRaw
open HostMemory LoadBalancer

def msgSize : Nat := 1024
def recvSize : Nat := 65536

inductive Fault where
  | outOfBounds
  deriving DecidableEq, Repr

abbrev Result := Except Fault

/-- Before the SYN, in the two `recv` loops, before `fgets`, and after `break` or `exit`. -/
inductive Phase where
  | syn | synAck | input | ack | stopped
  deriving DecidableEq, Repr

structure State where
  seqNum : BitVec 32
  ackNum : BitVec 32
  buffer : Mem
  message : Mem
  phase : Phase

def State.start (isn : BitVec 32) (buffer message : Mem) : State := ⟨isn, 0, buffer, message, .syn⟩

/-- The SYN is sent; a `recv`; a line typed, or none, and a DATA packet. `rand` is what `rand`
returns where a packet is made, and `stale` is what the block-local buffer of a round holds at
first. -/
inductive Event where
  | syn (rand : Nat)
  | recv (received : Option (List Byte)) (rand : Nat)
  | input (line : Option (List Byte)) (stale : Mem) (rand : Nat)

structure Step where
  event : Event
  sent : List (List Byte)

def strAt (message : Mem) : Result (List Byte) :=
  (cString (load message 0 msgSize)).elim (.error .outOfBounds) .ok

def quits (line : List Byte) : Prop := line = [113, 10] ∨ line = [81, 10]

instance quits.decidable (line : List Byte) : Decidable (quits line) :=
  inferInstanceAs (Decidable (_ ∨ _))

/-- The condition of the `recv` loops: the destination address, the destination port, ACK, and
SYN or not. The TCP header is taken to be at offset 20. -/
def accepts (saddr : SockaddrIn) (syn : Bool) (buffer : Mem) : Prop :=
  read32 buffer 16 = saddr.addr ∧ read16 buffer 22 = saddr.port ∧ buffer 33 &&& 0x10 ≠ 0 ∧
    decide (buffer 33 &&& 0x02 ≠ 0) = syn

instance accepts.decidable (saddr : SockaddrIn) (syn : Bool) (buffer : Mem) :
    Decidable (accepts saddr syn buffer) := inferInstanceAs (Decidable (_ ∧ _ ∧ _ ∧ _))

def seqAt (buffer : Mem) : BitVec 32 := swap32 (read32 buffer 24)
def ackAt (buffer : Mem) : BitVec 32 := swap32 (read32 buffer 28)

def act (saddr daddr : SockaddrIn) (s : State) (rand : Nat) : State × List (List Byte) :=
  let seqNum := ackAt s.buffer
  if s.phase = .synAck then
    let ackNum := seqAt s.buffer + 1
    ({ s with seqNum := seqNum, ackNum := ackNum, phase := .input },
      [makePacket .ack saddr daddr seqNum ackNum [] rand])
  else ({ s with seqNum := seqNum, phase := .input }, [])

def handle (saddr daddr : SockaddrIn) (s : State) : Event → Result (State × List (List Byte))
  | .syn rand =>
    .ok ({ s with phase := .synAck }, [makePacket .syn saddr daddr s.seqNum s.ackNum [] rand])
  | .recv none _ | .recv (some []) _ => .ok ({ s with phase := .stopped }, [])
  | .recv (some (b :: bytes)) rand =>
    let s := { s with buffer := store s.buffer 0 (b :: bytes) }
    if accepts saddr (s.phase = .synAck) s.buffer then .ok (act saddr daddr s rand)
    else .ok (s, [])
  | .input line stale rand => do
    -- without a line `message` is as it was
    let message := line.elim s.message fun line => store s.message 0 (line ++ [0])
    let str ← strAt message
    if quits str then .ok ({ s with message := message, phase := .stopped }, [])
    else
      .ok ({ s with message := message, buffer := stale, phase := .ack },
        [makePacket .data saddr daddr s.seqNum s.ackNum str rand])

def Event.canOccur (s : State) : Event → Prop
  | .syn _ => s.phase = .syn
  | .recv received _ => (s.phase = .synAck ∨ s.phase = .ack) ∧
    ∀ bytes ∈ received, bytes.length ≤ recvSize
  | .input line _ _ => s.phase = .input ∧ ∀ l ∈ line, l ≠ [] ∧ l.length ≤ msgSize - 1

def client (saddr daddr : SockaddrIn) (isn : BitVec 32) : Transitions.System State Step where
  init s := ∃ buffer message, s = .start isn buffer message
  step s l t := l.event.canOccur s ∧ handle saddr daddr s l.event = .ok (t, l.sent)

theorem handle_cases {saddr daddr : SockaddrIn} {s t : State} {e : Event}
    {sent : List (List Byte)} (h : handle saddr daddr s e = .ok (t, sent)) :
    (∃ rand, e = .syn rand ∧ t.phase = .synAck) ∨
    (∃ received rand, e = .recv received rand ∧ received.getD [] = [] ∧ t.phase = .stopped) ∨
    (∃ bytes rand, e = .recv (some bytes) rand ∧ bytes ≠ [] ∧ t.buffer = store s.buffer 0 bytes ∧
      ((accepts saddr (s.phase = .synAck) t.buffer ∧ t.phase = .input ∧
          t.seqNum = ackAt t.buffer) ∨
        (¬accepts saddr (s.phase = .synAck) t.buffer ∧ t.phase = s.phase))) ∨
    (∃ line stale rand, e = .input line stale rand ∧
      ((t.phase = .stopped ∧ sent = []) ∨
        ∃ str, t.phase = .ack ∧
          sent = [makePacket .data saddr daddr s.seqNum s.ackNum str rand])) := by
  cases e with
  | syn rand =>
    obtain ⟨rfl, -⟩ := Prod.mk.inj (Except.ok.inj h)
    exact .inl ⟨rand, rfl, rfl⟩
  | recv received rand =>
    rcases received with _ | _ | ⟨b, bytes⟩
    · obtain ⟨rfl, -⟩ := Prod.mk.inj (Except.ok.inj h)
      exact .inr (.inl ⟨none, rand, rfl, rfl, rfl⟩)
    · obtain ⟨rfl, -⟩ := Prod.mk.inj (Except.ok.inj h)
      exact .inr (.inl ⟨some [], rand, rfl, rfl, rfl⟩)
    · refine .inr (.inr (.inl ⟨b :: bytes, rand, rfl, List.cons_ne_nil b bytes, ?_⟩))
      simp only [handle] at h
      split at h
      · rename_i hacc
        have hact := Except.ok.inj h
        unfold act at hact
        split at hact
        · obtain ⟨rfl, -⟩ := Prod.mk.inj hact
          exact ⟨rfl, .inl ⟨hacc, rfl, rfl⟩⟩
        · obtain ⟨rfl, -⟩ := Prod.mk.inj hact
          exact ⟨rfl, .inl ⟨hacc, rfl, rfl⟩⟩
      · rename_i hacc
        obtain ⟨rfl, -⟩ := Prod.mk.inj (Except.ok.inj h)
        exact ⟨rfl, .inr ⟨hacc, rfl⟩⟩
  | input line stale rand =>
    refine .inr (.inr (.inr ⟨line, stale, rand, rfl, ?_⟩))
    obtain ⟨str, -, hrun⟩ := Fallible.bind_eq_ok.mp h
    split at hrun
    · obtain ⟨rfl, rfl⟩ := Prod.mk.inj (Except.ok.inj hrun)
      exact .inl ⟨rfl, rfl⟩
    · obtain ⟨rfl, rfl⟩ := Prod.mk.inj (Except.ok.inj hrun)
      exact .inr ⟨str, rfl, rfl⟩

end TcpClientRaw
