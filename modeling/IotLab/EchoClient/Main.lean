import IotLab.Library.Fallible
import IotLab.Library.HostMemory

/-!
The echo client of the load balancer's directory: it sends a line and reads into the same buffer
until as many bytes have come back.
-/

set_option autoImplicit false

namespace EchoClient
open HostMemory

def bufSize : Nat := 1024

inductive Fault where
  | outOfBounds
  deriving DecidableEq, Repr

abbrev Result := Except Fault

inductive Phase where
  | input | receiving | stopped
  deriving DecidableEq, Repr

structure Client where
  message : Mem
  strLen : Nat
  recvLen : Nat
  phase : Phase
  printed : List (List Byte)

def Client.start (message : Mem) : Client := ⟨message, 0, 0, .input, []⟩

def strAt (message : Mem) : Result (List Byte) :=
  (cString (load message 0 bufSize)).elim (.error .outOfBounds) .ok

def quits (line : List Byte) : Prop := line = [113, 10] ∨ line = [81, 10]

instance quits.decidable (line : List Byte) : Decidable (quits line) :=
  inferInstanceAs (Decidable (_ ∨ _))

/-- `fgets` gives a line, and `write` takes all of it; also what is sent. -/
def Client.input (c : Client) (line : List Byte) : Result (Client × List Byte) := do
  let message := store c.message 0 (line ++ [0])
  let str ← strAt message
  if quits str then .ok ({ c with message := message, phase := .stopped }, [])
  else
    .ok ({ c with
      message := message
      strLen := str.length
      recvLen := 0
      phase := .receiving }, str)

/-- A `read` that fails, that finds the connection closed, or that gives bytes. -/
def Client.recv (c : Client) : Option (List Byte) → Result Client
  | none | some [] => .ok { c with phase := .stopped }
  | some bytes =>
    if c.recvLen + bytes.length ≤ bufSize then
      .ok { c with
        message := store c.message c.recvLen bytes
        recvLen := c.recvLen + bytes.length }
    else .error .outOfBounds

def Client.print (c : Client) : Result Client :=
  if c.recvLen < bufSize then do
    let message := store c.message c.recvLen [0]
    let str ← strAt message
    .ok { c with message := message, phase := .input, printed := c.printed ++ [str] }
  else .error .outOfBounds

/-- A line that is typed: not empty, no longer than `fgets` reads at once, and none to quit. -/
structure Message where
  chars : List Byte
  nonempty : chars ≠ []
  noNul : 0 ∉ chars
  length_le : chars.length ≤ bufSize - 1
  notQuit : ¬quits chars

section Strings
variable {m : Mem} {line : List Byte}

theorem strAt_of_load (h : load m 0 (line.length + 1) = line ++ [0]) (hnul : 0 ∉ line)
    (hlen : line.length ≤ bufSize - 1) : strAt m = .ok line := by
  have hsize : bufSize = line.length + 1 + (bufSize - (line.length + 1)) := by
    have : 0 < bufSize := by decide
    omega
  have hstr : cString (load m 0 bufSize) = some line := by
    rw [hsize, load_add, h]
    exact cString_eq_some.mpr ⟨hnul, _, by rw [List.append_assoc, List.singleton_append]⟩
  rw [strAt, hstr]
  rfl

theorem Client.input_eq (c : Client) (m : Message) : ∃ message,
    c.input m.chars = .ok (⟨message, m.chars.length, 0, .receiving, c.printed⟩, m.chars) := by
  have hload := load_store c.message 0 (m.chars ++ [0])
  rw [List.length_append, List.length_singleton] at hload
  refine ⟨store c.message 0 (m.chars ++ [0]), ?_⟩
  simp only [Client.input, strAt_of_load hload m.noNul m.length_le, bind, Except.bind,
    if_neg m.notQuit]

theorem Client.print_eq {c : Client} {m : Message} (hlen : c.recvLen = m.chars.length)
    (hload : load c.message 0 c.recvLen = m.chars) :
    c.print = .ok ⟨store c.message c.recvLen [0], c.strLen, c.recvLen, .input,
      c.printed ++ [m.chars]⟩ := by
  have hle := m.length_le
  have hlt : c.recvLen < bufSize := by
    have : 0 < bufSize := by decide
    omega
  have hall := load_store_append c.message 0 c.recvLen [0]
  rw [hload, Nat.zero_add, List.length_singleton] at hall
  have hstr := strAt_of_load (by rw [← hlen]; exact hall) m.noNul hle
  simp only [Client.print, if_pos hlt, hstr, bind, Except.bind]

end Strings

end EchoClient
