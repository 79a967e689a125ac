import IotLab.Library.HostMemory
import IotLab.Library.Transitions

/-!
What the three echo servers have in common: the system calls whose results drive them, the bytes
that were read from each connection and written back to it, and the law of an echo.
-/

set_option autoImplicit false

namespace EchoServers
open HostMemory

/-- What `read` returns: the -1 of an error, with `errno` being `EAGAIN` or not, or bytes; none
mean that the client has closed. -/
inductive ReadResult where
  | failed (again : Bool)
  | data (bytes : List Byte)
  deriving DecidableEq

def ReadResult.length : ReadResult → Nat
  | .failed _ => 0
  | .data bytes => bytes.length

/-- A call that returns, with its result. For `epoll_wait` and `select` it is the descriptors
that are ready, for `write` the number of bytes taken: none where it fails. -/
inductive Event where
  | wait (ready : Option (List Int))
  | accept (accepted : Option Int)
  | read (result : ReadResult)
  | write (taken : Nat)
  deriving DecidableEq

/-- What `buf` and `str_len` hold between `read` and `write`: bytes, or nothing when `str_len`
is -1, with which `write` fails. -/
abbrev Buf := Option ReadResult

def Buf.bytes : Buf → List Byte
  | some (.data bytes) => bytes
  | some (.failed _) | none => []

/-- The bytes read from the connection that a descriptor now stands for, and those written back
to it. The servers do not read this. -/
structure Log where
  read : Int → List Byte
  written : Int → List Byte

def Log.empty : Log := ⟨fun _ => [], fun _ => []⟩

def Log.accept (g : Log) (fd : Int) : Log :=
  ⟨Function.update g.read fd [], Function.update g.written fd []⟩

def Log.take (g : Log) (fd : Int) (bytes : List Byte) : Log :=
  { g with read := Function.update g.read fd (g.read fd ++ bytes) }

def Log.give (g : Log) (fd : Int) (bytes : List Byte) : Log :=
  { g with written := Function.update g.written fd (g.written fd ++ bytes) }

def Log.look (g : Log) (fd : Int) (buf : Buf) : Event → Log
  | .wait _ => g
  | .accept accepted => accepted.elim g g.accept
  | .read result => g.take fd (Buf.bytes (some result))
  | .write taken => g.give fd (buf.bytes.take taken)

/-- What was read from a connection was written back to it, in order, but for what is in `buf`,
which was read from `fd`. -/
def EchoLaw (fd : Int) (buf : Buf) (g : Log) : Prop :=
  ∀ x, g.read x = g.written x ++ if x = fd then buf.bytes else []

section Law
variable {g : Log} {fd fd' : Int} {buf : Buf}

theorem EchoLaw.empty : EchoLaw fd none .empty := by
  intro x
  simp [Log.empty, Buf.bytes]

theorem EchoLaw.idle (h : EchoLaw fd none g) : EchoLaw fd' none g := by
  intro x
  simpa [Buf.bytes] using h x

theorem EchoLaw.accept (h : EchoLaw fd none g) (accepted : Option Int) :
    EchoLaw fd' none (g.look fd none (.accept accepted)) := by
  cases accepted with
  | none => exact h.idle
  | some a =>
    intro x
    by_cases hx : x = a
    · subst hx
      simp [Log.look, Log.accept, Buf.bytes]
    · simpa [Log.look, Log.accept, Function.update_of_ne hx, Buf.bytes] using h x

theorem EchoLaw.read (h : EchoLaw fd none g) (result : ReadResult) :
    EchoLaw fd (some result) (g.look fd none (.read result)) := by
  intro x
  have hx := h x
  by_cases hfd : x = fd
  · subst hfd
    simpa [Log.look, Log.take, Buf.bytes] using hx
  · simpa [Log.look, Log.take, Function.update_of_ne hfd, Buf.bytes, hfd] using hx

theorem EchoLaw.read_nothing (h : EchoLaw fd none g) {result : ReadResult}
    (hresult : result.length = 0) : EchoLaw fd' none (g.look fd none (.read result)) := by
  have hbytes : Buf.bytes (some result) = [] := by
    cases result with
    | failed again => rfl
    | data bytes => exact List.length_eq_zero_iff.mp hresult
  intro x
  have hx := h.read result x
  rw [hbytes] at hx
  simpa [Buf.bytes] using hx

theorem EchoLaw.write (h : EchoLaw fd buf g) {taken : Nat} (htaken : taken = buf.bytes.length) :
    EchoLaw fd' none (g.look fd buf (.write taken)) := by
  intro x
  have hx := h x
  by_cases hfd : x = fd
  · subst hfd
    simpa [Log.look, Log.give, htaken, Buf.bytes] using hx
  · simpa [Log.look, Log.give, Function.update_of_ne hfd, Buf.bytes, hfd] using hx

end Law

end EchoServers
