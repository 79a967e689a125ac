import IotLab.Library.SlotTable
import IotLab.Library.HostMemory
import IotLab.Library.Transitions

/-!
The chat server: the accept loop of `main`, one `handle_clnt` thread for every connection,
and the socket array they share under the mutex. Each critical section is one step; so is
each of `accept`, `pthread_create`, the first statement of a thread, and `close`.
-/

set_option autoImplicit false

namespace ChatServer
open SlotTable HostMemory

def bufSize : Nat := 100
def maxClnt : Nat := 256

inductive Fault where
  | outOfBounds
  deriving DecidableEq, Repr

abbrev Result := Except Fault

abbrev Socks := Fin maxClnt → Int

def sockAt (i : Int) : Result (Fin maxClnt) := index .outOfBounds maxClnt i

/-- A thread before it has copied the socket number, in its read loop, between its removal
section and `close`, and at its end. -/
inductive Thread where
  | created
  | running (clntSock : Int)
  | left (clntSock : Int)
  | finished
  deriving DecidableEq, Repr

inductive MainAt where
  | accept | append | spawn
  deriving DecidableEq, Repr

/-- The globals, the local `clnt_sock` of `main`, where `main` and the threads are, and the
kernel's side: the client sockets that are open. -/
structure State where
  clntCnt : Int
  clntSocks : Socks
  clntSock : Int
  mainAt : MainAt
  threads : List Thread
  openSocks : List Int

def State.start (clntSock : Int) : State := ⟨0, fun _ => 0, clntSock, .accept, [], []⟩

/-- An `accept` with its result; `main`'s critical section; `pthread_create`; the first
statement of thread `t`; one `read` of thread `t` that does not end its loop, with the
section of `send_msg`; a `read` that returns 0, with the removal section; `close`. -/
inductive Event where
  | accept (accepted : Option Int)
  | append
  | spawn (created : Bool)
  | start (t : Nat)
  | message (t : Nat) (msg : Option (List Byte))
  | leave (t : Nat)
  | close (t : Nat)
  deriving DecidableEq

abbrev Write := Int × List Byte

def append (s : State) : Result State := do
  let k ← sockAt s.clntCnt
  .ok { s with
    clntSocks := Function.update s.clntSocks k s.clntSock
    clntCnt := s.clntCnt + 1
    mainAt := .spawn }

/-- The `for` loop that looks for the leaving socket, from index `i` on with `n` rounds to
go. -/
def findSock (socks : Socks) (clntSock : Int) : Nat → Int → Result (Option Int)
  | 0, _ => .ok none
  | n + 1, i => do
    let k ← sockAt i
    if clntSock = socks k then .ok (some i) else findSock socks clntSock n (i + 1)

/-- The `while` loop, from the value `i` on; its condition, which steps `i`, holds `n` more
times. -/
def shiftDown : Socks → Nat → Int → Result Socks
  | socks, 0, _ => .ok socks
  | socks, n + 1, i => do
    let k ← sockAt (i + 1)
    let next ← sockAt (i + 1 + 1)
    shiftDown (Function.update socks k (socks next)) n (i + 1)

def removeSock (s : State) (clntSock : Int) : Result State := do
  let found ← findSock s.clntSocks clntSock s.clntCnt.toNat 0
  let socks ← match found with
    | some i => shiftDown s.clntSocks (s.clntCnt - 1 - i).toNat i
    | none => .ok s.clntSocks
  .ok { s with clntSocks := socks, clntCnt := s.clntCnt - 1 }

def sendMsg (socks : Socks) : Nat → Int → Result (List Int)
  | 0, _ => .ok []
  | n + 1, i => do
    let k ← sockAt i
    let rest ← sendMsg socks n (i + 1)
    .ok (socks k :: rest)

def setThread (s : State) (t : Nat) (thread : Thread) : State :=
  { s with threads := s.threads.set t thread }

def Thread.reading : Thread → Option Int
  | .running clntSock => some clntSock
  | _ => none

def Thread.closing : Thread → Option Int
  | .left clntSock => some clntSock
  | _ => none

def readsFrom (s : State) (t : Nat) : Option Int := s.threads[t]?.bind Thread.reading

def closes (s : State) (t : Nat) : Option Int := s.threads[t]?.bind Thread.closing

/-- A `read` that fails gives the length -1, with which every `write` fails. -/
def handle (s : State) : Event → Result (State × List Write)
  | .accept accepted =>
    .ok ({ s with
      clntSock := accepted.getD (-1)
      mainAt := .append
      openSocks := accepted.toList ++ s.openSocks }, [])
  | .append => do
    let s ← append s
    .ok (s, [])
  | .spawn created =>
    .ok ({ s with
      mainAt := .accept
      threads := if created then s.threads ++ [.created] else s.threads }, [])
  | .start t => .ok (setThread s t (.running s.clntSock), [])
  | .message _ msg => do
    let socks ← sendMsg s.clntSocks s.clntCnt.toNat 0
    .ok (s, msg.elim [] fun msg => socks.map fun sock => (sock, msg))
  | .leave t =>
    match readsFrom s t with
    | some clntSock => do
      let s ← removeSock s clntSock
      .ok (setThread s t (.left clntSock), [])
    | none => .ok (s, [])
  | .close t =>
    match closes s t with
    | some clntSock =>
      .ok ({ setThread s t .finished with
        openSocks := s.openSocks.filter (· ≠ clntSock) }, [])
    | none => .ok (s, [])

/-- What can happen next: `accept` gives a descriptor that is not open, and a `read` of a
closed socket fails. -/
def Event.canOccur (s : State) : Event → Prop
  | .accept accepted => s.mainAt = .accept ∧ ∀ fd ∈ accepted, 0 ≤ fd ∧ fd ∉ s.openSocks
  | .append => s.mainAt = .append
  | .spawn _ => s.mainAt = .spawn
  | .start t => s.threads[t]? = some .created
  | .message t msg => (readsFrom s t).isSome ∧ ∀ m ∈ msg, 0 < m.length ∧
    m.length ≤ bufSize ∧ ∀ fd ∈ readsFrom s t, fd ∈ s.openSocks
  | .leave t => (readsFrom s t).isSome ∧ ∀ fd ∈ readsFrom s t, fd ∈ s.openSocks
  | .close t => (closes s t).isSome

structure Step where
  event : Event
  writes : List Write

def system : Transitions.System State Step where
  init s := ∃ clntSock, s = State.start clntSock
  step s l t := l.event.canOccur s ∧ handle s l.event = .ok (t, l.writes)

def State.entries (s : State) : List Int := (List.ofFn s.clntSocks).take s.clntCnt.toNat

instance (s : State) (e : Event) : Decidable (e.canOccur s) := by
  cases e <;> unfold Event.canOccur <;> infer_instance

def nextStep (ok : State → Event → Prop) [∀ s e, Decidable (ok s e)] (s : State) (e : Event) :
    Option (Step × State) :=
  if ok s e ∧ e.canOccur s then
    match handle s e with
    | .ok (s', writes) => some (⟨e, writes⟩, s')
    | .error _ => none
  else none

theorem nextStep_step {ok : State → Event → Prop} [∀ s e, Decidable (ok s e)] (s : State)
    (e : Event) (l : Step) (s' : State) (h : nextStep ok s e = some (l, s')) :
    l.event = e ∧ ok s e ∧ system.step s l s' := by
  unfold nextStep at h
  split at h
  · rename_i hok
    cases hrun : handle s e with
    | error f => simp [hrun] at h
    | ok r =>
      simp only [hrun, Option.some.injEq, Prod.mk.injEq] at h
      obtain ⟨rfl, rfl⟩ := h
      exact ⟨rfl, hok.1, hok.2, hrun⟩
  · contradiction

end ChatServer
