import IotLab.FileUpload.Separation

set_option autoImplicit false

namespace FileUpload
open SlotTable HostMemory

/-- What a client is started with: a file name, whose length is an `int`, and the file. -/
structure Upload where
  filename : List Byte
  content : List Byte
  noNul : 0 ∉ filename
  length_lt : filename.length < 2 ^ 31

def Upload.writes (u : Upload) : List (List Byte) := clientWrites u.filename u.content

/-- The server and the observer of its connections, how many clients have connected, the
`write`s that each has still to make before it closes its socket, unless it has closed it, and
the bytes on their way to the server. -/
structure Room where
  server : State
  log : Log
  connected : Nat
  left : Nat → Option (List (List Byte))
  sent : Nat → List Byte

/-- A client connects; it makes its next call; the server does. -/
inductive Move where
  | connect
  | act (n : Nat)
  | serve (e : Event)
  deriving DecidableEq

def Room.start (servSock : Int) (uploads : Nat → Upload) : Room where
  server := .start servSock
  log := .start
  connected := 0
  left n := some (uploads n).writes
  sent _ := []

def Room.caller (r : Room) : Option Nat := r.server.ready.head?.bind r.log.current

def Room.takes (r : Room) (calls : Calls) : List Byte :=
  ((r.server.ready.head?.bind r.server.recordAt).map (bytesRead calls)).getD []

/-- A descriptor that `epoll_wait` may report: a client waits to be accepted, there are bytes to
read, or the client has closed its socket. -/
def Room.Ready (r : Room) (fd : Int) : Prop :=
  fd = r.server.servSock ∧ r.log.conns.length < r.connected ∨
    ∃ n ∈ r.log.current fd, r.sent n ≠ [] ∨ r.left n = none

instance (r : Room) : DecidablePred r.Ready := fun fd =>
  inferInstanceAs (Decidable (fd = r.server.servSock ∧ r.log.conns.length < r.connected ∨
    ∃ n ∈ r.log.current fd, r.sent n ≠ [] ∨ r.left n = none))

def Room.Accepts (r : Room) (calls : Calls) : Prop :=
  r.log.conns.length < r.connected ∧ 0 ≤ calls.accepted ∧ calls.accepted < maxUser

/-- The round of client `n`, which reads what is next in its stream: a header that has come
whole, and can be opened; or data, which ends only where the stream does. -/
def Room.Reads (r : Room) (calls : Calls) (n : Nat) : Prop :=
  r.takes calls <+: r.sent n ∧ ∀ c ∈ r.log.conns[n]?,
    if c.record = none then HeaderDone calls ∧ NameEnds calls
    else calls.data ≠ none ∧ (r.takes calls = [] → r.sent n = [] ∧ r.left n = none)

instance (r : Room) (calls : Calls) (n : Nat) : Decidable (r.Reads calls n) :=
  inferInstanceAs (Decidable (r.takes calls <+: r.sent n ∧ ∀ c ∈ r.log.conns[n]?,
    if c.record = none then HeaderDone calls ∧ NameEnds calls
    else calls.data ≠ none ∧ (r.takes calls = [] → r.sent n = [] ∧ r.left n = none)))

def Room.Allows (r : Room) : Event → Prop
  | .wait ready => ∀ fd ∈ ready, r.Ready fd
  | .serve calls => ∀ fd ∈ r.server.ready.head?,
    if fd = r.server.servSock then r.Accepts calls else ∀ n ∈ r.log.current fd, r.Reads calls n

instance (r : Room) : DecidablePred r.Allows
  | .wait ready => inferInstanceAs (Decidable (∀ fd ∈ ready, r.Ready fd))
  | .serve calls => inferInstanceAs (Decidable (∀ fd ∈ r.server.ready.head?,
    if fd = r.server.servSock then r.log.conns.length < r.connected ∧ 0 ≤ calls.accepted ∧
      calls.accepted < maxUser
    else ∀ n ∈ r.log.current fd, r.Reads calls n))

/-- The next call of a client: a `write`, which takes all bytes, or its `close`. -/
def Room.afterAct (r : Room) (n : Nat) (ws : List (List Byte)) : Room :=
  { r with
    left := Function.update r.left n (if ws = [] then none else some ws.tail)
    sent := Function.update r.sent n (r.sent n ++ ws.head?.getD []) }

def Room.after (r : Room) (e : Event) (t : State) : Room :=
  { r with
    server := t
    log := look byDescriptor r.log r.server e t
    sent := match e with
      | .wait _ => r.sent
      | .serve calls => fun n =>
        if r.caller = some n then (r.sent n).drop (r.takes calls).length else r.sent n }

def Room.next (count : Nat) (r : Room) : Move → Option Room
  | .connect => if r.connected < count then some { r with connected := r.connected + 1 } else none
  | .act n => if n < r.connected then (r.left n).map (r.afterAct n) else none
  | .serve e =>
    if e.canOccur byDescriptor r.server ∧ r.Allows e then
      (handle byDescriptor r.server e).toOption.map (r.after e)
    else none

def room (count : Nat) (uploads : Nat → Upload) : Transitions.System Room Move where
  init r := ∃ servSock, 0 ≤ servSock ∧ r = .start servSock uploads
  step r m r' := r.next count m = some r'

def Move.Waits : Move → Prop
  | .serve (.wait _) => True
  | .connect | .act _ | .serve (.serve _) => False

instance : DecidablePred Move.Waits
  | .serve (.wait _) => inferInstanceAs (Decidable True)
  | .connect | .act _ | .serve (.serve _) => inferInstanceAs (Decidable False)

def Room.Uploaded (r : Room) (n : Nat) (file : File) : Prop :=
  ∃ c f, r.log.conns[n]? = some c ∧ c.opened = [f] ∧ r.server.files[f]? = some file

def Room.Finished (r : Room) (n : Nat) : Prop :=
  n < r.log.conns.length ∧ ∀ fd, r.log.current fd ≠ some n

end FileUpload
