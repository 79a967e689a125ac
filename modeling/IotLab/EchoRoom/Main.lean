import IotLab.EchoClient.Exchange
import IotLab.EchoServers.Epoll

/-!
The level-triggered `epoll` server together with its echo clients: the connections between them
are streams of bytes in either direction, and any of them may move next.
-/

set_option autoImplicit false

namespace EchoRoom
open HostMemory EchoServers EchoClient

/-- The server, what its users still have to type into each client, the clients, and the kernel's
side: who has connected, who waits to be accepted, who is at the other end of a descriptor, and
the bytes on their way to the server and to the clients. -/
structure Room where
  server : EpollState
  typed : Nat → List Message
  client : Nat → Client
  joined : Nat → Bool
  waiting : List Nat
  peer : Int → Option Nat
  up : Nat → List Byte
  down : Nat → List Byte

/-- A client connects; it goes on by a step of its own; the server's call returns. -/
inductive Move where
  | connect (n : Nat)
  | act (n : Nat) (e : EchoClient.Event)
  | serve (e : EchoServers.Event)
  deriving DecidableEq

/-- `message` is what the clients' buffers hold at the start. -/
def Room.start (servSock : Int) (messages : Nat → List Message) (message : Nat → Mem) : Room where
  server := .start servSock
  typed := messages
  client n := .start (message n)
  joined _ := false
  waiting := []
  peer _ := none
  up _ := []
  down _ := []

def Room.caller (r : Room) : Option Nat := r.peer r.server.fd

/-- What the server has read from client `n` and not written back yet. -/
def Room.held (r : Room) (n : Nat) : Option (List Byte) :=
  if r.caller = some n then r.server.buf.map fun result => Buf.bytes (some result) else none

/-- Client `n` and its two streams, as if the server had no other. -/
def Room.exch (r : Room) (n : Nat) : EchoClient.State :=
  ⟨r.typed n, r.client n, r.up n, r.held n, r.down n⟩

def Room.setExch (r : Room) (n : Nat) (s : EchoClient.State) : Room :=
  { r with
    typed := Function.update r.typed n s.typed
    client := Function.update r.client n s.client
    up := Function.update r.up n s.toServer
    down := Function.update r.down n s.toClient }

def OfClient : EchoClient.Event → Prop
  | .input | .recv _ | .print => True
  | .serverRead _ | .serverWrite => False

instance : DecidablePred OfClient
  | .input | .recv _ | .print => inferInstanceAs (Decidable True)
  | .serverRead _ | .serverWrite => inferInstanceAs (Decidable False)

def Room.Ready (r : Room) (fd : Int) : Prop :=
  fd = r.server.servSock ∧ r.waiting ≠ [] ∨ ∃ n ∈ r.peer fd, r.up n ≠ []

instance (r : Room) : DecidablePred r.Ready := fun fd =>
  inferInstanceAs (Decidable (fd = r.server.servSock ∧ r.waiting ≠ [] ∨
    ∃ n ∈ r.peer fd, r.up n ≠ []))

/-- What the server's calls find where no call fails: descriptors that are ready, each once; a
client that waits, for which a new descriptor is opened; the next bytes of the client. -/
def Room.Allows (r : Room) : EchoServers.Event → Prop
  | .wait ready => ready.isSome ∧ ∀ fds ∈ ready, fds.Nodup ∧ ∀ fd ∈ fds, r.Ready fd
  | .accept accepted => accepted.isSome ∧ r.waiting ≠ [] ∧
    ∀ fd ∈ accepted, r.peer fd = none ∧ fd ≠ r.server.servSock
  | .read (.data bytes) => bytes ≠ [] ∧ ∃ n ∈ r.caller, bytes <+: r.up n
  | .read (.failed _) => False
  | .write _ => True

instance (r : Room) : DecidablePred r.Allows
  | .wait ready => inferInstanceAs (Decidable (ready.isSome ∧
    ∀ fds ∈ ready, fds.Nodup ∧ ∀ fd ∈ fds, r.Ready fd))
  | .accept accepted => inferInstanceAs (Decidable (accepted.isSome ∧ r.waiting ≠ [] ∧
    ∀ fd ∈ accepted, r.peer fd = none ∧ fd ≠ r.server.servSock))
  | .read (.data bytes) => inferInstanceAs (Decidable (bytes ≠ [] ∧
    ∃ n ∈ r.caller, bytes <+: r.up n))
  | .read (.failed _) => inferInstanceAs (Decidable False)
  | .write _ => inferInstanceAs (Decidable True)

def Room.after (r : Room) (e : EchoServers.Event) : Room :=
  { r with
    server := epltservStep r.server e
    waiting := match e with
      | .accept (some _) => r.waiting.tail
      | _ => r.waiting
    peer := match e with
      | .accept (some fd) => Function.update r.peer fd r.waiting.head?
      | _ => r.peer
    up := match e with
      | .read (.data bytes) =>
        fun n => if r.caller = some n then (r.up n).drop bytes.length else r.up n
      | _ => r.up
    down := match e with
      | .write taken =>
        fun n => if r.caller = some n then r.down n ++ r.server.buf.bytes.take taken else r.down n
      | _ => r.down }

def Room.next (count : Nat) (r : Room) : Move → Option Room
  | .connect n =>
    if n < count ∧ r.joined n = false then
      some { r with joined := Function.update r.joined n true, waiting := r.waiting ++ [n] }
    else none
  | .act n e =>
    if r.joined n ∧ OfClient e ∧ e.canOccur (r.exch n) then
      (handle (r.exch n) e).toOption.map (r.setExch n)
    else none
  | .serve e =>
    if r.Allows e ∧ r.server.makes servBufSize e ∧ TakesAll r.server e then some (r.after e)
    else none

def system (count : Nat) (messages : Nat → List Message) : Transitions.System Room Move where
  init r := ∃ servSock message, r = .start servSock messages message
  step r m r' := r.next count m = some r'

def shows (n : Nat) (r : Room) (m : Move) (_ : Room) : List EchoClient.Event :=
  match m with
  | .connect _ => []
  | .act k e => if k = n then [e] else []
  | .serve (.read (.data bytes)) => if r.caller = some n then [.serverRead bytes.length] else []
  | .serve (.write _) => if r.caller = some n then [.serverWrite] else []
  | .serve _ => []

def Move.Waits : Move → Prop
  | .serve (.wait _) => True
  | .connect _ | .act _ _ | .serve _ => False

instance : DecidablePred Move.Waits
  | .serve (.wait _) => inferInstanceAs (Decidable True)
  | .serve (.accept _) | .serve (.read _) | .serve (.write _) => inferInstanceAs (Decidable False)
  | .connect _ | .act _ _ => inferInstanceAs (Decidable False)

end EchoRoom
