import IotLab.ChatClient.Main
import IotLab.ChatServer.Delivery

/-!
The chat room: the server together with its clients, and between them the connections, each a
stream of bytes in either direction. Any client and any thread of the server may move next.
-/

set_option autoImplicit false

namespace ChatRoom
open HostMemory ChatClient ChatServer

/-- The server, the clients by number, and the kernel's side: who waits to be accepted, who is at
the other end of a descriptor, and the bytes on their way to the server and to the clients. -/
structure Room where
  server : ChatServer.State
  client : Nat → Option Client
  waiting : List Nat
  peer : Int → Option Nat
  up : Nat → List Byte
  down : Nat → List Byte

/-- A client starts and connects; a round of its sending thread; a `read` of its receiving thread
that returns `k` bytes; an event of the server. -/
inductive Move where
  | connect (n : Nat) (arg : MqttChat.CStr) (stdin : List Byte)
  | say (n : Nat)
  | hear (n k : Nat)
  | serve (e : ChatServer.Event)

def Room.start (clntSock : Int) : Room where
  server := .start clntSock
  client := fun _ => none
  waiting := []
  peer := fun _ => none
  up := fun _ => []
  down := fun _ => []

def Room.source (r : Room) (t : Nat) : Option Nat := (readsFrom r.server t).bind r.peer

/-- What the server's calls find: somebody waits, the bytes read are the next ones from the
client, and the end of the stream comes after its last byte and its `exit`. -/
def Room.Allows (r : Room) : ChatServer.Event → Prop
  | .accept accepted => accepted.isSome → r.waiting ≠ []
  | .message t msg => ∀ m ∈ msg, ∃ n ∈ r.source t, m <+: r.up n
  | .leave t => ∃ n ∈ r.source t, r.up n = [] ∧ ∀ c ∈ r.client n, c.running = false
  | .append | .spawn _ | .start _ | .close _ => True

instance (r : Room) : DecidablePred r.Allows
  | .accept accepted => inferInstanceAs (Decidable (accepted.isSome → r.waiting ≠ []))
  | .message t msg => inferInstanceAs (Decidable (∀ m ∈ msg, ∃ n ∈ r.source t, m <+: r.up n))
  | .leave t => inferInstanceAs (Decidable (∃ n ∈ r.source t, r.up n = [] ∧
    ∀ c ∈ r.client n, c.running = false))
  | .append | .spawn _ | .start _ | .close _ => inferInstanceAs (Decidable True)

def Room.delivered (r : Room) (writes : List Write) (n : Nat) : List Byte :=
  (writes.filter fun w => r.peer w.1 = some n).flatMap (·.2)

def Room.after (r : Room) (server : ChatServer.State) (writes : List Write) :
    ChatServer.Event → Room
  | .accept (some fd) => { r with
    server := server
    waiting := r.waiting.tail
    peer := Function.update r.peer fd r.waiting.head? }
  | .message t (some msg) => { r with
    server := server
    up := fun n => if r.source t = some n then (r.up n).drop msg.length else r.up n
    down := fun n => r.down n ++ r.delivered writes n }
  | _ => { r with server := server }

def Room.setClient (r : Room) (n : Nat) (c : Client) : Room :=
  { r with client := Function.update r.client n (some c) }

def Room.next (r : Room) : Move → Option Room
  | .connect n arg stdin =>
    match r.client n, ChatClient.start arg.chars stdin with
    | none, .ok c => some { r.setClient n c with waiting := r.waiting ++ [n] }
    | _, _ => none
  | .say n =>
    match r.client n with
    | some c =>
      if c.running then
        match sendMsg c with
        | .ok (c', text) =>
          some { r.setClient n c' with up := Function.update r.up n (r.up n ++ text) }
        | .error _ => none
      else none
    | none => none
  | .hear n k =>
    match r.client n with
    | some c =>
      if c.running ∧ 0 < k ∧ k < nameSize + ChatClient.bufSize ∧ k ≤ (r.down n).length then
        some { r.setClient n (recvMsg c ((r.down n).take k)) with
          down := Function.update r.down n ((r.down n).drop k) }
      else none
    | none => none
  | .serve e =>
    if r.Allows e ∧ e.canOccur r.server then
      match handle r.server e with
      | .ok (server, writes) => some (r.after server writes e)
      | .error _ => none
    else none

def system : Transitions.System Room Move where
  init r := ∃ clntSock, r = .start clntSock
  step r m r' := r.next m = some r'

/-- What the room does not read: the connected clients, every message that was broadcast with the
client it came from, how long that list was when a client was entered, the user name and the
input that a client was started with, and how many rounds its sending thread has made. -/
structure Books where
  clients : Connected
  log : List (Nat × List Byte)
  since : Nat → Nat
  typed : Nat → Option (MqttChat.CStr × List Byte)
  rounds : Nat → Nat

def Books.empty : Books := ⟨[], [], fun _ => 0, fun _ => none, fun _ => 0⟩

def Books.look (b : Books) (r : Room) (m : Move) (r' : Room) : Books :=
  match m with
  | .connect n arg stdin => { b with typed := Function.update b.typed n (some (arg, stdin)) }
  | .say n => { b with rounds := Function.update b.rounds n (b.rounds n + 1) }
  | .serve e => { b with
    clients := b.clients.look r.server ⟨e, []⟩ r'.server
    since := match e with
      | .append => fun n => if r.peer r.server.clntSock = some n then b.log.length else b.since n
      | _ => b.since
    log := match e with
      | .message t (some msg) => b.log ++ (r.source t).toList.map fun n => (n, msg)
      | _ => b.log }
  | .hear _ _ => b

/-- What client `n` has had to say: the messages of its rounds so far, each behind its name. -/
def Books.uttered (b : Books) (n : Nat) : List Byte :=
  (b.typed n).elim [] fun ⟨arg, stdin⟩ =>
    (spoken (b.rounds n) [] stdin).flatMap (nameMsg (bracketed arg.chars))

def OrderlyMove (r : Room) : Move → Prop
  | .serve e => Orderly r.server e
  | .connect _ _ _ | .say _ | .hear _ _ => True

instance (r : Room) : DecidablePred (OrderlyMove r)
  | .serve e => inferInstanceAs (Decidable (Orderly r.server e))
  | .connect _ _ _ | .say _ | .hear _ _ => inferInstanceAs (Decidable True)

def observed : Transitions.System (Room × Books) Move := system.observe .empty Books.look

abbrev OrderlyRoom (p : Room × Books) : Prop :=
  Transitions.Reachable (observed.restrict fun p m => OrderlyMove p.1 m) p

def texts (log : List (Nat × List Byte)) : List Byte := log.flatMap (·.2)

def Room.printed (r : Room) (n : Nat) : List Byte := (r.client n).elim [] (·.stdout)

def Room.sentTo (r : Room) (n : Nat) : List Byte := r.printed n ++ r.down n

end ChatRoom
