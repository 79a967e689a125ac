import IotLab.EchoSelectServ.SocketUtil
import IotLab.Library.HostMemory
import IotLab.Library.Transitions

/-!
The loop of `EchoSelectServ.cpp`: which sockets it watches, and which it handles after each
`Select`.
-/

set_option autoImplicit false

namespace EchoSelectServ
open HostMemory Transitions

def bufSize : Nat := 100

/-- What `recv` gives: bytes, none where the client has closed, or an error and its `errno`,
with the connection gone or not. -/
inductive Received where
  | data (message : List Byte)
  | failed (errno : Int) (gone : Bool)
  deriving DecidableEq

def Received.strLen : Received → Int
  | .data message => message.length
  | .failed errno _ => -errno

def Received.message : Received → List Byte
  | .data message => message
  | .failed _ _ => []

def Received.ended : Received → Bool
  | .data message => message = []
  | .failed _ gone => gone

inductive Event where
  | select (ready : Option Ready)
  | accept (newSocket : Int)
  | receive (result : Received)
  deriving DecidableEq

/-- The two vectors, what the `for` loop has still to visit of `readableSockets`, the counter of
clients, and all that was given to `Send`. -/
structure State where
  listenSocket : TCPSocketPtr
  readBlockSockets : List TCPSocketPtr
  readableSockets : List TCPSocketPtr
  pending : List TCPSocketPtr
  i : Int
  sent : List (TCPSocketPtr × List Byte)
  deriving DecidableEq

def State.start (listenSocket : TCPSocket) : State :=
  ⟨some listenSocket, [some listenSocket], [], [], 1, []⟩

/-- One `Select`, or one round of the `for` loop. `Select` is negated as an `int`: only 0 goes
back to it, so a failure goes on to `readableSockets` as it was. -/
def handle (s : State) : Event → Result State
  | .select ready => do
    let r ← socketSelect (some s.readBlockSockets) (some s.readableSockets) none none none none
      ready
    let readableSockets := r.outReadSet.getD s.readableSockets
    .ok { s with
      readableSockets := readableSockets
      pending := if r.toRet = 0 then [] else readableSockets }
  | .accept newSocket => do
    let _ ← deref s.listenSocket
    .ok { s with
      readBlockSockets := s.readBlockSockets ++ [acceptSocket newSocket]
      pending := s.pending.tail
      i := s.i + 1 }
  | .receive result => do
    let socket ← deref s.pending.head?.join
    .ok { s with
      pending := s.pending.tail
      sent := if 0 < result.strLen then s.sent ++ [(some socket, result.message)] else s.sent }

/-- The calls that the server makes at a state, with results that they can have. `accept` gives
no descriptor that is open. -/
def Event.canOccur (s : State) : Event → Prop
  | .select ready => s.pending = [] ∧ ∀ r ∈ ready, r.read.Nodup ∧
    (∀ fd ∈ r.read, some ⟨fd⟩ ∈ s.readBlockSockets) ∧ r.write = [] ∧ r.except = []
  | .accept newSocket => s.pending.head? = some s.listenSocket ∧
    (newSocket = invalidSocket ∨ 0 ≤ newSocket ∧ some ⟨newSocket⟩ ∉ s.readBlockSockets)
  | .receive result => s.pending ≠ [] ∧ s.pending.head? ≠ some s.listenSocket ∧
    match result with
    | .data message => message.length ≤ bufSize
    | .failed errno _ => 0 < errno

instance (s : State) (e : Event) : Decidable (e.canOccur s) := by
  cases e with
  | select ready => unfold Event.canOccur; infer_instance
  | accept newSocket => unfold Event.canOccur; infer_instance
  | receive result => cases result <;> (unfold Event.canOccur; infer_instance)

def system : System State Event where
  init s := ∃ listenSocket : TCPSocket, 0 ≤ listenSocket.mSocket ∧ s = .start listenSocket
  step s e t := e.canOccur s ∧ handle s e = .ok t

/-- The clients whose connections are open, the sockets that the last `Select` reported, and
those handled since. -/
structure Log where
  openClients : List TCPSocket
  reported : List TCPSocketPtr
  handled : List TCPSocketPtr
  deriving DecidableEq

def Log.empty : Log := ⟨[], [], []⟩

def Log.look (g : Log) (s : State) (e : Event) (_ : State) : Log :=
  match e with
  | .select ready => { g with
      reported := ready.elim [] fun r => amongReady r.read s.readBlockSockets
      handled := [] }
  | .accept newSocket => { g with
      openClients := g.openClients ++ (acceptSocket newSocket).toList
      handled := g.handled ++ s.pending.head?.toList }
  | .receive result => { g with
      openClients :=
        if result.ended then g.openClients.filter fun c => s.pending.head? ≠ some (some c)
        else g.openClients
      handled := g.handled ++ s.pending.head?.toList }

def observed : System (State × Log) Event := system.observe .empty Log.look

/-- The server watches the listening socket and the clients that are open, no null pointer, and
handles what this iteration's `Select` has reported. -/
structure SocketSetLaw (s : State) (g : Log) : Prop where
  watched : s.readBlockSockets = s.listenSocket :: g.openClients.map some
  noNull : none ∉ s.readBlockSockets
  handled : g.handled ++ s.pending = g.reported

/-- `Select` does not fail once there are readable sockets, and its set has room for the
descriptors; `accept` does not fail; no connection ends. -/
def Regular (s : State) : Event → Prop
  | .select ready => (ready = none → s.readableSockets = []) ∧
    ∀ socket ∈ s.readBlockSockets, ∀ c ∈ socket, c.mSocket < fdSetSize
  | .accept newSocket => newSocket ≠ invalidSocket
  | .receive result => result.ended = false

structure Watching (s : State) (g : Log) : Prop extends SocketSetLaw s g where
  nonneg : ∀ c, some c ∈ s.readBlockSockets → 0 ≤ c.mSocket
  pending : ∀ socket ∈ s.pending, socket ∈ s.readBlockSockets

section Step
variable {s t : State} {g : Log} {ready : Option Ready} {newSocket : Int} {result : Received}

theorem Watching.start {listenSocket : TCPSocket} (h : 0 ≤ listenSocket.mSocket) :
    Watching (.start listenSocket) .empty where
  watched := rfl
  noNull := by simp [State.start]
  handled := rfl
  nonneg c hc := by
    obtain rfl : c = listenSocket := by simpa [State.start] using hc
    exact h
  pending := by simp [State.start]

theorem Watching.fits (h : Watching s g)
    (hroom : ∀ socket ∈ s.readBlockSockets, ∀ c ∈ socket, c.mSocket < fdSetSize) :
    ∀ socket ∈ s.readBlockSockets, Fits socket := by
  intro socket hsocket
  cases socket with
  | none => exact absurd hsocket h.noNull
  | some c => exact ⟨c, rfl, h.nonneg c hsocket, hroom _ hsocket c rfl⟩

theorem amongReady_subset {fds : List Int} {sockets : List TCPSocketPtr} :
    ∀ socket ∈ amongReady fds sockets, socket ∈ sockets :=
  fun _ => List.mem_of_mem_filter

theorem amongReady_nil (sockets : List TCPSocketPtr) : amongReady [] sockets = [] := by
  simp [amongReady]

theorem Ready.read_nil {r : Ready} (h : r.count = 0) : r.read = [] :=
  List.length_eq_zero_iff.mp (by unfold Ready.count at h; omega)

theorem Watching.select_step (h : Watching s g) (hreg : Regular s (.select ready)) :
    ∃ t, handle s (.select ready) = .ok t ∧ Watching t (g.look s (.select ready) t) := by
  obtain ⟨hfirst, hroom⟩ := hreg
  have hrun := @socketSelect_eq _ s.readableSockets (h.fits hroom) ready
  cases ready with
  | none =>
    refine ⟨{ s with pending := [] }, ?_, ⟨⟨h.watched, h.noNull, rfl⟩, h.nonneg, by simp⟩⟩
    rw [handle, hrun]
    simp [bind, Except.bind, hfirst rfl]
  | some fds =>
    by_cases hcount : fds.count = 0
    · refine ⟨{ s with pending := [] }, ?_, ⟨⟨h.watched, h.noNull, ?_⟩, h.nonneg, by simp⟩⟩
      · rw [handle, hrun]
        simp [bind, Except.bind, hcount]
      · simp [Log.look, Ready.read_nil hcount, amongReady_nil]
    · refine ⟨{ s with
        readableSockets := amongReady fds.read s.readBlockSockets
        pending := amongReady fds.read s.readBlockSockets }, ?_,
        ⟨⟨h.watched, h.noNull, rfl⟩, h.nonneg, amongReady_subset⟩⟩
      rw [handle, hrun]
      simp [bind, Except.bind, hcount]

theorem select_regular (hrun : handle s (.select ready) = .ok t)
    (hlaw : SocketSetLaw t (g.look s (.select ready) t)) : Regular s (.select ready) := by
  obtain ⟨r, hselect, ht⟩ := Fallible.bind_eq_ok.mp hrun
  have hfits := fits_of_socketSelect hselect
  refine ⟨?_, fun socket hsocket c hc => ?_⟩
  · rintro rfl
    rw [socketSelect_eq hfits none] at hselect
    obtain rfl := Except.ok.inj hselect
    obtain rfl := Except.ok.inj ht
    simpa [Log.look] using hlaw.handled
  · obtain ⟨c', hc', -, hlt⟩ := hfits socket hsocket
    obtain rfl : c' = c := Option.mem_unique hc' hc
    exact hlt

theorem acceptSocket_of_ne (h : newSocket ≠ invalidSocket) :
    acceptSocket newSocket = some ⟨newSocket⟩ := if_pos h

theorem Watching.visit (h : Watching s g) :
    (g.handled ++ s.pending.head?.toList) ++ s.pending.tail = g.reported := by
  rw [← h.handled]
  cases s.pending <;> simp

theorem Watching.listening (h : Watching s g) : ∃ c, s.listenSocket = some c := by
  have hmem : s.listenSocket ∈ s.readBlockSockets := by
    rw [h.watched]
    exact List.mem_cons_self
  refine Option.ne_none_iff_exists'.mp fun hnull => h.noNull ?_
  rwa [← hnull]

theorem Watching.accept_run (h : Watching s g) : handle s (.accept newSocket) = .ok { s with
    readBlockSockets := s.readBlockSockets ++ [acceptSocket newSocket]
    pending := s.pending.tail
    i := s.i + 1 } := by
  obtain ⟨c, hc⟩ := h.listening
  rw [handle, hc]
  rfl

theorem Watching.accept_step (h : Watching s g)
    (hocc : (Event.accept newSocket).canOccur s) (hreg : newSocket ≠ invalidSocket) :
    ∃ t, handle s (.accept newSocket) = .ok t ∧ Watching t (g.look s (.accept newSocket) t) := by
  have hnew := hocc.2.resolve_left hreg
  refine ⟨_, h.accept_run, ⟨⟨?_, ?_, h.visit⟩, fun c hc => ?_, fun socket hsocket => ?_⟩⟩
  · simp [Log.look, h.watched, acceptSocket_of_ne hreg]
  · simpa [acceptSocket_of_ne hreg] using h.noNull
  · rw [acceptSocket_of_ne hreg, List.mem_append, List.mem_singleton, Option.some.injEq] at hc
    rcases hc with hc | rfl
    · exact h.nonneg c hc
    · exact hnew.1
  · exact List.mem_append_left _ (h.pending socket (List.mem_of_mem_tail hsocket))

theorem Watching.accept_regular (h : Watching s g) (hrun : handle s (.accept newSocket) = .ok t)
    (hlaw : SocketSetLaw t (g.look s (.accept newSocket) t)) : newSocket ≠ invalidSocket := by
  rintro rfl
  obtain rfl := Except.ok.inj (h.accept_run.symm.trans hrun)
  exact hlaw.noNull (by simp [acceptSocket])

theorem Watching.reading (h : Watching s g) (hocc : (Event.receive result).canOccur s) :
    ∃ c ∈ g.openClients, s.pending.head? = some (some c) := by
  obtain ⟨socket, rest, hpending⟩ := List.exists_cons_of_ne_nil hocc.1
  have hne : socket ≠ s.listenSocket := by simpa [hpending] using hocc.2.1
  have hmem := h.pending socket (by simp [hpending])
  rw [h.watched] at hmem
  obtain ⟨c, hc, rfl⟩ := List.mem_map.mp ((List.mem_cons.mp hmem).resolve_left hne)
  exact ⟨c, hc, by simp [hpending]⟩

theorem Watching.receive_run (h : Watching s g) (hocc : (Event.receive result).canOccur s) :
    ∃ sent, handle s (.receive result) = .ok { s with
      pending := s.pending.tail
      sent := sent } := by
  obtain ⟨c, -, hc⟩ := h.reading hocc
  rw [handle, hc]
  exact ⟨_, rfl⟩

theorem Watching.receive_step (h : Watching s g) (hocc : (Event.receive result).canOccur s)
    (hreg : result.ended = false) :
    ∃ t, handle s (.receive result) = .ok t ∧ Watching t (g.look s (.receive result) t) := by
  obtain ⟨sent, hrun⟩ := h.receive_run hocc
  refine ⟨_, hrun, ⟨⟨?_, h.noNull, h.visit⟩, h.nonneg, fun socket hsocket => ?_⟩⟩
  · simp [Log.look, hreg, h.watched]
  · exact h.pending socket (List.mem_of_mem_tail hsocket)

theorem Watching.receive_regular (h : Watching s g) (hocc : (Event.receive result).canOccur s)
    (hrun : handle s (.receive result) = .ok t)
    (hlaw : SocketSetLaw t (g.look s (.receive result) t)) : result.ended = false := by
  obtain ⟨sent, hrun'⟩ := h.receive_run hocc
  obtain ⟨c, hc, hhead⟩ := h.reading hocc
  obtain rfl := Except.ok.inj (hrun'.symm.trans hrun)
  rw [← Bool.not_eq_true]
  intro hended
  have hwatched := hlaw.watched
  simp only [Log.look, hended, if_true, h.watched, List.cons.injEq, true_and, hhead] at hwatched
  have hmem : some c ∈ g.openClients.map some := List.mem_map_of_mem hc
  rw [hwatched] at hmem
  simp at hmem

theorem Watching.step (h : Watching s g) {e : Event} (hocc : e.canOccur s) (hreg : Regular s e) :
    ∃ t, handle s e = .ok t ∧ Watching t (g.look s e t) := by
  cases e with
  | select ready => exact h.select_step hreg
  | accept newSocket => exact h.accept_step hocc hreg
  | receive result => exact h.receive_step hocc hreg

theorem Watching.regular (h : Watching s g) {e : Event} (hocc : e.canOccur s)
    (hrun : handle s e = .ok t) (hlaw : SocketSetLaw t (g.look s e t)) : Regular s e := by
  cases e with
  | select ready => exact select_regular hrun hlaw
  | accept newSocket => exact h.accept_regular hrun hlaw
  | receive result => exact h.receive_regular hocc hrun hlaw

end Step

abbrev Reaches (p : State × Log) : Prop :=
  Reachable (observed.restrict fun p e => Regular p.1 e) p

theorem Reaches.watching {p : State × Log} (h : Reaches p) : Watching p.1 p.2 := by
  refine h.invariant (I := fun p => Watching p.1 p.2) ?_ ?_
  · rintro ⟨s, g⟩ ⟨⟨listenSocket, hnonneg, rfl⟩, rfl⟩
    exact .start hnonneg
  · rintro ⟨s, g⟩ e ⟨t, g'⟩ _ hwatching ⟨hreg, ⟨hocc, hrun⟩, hg⟩
    obtain ⟨t', hrun', hwatching'⟩ := hwatching.step hocc hreg
    obtain rfl : t' = t := Except.ok.inj (hrun'.symm.trans hrun)
    exact hg ▸ hwatching'

/-- In a run that has met the condition the law holds, and the next call keeps it, without a
fault, exactly when it meets the condition too. -/
theorem socket_set_law {p : State × Log} (h : Reaches p) : SocketSetLaw p.1 p.2 ∧
    ∀ e, e.canOccur p.1 →
      ((∃ t, handle p.1 e = .ok t ∧ SocketSetLaw t (p.2.look p.1 e t)) ↔ Regular p.1 e) := by
  have hwatching := Reaches.watching h
  refine ⟨hwatching.toSocketSetLaw, fun e hocc => ⟨?_, fun hreg => ?_⟩⟩
  · rintro ⟨t, hrun, hlaw⟩
    exact hwatching.regular hocc hrun hlaw
  · obtain ⟨t, hrun, ht⟩ := hwatching.step hocc hreg
    exact ⟨t, hrun, ht.toSocketSetLaw⟩

instance (s : State) (e : Event) : Decidable (Regular s e) :=
  match e with
  | .select ready => inferInstanceAs (Decidable ((ready = none → s.readableSockets = []) ∧
    ∀ socket ∈ s.readBlockSockets, ∀ c ∈ socket, c.mSocket < fdSetSize))
  | .accept newSocket => inferInstanceAs (Decidable (newSocket ≠ invalidSocket))
  | .receive result => inferInstanceAs (Decidable (result.ended = false))

section Executed
variable {ok : State → Event → Prop} [∀ s e, Decidable (ok s e)]

def nextCall (ok : State → Event → Prop) [∀ s e, Decidable (ok s e)] (s : State) (e : Event) :
    Option (Event × State) :=
  if e.canOccur s ∧ ok s e then (handle s e).toOption.map fun t => (e, t) else none

theorem nextCall_step (s : State) (e l : Event) (t : State) (h : nextCall ok s e = some (l, t)) :
    id l = e ∧ ok s e ∧ system.step s l t := by
  unfold nextCall at h
  split at h
  · rename_i hcan
    obtain ⟨t', hrun, heq⟩ := Option.map_eq_some_iff.mp h
    cases heq
    exact ⟨rfl, hcan.2, hcan.1, Fallible.toOption_eq_some.mp hrun⟩
  · contradiction

theorem reaches_of_runsTo {test : State × Log → Bool} {events : List Event}
    (h : runsTo (observeNext (nextCall ok) Log.look) test (.start ⟨3⟩, .empty) events = true) :
    ∃ p, Reachable (observed.restrict fun p e => ok p.1 e) p ∧ test p = true := by
  obtain ⟨p, ls, -, hrun, htest⟩ := run_of_runsTo (observeNext_step nextCall_step) h
  exact ⟨p, hrun.reachable (.init ⟨⟨⟨3⟩, by decide, rfl⟩, rfl⟩), htest⟩

end Executed

def greeting : List Event :=
  [.select (some ⟨[3], [], []⟩), .accept 5, .select (some ⟨[5], [], []⟩),
    .receive (.data [104, 105])]

theorem socket_set_law_greeting : ∃ p : State × Log, p.2.openClients = [⟨5⟩] ∧
    p.1.sent = [(some ⟨5⟩, [104, 105])] ∧ SocketSetLaw p.1 p.2 := by
  obtain ⟨p, hp, htest⟩ := @reaches_of_runsTo Regular _
    (fun p => p.2.openClients = [⟨5⟩] ∧ p.1.sent = [(some ⟨5⟩, [104, 105])]) greeting
    (by decide +kernel)
  obtain ⟨hclients, hsent⟩ := of_decide_eq_true htest
  exact ⟨p, hclients, hsent, (socket_set_law hp).1⟩

/-- The client closes and stays in the set; then `Select` fails, and it is handled once more
without having been reported. -/
theorem closed_client_stays : ∃ p, Reachable observed p ∧ p.2.openClients = [] ∧
    p.1.readBlockSockets = [some ⟨3⟩, some ⟨5⟩] ∧ p.2.reported = [] ∧
    p.1.pending = [some ⟨5⟩] ∧ ¬SocketSetLaw p.1 p.2 := by
  obtain ⟨p, hp, htest⟩ := @reaches_of_runsTo (fun _ _ => True) _
    (fun p => p.2.openClients = [] ∧ p.1.readBlockSockets = [some ⟨3⟩, some ⟨5⟩] ∧
      p.2.reported = [] ∧ p.1.pending = [some ⟨5⟩])
    (greeting ++ [.select (some ⟨[5], [], []⟩), .receive (.data []), .select none])
    (by decide +kernel)
  obtain ⟨hclients, hwatched, hreported, hpending⟩ := of_decide_eq_true htest
  refine ⟨p, hp.of_restrict, hclients, hwatched, hreported, hpending, fun hlaw => ?_⟩
  have heq := hlaw.watched
  rw [hwatched, hclients] at heq
  simp at heq

end EchoSelectServ
