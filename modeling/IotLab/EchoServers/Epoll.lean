import IotLab.EchoServers.Calls

set_option autoImplicit false

namespace EchoServers

def epollSize : Nat := 50

/-- The listening socket, the descriptors of `ep_events` from index `i` on, `buf` and `str_len`
between `read` and `write`, and whether the loop has ended. -/
structure EpollState where
  servSock : Int
  events : List Int
  buf : Buf
  ended : Bool

def EpollState.start (servSock : Int) : EpollState := ⟨servSock, [], none, false⟩

def EpollState.fd (s : EpollState) : Int := s.events.headD (-1)

def EpollState.next (s : EpollState) : EpollState := { s with events := s.events.tail, buf := none }

theorem EpollState.events_cons {s : EpollState} (h : s.events ≠ []) :
    s.events = s.fd :: s.next.events := by
  obtain ⟨fd, fds, hcons⟩ := List.exists_cons_of_ne_nil h
  simp [EpollState.fd, EpollState.next, hcons]

theorem EpollState.mem_events {s : EpollState} (h : s.events ≠ []) {fd : Int} :
    fd ∈ s.events ↔ fd = s.fd ∨ fd ∈ s.next.events := by
  rw [EpollState.events_cons h]
  exact List.mem_cons

theorem EpollState.fd_mem {s : EpollState} (h : s.events ≠ []) : s.fd ∈ s.events :=
  (EpollState.mem_events h).mpr (.inl rfl)

/-- The calls that an `epoll` server makes at a state, with results that they can have: `read`
gives no more than asked for, and `write` takes no more than is there. -/
def EpollState.makes (bufSize : Nat) (s : EpollState) : Event → Prop
  | .wait ready => s.buf = none ∧ s.ended = false ∧ s.events = [] ∧
    ∀ fds ∈ ready, fds.length ≤ epollSize
  | .accept _ => s.buf = none ∧ s.events ≠ [] ∧ s.fd = s.servSock
  | .read result => s.buf = none ∧ s.events ≠ [] ∧ s.fd ≠ s.servSock ∧ result.length ≤ bufSize
  | .write taken => s.buf ≠ none ∧ taken ≤ s.buf.bytes.length

instance EpollState.decidableMakes (bufSize : Nat) (s : EpollState) (e : Event) :
    Decidable (s.makes bufSize e) := by
  cases e <;> unfold EpollState.makes <;> infer_instance

def waited (s : EpollState) : Option (List Int) → EpollState
  | some fds => { s with events := fds }
  | none => { s with ended := true }

def epltservStep (s : EpollState) : Event → EpollState
  | .wait ready => waited s ready
  | .accept _ => s.next
  | .read (.data []) => s.next
  | .read result => { s with buf := some result }
  | .write _ => s.next

/-- `echo_EPETserv.c`: the inner loop ends at `EAGAIN` and when the client has closed. -/
def epetservStep (s : EpollState) : Event → EpollState
  | .wait ready => waited s ready
  | .accept _ => s.next
  | .read (.data []) => s.next
  | .read (.failed again) => if again then s.next else s
  | .read (.data (b :: bytes)) => { s with buf := some (.data (b :: bytes)) }
  | .write _ => { s with buf := none }

def TakesAll (s : EpollState) : Event → Prop
  | .write taken => taken = s.buf.bytes.length
  | .wait _ | .accept _ | .read _ => True

instance TakesAll.decidable (s : EpollState) (e : Event) : Decidable (TakesAll s e) := by
  cases e <;> unfold TakesAll <;> infer_instance

/-- The sockets block. -/
def epltserv : Transitions.System EpollState Event where
  init s := ∃ servSock, s = .start servSock
  step s e t := s.makes 40 e ∧ TakesAll s e ∧ t = epltservStep s e

/-- The sockets do not block. -/
def epetserv : Transitions.System EpollState Event where
  init s := ∃ servSock, s = .start servSock
  step s e t := s.makes 4 e ∧ t = epetservStep s e

def EpollState.look (g : Log) (s : EpollState) (e : Event) (_ : EpollState) : Log :=
  g.look s.fd s.buf e

section Preserved
variable {s t : EpollState} {g : Log} {e : Event}

theorem EchoLaw.waited {ready : Option (List Int)} (h : EchoLaw s.fd s.buf g)
    (hbuf : s.buf = none) :
    EchoLaw (waited s ready).fd (waited s ready).buf g := by
  cases ready with
  | none => exact h
  | some fds =>
    change EchoLaw _ s.buf g
    rw [hbuf] at h ⊢
    exact h.idle

theorem epltserv_step (h : EchoLaw s.fd s.buf g) (hstep : epltserv.step s e t) :
    EchoLaw t.fd t.buf (g.look s.fd s.buf e) := by
  obtain ⟨hmakes, htakes, rfl⟩ := hstep
  cases e with
  | wait ready => exact h.waited hmakes.1
  | accept accepted =>
    rw [hmakes.1] at h ⊢
    exact h.accept accepted
  | read result =>
    rw [hmakes.1] at h ⊢
    match result with
    | .failed again => exact h.read _
    | .data [] => exact h.read_nothing rfl
    | .data (b :: bytes) => exact h.read _
  | write taken => exact h.write htakes

theorem epetserv_step (h : EchoLaw s.fd s.buf g) (htakes : TakesAll s e)
    (hstep : epetserv.step s e t) : EchoLaw t.fd t.buf (g.look s.fd s.buf e) := by
  obtain ⟨hmakes, rfl⟩ := hstep
  cases e with
  | wait ready => exact h.waited hmakes.1
  | accept accepted =>
    rw [hmakes.1] at h ⊢
    exact h.accept accepted
  | read result =>
    have hbuf := hmakes.1
    rw [hbuf] at h ⊢
    match result with
    | .failed true => exact h.read_nothing rfl
    | .failed false =>
      change EchoLaw s.fd s.buf _
      rw [hbuf]
      exact h.read_nothing rfl
    | .data [] => exact h.read_nothing rfl
    | .data (b :: bytes) => exact h.read _
  | write taken => exact h.write htakes

end Preserved

end EchoServers
