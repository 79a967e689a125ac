import IotLab.EchoRoom.Law

set_option autoImplicit false

namespace EchoRoom
open HostMemory EchoServers EchoClient

def edgeBufSize : Nat := 4

/-- The room with the edge-triggered server, and the clients on whose descriptors something has
come that `epoll_wait` has not reported yet. -/
structure EdgeRoom where
  room : Room
  armed : Nat → Bool

def EdgeRoom.start (servSock : Int) (messages : Nat → List Message) (message : Nat → Mem) :
    EdgeRoom where
  room := .start servSock messages message
  armed _ := false

/-- A descriptor that `epoll_wait` may report. The listening socket is level-triggered. -/
def EdgeRoom.Ready (w : EdgeRoom) (fd : Int) : Prop :=
  fd = w.room.server.servSock ∧ w.room.waiting ≠ [] ∨
    ∃ n ∈ w.room.peer fd, w.armed n = true ∧ w.room.up n ≠ []

instance (w : EdgeRoom) : DecidablePred w.Ready := fun fd =>
  inferInstanceAs (Decidable (fd = w.room.server.servSock ∧ w.room.waiting ≠ [] ∨
    ∃ n ∈ w.room.peer fd, w.armed n = true ∧ w.room.up n ≠ []))

/-- What the server's calls find where no call fails, but for a `read` that finds nothing. -/
def EdgeRoom.Allows (w : EdgeRoom) : EchoServers.Event → Prop
  | .wait ready => ready.isSome ∧ ∀ fds ∈ ready, fds.Nodup ∧ ∀ fd ∈ fds, w.Ready fd
  | .accept accepted => w.room.Allows (.accept accepted)
  | .read (.data bytes) => w.room.Allows (.read (.data bytes))
  | .read (.failed again) => again = true ∧ ∀ n ∈ w.room.caller, w.room.up n = []
  | .write taken => w.room.Allows (.write taken)

instance (w : EdgeRoom) : DecidablePred w.Allows
  | .wait ready => inferInstanceAs (Decidable (ready.isSome ∧
    ∀ fds ∈ ready, fds.Nodup ∧ ∀ fd ∈ fds, w.Ready fd))
  | .accept accepted => inferInstanceAs (Decidable (w.room.Allows (.accept accepted)))
  | .read (.data bytes) => inferInstanceAs (Decidable (w.room.Allows (.read (.data bytes))))
  | .read (.failed again) => inferInstanceAs (Decidable (again = true ∧
    ∀ n ∈ w.room.caller, w.room.up n = []))
  | .write taken => inferInstanceAs (Decidable (w.room.Allows (.write taken)))

/-- The room after a call of the server. A descriptor that is added is looked at once. -/
def EdgeRoom.after (w : EdgeRoom) (e : EchoServers.Event) : EdgeRoom where
  room := { w.room.after e with server := epetservStep w.room.server e }
  armed := match e with
    | .wait (some fds) => fun n => w.armed n && fds.all fun fd => w.room.peer fd ≠ some n
    | .accept (some _) => fun n =>
      if w.room.waiting.head? = some n then decide (w.room.up n ≠ []) else w.armed n
    | _ => w.armed

def EdgeRoom.next (count : Nat) (w : EdgeRoom) : Move → Option EdgeRoom
  | .connect n => (w.room.next count (.connect n)).map fun r => { w with room := r }
  | .act n e => (w.room.next count (.act n e)).map fun r =>
    { room := r, armed := Function.update w.armed n (w.armed n || r.up n ≠ w.room.up n) }
  | .serve e =>
    if w.Allows e ∧ w.room.server.makes edgeBufSize e ∧ TakesAll w.room.server e then
      some (w.after e)
    else none

def edge (count : Nat) (messages : Nat → List Message) : Transitions.System EdgeRoom Move where
  init w := ∃ servSock message, w = .start servSock messages message
  step w m w' := w.next count m = some w'

/-- The level-triggered server at the same place: it has handled the batch, or has come to the
descriptor of what is in `buf`. -/
def EdgeRoom.level (w : EdgeRoom) : Room :=
  { w.room with server := { w.room.server with
      events := if w.room.server.buf = none then [] else [w.room.server.fd] } }

/-- What the level-triggered server does meanwhile: it waits for each `read`, and a `read` that
finds nothing is none of its own. -/
def levels (w : EdgeRoom) (m : Move) (_ : EdgeRoom) : List Move :=
  match m with
  | .connect _ | .act _ _ | .serve (.write _) => [m]
  | .serve (.wait _) | .serve (.read (.failed _)) => []
  | .serve (.accept _) | .serve (.read (.data _)) =>
    [.serve (.wait (some [w.room.server.fd])), m]

inductive EdgeMoves (count : Nat) (w : EdgeRoom) : Move → EdgeRoom → Prop where
  | connect {n : Nat} {r : Room} (hm : Moves count w.room (.connect n) r) :
      EdgeMoves count w (.connect n) { w with room := r }
  | act {n : Nat} {e : EchoClient.Event} {r : Room} (hm : Moves count w.room (.act n e) r) :
      EdgeMoves count w (.act n e)
        { room := r, armed := Function.update w.armed n (w.armed n || r.up n ≠ w.room.up n) }
  | wait {fds : List Int} (hdistinct : fds.Nodup) (hready : ∀ fd ∈ fds, w.Ready fd)
      (hbuf : w.room.server.buf = none) (hevents : w.room.server.events = [])
      (hroom : fds.length ≤ epollSize) (hrunning : w.room.server.ended = false) :
      EdgeMoves count w (.serve (.wait (some fds)))
        { room := { w.room with server := { w.room.server with events := fds } }
          armed := fun n => w.armed n && fds.all fun fd => w.room.peer fd ≠ some n }
  | accept {fd : Int} {n : Nat} {rest : List Nat} (hwaiting : w.room.waiting = n :: rest)
      (hfree : w.room.peer fd = none) (hfd : fd ≠ w.room.server.servSock)
      (hbuf : w.room.server.buf = none) (hevents : w.room.server.events ≠ [])
      (hserv : w.room.server.fd = w.room.server.servSock) :
      EdgeMoves count w (.serve (.accept (some fd)))
        { room := { w.room with
            server := w.room.server.next
            waiting := rest
            peer := Function.update w.room.peer fd (some n) }
          armed := Function.update w.armed n (decide (w.room.up n ≠ [])) }
  | read {bytes : List Byte} {n : Nat} (hne : bytes ≠ []) (hcaller : w.room.caller = some n)
      (hbytes : bytes <+: w.room.up n) (hbuf : w.room.server.buf = none)
      (hevents : w.room.server.events ≠ [])
      (hserv : w.room.server.fd ≠ w.room.server.servSock) (hlen : bytes.length ≤ edgeBufSize) :
      EdgeMoves count w (.serve (.read (.data bytes))) { w with room := w.room.afterRead bytes }
  | again (hup : ∀ n ∈ w.room.caller, w.room.up n = []) (hbuf : w.room.server.buf = none)
      (hevents : w.room.server.events ≠ [])
      (hserv : w.room.server.fd ≠ w.room.server.servSock) :
      EdgeMoves count w (.serve (.read (.failed true)))
        { w with room := { w.room with server := w.room.server.next } }
  | write (hbuf : w.room.server.buf ≠ none) :
      EdgeMoves count w (.serve (.write w.room.server.buf.bytes.length))
        { w with room := { w.room.afterWrite with
            server := { w.room.server with buf := none } } }

section Moves
variable {count : Nat} {w w' : EdgeRoom} {m : Move}

theorem armed_accept (fd : Int) {n : Nat} {rest : List Nat}
    (hwaiting : w.room.waiting = n :: rest) :
    (w.after (.accept (some fd))).armed =
      Function.update w.armed n (decide (w.room.up n ≠ [])) := by
  funext k
  by_cases hk : n = k
  · subst hk
    simp [EdgeRoom.after, hwaiting]
  · simp [EdgeRoom.after, hwaiting, hk, Ne.symm hk]

theorem next_edgeMoves (h : w.next count m = some w') : EdgeMoves count w m w' := by
  cases m with
  | connect n =>
    obtain ⟨r, hr, rfl⟩ := Option.map_eq_some_iff.mp h
    exact .connect (next_moves hr)
  | act n e =>
    obtain ⟨r, hr, rfl⟩ := Option.map_eq_some_iff.mp h
    exact .act (next_moves hr)
  | serve e =>
    simp only [EdgeRoom.next, Option.ite_none_right_eq_some, Option.some.injEq] at h
    obtain ⟨⟨hallow, hmakes, htakes⟩, rfl⟩ := h
    cases e with
    | wait ready =>
      obtain ⟨fds, rfl⟩ := Option.isSome_iff_exists.mp hallow.1
      obtain ⟨hdistinct, hready⟩ := hallow.2 fds rfl
      exact .wait hdistinct hready hmakes.1 hmakes.2.2.1 (hmakes.2.2.2 fds rfl) hmakes.2.1
    | accept accepted =>
      obtain ⟨fd, rfl⟩ := Option.isSome_iff_exists.mp hallow.1
      obtain ⟨n, rest, hwaiting⟩ := List.exists_cons_of_ne_nil hallow.2.1
      obtain ⟨hfree, hfd⟩ := hallow.2.2 fd rfl
      have hmoves := @EdgeMoves.accept count w fd n rest hwaiting hfree hfd hmakes.1 hmakes.2.1
        hmakes.2.2
      rw [← armed_accept fd hwaiting] at hmoves
      simpa [EdgeRoom.after, Room.after, epetservStep, hwaiting] using hmoves
    | read result =>
      cases result with
      | failed again =>
        obtain ⟨rfl, hup⟩ := hallow
        exact .again hup hmakes.1 hmakes.2.1 hmakes.2.2.1
      | data bytes =>
        obtain ⟨hne, n, hcaller, hbytes⟩ := hallow
        obtain ⟨b, bytes, rfl⟩ := List.exists_cons_of_ne_nil hne
        exact .read hne hcaller hbytes hmakes.1 hmakes.2.1 hmakes.2.2.1 hmakes.2.2.2
    | write taken =>
      obtain rfl : taken = w.room.server.buf.bytes.length := htakes
      have hmoves := @EdgeMoves.write count w hmakes.1
      simpa [EdgeRoom.after, Room.after, epetservStep, Room.afterWrite] using hmoves

theorem edgeMoves_next (h : EdgeMoves count w m w') : w.next count m = some w' := by
  cases h with
  | connect hm => rw [EdgeRoom.next, moves_next hm, Option.map_some]
  | act hm => rw [EdgeRoom.next, moves_next hm, Option.map_some]
  | wait hdistinct hready hbuf hevents hroom hrunning =>
    refine if_pos ⟨⟨rfl, ?_⟩, ⟨hbuf, hrunning, hevents, ?_⟩, trivial⟩
    · rintro _ ⟨⟩
      exact ⟨hdistinct, hready⟩
    · rintro _ ⟨⟩
      exact hroom
  | @accept fd n rest hwaiting hfree hfd hbuf hevents hserv =>
    have hallow : w.Allows (.accept (some fd)) := by
      refine ⟨rfl, by simp [hwaiting], ?_⟩
      rintro _ ⟨⟩
      exact ⟨hfree, hfd⟩
    rw [EdgeRoom.next, if_pos ⟨hallow, ⟨hbuf, hevents, hserv⟩, trivial⟩, ← armed_accept fd hwaiting]
    simp [EdgeRoom.after, Room.after, epetservStep, hwaiting]
  | @read bytes n hne hcaller hbytes hbuf hevents hserv hlen =>
    rw [EdgeRoom.next, if_pos ⟨⟨hne, n, hcaller, hbytes⟩, ⟨hbuf, hevents, hserv, hlen⟩, trivial⟩]
    obtain ⟨b, bytes, rfl⟩ := List.exists_cons_of_ne_nil hne
    rfl
  | again hup hbuf hevents hserv =>
    exact if_pos ⟨⟨rfl, hup⟩, ⟨hbuf, hevents, hserv, Nat.zero_le _⟩, trivial⟩
  | write hbuf =>
    rw [EdgeRoom.next, if_pos ⟨trivial, ⟨hbuf, le_refl _⟩, rfl⟩]
    simp [EdgeRoom.after, Room.after, epetservStep, Room.afterWrite]

end Moves

/-- What is in a batch can be handled, and no wake-up is lost: where bytes are unread, they are
still to be reported, or their descriptor is in the batch. -/
structure Awake (w : EdgeRoom) : Prop where
  distinct : w.room.server.events.Nodup
  reading : w.room.server.buf ≠ none → w.room.server.events ≠ []
  known : ∀ fd ∈ w.room.server.events,
    fd = w.room.server.servSock ∧ w.room.waiting ≠ [] ∨ ∃ n, w.room.peer fd = some n
  awake : ∀ fd n, w.room.peer fd = some n → w.room.up n ≠ [] →
    w.armed n = true ∨ fd ∈ w.room.server.events

section Level
variable {count : Nat} {messages : Nat → List Message} {w w' : EdgeRoom} {m : Move} {n : Nat}

theorem level_exch (w : EdgeRoom) (n : Nat) : w.level.exch n = w.room.exch n := by
  have hheld : w.level.held n = w.room.held n := by
    by_cases hbuf : w.room.server.buf = none
    · rw [held_none hbuf]
      exact held_none hbuf
    · simp only [Room.held, Room.caller, EdgeRoom.level, if_neg hbuf]
      rfl
  simp only [Room.exch, hheld]
  rfl

theorem level_caller (hbuf : w.room.server.buf ≠ none) : w.level.caller = w.room.caller := by
  simp only [Room.caller, EdgeRoom.level, if_neg hbuf]
  rfl

theorem level_wait (hbuf : w.room.server.buf = none) (hrunning : w.room.server.ended = false)
    (hready : w.level.Ready w.room.server.fd) :
    Moves count w.level (.serve (.wait (some [w.room.server.fd])))
      { w.room with server := { w.room.server with events := [w.room.server.fd] } } :=
  .wait (List.nodup_singleton _) (by simpa using hready) (by simp [epollSize]) hbuf (if_pos hbuf)
    hrunning

theorem EdgeMoves.level_run (hm : EdgeMoves count w m w')
    (hrunning : w.room.server.ended = false) :
    Transitions.Run (system count messages) w.level (levels w m w') w'.level := by
  cases hm with
  | connect hm =>
    cases hm with
    | connect hn hnew => exact .single (moves_next (.connect hn hnew))
  | act hm =>
    cases hm with
    | act hjoined hclient hcan hrun =>
      rw [← level_exch] at hcan hrun
      have hact : Moves count w.level _ _ := .act hjoined hclient hcan hrun
      exact .single (moves_next hact)
  | wait hdistinct hready hbuf hevents hroom =>
    simp only [levels, EdgeRoom.level, hbuf, if_true]
    exact .nil _
  | @accept fd n rest hwaiting hfree hfd hbuf hevents hserv =>
    have hready : w.level.Ready w.room.server.fd := .inl ⟨hserv, by simp [EdgeRoom.level, hwaiting]⟩
    refine .cons (moves_next (level_wait hbuf hrunning hready)) (.single (moves_next ?_))
    exact .accept hwaiting hfree hfd hbuf (List.cons_ne_nil _ _) hserv
  | @read bytes n hne hcaller hbytes hbuf hevents hserv hlen =>
    have hup : w.room.up n ≠ [] := by
      intro hnil
      exact hne (List.prefix_nil.mp (hnil ▸ hbytes))
    have hready : w.level.Ready w.room.server.fd := .inr ⟨n, hcaller, hup⟩
    refine .cons (moves_next (level_wait hbuf hrunning hready)) (.single (moves_next ?_))
    have hread := @Moves.read count
      { w.room with server := { w.room.server with events := [w.room.server.fd] } } bytes n hne
      hcaller hbytes hbuf (List.cons_ne_nil _ _) hserv (Nat.le_trans hlen (by decide))
    exact hread
  | again hup hbuf hevents hserv =>
    simp only [levels, EdgeRoom.level, hbuf, if_true, EpollState.next]
    exact .nil _
  | write hbuf =>
    have hwrite : Moves count w.level _ _ := .write hbuf
    have hafter : w.level.afterWrite = EdgeRoom.level { w with
        room := { w.room.afterWrite with server := { w.room.server with buf := none } } } := by
      simp only [Room.afterWrite, level_caller hbuf]
      simp only [EdgeRoom.level, EpollState.next, if_neg hbuf]
      rfl
    exact .single (moves_next (hafter ▸ hwrite))

theorem Awake.start (servSock : Int) (message : Nat → Mem) :
    Awake (.start servSock messages message) where
  distinct := List.nodup_nil
  reading := by simp [EdgeRoom.start, Room.start, EpollState.start]
  known := by simp [EdgeRoom.start, Room.start, EpollState.start]
  awake := by simp [EdgeRoom.start, Room.start]

theorem Awake.batch (h : Awake w) (hevents : w.room.server.events ≠ []) :
    w.room.server.fd ∉ w.room.server.next.events ∧ w.room.server.next.events.Nodup := by
  have hdistinct := h.distinct
  rw [EpollState.events_cons hevents] at hdistinct
  exact List.nodup_cons.mp hdistinct

theorem Awake.step (h : Awake w) (htidy : Tidy count w.level) (hm : EdgeMoves count w m w') :
    Awake w' := by
  cases hm with
  | connect hm =>
    cases hm with
    | connect hn hnew =>
      refine { h with known := fun fd hfd => (h.known fd hfd).imp_left fun hserv => ?_ }
      exact ⟨hserv.1, by simp⟩
  | @act n e r hm =>
    cases hm with
    | @act n e s hjoined hclient hcan hrun =>
      refine { h with awake := fun fd k hk hup => ?_ }
      by_cases hkn : k = n
      · subst hkn
        by_cases hsame : (w.room.setExch k s).up k = w.room.up k
        · refine (h.awake fd k hk (hsame ▸ hup)).imp_left fun harmed => ?_
          simp [harmed]
        · refine .inl ?_
          simp [hsame]
      · have hother : (w.room.setExch n s).up k = w.room.up k := by simp [Room.setExch, hkn]
        refine (h.awake fd k hk (hother ▸ hup)).imp_left fun harmed => ?_
        exact (Function.update_of_ne hkn _ _).trans harmed
  | @wait fds hdistinct hready hbuf hevents =>
    refine ⟨hdistinct, fun hne => absurd hbuf hne, fun fd hfd => ?_, fun fd n hn hup => ?_⟩
    · refine (hready fd hfd).imp_right ?_
      rintro ⟨n, hn, -⟩
      exact ⟨n, hn⟩
    · have harmed : w.armed n = true :=
        (h.awake fd n hn hup).resolve_right (by simp [hevents])
      by_cases hmem : fd ∈ fds
      · exact .inr hmem
      · refine .inl ?_
        simp only [harmed, Bool.true_and, List.all_eq_true, decide_eq_true_eq]
        intro fd' hfd' hpeer
        exact hmem (htidy.apart fd fd' n hn hpeer ▸ hfd')
  | @accept fd n rest hwaiting hfree hfd hbuf hevents hserv =>
    obtain ⟨hleft, hdistinct⟩ := h.batch hevents
    refine ⟨hdistinct, fun hne => absurd rfl hne, fun fd' hfd' => ?_, fun fd' k hk hup => ?_⟩
    · rcases h.known fd' (List.mem_of_mem_tail hfd') with ⟨hserv', -⟩ | ⟨k, hk⟩
      · rw [hserv, ← hserv'] at hleft
        exact absurd hfd' hleft
      · refine .inr ⟨k, ?_⟩
        refine (Function.update_of_ne ?_ _ _).trans hk
        rintro rfl
        simp [hfree] at hk
    · by_cases hnew : fd' = fd
      · subst hnew
        obtain rfl : n = k := by simpa using hk
        refine .inl ?_
        simpa using hup
      · have hold : w.room.peer fd' = some k := (Function.update_of_ne hnew _ _).symm.trans hk
        have hkn : k ≠ n := by
          rintro rfl
          exact (htidy.queued k (by simp [EdgeRoom.level, hwaiting])).2 fd' hold
        rcases h.awake fd' k hold hup with harmed | hmem
        · exact .inl ((Function.update_of_ne hkn _ _).trans harmed)
        · rcases (EpollState.mem_events hevents).mp hmem with rfl | hmem
          · rw [hserv] at hold
            exact absurd (hold.symm.trans htidy.listening) (by simp)
          · exact .inr hmem
  | @read bytes n hne hcaller hbytes hbuf hevents =>
    refine ⟨h.distinct, fun _ => hevents, h.known, fun fd k hk hup => h.awake fd k hk fun hnil => ?_⟩
    refine hup ?_
    simp [Room.afterRead, hnil]
  | again hup hbuf hevents hserv =>
    refine ⟨(h.batch hevents).2, fun hne => absurd rfl hne, fun fd hfd => ?_,
      fun fd k hk hne => ?_⟩
    · exact h.known fd (List.mem_of_mem_tail hfd)
    · refine (h.awake fd k hk hne).imp_right fun hmem => ?_
      rcases (EpollState.mem_events hevents).mp hmem with rfl | hmem
      · exact absurd (hup k hk) hne
      · exact hmem
  | write hbuf => exact ⟨h.distinct, fun hne => absurd rfl hne, h.known, h.awake⟩

end Level

/-- The edge-triggered server refines the level-triggered one, in a room with the same clients. -/
theorem edge_refines (count : Nat) (messages : Nat → List Message) :
    Transitions.Refines (edge count messages) (system count messages) Awake levels
      EdgeRoom.level where
  start := by
    rintro w ⟨servSock, message, rfl⟩
    exact ⟨.start servSock message, servSock, message, rfl⟩
  step w m w' h hreach hm := by
    have htidy := (going_of_reachable hreach).tidy
    have hmoves := next_edgeMoves hm
    exact ⟨h.step htidy hmoves, hmoves.level_run htidy.running⟩

end EchoRoom
