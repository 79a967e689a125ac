import IotLab.EchoRoom.Streams
import Mathlib.Algebra.BigOperators.Group.Finset.Basic
import Mathlib.Algebra.Order.BigOperators.Group.Finset

set_option autoImplicit false

namespace EchoRoom
open HostMemory EchoServers EchoClient

def Room.share (r : Room) (n : Nat) : Nat := (r.exch n).cost + if r.joined n then 0 else 2

def Room.work (count : Nat) (r : Room) : Nat :=
  ∑ n ∈ Finset.range count, r.share n + r.waiting.length

structure Going (count : Nat) (messages : Nat → List Message) (r : Room) : Prop where
  tidy : Tidy count r
  round : ∀ n, Round (messages n) (r.exch n)

section Work
variable {count : Nat} {messages : Nat → List Message} {r r' : Room} {m : Move}

theorem sum_add_le {f g : Nat → Nat} {n : Nat} (a b : Nat) (hn : n < count)
    (hle : ∀ k, k ≠ n → f k ≤ g k) (h : f n + a ≤ g n + b) :
    ∑ k ∈ Finset.range count, f k + a ≤ ∑ k ∈ Finset.range count, g k + b := by
  have hmem := Finset.mem_range.mpr hn
  rw [← Finset.add_sum_erase _ f hmem, ← Finset.add_sum_erase _ g hmem]
  have := Finset.sum_le_sum (s := (Finset.range count).erase n) fun k hk =>
    hle k (Finset.ne_of_mem_erase hk)
  omega

theorem round_run {messages : List Message} {s t : EchoClient.State}
    {ls : List EchoClient.Event} (hrun : Transitions.Run (exchange messages) s ls t)
    (h : Round messages s) : Round messages t ∧ ls.length + t.cost ≤ s.cost := by
  induction hrun with
  | nil s => exact ⟨h, by simp⟩
  | cons hst _ ih =>
    obtain ⟨u, hu, hround, hcost⟩ := h.step hst.1
    obtain rfl := Except.ok.inj (hu.symm.trans hst.2)
    obtain ⟨ht, hle⟩ := ih hround
    exact ⟨ht, by rw [List.length_cons]; omega⟩

theorem Going.step (h : Going count messages r) (hm : Moves count r m r') :
    Going count messages r' :=
  ⟨h.tidy.step hm, fun n => (round_run (hm.exchange_run n) (h.round n)).1⟩

theorem Going.cost_le (h : Going count messages r) (hm : Moves count r m r') (n : Nat) :
    (shows n r m r').length + (r'.exch n).cost ≤ (r.exch n).cost :=
  (round_run (hm.exchange_run n) (h.round n)).2

theorem Going.share_le (h : Going count messages r) (hm : Moves count r m r')
    (hjoined : r'.joined = r.joined) (n : Nat) :
    r'.share n + (shows n r m r').length ≤ r.share n := by
  have := h.cost_le hm n
  rw [Room.share, Room.share, hjoined]
  omega

theorem Going.work_lt_of_shows (h : Going count messages r) (hm : Moves count r m r')
    (hjoined : r'.joined = r.joined) (hwaiting : r'.waiting = r.waiting) {n : Nat} (hn : n < count)
    (hshows : (shows n r m r').length = 1) : r'.work count + 1 ≤ r.work count := by
  have hle (k : Nat) (_ : k ≠ n) : r'.share k ≤ r.share k :=
    Nat.le_of_add_right_le (h.share_le hm hjoined k)
  have hsum := sum_add_le 1 0 hn hle (hshows ▸ h.share_le hm hjoined n)
  rw [Room.work, Room.work, hwaiting]
  omega

theorem Going.work_le (h : Going count messages r) (hm : Moves count r m r') :
    r'.work count + (if decide ¬m.Waits then 1 else 0) ≤ r.work count := by
  have hbusy : (if decide ¬m.Waits then 1 else 0) ≤ 1 := by split <;> decide
  cases hm with
  | @connect n hn hnew =>
    have hshare (k : Nat) : Room.share { r with
        joined := Function.update r.joined n true, waiting := r.waiting ++ [n] } k =
        (r.exch k).cost + if Function.update r.joined n true k then 0 else 2 := rfl
    have hsum := @sum_add_le count (Room.share { r with
      joined := Function.update r.joined n true, waiting := r.waiting ++ [n] }) r.share n 2 0 hn
      (fun k hk => ?_) ?_
    · simp only [Room.work, List.length_append, List.length_singleton]
      omega
    · rw [hshare, Function.update_of_ne hk, Room.share]
    · rw [hshare, Function.update_self, Room.share, hnew]
      simp
  | @act n e s hjoined hclient hcan hrun =>
    have hlt := h.work_lt_of_shows (.act hjoined hclient hcan hrun) rfl rfl
      (h.tidy.counted n hjoined) (by simp [shows])
    omega
  | @wait fds hdistinct hready hroom hbuf hevents hrunning =>
    have hle (k : Nat) := Nat.le_of_add_right_le (h.share_le
      (.wait hdistinct hready hroom hbuf hevents hrunning) rfl k)
    have hsum := Finset.sum_le_sum fun k (_ : k ∈ Finset.range count) => hle k
    simpa [Room.work, Move.Waits] using hsum
  | @accept fd n rest hwaiting hfree hfd hbuf hevents hserv =>
    have hle (k : Nat) := Nat.le_of_add_right_le (h.share_le
      (.accept hwaiting hfree hfd hbuf hevents hserv) rfl k)
    have hsum := Finset.sum_le_sum fun k (_ : k ∈ Finset.range count) => hle k
    simp only [Room.work, hwaiting, List.length_cons]
    omega
  | @read bytes n hne hcaller hbytes hbuf hevents hserv hlen =>
    have hjoined := h.tidy.connected _ n hcaller
    have hlt := h.work_lt_of_shows (.read hne hcaller hbytes hbuf hevents hserv hlen) rfl rfl
      (h.tidy.counted n hjoined) (by simp [shows, hcaller])
    omega
  | write hbuf =>
    obtain ⟨result, hresult⟩ := Option.ne_none_iff_exists'.mp hbuf
    obtain ⟨⟨n, hcaller⟩, -⟩ := h.tidy.holding result hresult
    have hjoined := h.tidy.connected _ n hcaller
    have hlt := h.work_lt_of_shows (.write hbuf) rfl rfl (h.tidy.counted n hjoined)
      (by simp [shows, hcaller])
    omega

end Work

section Progress
variable {count : Nat} {messages : Nat → List Message} {r r' : Room} {m : Move} {n : Nat}

theorem Going.handles (h : Going count messages r) (hbuf : r.server.buf = none)
    (hevents : r.server.events ≠ []) : ∃ m r', Moves count r m r' ∧ ¬m.Waits := by
  have hready : r.Ready r.server.fd := by
    refine h.tidy.pending _ ?_
    rw [Room.due, if_pos hbuf]
    exact EpollState.fd_mem hevents
  rcases hready with ⟨hserv, hwaiting⟩ | ⟨n, hn, hup⟩
  · obtain ⟨k, rest, hcons⟩ := List.exists_cons_of_ne_nil hwaiting
    obtain ⟨b, hb⟩ := h.tidy.opened
    exact ⟨_, _, .accept hcons (hb (max b (r.server.servSock + 1)) (by omega)) (by omega) hbuf
      hevents hserv, id⟩
  · have hserv : r.server.fd ≠ r.server.servSock := by
      intro heq
      rw [heq, h.tidy.listening] at hn
      contradiction
    obtain ⟨b, bytes, hcons⟩ := List.exists_cons_of_ne_nil hup
    exact ⟨_, _, .read (List.cons_ne_nil b []) hn (hcons ▸ ⟨bytes, rfl⟩) hbuf hevents hserv
      (by simp [servBufSize]), id⟩

theorem Going.client_moves (h : Going count messages r) (hbuf : r.server.buf = none)
    (hquiet : ∀ fd, ¬r.Ready fd) (hn : n < count)
    (hnot : (r.client n).printed ≠ (messages n).map (·.chars)) :
    ∃ m r', Moves count r m r' ∧ ¬m.Waits := by
  by_cases hjoined : r.joined n = true
  · have hwaiting : n ∉ r.waiting := fun hmem => hquiet r.server.servSock
      (.inl ⟨rfl, List.ne_nil_of_mem hmem⟩)
    obtain ⟨fd, hfd⟩ := (h.tidy.attached n hjoined).resolve_left hwaiting
    have hup : r.up n = [] := by
      by_contra hne
      exact hquiet fd (.inr ⟨n, hfd, hne⟩)
    obtain ⟨e, hcan⟩ : ∃ e : EchoClient.Event, e.canOccur (r.exch n) := by
      by_contra hstuck
      exact hnot ((h.round n).notStuck fun e hcan => hstuck ⟨e, hcan⟩)
    have hclient : OfClient e := by
      cases e with
      | input => trivial
      | serverRead k =>
        obtain ⟨-, hpos, -, hle⟩ := hcan
        simp only [Room.exch, hup, List.length_nil] at hle
        omega
      | serverWrite => exact absurd (held_none hbuf) hcan
      | recv k => trivial
      | print => trivial
    obtain ⟨s, hrun, -⟩ := (h.round n).step hcan
    exact ⟨_, _, .act hjoined hclient hcan hrun, id⟩
  · exact ⟨_, _, .connect hn (Bool.eq_false_iff.mpr hjoined), id⟩

theorem Going.progress (h : Going count messages r) (hn : n < count)
    (hnot : (r.client n).printed ≠ (messages n).map (·.chars)) :
    ∃ ms r', Transitions.Run (system count messages) r ms r' ∧ r'.work count < r.work count := by
  have hless {r r' : Room} {m : Move} (h : Going count messages r) (hm : Moves count r m r')
      (hbusy : ¬m.Waits) : r'.work count < r.work count := by
    have hle := h.work_le hm
    rw [if_pos (decide_eq_true hbusy)] at hle
    omega
  by_cases hbuf : r.server.buf = none
  · by_cases hevents : r.server.events = []
    · by_cases hready : ∃ fd, r.Ready fd
      · obtain ⟨fd, hfd⟩ := hready
        have hwait : Moves count r (.serve (.wait (some [fd])))
            { r with server := { r.server with events := [fd] } } :=
          .wait (List.nodup_singleton fd) (by simpa using hfd) (by simp [epollSize]) hbuf hevents
            h.tidy.running
        obtain ⟨m, r', hm, hbusy⟩ := (h.step hwait).handles hbuf (List.cons_ne_nil fd [])
        have hle := h.work_le hwait
        have hlt := hless (h.step hwait) hm hbusy
        exact ⟨_, r', .cons (moves_next hwait) (.single (moves_next hm)), by omega⟩
      · obtain ⟨m, r', hm, hbusy⟩ := h.client_moves hbuf (not_exists.mp hready) hn hnot
        exact ⟨_, r', .single (moves_next hm), hless h hm hbusy⟩
    · obtain ⟨m, r', hm, hbusy⟩ := h.handles hbuf hevents
      exact ⟨_, r', .single (moves_next hm), hless h hm hbusy⟩
  · have hm : Moves count r _ r.afterWrite := .write hbuf
    exact ⟨_, _, .single (moves_next hm), hless h hm id⟩

theorem going_of_reachable (h : Transitions.Reachable (system count messages) r) :
    Going count messages r := by
  refine h.invariant (I := Going count messages) ?_ ?_
  · rintro r ⟨servSock, message, rfl⟩
    refine ⟨.start servSock messages message, fun n => ?_⟩
    simpa [Room.exch, Room.start, Room.held, Room.caller] using Round.start (message n)
  · exact fun r m r' _ hgoing hm => hgoing.step (next_moves hm)

theorem completes (h : Transitions.Reachable (system count messages) r) : ∃ ms r',
    Transitions.Run (system count messages) r ms r' ∧
      ∀ n < count, (r'.client n).printed = (messages n).map (·.chars) := by
  refine Transitions.exists_run_of_progress (I := Transitions.Reachable (system count messages))
    (m := Room.work count) (fun s hs hnot => ?_) h
  obtain ⟨n, hn⟩ := not_forall.mp hnot
  obtain ⟨hlt, hprinted⟩ := Classical.not_imp.mp hn
  obtain ⟨ms, s', hrun, hless⟩ := (going_of_reachable hs).progress hlt hprinted
  exact ⟨ms, s', hrun, hrun.reachable hs, hless⟩

end Progress

/-- Every client prints, line by line, what was typed into it, and between its rounds nothing of
it is left anywhere; no store is outside its buffer; no two descriptors are one client's; only
so many moves are left besides calls of `epoll_wait`, and some of them lead to the end. -/
structure RoomLaw (count : Nat) (messages : Nat → List Message) (r : Room) : Prop where
  printed : ∀ n, (r.client n).printed =
    ((messages n).take (r.client n).printed.length).map (·.chars)
  nothingLeft : ∀ n, (r.client n).phase = .input →
    r.up n = [] ∧ r.held n = none ∧ r.down n = []
  inside : ∀ n (e : EchoClient.Event), e.canOccur (r.exch n) → ∃ s, handle (r.exch n) e = .ok s
  apart : ∀ fd fd' n, r.peer fd = some n → r.peer fd' = some n → fd = fd'
  ends : ∃ c, ∀ ms r', Transitions.Run (system count messages) r ms r' →
    ms.countP (fun m => ¬m.Waits) ≤ c
  completes : ∃ ms r', Transitions.Run (system count messages) r ms r' ∧
    ∀ n < count, (r'.client n).printed = (messages n).map (·.chars)

/-- However the clients, their streams and the server's batches interleave. -/
theorem echo_room {count : Nat} {messages : Nat → List Message} {r : Room}
    (h : Transitions.Reachable (system count messages) r) : RoomLaw count messages r := by
  have hgoing := going_of_reachable h
  constructor
  case printed => exact fun n => (hgoing.round n).law.printed
  case nothingLeft => exact fun n => (hgoing.round n).law.nothingLeft
  case inside => exact fun n => (hgoing.round n).law.inside
  case apart => exact hgoing.tidy.apart
  case ends =>
    refine ⟨r.work count, fun ms r' hrun => ?_⟩
    have hle := hrun.countP_le (I := Going count messages) (m := Room.work count)
      (fun s m t hs hm => ⟨hs.step (next_moves hm), hs.work_le (next_moves hm)⟩) hgoing
    omega
  case completes => exact EchoRoom.completes h

def demoMessages (n : Nat) : List Message := if n = 0 then [shortMessage] else [longMessage]

def demoMoves : List Move :=
  [.connect 0, .connect 1, .serve (.wait (some [3])), .serve (.accept (some 5)), .act 0 .input,
    .serve (.wait (some [5, 3])), .serve (.read (.data [104, 105, 10])), .serve (.write 3),
    .serve (.accept (some 6)), .act 1 .input, .serve (.wait (some [6])),
    .serve (.read (.data (List.replicate 40 97))), .act 0 (.recv 3), .serve (.write 40),
    .act 1 (.recv 40), .serve (.wait (some [6])), .serve (.read (.data [97, 10])),
    .serve (.write 2), .act 0 .print, .act 1 (.recv 2), .act 1 .print]

theorem echo_room_demo : ∃ r, Transitions.Reachable (system 2 demoMessages) r ∧
    (r.client 0).printed = [shortMessage.chars] ∧ (r.client 1).printed = [longMessage.chars] ∧
      RoomLaw 2 demoMessages r := by
  obtain ⟨r, ms, -, hrun, htest⟩ := @Transitions.run_of_runsTo _ _ _ (system 2 demoMessages) id
    (fun r m => (r.next 2 m).map fun r' => (m, r'))
    (fun r => (r.client 0).printed = [shortMessage.chars] ∧
      (r.client 1).printed = [longMessage.chars])
    (fun r m l r' h => by
      obtain ⟨s, hs, heq⟩ := Option.map_eq_some_iff.mp h
      cases heq
      exact ⟨rfl, hs⟩)
    (.start 3 demoMessages fun _ _ => 7) demoMoves (by decide +kernel)
  have hreach := hrun.reachable (.init ⟨3, _, rfl⟩)
  obtain ⟨hshort, hlong⟩ := of_decide_eq_true htest
  exact ⟨r, hreach, hshort, hlong, echo_room hreach⟩

end EchoRoom
