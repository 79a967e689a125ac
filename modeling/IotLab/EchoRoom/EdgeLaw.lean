import IotLab.EchoRoom.Edge

set_option autoImplicit false

namespace EchoRoom
open HostMemory EchoServers EchoClient

def EdgeRoom.noted (w : EdgeRoom) (n : Nat) : Bool :=
  w.room.server.events.any fun fd => w.room.peer fd = some n

/-- The reports and the fruitless `read` that client `n` may still cost. -/
def EdgeRoom.share (w : EdgeRoom) (n : Nat) : Nat :=
  2 * (w.armed n).toNat + (w.noted n).toNat

def EdgeRoom.work (count : Nat) (w : EdgeRoom) : Nat :=
  4 * w.level.work count + ∑ n ∈ Finset.range count, w.share n

section Work
variable {count : Nat} {messages : Nat → List Message} {w w' : EdgeRoom} {m : Move} {n : Nat}

theorem noted_eq_true : w.noted n = true ↔
    ∃ fd ∈ w.room.server.events, w.room.peer fd = some n := by
  simp [EdgeRoom.noted]

theorem EdgeMoves.level_work (hm : EdgeMoves count w m w') (h : Going count messages w.level) :
    (levels w m w').countP (fun m => ¬m.Waits) + w'.level.work count ≤ w.level.work count := by
  have hrun := @EdgeMoves.level_run count messages w w' m hm h.tidy.running
  exact hrun.countP_le (I := Going count messages) (m := Room.work count)
    (fun _ _ _ hs hst => ⟨hs.step (next_moves hst), hs.work_le (next_moves hst)⟩) h

def Move.gain : Move → Nat
  | .act _ _ => 2
  | .serve (.accept _) => 3
  | .connect _ | .serve (.wait _) | .serve (.read _) | .serve (.write _) => 0

def Move.spends : Move → Nat
  | .serve (.read (.failed _)) => 1
  | .connect _ | .act _ _ | .serve _ => 0

theorem gain_le (w : EdgeRoom) (m : Move) (w' : EdgeRoom) :
    m.gain + (if decide ¬m.Waits then 1 else 0) ≤
      4 * (levels w m w').countP (fun m => ¬m.Waits) + m.spends := by
  cases m with
  | connect n => simp [levels, Move.gain, Move.spends, Move.Waits]
  | act n e => simp [levels, Move.gain, Move.spends, Move.Waits]
  | serve e =>
    cases e with
    | wait ready => simp [levels, Move.gain, Move.spends, Move.Waits]
    | accept accepted => simp [levels, Move.gain, Move.spends, Move.Waits]
    | read result => cases result <;> simp [levels, Move.gain, Move.spends, Move.Waits]
    | write taken => simp [levels, Move.gain, Move.spends, Move.Waits]

theorem share_le (harmed : w'.armed n = true → w.armed n = true)
    (hnoted : w'.noted n = true → w.noted n = true) : w'.share n ≤ w.share n :=
  Nat.add_le_add (Nat.mul_le_mul_left 2 (Bool.toNat_le_toNat harmed)) (Bool.toNat_le_toNat hnoted)

theorem share_armed (hnoted : w'.noted n = w.noted n) : w'.share n ≤ w.share n + 2 := by
  have hle := (w'.armed n).toNat_le
  simp only [EdgeRoom.share, hnoted]
  omega

theorem share_le_three (w : EdgeRoom) (n : Nat) : w.share n ≤ 3 := by
  have harmed := (w.armed n).toNat_le
  have hnoted := (w.noted n).toNat_le
  simp only [EdgeRoom.share]
  omega

theorem share_reported (harmed' : w'.armed n = false) (harmed : w.armed n = true) :
    w'.share n ≤ w.share n := by
  have hnoted := (w'.noted n).toNat_le
  simp only [EdgeRoom.share, harmed', harmed, Bool.toNat_false, Bool.toNat_true]
  omega

theorem share_read (harmed : w'.armed n = w.armed n) (hnoted' : w'.noted n = false)
    (hnoted : w.noted n = true) : w'.share n + 1 = w.share n := by
  simp [EdgeRoom.share, harmed, hnoted', hnoted]

theorem EdgeMoves.sum_share (hm : EdgeMoves count w m w') (hawake : Awake w)
    (h : Tidy count w.level) : ∑ k ∈ Finset.range count, w'.share k + m.spends ≤
      ∑ k ∈ Finset.range count, w.share k + m.gain := by
  cases hm with
  | connect hm =>
    cases hm with
    | connect hn hnew => exact Nat.le_refl _
  | @act n e r hm =>
    cases hm with
    | act hjoined hclient hcan hrun =>
      refine sum_add_le 0 2 (h.counted n hjoined) (fun k hk => share_le (fun harmed => ?_) id) ?_
      · exact (Function.update_of_ne hk _ _).symm.trans harmed
      · exact share_armed rfl
  | @wait fds hdistinct hready hbuf hevents hroom =>
    refine Nat.add_le_add_right (Finset.sum_le_sum fun k _ => ?_) 0
    by_cases hmem : ∃ fd ∈ fds, w.room.peer fd = some k
    · obtain ⟨fd, hfd, hpeer⟩ := hmem
      have harmed : w.armed k = true := by
        rcases hready fd hfd with ⟨rfl, -⟩ | ⟨n, hn, harmed, -⟩
        · exact absurd (hpeer.symm.trans h.listening) (by simp)
        · obtain rfl := Option.some.inj (hpeer.symm.trans hn)
          exact harmed
      refine share_reported ?_ harmed
      simp only [harmed, Bool.true_and, List.all_eq_false, decide_eq_true_eq]
      exact ⟨fd, hfd, not_not.mpr hpeer⟩
    · refine share_le (fun harmed => ?_) fun hnoted => ?_
      · exact (Bool.and_eq_true_iff.mp harmed).1
      · exact absurd (noted_eq_true.mp hnoted) hmem
  | @accept fd n rest hwaiting hfree hfd hbuf hevents hserv =>
    have hjoined := (h.queued n (by simp [EdgeRoom.level, hwaiting])).1
    refine sum_add_le 0 3 (h.counted n hjoined) (fun k hk => share_le (fun harmed => ?_) ?_) ?_
    · exact (Function.update_of_ne hk _ _).symm.trans harmed
    · intro hnoted
      obtain ⟨fd', hfd', hpeer⟩ := noted_eq_true.mp hnoted
      have hold : fd' ≠ fd := by
        rintro rfl
        simp only [Function.update_self] at hpeer
        exact hk (Option.some.inj hpeer).symm
      refine noted_eq_true.mpr ⟨fd', List.mem_of_mem_tail hfd', ?_⟩
      exact (Function.update_of_ne hold _ _).symm.trans hpeer
    · exact Nat.le_trans (share_le_three _ n) (Nat.le_add_left _ _)
  | read hne hcaller hbytes hbuf hevents hserv hlen => exact Nat.le_refl _
  | again hup hbuf hevents hserv =>
    obtain ⟨n, hn⟩ := (hawake.known _ (EpollState.fd_mem hevents)).resolve_left
      fun heq => hserv heq.1
    refine sum_add_le 1 0 (h.counted n (h.connected _ n hn))
      (fun k hk => share_le id fun hnoted => ?_) ?_
    · obtain ⟨fd, hfd, hpeer⟩ := noted_eq_true.mp hnoted
      exact noted_eq_true.mpr ⟨fd, List.mem_of_mem_tail hfd, hpeer⟩
    · have hbefore : w.noted n = true := noted_eq_true.mpr ⟨_, EpollState.fd_mem hevents, hn⟩
      refine Nat.le_of_eq (share_read ?_ (Bool.eq_false_iff.mpr fun hnoted => ?_) hbefore)
      · rfl
      obtain ⟨fd, hfd, hpeer⟩ := noted_eq_true.mp hnoted
      have hsame := h.apart _ fd n hn hpeer
      exact (hawake.batch hevents).1 (hsame ▸ hfd)
  | write hbuf => exact Nat.le_refl _

theorem Awake.work_le (hawake : Awake w) (h : Going count messages w.level)
    (hm : EdgeMoves count w m w') :
    w'.work count + (if decide ¬m.Waits then 1 else 0) ≤ w.work count := by
  have hlevel := hm.level_work h
  have hsum := hm.sum_share hawake h.tidy
  have hgain := gain_le w m w'
  simp only [EdgeRoom.work]
  omega

end Work

section Progress
variable {count : Nat} {messages : Nat → List Message} {w : EdgeRoom} {n : Nat}

theorem Awake.handles (hawake : Awake w) (h : Tidy count w.level)
    (hbuf : w.room.server.buf = none) (hevents : w.room.server.events ≠ []) :
    ∃ m w', EdgeMoves count w m w' ∧ ¬m.Waits := by
  rcases hawake.known _ (EpollState.fd_mem hevents) with ⟨hserv, hwaiting⟩ | ⟨n, hn⟩
  · obtain ⟨k, rest, hrest⟩ := List.exists_cons_of_ne_nil hwaiting
    obtain ⟨b, hb⟩ := h.opened
    exact ⟨_, _, .accept hrest (hb (max b (w.room.server.servSock + 1)) (by omega)) (by omega) hbuf
      hevents hserv, id⟩
  · have hserv : w.room.server.fd ≠ w.room.server.servSock := by
      intro heq
      rw [heq] at hn
      exact absurd (hn.symm.trans h.listening) (by simp)
    have hcaller : w.room.caller = some n := hn
    by_cases hup : w.room.up n = []
    · refine ⟨_, _, .again (fun k hk => ?_) hbuf hevents hserv, id⟩
      obtain rfl := Option.some.inj (hcaller.symm.trans hk)
      exact hup
    · obtain ⟨b, bytes, hbytes⟩ := List.exists_cons_of_ne_nil hup
      exact ⟨_, _, .read (List.cons_ne_nil b []) hcaller (hbytes ▸ ⟨bytes, rfl⟩) hbuf hevents hserv
        (by simp [edgeBufSize]), id⟩

theorem Awake.client_moves (hawake : Awake w) (h : Going count messages w.level)
    (hbuf : w.room.server.buf = none) (hevents : w.room.server.events = [])
    (hquiet : ∀ fd, ¬w.Ready fd) (hn : n < count)
    (hnot : (w.room.client n).printed ≠ (messages n).map (·.chars)) :
    ∃ m w', EdgeMoves count w m w' ∧ ¬m.Waits := by
  have hlevel : w.level = w.room := by
    have hempty : w.room.server.events = if w.room.server.buf = none then []
        else [w.room.server.fd] := by rw [if_pos hbuf, hevents]
    simp only [EdgeRoom.level, ← hempty]
  rw [hlevel] at h
  have hready (fd : Int) : ¬w.room.Ready fd := by
    rintro (hserv | ⟨k, hk, hup⟩)
    · exact hquiet fd (.inl hserv)
    · have harmed := (hawake.awake fd k hk hup).resolve_right (by simp [hevents])
      exact hquiet fd (.inr ⟨k, hk, harmed, hup⟩)
  obtain ⟨m, r, hm, hbusy⟩ := h.client_moves hbuf hready hn hnot
  cases hm with
  | connect hk hnew => exact ⟨_, _, .connect (.connect hk hnew), hbusy⟩
  | act hjoined hclient hcan hrun => exact ⟨_, _, .act (.act hjoined hclient hcan hrun), hbusy⟩
  | wait => exact absurd trivial hbusy
  | accept hwaiting hfree hfd hbuf' hevents' => exact absurd hevents hevents'
  | read hne hcaller hbytes hbuf' hevents' => exact absurd hevents hevents'
  | write hbuf' => exact absurd hbuf hbuf'

theorem awake_of_reachable (h : Transitions.Reachable (edge count messages) w) :
    Awake w ∧ Going count messages w.level :=
  ((edge_refines count messages).reachable h).imp_right going_of_reachable

theorem edge_less {w' : EdgeRoom} {m : Move} (h : Transitions.Reachable (edge count messages) w)
    (hm : EdgeMoves count w m w') (hbusy : ¬m.Waits) : w'.work count < w.work count := by
  obtain ⟨hawake, hgoing⟩ := awake_of_reachable h
  have hle := hawake.work_le hgoing hm
  rw [if_pos (decide_eq_true hbusy)] at hle
  omega

theorem edge_progress (h : Transitions.Reachable (edge count messages) w) (hn : n < count)
    (hnot : (w.room.client n).printed ≠ (messages n).map (·.chars)) :
    ∃ ms w', Transitions.Run (edge count messages) w ms w' ∧ w'.work count < w.work count := by
  obtain ⟨hawake, hgoing⟩ := awake_of_reachable h
  by_cases hbuf : w.room.server.buf = none
  · by_cases hevents : w.room.server.events = []
    · by_cases hready : ∃ fd, w.Ready fd
      · obtain ⟨fd, hfd⟩ := hready
        have hwait : EdgeMoves count w (.serve (.wait (some [fd]))) _ :=
          .wait (List.nodup_singleton fd) (by simpa using hfd) hbuf hevents (by simp [epollSize])
            hgoing.tidy.running
        have hreach := h.step (edgeMoves_next hwait)
        obtain ⟨hawake', hgoing'⟩ := awake_of_reachable hreach
        obtain ⟨m, w', hm, hbusy⟩ := hawake'.handles hgoing'.tidy hbuf (List.cons_ne_nil fd [])
        have hle := hawake.work_le hgoing hwait
        have hlt := edge_less hreach hm hbusy
        exact ⟨_, w', .cons (edgeMoves_next hwait) (.single (edgeMoves_next hm)), by omega⟩
      · obtain ⟨m, w', hm, hbusy⟩ := hawake.client_moves hgoing hbuf hevents
          (not_exists.mp hready) hn hnot
        exact ⟨_, w', .single (edgeMoves_next hm), edge_less h hm hbusy⟩
    · obtain ⟨m, w', hm, hbusy⟩ := hawake.handles hgoing.tidy hbuf hevents
      exact ⟨_, w', .single (edgeMoves_next hm), edge_less h hm hbusy⟩
  · have hm : EdgeMoves count w _ _ := .write hbuf
    exact ⟨_, _, .single (edgeMoves_next hm), edge_less h hm id⟩

end Progress

/-- Every client prints, line by line, what was typed into it, and between its rounds nothing of
it is left anywhere; no store is outside its buffer; no two descriptors are one client's. Unread
bytes are still to be reported, or their descriptor is being handled. Only so many moves are left
besides calls of `epoll_wait`, and some of them lead to the end. -/
structure EdgeLaw (count : Nat) (messages : Nat → List Message) (w : EdgeRoom) : Prop where
  printed : ∀ n, (w.room.client n).printed =
    ((messages n).take (w.room.client n).printed.length).map (·.chars)
  nothingLeft : ∀ n, (w.room.client n).phase = .input →
    w.room.up n = [] ∧ w.room.held n = none ∧ w.room.down n = []
  inside : ∀ n (e : EchoClient.Event), e.canOccur (w.room.exch n) →
    ∃ s, handle (w.room.exch n) e = .ok s
  apart : ∀ fd fd' n, w.room.peer fd = some n → w.room.peer fd' = some n → fd = fd'
  awake : ∀ fd n, w.room.peer fd = some n → w.room.up n ≠ [] →
    w.armed n = true ∨ fd ∈ w.room.server.events
  ends : ∃ c, ∀ ms w', Transitions.Run (edge count messages) w ms w' →
    ms.countP (fun m => ¬m.Waits) ≤ c
  completes : ∃ ms w', Transitions.Run (edge count messages) w ms w' ∧
    ∀ n < count, (w'.room.client n).printed = (messages n).map (·.chars)

/-- However the clients, their streams and the reports interleave. -/
theorem edge_room {count : Nat} {messages : Nat → List Message} {w : EdgeRoom}
    (h : Transitions.Reachable (edge count messages) w) : EdgeLaw count messages w := by
  obtain ⟨hawake, hgoing⟩ := awake_of_reachable h
  have hlaw (n : Nat) := (level_exch w n ▸ hgoing.round n).law
  constructor
  case printed => exact fun n => (hlaw n).printed
  case nothingLeft => exact fun n => (hlaw n).nothingLeft
  case inside => exact fun n => (hlaw n).inside
  case apart => exact hgoing.tidy.apart
  case awake => exact hawake.awake
  case ends =>
    refine ⟨w.work count, fun ms w' hrun => ?_⟩
    have hle := hrun.countP_le (I := Transitions.Reachable (edge count messages))
      (m := EdgeRoom.work count) (p := fun m => ¬m.Waits) (fun s m t hs hm => by
        obtain ⟨hawake, hgoing⟩ := awake_of_reachable hs
        exact ⟨hs.step hm, hawake.work_le hgoing (next_edgeMoves hm)⟩) h
    omega
  case completes =>
    refine Transitions.exists_run_of_progress (I := Transitions.Reachable (edge count messages))
      (m := EdgeRoom.work count) (fun s hs hnot => ?_) h
    obtain ⟨n, hn⟩ := not_forall.mp hnot
    obtain ⟨hlt, hprinted⟩ := Classical.not_imp.mp hn
    obtain ⟨ms, s', hrun, hless⟩ := edge_progress hs hlt hprinted
    exact ⟨ms, s', hrun, hrun.reachable hs, hless⟩

def edgeMoves : List Move :=
  [.connect 0, .serve (.wait (some [3])), .serve (.accept (some 5)), .connect 1, .act 0 .input,
    .serve (.wait (some [5, 3])), .serve (.read (.data [104, 105])), .serve (.write 2),
    .act 0 (.recv 2), .serve (.read (.data [10])), .serve (.write 1),
    .serve (.read (.failed true)), .act 1 .input, .serve (.accept (some 6)), .act 0 (.recv 1),
    .act 0 .print, .serve (.wait (some [6])), .serve (.read (.data [104, 105, 10])),
    .serve (.write 3), .serve (.read (.failed true)), .act 1 (.recv 3), .act 1 .print]

theorem edge_room_demo : ∃ w, Transitions.Reachable (edge 2 fun _ => [shortMessage]) w ∧
    (w.room.client 0).printed = [shortMessage.chars] ∧
    (w.room.client 1).printed = [shortMessage.chars] ∧ EdgeLaw 2 (fun _ => [shortMessage]) w := by
  obtain ⟨w, ms, -, hrun, htest⟩ := @Transitions.run_of_runsTo _ _ _
    (edge 2 fun _ => [shortMessage]) id (fun w m => (w.next 2 m).map fun w' => (m, w'))
    (fun w => (w.room.client 0).printed = [shortMessage.chars] ∧
      (w.room.client 1).printed = [shortMessage.chars])
    (fun w m l w' h => by
      obtain ⟨v, hv, heq⟩ := Option.map_eq_some_iff.mp h
      cases heq
      exact ⟨rfl, hv⟩)
    (.start 3 (fun _ => [shortMessage]) fun _ _ => 7) edgeMoves (by decide +kernel)
  have hreach := hrun.reachable (.init ⟨3, _, rfl⟩)
  obtain ⟨hfirst, hsecond⟩ := of_decide_eq_true htest
  exact ⟨w, hreach, hfirst, hsecond, edge_room hreach⟩

end EchoRoom
