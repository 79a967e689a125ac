import IotLab.EchoRoom.Main
import IotLab.Library.Refinement

set_option autoImplicit false

namespace EchoRoom
open HostMemory EchoServers EchoClient

def Room.afterRead (r : Room) (bytes : List Byte) : Room :=
  { r with
    server := { r.server with buf := some (.data bytes) }
    up := fun k => if r.caller = some k then (r.up k).drop bytes.length else r.up k }

def Room.afterWrite (r : Room) : Room :=
  { r with
    server := r.server.next
    down := fun k => if r.caller = some k then r.down k ++ r.server.buf.bytes else r.down k }

inductive Moves (count : Nat) (r : Room) : Move → Room → Prop where
  | connect {n : Nat} (hn : n < count) (hnew : r.joined n = false) :
      Moves count r (.connect n)
        { r with joined := Function.update r.joined n true, waiting := r.waiting ++ [n] }
  | act {n : Nat} {e : EchoClient.Event} {s : EchoClient.State} (hjoined : r.joined n = true)
      (hclient : OfClient e) (hcan : e.canOccur (r.exch n)) (hrun : handle (r.exch n) e = .ok s) :
      Moves count r (.act n e) (r.setExch n s)
  | wait {fds : List Int} (hdistinct : fds.Nodup) (hready : ∀ fd ∈ fds, r.Ready fd)
      (hroom : fds.length ≤ epollSize) (hbuf : r.server.buf = none)
      (hevents : r.server.events = []) (hrunning : r.server.ended = false) :
      Moves count r (.serve (.wait (some fds)))
        { r with server := { r.server with events := fds } }
  | accept {fd : Int} {n : Nat} {rest : List Nat} (hwaiting : r.waiting = n :: rest)
      (hfree : r.peer fd = none) (hfd : fd ≠ r.server.servSock) (hbuf : r.server.buf = none)
      (hevents : r.server.events ≠ []) (hserv : r.server.fd = r.server.servSock) :
      Moves count r (.serve (.accept (some fd)))
        { r with
          server := r.server.next
          waiting := rest
          peer := Function.update r.peer fd (some n) }
  | read {bytes : List Byte} {n : Nat} (hne : bytes ≠ []) (hcaller : r.caller = some n)
      (hbytes : bytes <+: r.up n) (hbuf : r.server.buf = none) (hevents : r.server.events ≠ [])
      (hserv : r.server.fd ≠ r.server.servSock) (hlen : bytes.length ≤ servBufSize) :
      Moves count r (.serve (.read (.data bytes))) (r.afterRead bytes)
  | write (hbuf : r.server.buf ≠ none) :
      Moves count r (.serve (.write r.server.buf.bytes.length)) r.afterWrite

theorem next_moves {count : Nat} {r r' : Room} {m : Move} (h : r.next count m = some r') :
    Moves count r m r' := by
  cases m with
  | connect n =>
    simp only [Room.next] at h
    split at h
    · rename_i hnew
      cases h
      exact .connect hnew.1 hnew.2
    · contradiction
  | act n e =>
    simp only [Room.next] at h
    split at h
    · rename_i hok
      obtain ⟨s, hrun, rfl⟩ := Option.map_eq_some_iff.mp h
      exact .act hok.1 hok.2.1 hok.2.2 (Fallible.toOption_eq_some.mp hrun)
    · contradiction
  | serve e =>
    simp only [Room.next] at h
    split at h
    · rename_i hok
      obtain ⟨hallow, hmakes, htakes⟩ := hok
      cases h
      cases e with
      | wait ready =>
        obtain ⟨fds, rfl⟩ := Option.isSome_iff_exists.mp hallow.1
        obtain ⟨hdistinct, hready⟩ := hallow.2 fds rfl
        exact .wait hdistinct hready (hmakes.2.2.2 fds rfl) hmakes.1 hmakes.2.2.1 hmakes.2.1
      | accept accepted =>
        obtain ⟨fd, rfl⟩ := Option.isSome_iff_exists.mp hallow.1
        obtain ⟨n, rest, hwaiting⟩ := List.exists_cons_of_ne_nil hallow.2.1
        obtain ⟨hfree, hfd⟩ := hallow.2.2 fd rfl
        have hmoves := @Moves.accept count r fd n rest hwaiting hfree hfd hmakes.1 hmakes.2.1
          hmakes.2.2
        simpa [Room.after, epltservStep, hwaiting] using hmoves
      | read result =>
        cases result with
        | failed again => exact hallow.elim
        | data bytes =>
          obtain ⟨hne, n, hcaller, hbytes⟩ := hallow
          obtain ⟨b, bytes, rfl⟩ := List.exists_cons_of_ne_nil hne
          exact .read hne hcaller hbytes hmakes.1 hmakes.2.1 hmakes.2.2.1 hmakes.2.2.2
      | write taken =>
        obtain rfl : taken = r.server.buf.bytes.length := htakes
        have hmoves := @Moves.write count r hmakes.1
        simpa [Room.after, epltservStep, Room.afterWrite] using hmoves
    · contradiction

theorem moves_next {count : Nat} {r r' : Room} {m : Move} (h : Moves count r m r') :
    r.next count m = some r' := by
  cases h with
  | connect hn hnew => exact if_pos ⟨hn, hnew⟩
  | act hjoined hclient hcan hrun =>
    rw [Room.next, if_pos ⟨hjoined, hclient, hcan⟩, hrun]
    rfl
  | wait hdistinct hready hroom hbuf hevents hrunning =>
    refine if_pos ⟨⟨rfl, ?_⟩, ⟨hbuf, hrunning, hevents, ?_⟩, trivial⟩
    · rintro _ ⟨⟩
      exact ⟨hdistinct, hready⟩
    · rintro _ ⟨⟩
      exact hroom
  | @accept fd n rest hwaiting hfree hfd hbuf hevents hserv =>
    have hallow : r.Allows (.accept (some fd)) := by
      refine ⟨rfl, by simp [hwaiting], ?_⟩
      rintro _ ⟨⟩
      exact ⟨hfree, hfd⟩
    rw [Room.next, if_pos ⟨hallow, ⟨hbuf, hevents, hserv⟩, trivial⟩]
    simp [Room.after, epltservStep, hwaiting]
  | @read bytes n hne hcaller hbytes hbuf hevents hserv hlen =>
    rw [Room.next, if_pos ⟨⟨hne, n, hcaller, hbytes⟩, ⟨hbuf, hevents, hserv, hlen⟩, trivial⟩]
    obtain ⟨b, bytes, rfl⟩ := List.exists_cons_of_ne_nil hne
    rfl
  | write hbuf =>
    rw [Room.next, if_pos ⟨trivial, ⟨hbuf, le_refl _⟩, rfl⟩]
    simp [Room.after, epltservStep, Room.afterWrite]

def Room.due (r : Room) : List Int :=
  if r.server.buf = none then r.server.events else r.server.events.tail

/-- Who is where: no two descriptors are one client's, every client that has connected waits or
has a descriptor, and what the server has still to handle is ready. -/
structure Tidy (count : Nat) (r : Room) : Prop where
  running : r.server.ended = false
  listening : r.peer r.server.servSock = none
  apart : ∀ fd fd' n, r.peer fd = some n → r.peer fd' = some n → fd = fd'
  queue : r.waiting.Nodup
  queued : ∀ n ∈ r.waiting, r.joined n = true ∧ ∀ fd, r.peer fd ≠ some n
  counted : ∀ n, r.joined n = true → n < count
  attached : ∀ n, r.joined n = true → n ∈ r.waiting ∨ ∃ fd, r.peer fd = some n
  connected : ∀ fd n, r.peer fd = some n → r.joined n = true
  opened : ∃ b, ∀ fd, b ≤ fd → r.peer fd = none
  holding : ∀ result ∈ r.server.buf, (∃ n, r.caller = some n) ∧ Buf.bytes (some result) ≠ []
  distinct : r.server.events.Nodup
  pending : ∀ fd ∈ r.due, r.Ready fd

section Exchanges
variable {count : Nat} {r r' : Room} {m : Move} {n k : Nat} {s : EchoClient.State}
  {e : EchoClient.Event}

theorem exch_setExch_self (h : s.buf = r.held n) : (r.setExch n s).exch n = s := by
  obtain ⟨typed, client, toServer, buf, toClient⟩ := s
  obtain rfl : buf = r.held n := h
  simp only [Room.exch, Room.setExch, Function.update_self]
  rfl

theorem exch_setExch_of_ne (h : k ≠ n) : (r.setExch n s).exch k = r.exch k := by
  simp only [Room.exch, Room.setExch, Function.update_of_ne h]
  rfl

theorem held_none (h : r.server.buf = none) : r.held n = none := by
  simp [Room.held, h]

theorem held_afterRead (bytes : List Byte) :
    (r.afterRead bytes).held n = if r.caller = some n then some bytes else none := rfl

theorem held_afterWrite : r.afterWrite.held n = none := held_none rfl

theorem handle_client {s' : EchoClient.State} (hclient : OfClient e) (h : handle s e = .ok s') :
    s'.buf = s.buf ∧ s.toServer <+: s'.toServer := by
  cases e with
  | input =>
    simp only [handle] at h
    split at h
    · obtain ⟨⟨client, sent⟩, -, hs⟩ := Fallible.bind_eq_ok.mp h
      cases hs
      exact ⟨rfl, List.prefix_append _ _⟩
    · cases h
      exact ⟨rfl, List.prefix_rfl⟩
  | serverRead => exact hclient.elim
  | serverWrite => exact hclient.elim
  | recv =>
    obtain ⟨client, -, hs⟩ := Fallible.bind_eq_ok.mp h
    cases hs
    exact ⟨rfl, List.prefix_rfl⟩
  | print =>
    obtain ⟨client, -, hs⟩ := Fallible.bind_eq_ok.mp h
    cases hs
    exact ⟨rfl, List.prefix_rfl⟩

theorem Room.Ready.mono {fd : Int} (h : r.Ready fd) (hserv : r'.server.servSock = r.server.servSock)
    (hwaiting : r.waiting ≠ [] → r'.waiting ≠ []) (hpeer : r'.peer = r.peer)
    (hup : ∀ n, r.up n ≠ [] → r'.up n ≠ []) : r'.Ready fd := by
  rcases h with ⟨hfd, hne⟩ | ⟨n, hn, hne⟩
  · exact .inl ⟨hserv ▸ hfd, hwaiting hne⟩
  · exact .inr ⟨n, hpeer ▸ hn, hup n hne⟩

theorem Tidy.fd_not_mem (h : Tidy count r) : r.server.fd ∉ r.server.events.tail := by
  have hdistinct := h.distinct
  cases hevents : r.server.events with
  | nil => simp
  | cons fd fds =>
    rw [hevents] at hdistinct
    simpa [EpollState.fd, hevents] using (List.nodup_cons.mp hdistinct).1

end Exchanges

section Steps
variable {count : Nat} {r r' : Room} {m : Move} {n k : Nat}

theorem Tidy.start (servSock : Int) (messages : Nat → List Message) (message : Nat → Mem) :
    Tidy count (.start servSock messages message) where
  running := rfl
  listening := rfl
  apart := by simp [Room.start]
  queue := List.nodup_nil
  queued := by simp [Room.start]
  counted := by simp [Room.start]
  attached := by simp [Room.start]
  connected := by simp [Room.start]
  opened := ⟨0, fun _ _ => rfl⟩
  holding := by simp [Room.start, EpollState.start]
  distinct := List.nodup_nil
  pending := by simp [Room.due, Room.start, EpollState.start]

theorem Tidy.connect (h : Tidy count r) (hn : n < count) (hnew : r.joined n = false) :
    Tidy count { r with
      joined := Function.update r.joined n true, waiting := r.waiting ++ [n] } := by
  have hold {k : Nat} (hk : r.joined k = true) : k ≠ n := by
    rintro rfl
    simp [hnew] at hk
  have hkeep {k : Nat} (hk : r.joined k = true) : Function.update r.joined n true k = true := by
    rw [Function.update_of_ne (hold hk)]
    exact hk
  have hcases {k : Nat} (hk : Function.update r.joined n true k = true) :
      k = n ∨ r.joined k = true := by
    by_cases hkn : k = n
    · exact .inl hkn
    · rw [Function.update_of_ne hkn] at hk
      exact .inr hk
  refine { h with
    queue := ?_, queued := ?_, counted := ?_, attached := ?_, connected := ?_, pending := ?_ }
  · refine List.nodup_append.mpr ⟨h.queue, List.nodup_singleton n, fun k hk j hj => ?_⟩
    rw [List.mem_singleton.mp hj]
    exact hold (h.queued k hk).1
  · intro k hk
    rcases List.mem_append.mp hk with hk | hk
    · exact ⟨hkeep (h.queued k hk).1, (h.queued k hk).2⟩
    · obtain rfl := List.mem_singleton.mp hk
      refine ⟨by simp, fun fd hfd => ?_⟩
      exact hold (h.connected fd k hfd) rfl
  · intro k hk
    rcases hcases hk with rfl | hk
    · exact hn
    · exact h.counted k hk
  · intro k hk
    rcases hcases hk with rfl | hk
    · exact .inl (by simp)
    · exact (h.attached k hk).imp (List.mem_append_left _) id
  · exact fun fd k hfd => hkeep (h.connected fd k hfd)
  · exact fun fd hfd => (h.pending fd hfd).mono rfl (by simp) rfl fun _ => id

theorem Tidy.act {e : EchoClient.Event} {s : EchoClient.State} (h : Tidy count r)
    (hclient : OfClient e) (hrun : handle (r.exch n) e = .ok s) : Tidy count (r.setExch n s) := by
  obtain ⟨-, hup⟩ := handle_client hclient hrun
  refine { h with pending := fun fd hfd => (h.pending fd hfd).mono rfl id rfl fun k hk => ?_ }
  by_cases hkn : k = n
  · subst hkn
    have hne : s.toServer ≠ [] := fun hnil => hk (List.prefix_nil.mp (hnil ▸ hup))
    simpa [Room.setExch] using hne
  · simpa [Room.setExch, Function.update_of_ne hkn] using hk

theorem Tidy.wait {fds : List Int} (h : Tidy count r) (hdistinct : fds.Nodup)
    (hready : ∀ fd ∈ fds, r.Ready fd) (hbuf : r.server.buf = none) :
    Tidy count { r with server := { r.server with events := fds } } := by
  refine { h with holding := ?_, distinct := hdistinct, pending := ?_ }
  · simp [hbuf]
  · intro fd hfd
    simp only [Room.due, hbuf, if_true] at hfd
    exact (hready fd hfd).mono rfl id rfl fun _ => id

theorem Tidy.accept {fd : Int} {rest : List Nat} (h : Tidy count r)
    (hwaiting : r.waiting = n :: rest) (hfree : r.peer fd = none)
    (hfd : fd ≠ r.server.servSock) (hbuf : r.server.buf = none)
    (hserv : r.server.fd = r.server.servSock) :
    Tidy count { r with
      server := r.server.next, waiting := rest, peer := Function.update r.peer fd (some n) } := by
  have hqueue := h.queue
  rw [hwaiting, List.nodup_cons] at hqueue
  obtain ⟨hjoined, hunpeered⟩ := h.queued n (by simp [hwaiting])
  have hcases {fd' : Int} {k : Nat} (hk : Function.update r.peer fd (some n) fd' = some k) :
      fd' = fd ∧ k = n ∨ r.peer fd' = some k := by
    by_cases hne : fd' = fd
    · subst hne
      rw [Function.update_self] at hk
      exact .inl ⟨rfl, (Option.some.inj hk).symm⟩
    · rw [Function.update_of_ne hne] at hk
      exact .inr hk
  have hkeep {fd' : Int} {k : Nat} (hk : r.peer fd' = some k) :
      Function.update r.peer fd (some n) fd' = some k := by
    rw [Function.update_of_ne]
    · exact hk
    · rintro rfl
      simp [hfree] at hk
  refine ⟨h.running, ?_, ?_, hqueue.2, ?_, h.counted, ?_, ?_, ?_, ?_, ?_, ?_⟩
  · exact (Function.update_of_ne (Ne.symm hfd) _ _).trans h.listening
  · intro a b k ha hb
    rcases hcases ha with ⟨rfl, rfl⟩ | ha'
    · rcases hcases hb with ⟨rfl, -⟩ | hb'
      · rfl
      · exact absurd hb' (hunpeered b)
    · rcases hcases hb with ⟨rfl, rfl⟩ | hb'
      · exact absurd ha' (hunpeered a)
      · exact h.apart a b k ha' hb'
  · intro k hk
    obtain ⟨hk', hnone⟩ := h.queued k (by simp [hwaiting, hk])
    refine ⟨hk', fun a ha => ?_⟩
    rcases hcases ha with ⟨-, rfl⟩ | ha
    · exact hqueue.1 hk
    · exact hnone a ha
  · intro k hk
    rcases h.attached k hk with hmem | ⟨a, ha⟩
    · rw [hwaiting] at hmem
      rcases List.mem_cons.mp hmem with rfl | hmem
      · exact .inr ⟨fd, Function.update_self ..⟩
      · exact .inl hmem
    · exact .inr ⟨a, hkeep ha⟩
  · intro a k ha
    rcases hcases ha with ⟨-, rfl⟩ | ha
    · exact hjoined
    · exact h.connected a k ha
  · obtain ⟨b, hb⟩ := h.opened
    refine ⟨max b (fd + 1), fun a ha => ?_⟩
    exact (Function.update_of_ne (by omega) _ _).trans (hb a (by omega))
  · simp [EpollState.next]
  · exact h.distinct.sublist (List.tail_sublist _)
  · intro a ha
    have hdue : a ∈ r.server.events.tail := by simpa [Room.due, EpollState.next] using ha
    have hready := h.pending a (by rw [Room.due, if_pos hbuf]; exact List.mem_of_mem_tail hdue)
    rcases hready with ⟨rfl, -⟩ | ⟨k, hk, hne⟩
    · exact absurd (hserv ▸ hdue) h.fd_not_mem
    · exact .inr ⟨k, hkeep hk, hne⟩

theorem Tidy.read {bytes : List Byte} (h : Tidy count r) (hne : bytes ≠ [])
    (hcaller : r.caller = some n) (hbuf : r.server.buf = none) :
    Tidy count (r.afterRead bytes) := by
  refine { h with holding := ?_, pending := ?_ }
  · rintro result hresult
    obtain rfl := Option.some.inj hresult
    exact ⟨⟨n, hcaller⟩, hne⟩
  · intro fd hfd
    have hdue : fd ∈ r.server.events.tail := hfd
    have hready := h.pending fd (by rw [Room.due, if_pos hbuf]; exact List.mem_of_mem_tail hdue)
    rcases hready with hserv | ⟨k, hk, hk'⟩
    · exact .inl hserv
    · have hother : r.caller ≠ some k := by
        intro hcaller'
        rw [h.apart _ _ _ hk hcaller'] at hdue
        exact h.fd_not_mem hdue
      exact .inr ⟨k, hk, by simpa [Room.afterRead, hother] using hk'⟩

theorem Tidy.write (h : Tidy count r) (hbuf : r.server.buf ≠ none) :
    Tidy count r.afterWrite := by
  refine { h with holding := ?_, distinct := ?_, pending := ?_ }
  · simp [Room.afterWrite, EpollState.next]
  · exact h.distinct.sublist (List.tail_sublist _)
  · intro fd hfd
    have hdue : fd ∈ r.server.events.tail := hfd
    exact (h.pending fd (by rw [Room.due, if_neg hbuf]; exact hdue)).mono rfl id rfl fun _ => id

theorem Tidy.step (h : Tidy count r) (hm : Moves count r m r') : Tidy count r' := by
  cases hm with
  | connect hn hnew => exact h.connect hn hnew
  | act hjoined hclient hcan hrun => exact h.act hclient hrun
  | wait hdistinct hready hroom hbuf hevents hrunning => exact h.wait hdistinct hready hbuf
  | accept hwaiting hfree hfd hbuf hevents hserv => exact h.accept hwaiting hfree hfd hbuf hserv
  | read hne hcaller hbytes hbuf hevents hserv hlen => exact h.read hne hcaller hbuf
  | write hbuf => exact h.write hbuf

/-- For each client by itself a move is a step of its exchange, or nothing. -/
theorem Moves.exchange_run {messages : List Message} (hm : Moves count r m r') (n : Nat) :
    Transitions.Run (exchange messages) (r.exch n) (shows n r m r') (r'.exch n) := by
  cases hm with
  | connect => exact .nil _
  | @act k e s hjoined hclient hcan hrun =>
    obtain ⟨hbuf, -⟩ := handle_client hclient hrun
    by_cases hkn : k = n
    · subst hkn
      rw [shows, if_pos rfl, exch_setExch_self hbuf]
      exact .single ⟨hcan, hrun⟩
    · rw [shows, if_neg hkn, exch_setExch_of_ne (Ne.symm hkn)]
      exact .nil _
  | @wait fds hdistinct hready hroom hbuf hevents hrunning =>
    have hexch : { r with server := { r.server with events := fds } }.exch n = r.exch n := by
      simp only [Room.exch, held_none hbuf]
      rw [held_none]
      exact hbuf
    rw [hexch]
    exact .nil _
  | @accept fd k rest hwaiting hfree hfd hbuf hevents hserv =>
    have hexch : { r with
        server := r.server.next
        waiting := rest
        peer := Function.update r.peer fd (some k) }.exch n = r.exch n := by
      simp only [Room.exch, held_none hbuf]
      rw [held_none]
      rfl
    rw [hexch]
    exact .nil _
  | @read bytes k hne hcaller hbytes hbuf hevents hserv hlen =>
    by_cases hcall : r.caller = some n
    · obtain rfl : k = n := Option.some.inj (hcaller.symm.trans hcall)
      have htake : (r.up k).take bytes.length = bytes := (List.prefix_iff_eq_take.mp hbytes).symm
      rw [shows, if_pos hcall]
      refine .single ⟨⟨held_none hbuf, List.length_pos_iff.mpr hne, hlen, hbytes.length_le⟩, ?_⟩
      simp only [handle, Room.exch, htake, held_afterRead, if_pos hcall]
      simp only [Room.afterRead, if_pos hcall]
    · rw [shows, if_neg hcall]
      simp only [Room.exch, held_afterRead, held_none hbuf, if_neg hcall]
      simp only [Room.afterRead, if_neg hcall]
      exact .nil _
  | write hbuf =>
    obtain ⟨result, hresult⟩ := Option.ne_none_iff_exists'.mp hbuf
    by_cases hcall : r.caller = some n
    · have hheld : r.held n = some r.server.buf.bytes := by
        rw [Room.held, if_pos hcall, hresult]
        rfl
      rw [shows, if_pos hcall]
      refine .single ⟨by simp [Room.exch, EchoClient.Event.canOccur, hheld], ?_⟩
      simp only [handle, Room.exch, held_afterWrite, hheld, Option.getD_some]
      simp only [Room.afterWrite, if_pos hcall]
    · have hheld : r.held n = none := by rw [Room.held, if_neg hcall]
      rw [shows, if_neg hcall]
      simp only [Room.exch, held_afterWrite, hheld]
      simp only [Room.afterWrite, if_neg hcall]
      exact .nil _

end Steps

/-- The room refines, for every client, an exchange of one client with its server. -/
theorem room_refines (count : Nat) (messages : Nat → List Message) (n : Nat) :
    Transitions.Refines (system count messages) (exchange (messages n)) (Tidy count) (shows n)
      (Room.exch · n) where
  start := by
    rintro r ⟨servSock, message, rfl⟩
    refine ⟨.start servSock messages message, message n, ?_⟩
    simp [Room.exch, Room.start, Room.held, Room.caller]
  step r m r' h _ hm := ⟨h.step (next_moves hm), (next_moves hm).exchange_run n⟩

end EchoRoom
