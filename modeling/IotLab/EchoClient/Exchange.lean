import IotLab.Library.Fallible
import IotLab.Library.Transitions
import IotLab.EchoClient.Main

set_option autoImplicit false

namespace EchoClient
open HostMemory

def servBufSize : Nat := 40

/-- The lines that are not typed yet, the client, the bytes on their way to the server, what the
server holds between `read` and `write`, and the bytes on their way back. -/
structure State where
  typed : List Message
  client : Client
  toServer : List Byte
  buf : Option (List Byte)
  toClient : List Byte

/-- One round of the client up to its `write`; a `read` and a `write` of the server; a `read` of
the client; the end of its round. -/
inductive Event where
  | input
  | serverRead (n : Nat)
  | serverWrite
  | recv (n : Nat)
  | print
  deriving DecidableEq

def handle (s : State) : Event → Result State
  | .input =>
    match s.typed with
    | m :: rest => do
      let (client, sent) ← s.client.input m.chars
      .ok { s with typed := rest, client := client, toServer := s.toServer ++ sent }
    | [] => .ok s
  | .serverRead n =>
    .ok { s with buf := some (s.toServer.take n), toServer := s.toServer.drop n }
  | .serverWrite => .ok { s with buf := none, toClient := s.toClient ++ s.buf.getD [] }
  | .recv n => do
    let client ← s.client.recv (some (s.toClient.take n))
    .ok { s with client := client, toClient := s.toClient.drop n }
  | .print => do
    let client ← s.client.print
    .ok { s with client := client }

/-- A `read` gives at least one byte, and no more than there are and than it asks for. -/
def Event.canOccur (s : State) : Event → Prop
  | .input => s.client.phase = .input ∧ s.typed ≠ []
  | .serverRead n => s.buf = none ∧ 0 < n ∧ n ≤ servBufSize ∧ n ≤ s.toServer.length
  | .serverWrite => s.buf ≠ none
  | .recv n => s.client.phase = .receiving ∧ s.client.recvLen < s.client.strLen ∧ 0 < n ∧
    n ≤ bufSize - 1 ∧ n ≤ s.toClient.length
  | .print => s.client.phase = .receiving ∧ s.client.strLen ≤ s.client.recvLen

instance Event.decidableCanOccur (s : State) (e : Event) : Decidable (e.canOccur s) := by
  cases e <;> unfold Event.canOccur <;> infer_instance

def exchange (messages : List Message) : Transitions.System State Event where
  init s := ∃ message, s = ⟨messages, .start message, [], none, []⟩
  step s e t := e.canOccur s ∧ handle s e = .ok t

/-- Every round prints the message just sent, and leaves nothing on its way; no store is outside
the buffer; no round gets stuck, and every run ends. -/
structure ExchangeLaw (messages : List Message) (s : State) : Prop where
  printed : s.client.printed = (messages.take s.client.printed.length).map (·.chars)
  typed : s.typed = messages.drop
    (s.client.printed.length + if s.client.phase = .receiving then 1 else 0)
  nothingLeft : s.client.phase = .input → s.toServer = [] ∧ s.buf = none ∧ s.toClient = []
  inside : ∀ e : Event, e.canOccur s → ∃ t, handle s e = .ok t
  notStuck : (∀ e : Event, ¬e.canOccur s) → s.client.printed = messages.map (·.chars)
  ends : ∃ n, ∀ ls t, Transitions.Run (exchange messages) s ls t → ls.length ≤ n

/-- Where a round is: all bytes of the message are received, on their way, or in the server. -/
inductive Round (messages : List Message) (s : State) : Prop
  | idle (hphase : s.client.phase = .input)
      (hlines : ∃ before, messages = before ++ s.typed ∧ s.client.printed = before.map (·.chars))
      (hempty : s.toServer = [] ∧ s.buf = none ∧ s.toClient = [])
  | receiving (m : Message) (hphase : s.client.phase = .receiving)
      (hlines : ∃ before, messages = before ++ m :: s.typed ∧
        s.client.printed = before.map (·.chars))
      (hlen : s.client.strLen = m.chars.length) (hbuf : s.buf ≠ some [])
      (hbytes : load s.client.message 0 s.client.recvLen ++ s.toClient ++ s.buf.getD [] ++
        s.toServer = m.chars)

def typedCost : List Message → Nat
  | [] => 0
  | m :: rest => 4 * m.chars.length + 2 + typedCost rest

def State.cost (s : State) : Nat :=
  typedCost s.typed + (if s.client.phase = .receiving then 1 else 0) + 4 * s.toServer.length +
    s.buf.elim 0 (fun bytes => 2 * bytes.length + 1) + s.toClient.length

section Rounds
variable {messages : List Message} {s t : State} {e : Event}

theorem Round.start (message : Mem) :
    Round messages ⟨messages, .start message, [], none, []⟩ :=
  .idle rfl ⟨[], rfl, rfl⟩ ⟨rfl, rfl, rfl⟩

theorem received_length {m : Message}
    (h : load s.client.message 0 s.client.recvLen ++ s.toClient ++ s.buf.getD [] ++ s.toServer =
      m.chars) :
    s.client.recvLen + s.toClient.length + (s.buf.getD []).length + s.toServer.length =
      m.chars.length := by
  have hlen := congrArg List.length h
  simpa [load_length, Nat.add_assoc] using hlen

theorem Client.recv_eq {c : Client} {bytes : List Byte} (hne : bytes ≠ [])
    (hroom : c.recvLen + bytes.length ≤ bufSize) :
    c.recv (some bytes) = .ok { c with
      message := store c.message c.recvLen bytes, recvLen := c.recvLen + bytes.length } := by
  cases bytes with
  | nil => exact absurd rfl hne
  | cons b bytes => exact if_pos hroom

def Goes (messages : List Message) (s : State) (e : Event) : Prop :=
  ∃ t, handle s e = .ok t ∧ Round messages t ∧ t.cost < s.cost

theorem Round.input (h : Round messages s) (hcan : Event.input.canOccur s) :
    Goes messages s .input := by
  obtain ⟨hinput, htyped⟩ := hcan
  cases h with
  | receiving m hphase => cases hinput.symm.trans hphase
  | idle hphase hlines hempty =>
    obtain ⟨before, hbefore, hprinted⟩ := hlines
    obtain ⟨hserver, hbuf, hclient⟩ := hempty
    obtain ⟨m, rest, hm⟩ := List.exists_cons_of_ne_nil htyped
    obtain ⟨message, hrun⟩ := s.client.input_eq m
    refine ⟨{ s with
      typed := rest
      client := ⟨message, m.chars.length, 0, .receiving, s.client.printed⟩
      toServer := s.toServer ++ m.chars }, ?_, ?_, ?_⟩
    · simp only [handle, hm, hrun, bind, Except.bind]
    · refine .receiving m rfl ⟨before, hm ▸ hbefore, hprinted⟩ rfl ?_ ?_
      · simp [hbuf]
      · simp [hserver, hbuf, hclient, load]
    · simp only [State.cost, hm, typedCost, hphase, hserver, hbuf, hclient]
      simp
      omega

theorem Round.serverRead {n : Nat} (h : Round messages s) (hcan : (Event.serverRead n).canOccur s) :
    Goes messages s (.serverRead n) := by
  obtain ⟨hbuf, hpos, -, hle⟩ := hcan
  cases h with
  | idle _ _ hempty =>
    rw [hempty.1, List.length_nil] at hle
    omega
  | receiving m hphase hlines hlen hnot hbytes =>
    have htake : (s.toServer.take n).length = n := by simp [hle]
    refine ⟨_, rfl, .receiving m hphase hlines hlen (fun heq => ?_) ?_, ?_⟩
    · rw [Option.some.inj heq, List.length_nil] at htake
      omega
    · simpa [hbuf] using hbytes
    · simp only [State.cost, hbuf, List.length_drop, htake, Option.elim]
      omega

theorem Round.serverWrite (h : Round messages s) (hcan : Event.serverWrite.canOccur s) :
    Goes messages s .serverWrite := by
  obtain ⟨bytes, hbuf⟩ := Option.ne_none_iff_exists'.mp hcan
  cases h with
  | idle _ _ hempty => cases hempty.2.1.symm.trans hbuf
  | receiving m hphase hlines hlen hnot hbytes =>
    refine ⟨_, rfl, .receiving m hphase hlines hlen (fun heq => by cases heq) ?_, ?_⟩
    · simpa [hbuf] using hbytes
    · simp only [State.cost, hbuf, List.length_append, Option.elim, Option.getD_some]
      omega

theorem Round.recv {n : Nat} (h : Round messages s) (hcan : (Event.recv n).canOccur s) :
    Goes messages s (.recv n) := by
  obtain ⟨hreceiving, hlt, hpos, -, hle⟩ := hcan
  cases h with
  | idle hphase => cases hphase.symm.trans hreceiving
  | receiving m hphase hlines hlen hnot hbytes =>
    have htotal := received_length hbytes
    have hmax := m.length_le
    have hsize : 0 < bufSize := by decide
    have htake : (s.toClient.take n).length = n := by simp [hle]
    have hrun := @Client.recv_eq s.client (s.toClient.take n)
      (List.ne_nil_of_length_pos (by omega)) (by omega)
    refine ⟨{ s with
      client := { s.client with
        message := store s.client.message s.client.recvLen (s.toClient.take n)
        recvLen := s.client.recvLen + (s.toClient.take n).length }
      toClient := s.toClient.drop n }, ?_, .receiving m hphase hlines hlen hnot ?_, ?_⟩
    · simp only [handle, hrun, bind, Except.bind]
    · have hload := load_store_append s.client.message 0 s.client.recvLen (s.toClient.take n)
      rw [Nat.zero_add] at hload
      simp only [hload]
      rw [List.append_assoc (load s.client.message 0 s.client.recvLen), List.take_append_drop]
      exact hbytes
    · simp only [State.cost, List.length_drop]
      omega

theorem Round.print (h : Round messages s) (hcan : Event.print.canOccur s) :
    Goes messages s .print := by
  obtain ⟨hreceiving, hle⟩ := hcan
  cases h with
  | idle hphase => cases hphase.symm.trans hreceiving
  | receiving m hphase hlines hlen hnot hbytes =>
    obtain ⟨before, hbefore, hprinted⟩ := hlines
    have htotal := received_length hbytes
    -- As many bytes are received as were sent, so none is on its way.
    have hclient : s.toClient = [] := List.length_eq_zero_iff.mp (by omega)
    have hgetD : s.buf.getD [] = [] := List.length_eq_zero_iff.mp (by omega)
    have hserver : s.toServer = [] := List.length_eq_zero_iff.mp (by omega)
    have hbuf : s.buf = none := by
      cases hb : s.buf with
      | none => rfl
      | some bytes =>
        rw [hb, Option.getD_some] at hgetD
        exact absurd (hgetD ▸ hb) hnot
    rw [hclient, hgetD, hserver, List.append_nil, List.append_nil, List.append_nil] at hbytes
    have hrun := Client.print_eq (by omega) hbytes
    refine ⟨{ s with client := ⟨store s.client.message s.client.recvLen [0], s.client.strLen,
      s.client.recvLen, .input, s.client.printed ++ [m.chars]⟩ }, ?_, ?_, ?_⟩
    · simp only [handle, hrun, bind, Except.bind]
    · exact .idle rfl ⟨before ++ [m], by simpa using hbefore, by simp [hprinted]⟩
        ⟨hserver, hbuf, hclient⟩
    · simp only [State.cost, hphase]
      simp

theorem Round.step (h : Round messages s) (hcan : e.canOccur s) : Goes messages s e := by
  cases e with
  | input => exact h.input hcan
  | serverRead n => exact h.serverRead hcan
  | serverWrite => exact h.serverWrite hcan
  | recv n => exact h.recv hcan
  | print => exact h.print hcan

theorem Round.notStuck (h : Round messages s) (hstuck : ∀ e : Event, ¬e.canOccur s) :
    s.client.printed = messages.map (·.chars) := by
  cases h with
  | idle hphase hlines hempty =>
    obtain ⟨before, hbefore, hprinted⟩ := hlines
    have htyped : s.typed = [] := by
      by_contra hne
      exact hstuck .input ⟨hphase, hne⟩
    rw [hprinted, hbefore, htyped, List.append_nil]
  | receiving m hphase hlines hlen hnot hbytes =>
    have htotal := received_length hbytes
    have hbuf : s.buf = none := by
      by_contra hne
      exact hstuck .serverWrite hne
    have hserver : s.toServer.length = 0 := by
      by_contra hne
      exact hstuck (.serverRead 1) ⟨hbuf, Nat.one_pos, by decide, by omega⟩
    have hreading : s.client.recvLen < s.client.strLen := by
      by_contra hge
      exact hstuck .print ⟨hphase, by omega⟩
    rw [hbuf, Option.getD_none, List.length_nil] at htotal
    exact absurd ⟨hphase, hreading, Nat.one_pos, by decide, by omega⟩ (hstuck (.recv 1))

theorem Round.law (h : Round messages s) : ExchangeLaw messages s := by
  have hends : ∃ n, ∀ ls t, Transitions.Run (exchange messages) s ls t → ls.length ≤ n := by
    refine ⟨s.cost, fun ls t hrun => ?_⟩
    have hle := hrun.length_le (I := Round messages) (m := State.cost)
      (fun s e t hs hst => ?_) h
    · omega
    · obtain ⟨t', hrun', ht', hcost⟩ := hs.step hst.1
      obtain rfl : t' = t := Except.ok.inj (hrun'.symm.trans hst.2)
      exact ⟨ht', hcost⟩
  have hinside (e : Event) (hcan : e.canOccur s) : ∃ t, handle s e = .ok t := by
    obtain ⟨t, hrun, -⟩ := h.step hcan
    exact ⟨t, hrun⟩
  have hstuck := h.notStuck
  cases h with
  | idle hphase hlines hempty =>
    obtain ⟨before, hbefore, hprinted⟩ := hlines
    have hlen : s.client.printed.length = before.length := by rw [hprinted, List.length_map]
    refine ⟨?_, ?_, fun _ => hempty, hinside, hstuck, hends⟩
    · rw [hlen, hbefore, List.take_left' rfl, hprinted]
    · rw [hlen, hphase, hbefore]
      simp
  | receiving m hphase hlines hl hnot hbytes =>
    obtain ⟨before, hbefore, hprinted⟩ := hlines
    have hlen : s.client.printed.length = before.length := by rw [hprinted, List.length_map]
    refine ⟨?_, ?_, fun hinput => ?_, hinside, hstuck, hends⟩
    · rw [hlen, hbefore, List.take_left' rfl, hprinted]
    · rw [hlen, hphase, hbefore]
      simp
    · cases hphase.symm.trans hinput

end Rounds

/-- However the two streams are cut, every round ends with the message just sent. -/
theorem rounds_print_messages {messages : List Message} {s : State}
    (h : Transitions.Reachable (exchange messages) s) : ExchangeLaw messages s := by
  refine (h.invariant (I := Round messages) ?_ ?_).law
  · rintro s ⟨message, rfl⟩
    exact .start message
  · rintro s e t _ hs ⟨hcan, hrun⟩
    obtain ⟨t', hrun', ht', -⟩ := hs.step hcan
    obtain rfl : t' = t := Except.ok.inj (hrun'.symm.trans hrun)
    exact ht'

def nextStep (s : State) (e : Event) : Option (Event × State) :=
  if e.canOccur s then (handle s e).toOption.map fun t => (e, t) else none

theorem nextStep_step (messages : List Message) (s : State) (e l : Event) (t : State)
    (h : nextStep s e = some (l, t)) : id l = e ∧ (exchange messages).step s l t := by
  unfold nextStep at h
  split at h
  · rename_i hcan
    obtain ⟨t', hrun, heq⟩ := Option.map_eq_some_iff.mp h
    cases heq
    exact ⟨rfl, hcan, Fallible.toOption_eq_some.mp hrun⟩
  · contradiction

def shortMessage : Message :=
  ⟨[104, 105, 10], by decide, by decide, by decide, by decide⟩

def longMessage : Message :=
  ⟨List.replicate 41 97 ++ [10], by decide, by decide, by decide, by decide⟩

theorem rounds_print_two : ∃ s, ExchangeLaw [shortMessage, longMessage] s ∧
    s.client.printed = [shortMessage.chars, longMessage.chars] := by
  obtain ⟨s, ls, -, hrun, htest⟩ := @Transitions.run_of_runsTo _ _ _ _ _ _
    (fun s => s.client.printed = [shortMessage.chars, longMessage.chars])
    (nextStep_step [shortMessage, longMessage])
    ⟨[shortMessage, longMessage], .start fun _ => 7, [], none, []⟩
    [.input, .serverRead 2, .serverWrite, .recv 1, .serverRead 1, .serverWrite, .recv 2, .print,
      .input, .serverRead 40, .serverWrite, .recv 40, .serverRead 2, .serverWrite, .recv 2, .print]
    (by decide +kernel)
  exact ⟨s, rounds_print_messages (hrun.reachable (.init ⟨_, rfl⟩)), of_decide_eq_true htest⟩

end EchoClient
