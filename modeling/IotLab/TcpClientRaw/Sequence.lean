import IotLab.Library.Fallible
import IotLab.TcpClientRaw.Main

/-!
The sequence numbers of the DATA packets: each is the acknowledgement number of the segment that
the client acted on before it, wherever that came from.
-/

set_option autoImplicit false

namespace TcpClientRaw
open HostMemory InternetChecksum LoadBalancer

def asMem (seg : List Byte) : Mem := fun i => seg.getD i 0

/-- The headers of the segments that the client acted on, as its buffer showed them, and the DATA
packets, in order. The client does not read this. -/
structure Ledger where
  acted : List (List Byte)
  data : List (List Byte)

def Ledger.empty : Ledger := ⟨[], []⟩

def Ledger.look (g : Ledger) (_ : State) (l : Step) (t : State) : Ledger :=
  match l.event with
  | .syn _ => g
  | .recv _ _ => if t.phase = .input then { g with acted := g.acted ++ [load t.buffer 0 40] } else g
  | .input _ _ _ => { g with data := g.data ++ l.sent }

def observed (saddr daddr : SockaddrIn) (isn : BitVec 32) :
    Transitions.System (State × Ledger) Step :=
  (client saddr daddr isn).observe .empty Ledger.look

def payloadLength (packet : List Byte) : Nat := packet.length - 40

def totalLength : List (List Byte) → Nat
  | [] => 0
  | packet :: rest => payloadLength packet + totalLength rest

def nextSeq (isn : BitVec 32) (packets : List (List Byte)) : BitVec 32 :=
  isn + 1 + BitVec.ofNat 32 (totalLength packets)

/-- The client acts on the first segment that its loop condition accepts, with SYN only at first.
Each DATA packet has the acknowledgement number of the segment acted on before it; so the numbers
leave no gap and do not overlap exactly if those segments acknowledge what was outstanding. -/
structure SequenceLaw (saddr daddr : SockaddrIn) (isn : BitVec 32) (s : State) (g : Ledger) :
    Prop where
  accepted : ∀ (k : Nat) (seg : List Byte), g.acted[k]? = some seg →
    accepts saddr (decide (k = 0)) (asMem seg)
  first : ∀ bytes rand l t, bytes ≠ [] → (client saddr daddr isn).step s l t →
    l.event = .recv (some bytes) rand →
    (t.phase = .input ↔ accepts saddr (s.phase = .synAck) (store s.buffer 0 bytes))
  follows : ∀ (k : Nat) (packet : List Byte), g.data[k]? = some packet →
    ∃ seg, g.acted[k]? = some seg ∧ seqAt (asMem packet) = ackAt (asMem seg)
  exactly : (∀ (k : Nat) (packet : List Byte), g.data[k]? = some packet →
      seqAt (asMem packet) = nextSeq isn (g.data.take k)) ↔
    ∀ (k : Nat) (seg : List Byte), k < g.data.length → g.acted[k]? = some seg →
      ackAt (asMem seg) = nextSeq isn (g.data.take k)

abbrev Carries (data acted : List (List Byte)) : Prop :=
  List.Forall₂ (fun packet seg => seqAt (asMem packet) = ackAt (asMem seg)) data acted

inductive Turn (s : State) (g : Ledger) : Prop
  | connecting (hphase : s.phase = .syn ∨ s.phase = .synAck) (hg : g = .empty)
  | input (before : List (List Byte)) (last : List Byte) (hphase : s.phase = .input)
      (hacted : g.acted = before ++ [last]) (hdata : Carries g.data before)
      (hseq : s.seqNum = ackAt (asMem last))
  | ack (hphase : s.phase = .ack) (hacted : g.acted ≠ []) (hdata : Carries g.data g.acted)
  | stopped (before rest : List (List Byte)) (hphase : s.phase = .stopped)
      (hacted : g.acted = before ++ rest) (hdata : Carries g.data before)

section Segments
variable {m : Mem} {saddr daddr : SockaddrIn} {syn : Bool}

theorem asMem_load : AgreeOn (· < 40) (asMem (load m 0 40)) m := by
  intro k hk
  have hk : k < 40 := hk
  simp [asMem, load, hk]

theorem ackAt_load : ackAt (asMem (load m 0 40)) = ackAt m := by
  rw [ackAt, ackAt, asMem_load.read32 (fun _ _ hk => Nat.lt_of_lt_of_le hk (by decide))]

theorem accepts_load : accepts saddr syn (asMem (load m 0 40)) ↔ accepts saddr syn m := by
  rw [accepts, accepts, asMem_load.read32 (fun _ _ hk => Nat.lt_of_lt_of_le hk (by decide)),
    asMem_load.read16 (fun _ _ hk => Nat.lt_of_lt_of_le hk (by decide)), asMem_load 33 (by decide)]

theorem swap32_swap32 (v : BitVec 32) : swap32 (swap32 v) = v := by
  have h0 : (swap32 v).extractLsb' 0 8 = v.extractLsb' 24 8 :=
    BitVec.extractLsb'_append_eq_right
  have h8 : (swap32 v).extractLsb' 8 8 = v.extractLsb' 16 8 := by
    rw [swap32, BitVec.extractLsb'_append_eq_of_le (by decide)]
    exact BitVec.extractLsb'_append_eq_right
  have h16 : (swap32 v).extractLsb' 16 8 = v.extractLsb' 8 8 := by
    rw [swap32, BitVec.extractLsb'_append_eq_of_le (by decide),
      BitVec.extractLsb'_append_eq_of_le (by decide)]
    exact BitVec.extractLsb'_append_eq_right
  have h24 : (swap32 v).extractLsb' 24 8 = v.extractLsb' 0 8 := by
    rw [swap32, BitVec.extractLsb'_append_eq_of_le (by decide),
      BitVec.extractLsb'_append_eq_of_le (by decide)]
    exact BitVec.extractLsb'_append_eq_left
  rw [swap32, h0, h8, h16, h24]
  exact bytes32_append v

theorem asMem_append (head rest : List Byte) (i : Nat) :
    asMem (head ++ rest) (head.length + i) = asMem rest i := by
  rw [asMem, asMem, List.getD_eq_getElem?_getD, List.getElem?_append_right (by omega),
    Nat.add_sub_cancel_left, List.getD_eq_getElem?_getD]

theorem read32_asMem (head rest : List Byte) (v : BitVec 32) :
    read32 (asMem (head ++ (bytes32 v ++ rest))) head.length = v := by
  have h := asMem_append head (bytes32 v ++ rest)
  rw [read32, h 3, h 2, h 1, show head.length = head.length + 0 from rfl, h 0]
  exact bytes32_append v

theorem makeTcpHeader_eq (type : TcpType) (seqNum ackNum : BitVec 32) (data : List Byte) :
    ∃ rest, makeTcpHeader type saddr daddr seqNum ackNum data =
      (bytes16 saddr.port ++ bytes16 daddr.port) ++ (bytes32 (swap32 seqNum) ++ rest) := by
  refine ⟨bytes32 (swap32 ackNum) ++ [0x50, type.flags] ++ bytes16 (swap16 16384) ++
    bytes16 (checksum (tcpChecksumBlock saddr daddr
      (tcpFields type saddr daddr seqNum ackNum) data)) ++ bytes16 0, ?_⟩
  simp only [makeTcpHeader]
  generalize checksum (tcpChecksumBlock saddr daddr _ data) = sum
  rfl

theorem makeIpHeader_length (length : BitVec 16) (rand : Nat) :
    (makeIpHeader saddr daddr length rand).length = 20 :=
  setWord_length (by simp [ipFields]) _

theorem seqAt_makePacket (type : TcpType) (seqNum ackNum : BitVec 32) (data : List Byte)
    (rand : Nat) :
    seqAt (asMem (makePacket type saddr daddr seqNum ackNum data rand)) = seqNum := by
  obtain ⟨rest, hheader⟩ := @makeTcpHeader_eq saddr daddr type seqNum ackNum data
  have hread := read32_asMem (makeIpHeader saddr daddr (BitVec.ofNat 16 (40 + data.length)) rand ++
    (bytes16 saddr.port ++ bytes16 daddr.port)) (rest ++ data) (swap32 seqNum)
  have hports : (bytes16 saddr.port ++ bytes16 daddr.port).length = 4 := rfl
  rw [List.length_append, makeIpHeader_length, hports] at hread
  have hseq := congrArg swap32 hread
  rw [swap32_swap32] at hseq
  rw [seqAt, makePacket, hheader]
  simpa only [List.append_assoc] using hseq

end Segments

section Turns
variable {saddr daddr : SockaddrIn} {isn : BitVec 32} {s t : State} {g : Ledger} {l : Step}

theorem Turn.start (buffer message : Mem) : Turn (.start isn buffer message) .empty :=
  .connecting (.inl rfl) rfl

theorem Turn.of_waiting (h : Turn s g) (hphase : s.phase = .synAck ∨ s.phase = .ack) :
    Carries g.data g.acted ∧ (g.acted = [] ↔ s.phase = .synAck) := by
  cases h with
  | connecting hc hg =>
    subst hg
    rcases hphase with hp | hp
    · exact ⟨.nil, by simp [Ledger.empty, hp]⟩
    · rw [hp] at hc
      simp at hc
  | input _ _ hp | stopped _ _ hp =>
    rw [hp] at hphase
    simp at hphase
  | ack hp hacted hdata => exact ⟨hdata, by simp [hacted, hp]⟩

theorem Turn.of_input (h : Turn s g) (hphase : s.phase = .input) : ∃ before last,
    g.acted = before ++ [last] ∧ Carries g.data before ∧ s.seqNum = ackAt (asMem last) := by
  cases h with
  | input before last _ hacted hdata hseq => exact ⟨before, last, hacted, hdata, hseq⟩
  | connecting hp =>
    rw [hphase] at hp
    simp at hp
  | ack hp | stopped _ _ hp => cases hphase.symm.trans hp

theorem Turn.step (h : Turn s g) (hstep : (client saddr daddr isn).step s l t) :
    Turn t (g.look s l t) := by
  obtain ⟨hcan, hrun⟩ := hstep
  obtain ⟨e, sent⟩ := l
  rcases handle_cases hrun with ⟨rand, rfl, hp⟩ | ⟨received, rand, rfl, -, hp⟩ |
    ⟨bytes, rand, rfl, -, -, ⟨-, hp, hseq⟩ | ⟨-, hp⟩⟩ | ⟨line, stale, rand, rfl, hor⟩
  · cases h with
    | connecting _ hg => exact .connecting (.inr hp) hg
    | input _ _ hphase | ack hphase | stopped _ _ hphase => cases hphase.symm.trans hcan
  · have hlook : g.look s ⟨.recv received rand, sent⟩ t = g := if_neg (by rw [hp]; nofun)
    rw [hlook]
    exact .stopped g.acted [] hp (List.append_nil _).symm (h.of_waiting hcan.1).1
  · have hlook : g.look s ⟨.recv (some bytes) rand, sent⟩ t =
        { g with acted := g.acted ++ [load t.buffer 0 40] } := if_pos hp
    rw [hlook]
    exact .input g.acted _ hp rfl (h.of_waiting hcan.1).1 (hseq.trans ackAt_load.symm)
  · have hlook : g.look s ⟨.recv (some bytes) rand, sent⟩ t = g := by
      refine if_neg ?_
      rw [hp]
      rcases hcan.1 with hw | hw <;> simp [hw]
    rw [hlook]
    obtain ⟨hdata, hempty⟩ := h.of_waiting hcan.1
    rcases hcan.1 with hw | hw
    · have hnone : g.data = [] := List.forall₂_nil_right_iff.mp (hempty.mpr hw ▸ hdata)
      refine .connecting (.inr (hp.trans hw)) ?_
      rw [show g = ⟨g.acted, g.data⟩ from rfl, hempty.mpr hw, hnone]
      rfl
    · exact .ack (hp.trans hw) (fun hnil => by simp [hw] at hempty; exact hempty hnil) hdata
  · obtain ⟨before, last, hacted, hdata, hseq⟩ := h.of_input hcan.1
    rcases hor with ⟨hp, rfl⟩ | ⟨str, hp, rfl⟩
    · exact .stopped before [last] hp hacted (by simpa [Ledger.look] using hdata)
    · refine .ack hp ?_ ?_
      · simp [Ledger.look, hacted]
      · simp only [Ledger.look, hacted]
        exact List.rel_append hdata (.cons ((seqAt_makePacket ..).trans hseq) .nil)

def AllAccepted (saddr : SockaddrIn) (acted : List (List Byte)) : Prop :=
  ∀ (k : Nat) (seg : List Byte), acted[k]? = some seg → accepts saddr (decide (k = 0)) (asMem seg)

theorem AllAccepted.append {acted : List (List Byte)} {m : Mem} (h : AllAccepted saddr acted)
    (hm : accepts saddr (decide (acted = [])) m) :
    AllAccepted saddr (acted ++ [load m 0 40]) := by
  intro k seg hk
  by_cases hlt : k < acted.length
  · rw [List.getElem?_append_left hlt] at hk
    exact h k seg hk
  · rw [List.getElem?_append_right (by omega)] at hk
    obtain ⟨hlast, rfl⟩ := List.getElem?_eq_some_iff.mp hk
    have hk : k = acted.length := by
      rw [List.length_singleton] at hlast
      omega
    have hfirst : decide (k = 0) = decide (acted = []) := by
      rw [hk]
      simp
    rw [hfirst]
    simpa using accepts_load.mpr hm

theorem AllAccepted.step (h : AllAccepted saddr g.acted) (hturn : Turn s g)
    (hstep : (client saddr daddr isn).step s l t) : AllAccepted saddr (g.look s l t).acted := by
  obtain ⟨hcan, hrun⟩ := hstep
  obtain ⟨e, sent⟩ := l
  rcases handle_cases hrun with ⟨rand, rfl, -⟩ | ⟨received, rand, rfl, -, hp⟩ |
    ⟨bytes, rand, rfl, -, -, ⟨hacc, hp, -⟩ | ⟨-, hp⟩⟩ | ⟨line, stale, rand, rfl, -⟩
  · exact h
  · simpa [Ledger.look, hp] using h
  · have hempty := (hturn.of_waiting hcan.1).2
    simp only [Ledger.look, hp, if_true]
    refine h.append ?_
    simpa [hempty] using hacc
  · simp only [Ledger.look, hp]
    rcases hcan.1 with hw | hw
    · simpa [hw] using h
    · simpa [hw] using h
  · exact h

theorem acts_iff {bytes : List Byte} {rand : Nat} (hne : bytes ≠ [])
    (hstep : (client saddr daddr isn).step s l t) (he : l.event = .recv (some bytes) rand) :
    t.phase = .input ↔ accepts saddr (s.phase = .synAck) (store s.buffer 0 bytes) := by
  obtain ⟨hcan, hrun⟩ := hstep
  rw [he] at hcan hrun
  rcases handle_cases hrun with ⟨_, heq, _⟩ | ⟨received, _, heq, hempty, _⟩ |
    ⟨bytes', _, heq, _, hbuffer, hor⟩ | ⟨_, _, _, heq, _⟩
  · cases heq
  · cases heq
    exact absurd hempty hne
  · cases heq
    rw [← hbuffer]
    rcases hor with ⟨hacc, hp, -⟩ | ⟨hacc, hp⟩
    · exact iff_of_true hp hacc
    · refine iff_of_false (fun hinput => ?_) hacc
      rw [hp] at hinput
      rcases hcan.1 with hw | hw <;> cases hw.symm.trans hinput
  · cases heq

theorem Turn.follows (h : Turn s g) (k : Nat) (packet : List Byte)
    (hk : g.data[k]? = some packet) :
    ∃ seg, g.acted[k]? = some seg ∧ seqAt (asMem packet) = ackAt (asMem seg) := by
  obtain ⟨before, rest, hacted, hdata⟩ : ∃ before rest, g.acted = before ++ rest ∧
      Carries g.data before := by
    cases h with
    | connecting _ hg =>
      subst hg
      exact ⟨[], [], rfl, .nil⟩
    | input before last _ hacted hdata => exact ⟨before, [last], hacted, hdata⟩
    | ack _ _ hdata => exact ⟨g.acted, [], (List.append_nil _).symm, hdata⟩
    | stopped before rest _ hacted hdata => exact ⟨before, rest, hacted, hdata⟩
  obtain ⟨hlt, rfl⟩ := List.getElem?_eq_some_iff.mp hk
  have hlen := hdata.length_eq
  refine ⟨before[k], ?_, List.forall₂_iff_get.mp hdata |>.2 k hlt (by omega)⟩
  rw [hacted, List.getElem?_append_left (by omega)]
  exact List.getElem?_eq_getElem (by omega)

theorem Turn.exactly (h : Turn s g) :
    (∀ (k : Nat) (packet : List Byte), g.data[k]? = some packet →
      seqAt (asMem packet) = nextSeq isn (g.data.take k)) ↔
    ∀ (k : Nat) (seg : List Byte), k < g.data.length → g.acted[k]? = some seg →
      ackAt (asMem seg) = nextSeq isn (g.data.take k) := by
  constructor
  · intro hdata k seg hlt hseg
    have hk : g.data[k]? = some g.data[k] := List.getElem?_eq_getElem hlt
    obtain ⟨seg', hseg', hseq⟩ := h.follows k _ hk
    obtain rfl : seg' = seg := Option.some.inj (hseg'.symm.trans hseg)
    rw [← hseq]
    exact hdata k _ hk
  · intro hacted k packet hk
    obtain ⟨seg, hseg, hseq⟩ := h.follows k packet hk
    rw [hseq]
    exact hacted k seg (List.getElem?_eq_some_iff.mp hk).1 hseg

end Turns

/-- Each DATA packet has the acknowledgement number of the segment acted on before it. -/
theorem data_follows_acks {saddr daddr : SockaddrIn} {isn : BitVec 32} {s : State} {g : Ledger}
    (h : Transitions.Reachable (observed saddr daddr isn) (s, g)) :
    SequenceLaw saddr daddr isn s g := by
  have hinv := Transitions.Reachable.invariant
    (I := fun p => Turn p.1 p.2 ∧ AllAccepted saddr p.2.acted) ?_ ?_ h
  · obtain ⟨hturn, haccepted⟩ := hinv
    exact ⟨haccepted, fun bytes rand l t hne hstep he => acts_iff hne hstep he, hturn.follows,
      hturn.exactly⟩
  · rintro ⟨s, g⟩ ⟨⟨buffer, message, rfl⟩, rfl⟩
    exact ⟨.start buffer message, fun k seg hk => by cases hk⟩
  · rintro ⟨s, g⟩ l ⟨t, g'⟩ _ ⟨hturn, haccepted⟩ ⟨hstep, hg⟩
    obtain rfl : g' = g.look s l t := hg
    exact ⟨hturn.step hstep, haccepted.step hturn hstep⟩

instance Event.decidableCanOccur (s : State) (e : Event) : Decidable (e.canOccur s) :=
  match e with
  | .syn _ => inferInstanceAs (Decidable (s.phase = .syn))
  | .recv received _ => inferInstanceAs (Decidable ((s.phase = .synAck ∨ s.phase = .ack) ∧
    ∀ bytes ∈ received, bytes.length ≤ recvSize))
  | .input line _ _ => inferInstanceAs (Decidable (s.phase = .input ∧
    ∀ l ∈ line, l ≠ [] ∧ l.length ≤ msgSize - 1))

def nextStep (saddr daddr : SockaddrIn) (s : State) (e : Event) : Option (Step × State) :=
  if e.canOccur s then
    (handle saddr daddr s e).toOption.map fun r => (⟨e, r.2⟩, r.1)
  else none

theorem nextStep_step {saddr daddr : SockaddrIn} {isn : BitVec 32} (s : State) (e : Event)
    (l : Step) (t : State) (h : nextStep saddr daddr s e = some (l, t)) :
    l.event = e ∧ True ∧ (client saddr daddr isn).step s l t := by
  unfold nextStep at h
  split at h
  · rename_i hcan
    obtain ⟨⟨t', sent⟩, hr, heq⟩ := Option.map_eq_some_iff.mp h
    cases heq
    exact ⟨rfl, trivial, hcan, Fallible.toOption_eq_some.mp hr⟩
  · contradiction

theorem observed_of_runsTo {isn : BitVec 32} {test : State × Ledger → Bool} {events : List Event}
    (h : Transitions.runsTo (Transitions.observeNext (nextStep homeSaddr homeDaddr) Ledger.look)
      test (.start isn (fun _ => 0) (fun _ => 0), .empty) events = true) :
    ∃ p, Transitions.Reachable (observed homeSaddr homeDaddr isn) p ∧ test p = true := by
  obtain ⟨p, ls, -, hrun, htest⟩ := Transitions.run_of_runsTo
    (Transitions.observeNext_step (@nextStep_step homeSaddr homeDaddr isn)) h
  have hreach := hrun.reachable (.init ⟨⟨_, _, rfl⟩, rfl⟩)
  exact ⟨p, hreach.of_restrict, htest⟩

def segmentFrom (host : SockaddrIn) (flags : Byte) (ackNum : BitVec 32) : List Byte :=
  (makePacket .ack host homeSaddr 1000 ackNum [] 0).set 33 flags

/-- Two lines "hi", each after an acknowledgement; the numbers wrap between them. -/
theorem data_follows_acks_demo : ∃ s g, SequenceLaw homeSaddr homeDaddr 0xfffffffe s g ∧
    g.data.map (fun packet => seqAt (asMem packet)) = [0xffffffff, 2] := by
  obtain ⟨⟨s, g⟩, hreach, htest⟩ := @observed_of_runsTo 0xfffffffe
    (fun p => p.2.data.map (fun packet => seqAt (asMem packet)) = [0xffffffff, 2])
    [.syn 0, .recv (some (segmentFrom homeDaddr 0x12 0xffffffff)) 0,
      .input (some [104, 105, 10]) (fun _ => 0) 0,
      .recv (some (segmentFrom homeDaddr 0x10 2)) 0,
      .input (some [104, 105, 10]) (fun _ => 0) 0] (by decide +kernel)
  exact ⟨s, g, data_follows_acks hreach, of_decide_eq_true htest⟩

/-- What the client would keep to if it checked where a segment comes from and what it
acknowledges. -/
structure SequenceDiscipline (daddr : SockaddrIn) (isn : BitVec 32) (g : Ledger) : Prop where
  source : ∀ seg ∈ g.acted,
    read32 (asMem seg) 12 = daddr.addr ∧ read16 (asMem seg) 20 = daddr.port
  outstanding : ∀ (k : Nat) (seg : List Byte), g.acted[k]? = some seg →
    ackAt (asMem seg) = nextSeq isn (g.data.take k)
  numbers : ∀ (k : Nat) (packet : List Byte), g.data[k]? = some packet →
    seqAt (asMem packet) = nextSeq isn (g.data.take k)

def otherHost : SockaddrIn := ⟨afInet, 0x5000, 0x0200a8c0⟩

/-- After the first line an ACK of another host arrives, with an old number: the second line is
sent under the number of the first. -/
theorem old_ack_overlaps : ∃ s g,
    Transitions.Reachable (observed homeSaddr homeDaddr 100) (s, g) ∧
    g.data.map (fun packet => (seqAt (asMem packet), payloadLength packet)) =
      [(101, 3), (101, 3)] ∧ ¬SequenceDiscipline homeDaddr 100 g := by
  obtain ⟨⟨s, g⟩, hreach, htest⟩ := @observed_of_runsTo 100
    (fun p => p.2.data.map (fun packet => (seqAt (asMem packet), payloadLength packet)) =
        [(101, 3), (101, 3)] ∧
      p.2.acted.map (fun seg => read32 (asMem seg) 12) = [homeDaddr.addr, otherHost.addr])
    [.syn 0, .recv (some (segmentFrom homeDaddr 0x12 101)) 0,
      .input (some [104, 105, 10]) (fun _ => 0) 0,
      .recv (some (segmentFrom otherHost 0x10 101)) 0,
      .input (some [104, 105, 10]) (fun _ => 0) 0] (by decide +kernel)
  obtain ⟨hdata, hacted⟩ := of_decide_eq_true htest
  refine ⟨s, g, hreach, hdata, fun h => ?_⟩
  have hmem : otherHost.addr ∈ g.acted.map (fun seg => read32 (asMem seg) 12) := by
    rw [hacted]
    simp
  obtain ⟨seg, hseg, haddr⟩ := List.mem_map.mp hmem
  exact absurd ((h.source seg hseg).1.symm.trans haddr) (by decide)

end TcpClientRaw
