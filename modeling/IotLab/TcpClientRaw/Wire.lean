import IotLab.Library.TcpSegment
import IotLab.TcpClientRaw.Sequence
import Mathlib.Data.List.TakeWhile

set_option autoImplicit false

namespace TcpClientRaw
open HostMemory InternetChecksum LoadBalancer TcpSegment

theorem net16_swap16 (v : BitVec 16) : net16 (swap16 v) = bytes16 v := net16_append _ _

theorem net32_swap32 (v : BitVec 32) : net32 (swap32 v) = bytes32 v := net32_append _ _ _ _

theorem bytes16_swap16 (v : BitVec 16) : bytes16 (swap16 v) = net16 v := by
  rw [bytes16, swap16, append_lowByte, append_highByte]
  rfl

theorem bytes32_swap32 (v : BitVec 32) : bytes32 (swap32 v) = net32 v := by
  rw [← net32_swap32, swap32_swap32]

def endpoint (addr : SockaddrIn) : Endpoint := (swap32 addr.addr, swap16 addr.port)

section Packets
variable {saddr daddr : SockaddrIn} {type : TcpType} {seqNum ackNum : BitVec 32}
  {data : List Byte} {rand : Nat}

theorem makePacket_layout : ∃ ipSum tcpSum ident,
    makePacket type saddr daddr seqNum ackNum data rand =
      [0x45, 0] ++ (net16 (BitVec.ofNat 16 (40 + data.length)) ++ (net16 ident ++ (net16 0x4000 ++
        ([60, 6] ++ (net16 ipSum ++ (net32 (endpoint saddr).1 ++ (net32 (endpoint daddr).1 ++
          (net16 (endpoint saddr).2 ++ (net16 (endpoint daddr).2 ++ (net32 seqNum ++
            (net32 ackNum ++ ([0x50, type.flags] ++ (net16 0x4000 ++ (net16 tcpSum ++
              (net16 0 ++ data))))))))))))))) := by
  refine ⟨swap16 (checksum (ipFields saddr daddr (BitVec.ofNat 16 (40 + data.length)) rand)),
    swap16 (checksum (tcpChecksumBlock saddr daddr (tcpFields type saddr daddr seqNum ackNum) data)),
    BitVec.ofNat 16 (rand % 65535), ?_⟩
  simp only [endpoint, net16_swap16, net32_swap32]
  simp only [← bytes16_swap16, ← bytes32_swap32]
  simp only [makePacket, makeIpHeader, makeTcpHeader]
  generalize checksum (tcpChecksumBlock saddr daddr _ data) = tcpSum
  generalize checksum (ipFields saddr daddr _ rand) = ipSum
  rfl

theorem makePacket_length :
    (makePacket type saddr daddr seqNum ackNum data rand).length = 40 + data.length := by
  obtain ⟨ipSum, tcpSum, ident, hlayout⟩ :=
    @makePacket_layout saddr daddr type seqNum ackNum data rand
  rw [hlayout]
  clear hlayout
  simp only [List.length_append, List.length_cons, List.length_nil, net16_length, net32_length]
  omega

/-- A segment of the client: no options, nothing urgent, a window of 16384 bytes. -/
def segment (saddr daddr : SockaddrIn) (seqNum ackNum : BitVec 32) (type : TcpType)
    (data : List Byte) : Segment where
  source := endpoint saddr
  dest := endpoint daddr
  seq := seqNum
  ack := ackNum
  reserved := 0
  flags := type.flags
  window := 0x4000
  urgent := 0
  options := []
  payload := data

theorem decode_makePacket (hlen : 40 + data.length < 65536) :
    decode (makePacket type saddr daddr seqNum ackNum data rand) =
      some (segment saddr daddr seqNum ackNum type data) := by
  obtain ⟨ipSum, tcpSum, ident, hlayout⟩ :=
    @makePacket_layout saddr daddr type seqNum ackNum data rand
  have hlength := @makePacket_length saddr daddr type seqNum ackNum data rand
  have htotal : (BitVec.ofNat 16 (40 + data.length)).toNat =
      (makePacket type saddr daddr seqNum ackNum data rand).length := by
    rw [hlength, BitVec.toNat_ofNat, Nat.mod_eq_of_lt hlen]
  rw [decode, ← htotal, hlayout]
  generalize htcp : net16 (endpoint saddr).2 ++ _ = carried
  have hip : readIp (BitVec.ofNat 16 (40 + data.length)).toNat
      ([0x45, 0] ++ (net16 (BitVec.ofNat 16 (40 + data.length)) ++ (net16 ident ++ (net16 0x4000 ++
        ([60, 6] ++ (net16 ipSum ++ (net32 (endpoint saddr).1 ++
          (net32 (endpoint daddr).1 ++ carried)))))))) =
      some ((endpoint saddr).1, (endpoint daddr).1, carried) := by
    simp only [readIp, List.cons_append, List.nil_append, read8_cons, read16_net16, read32_net32,
      Option.bind_eq_bind, Option.bind_some]
    exact if_pos ⟨trivial, trivial, by decide, trivial⟩
  rw [hip, ← htcp]
  simp only [readTcp, List.cons_append, List.nil_append, read8_cons, read16_net16, read32_net32,
    Option.bind_eq_bind, Option.bind_some]
  rw [if_pos ⟨by decide, Nat.zero_le _⟩]
  rfl

theorem take_makePacket : (makePacket type saddr daddr seqNum ackNum data rand).take 20 =
    makeIpHeader saddr daddr (BitVec.ofNat 16 (40 + data.length)) rand := by
  rw [makePacket, List.append_assoc, List.take_left' (makeIpHeader_length ..)]

theorem drop_makePacket : (makePacket type saddr daddr seqNum ackNum data rand).drop 20 =
    makeTcpHeader type saddr daddr seqNum ackNum data ++ data := by
  rw [makePacket, List.append_assoc, List.drop_left' (makeIpHeader_length ..)]

theorem tcpBlock_makePacket : tcpBlock (makePacket type saddr daddr seqNum ackNum data rand) =
    setWord (tcpChecksumBlock saddr daddr (tcpFields type saddr daddr seqNum ackNum) data) 28
      (checksum (tcpChecksumBlock saddr daddr (tcpFields type saddr daddr seqNum ackNum) data)) := by
  have haddrs : ((makePacket type saddr daddr seqNum ackNum data rand).drop 12).take 8 =
      bytes32 saddr.addr ++ bytes32 daddr.addr := by
    simp only [makePacket, makeIpHeader]
    generalize checksum (ipFields saddr daddr _ rand) = ipSum
    generalize makeTcpHeader type saddr daddr seqNum ackNum data = header
    rfl
  rw [tcpBlock, haddrs, drop_makePacket, makePacket_length,
    show 40 + data.length - 20 = 20 + data.length by omega, ← bytes16_swap16, makeTcpHeader]
  generalize checksum (tcpChecksumBlock saddr daddr _ data) = tcpSum
  rfl

theorem intact_makePacket (hlen : 40 + data.length < 65536) :
    Intact (makePacket type saddr daddr seqNum ackNum data rand) ↔
      FoldsOnce (ipFields saddr daddr (BitVec.ofNat 16 (40 + data.length)) rand) ∧
        FoldsOnce (tcpChecksumBlock saddr daddr (tcpFields type saddr daddr seqNum ackNum)
          data) := by
  have hip : setWord (ipFields saddr daddr (BitVec.ofNat 16 (40 + data.length)) rand) 10 0 =
      ipFields saddr daddr (BitVec.ofNat 16 (40 + data.length)) rand := rfl
  have htcp : setWord (tcpChecksumBlock saddr daddr (tcpFields type saddr daddr seqNum ackNum)
      data) 28 0 =
        tcpChecksumBlock saddr daddr (tcpFields type saddr daddr seqNum ackNum) data := rfl
  have hblock : (tcpChecksumBlock saddr daddr (tcpFields type saddr daddr seqNum ackNum)
      data).length = 32 + data.length := by
    simp only [tcpChecksumBlock, makePseudoHeader, LoadBalancer.makePseudoHeader, tcpFields,
      List.length_append, List.length_cons, List.length_nil, bytes16_length, bytes32_length]
  have hfits : 12 + 65535 = maxChecksumLength := rfl
  rw [Intact, take_makePacket, makeIpHeader, tcpBlock_makePacket]
  refine and_congr ?_ ?_
  · have hverifies := @verifies_filled
      (ipFields saddr daddr (BitVec.ofNat 16 (40 + data.length)) rand) 10 rfl (by simp [ipFields])
      (by simp [ipFields, maxChecksumLength])
    rwa [hip] at hverifies
  · have hverifies := @verifies_filled
      (tcpChecksumBlock saddr daddr (tcpFields type saddr daddr seqNum ackNum) data) 28 rfl
      (by omega) (by omega)
    rwa [htcp] at hverifies

end Packets

inductive Sends (saddr daddr : SockaddrIn) (s : State) : Event → State → List (List Byte) → Prop
  | syn (rand : Nat) : Sends saddr daddr s (.syn rand) { s with phase := .synAck }
      [makePacket .syn saddr daddr s.seqNum s.ackNum [] rand]
  | closed (received : Option (List Byte)) (rand : Nat) :
      Sends saddr daddr s (.recv received rand) { s with phase := .stopped } []
  | ignored (bytes : List Byte) (rand : Nat) : Sends saddr daddr s (.recv (some bytes) rand)
      { s with buffer := store s.buffer 0 bytes } []
  | connected (bytes : List Byte) (rand : Nat) (hphase : s.phase = .synAck) :
      Sends saddr daddr s (.recv (some bytes) rand)
        { s with
          buffer := store s.buffer 0 bytes
          seqNum := ackAt (store s.buffer 0 bytes)
          ackNum := seqAt (store s.buffer 0 bytes) + 1
          phase := .input }
        [makePacket .ack saddr daddr (ackAt (store s.buffer 0 bytes))
          (seqAt (store s.buffer 0 bytes) + 1) [] rand]
  | acked (bytes : List Byte) (rand : Nat) (hphase : s.phase ≠ .synAck) :
      Sends saddr daddr s (.recv (some bytes) rand)
        { s with
          buffer := store s.buffer 0 bytes
          seqNum := ackAt (store s.buffer 0 bytes)
          phase := .input } []
  | quit (line : Option (List Byte)) (stale message : Mem) (rand : Nat) :
      Sends saddr daddr s (.input line stale rand)
        { s with message := message, phase := .stopped } []
  | said (line : Option (List Byte)) (stale : Mem) (rand : Nat) (str : List Byte)
      (hstr : strAt (line.elim s.message fun l => store s.message 0 (l ++ [0])) = .ok str) :
      Sends saddr daddr s (.input line stale rand)
        { s with
          message := line.elim s.message fun l => store s.message 0 (l ++ [0])
          buffer := stale
          phase := .ack }
        [makePacket .data saddr daddr s.seqNum s.ackNum str rand]

theorem handle_sends {saddr daddr : SockaddrIn} {s t : State} {e : Event}
    {sent : List (List Byte)} (h : handle saddr daddr s e = .ok (t, sent)) :
    Sends saddr daddr s e t sent := by
  cases e with
  | syn rand =>
    cases h
    exact .syn rand
  | recv received rand =>
    rcases received with _ | _ | ⟨b, bytes⟩
    · cases h
      exact .closed none rand
    · cases h
      exact .closed (some []) rand
    · simp only [handle] at h
      split at h
      · unfold act at h
        split at h
        · rename_i hphase
          cases h
          exact .connected (b :: bytes) rand hphase
        · rename_i hphase
          cases h
          exact .acked (b :: bytes) rand hphase
      · cases h
        exact .ignored (b :: bytes) rand
  | input line stale rand =>
    obtain ⟨str, hstr, hrun⟩ := Fallible.bind_eq_ok.mp h
    split at hrun
    · cases hrun
      exact .quit line stale _ rand
    · cases hrun
      exact .said line stale rand str hstr

/-- The packets sent, the sequence number of the SYN-ACK that the client acted on, the
acknowledgement number of every segment that it acted on, and for every round of input that sent
something what `fgets` gave, `none` at the end of the input, and the text that was sent. The client
does not read this. -/
structure Talk where
  packets : List (List Byte)
  peerSeq : BitVec 32
  acks : List (BitVec 32)
  typed : List (Option (List Byte))
  lines : List (List Byte)

def Talk.empty : Talk := ⟨[], 0, [], [], []⟩

def textAt (message : Mem) : List Byte := (cString (load message 0 msgSize)).getD []

/-- What a round sends: the line typed, up to its first 0 byte; at the end of the input the last
text again, or at first what the array happens to hold. -/
def Talk.text (g : Talk) (s : State) (line : Option (List Byte)) : List Byte :=
  line.elim (g.lines.getLast?.getD (textAt s.message)) fun l => l.takeWhile (· ≠ 0)

def Talk.look (g : Talk) (s : State) (l : Step) (t : State) : Talk where
  packets := g.packets ++ l.sent
  peerSeq := if s.phase = .synAck ∧ t.phase = .input then seqAt t.buffer else g.peerSeq
  acks :=
    if s.phase ≠ .input ∧ t.phase = .input then g.acks ++ [ackAt t.buffer] else g.acks
  typed := match l.event with
    | .input line _ _ => if t.phase = .ack then g.typed ++ [line] else g.typed
    | .syn _ | .recv _ _ => g.typed
  lines := match l.event with
    | .input line _ _ => if t.phase = .ack then g.lines ++ [g.text s line] else g.lines
    | .syn _ | .recv _ _ => g.lines

/-- The texts that are sent for what was typed: a line up to its first 0 byte, and at the end of the
input the text before it again. -/
inductive Texts : List (Option (List Byte)) → List (List Byte) → Prop where
  | nil : Texts [] []
  | line {typed : List (Option (List Byte))} {lines : List (List Byte)} (l : List Byte)
      (h : Texts typed lines) : Texts (typed ++ [some l]) (lines ++ [l.takeWhile (· ≠ 0)])
  | again {typed : List (Option (List Byte))} {lines : List (List Byte)} {text : List Byte}
      (h : Texts typed lines) (hlast : ∀ last ∈ lines.getLast?, text = last) :
      Texts (typed ++ [none]) (lines ++ [text])

/-- The conversation on the wire: a SYN; when a SYN-ACK has come, its ACK, under the number that
was acknowledged, and one DATA segment for each text, each under the number acknowledged last. -/
def conversation (saddr daddr : SockaddrIn) (isn : BitVec 32) (g : Talk) : List Segment :=
  segment saddr daddr isn 0 .syn [] ::
    (g.acks.take 1).map (fun a => segment saddr daddr a (g.peerSeq + 1) .ack []) ++
    List.zipWith (fun a text => segment saddr daddr a (g.peerSeq + 1) .data text) g.acks g.lines

/-- The law of the wire: a receiver reads the conversation and nothing else, and takes a packet for
intact exactly if the two sums of its checksums fold without a carry. No text lacks a number. -/
structure WireLaw (saddr daddr : SockaddrIn) (isn : BitVec 32) (s : State) (g : Talk) : Prop where
  texts : Texts g.typed g.lines
  conversation : s.phase ≠ .syn →
    g.packets.map decode = (conversation saddr daddr isn g).map some
  intact : ∀ p ∈ g.packets, Intact p ↔
    FoldsOnce (setWord (p.take 20) 10 0) ∧ FoldsOnce (setWord (tcpBlock p) 28 0)
  numbered : g.lines.length ≤ g.acks.length

structure Wired (saddr daddr : SockaddrIn) (isn : BitVec 32) (s : State) (g : Talk) : Prop
    extends WireLaw saddr daddr isn s g where
  idle : s.phase = .syn → g.packets = [] ∧ s.seqNum = isn ∧ s.ackNum = 0
  connecting : s.phase = .syn ∨ s.phase = .synAck → g.acks = [] ∧ g.typed = [] ∧ g.lines = []
  input : s.phase = .input → s.ackNum = g.peerSeq + 1 ∧
    ∃ before, g.acks = before ++ [s.seqNum] ∧ before.length = g.lines.length
  waiting : s.phase = .ack → s.ackNum = g.peerSeq + 1 ∧ g.acks ≠ [] ∧
    g.acks.length = g.lines.length
  last : s.phase ≠ .stopped → ∀ text ∈ g.lines.getLast?, textAt s.message = text

section Texts
variable {m : Mem} {l str : List Byte}

theorem cString_takeWhile (l rest : List Byte) :
    cString (l ++ 0 :: rest) = some (l.takeWhile (· ≠ 0)) := by
  induction l with
  | nil => rfl
  | cons b l ih =>
    by_cases hb : b = 0
    · simp [cString, hb]
    · rw [List.cons_append, cString, if_neg hb, ih, List.takeWhile_cons_of_pos (by simpa using hb)]
      rfl

theorem textAt_store (h : l.length ≤ msgSize - 1) :
    textAt (store m 0 (l ++ [0])) = l.takeWhile (· ≠ 0) := by
  obtain ⟨k, hk⟩ : ∃ k, msgSize = (l ++ [0]).length + k := by
    refine Nat.exists_eq_add_of_le ?_
    have : msgSize = 1024 := rfl
    rw [List.length_append, List.length_singleton]
    omega
  have hload := load_prefix m 0 (l ++ [0]) [] k
  rw [List.append_nil, ← hk] at hload
  rw [textAt, hload, List.append_assoc, List.singleton_append, cString_takeWhile]
  rfl

theorem textAt_eq (h : strAt m = .ok str) : textAt m = str ∧ 40 + str.length < 65536 := by
  rw [strAt] at h
  cases hstr : cString (load m 0 msgSize) with
  | none =>
    rw [hstr] at h
    cases h
  | some str' =>
    rw [hstr] at h
    obtain rfl : str' = str := Except.ok.inj h
    refine ⟨by rw [textAt, hstr, Option.getD_some], ?_⟩
    obtain ⟨_, rest, hrest⟩ := cString_eq_some.mp hstr
    have hlen := congrArg List.length hrest
    rw [load_length, List.length_append, List.length_cons] at hlen
    have : msgSize = 1024 := rfl
    omega

end Texts

theorem Texts.plain {typed : List (Option (List Byte))} {lines : List (List Byte)}
    (h : Texts typed lines) (hplain : ∀ t ∈ typed, ∃ l, t = some l ∧ 0 ∉ l) :
    typed = lines.map some := by
  induction h with
  | nil => rfl
  | line l _ ih =>
    obtain ⟨_, ⟨⟩, hnul⟩ := hplain (some l) (by simp)
    have hall : l.takeWhile (· ≠ 0) = l :=
      List.takeWhile_eq_self_iff.mpr fun b hb => decide_eq_true fun hzero => hnul (hzero ▸ hb)
    rw [ih fun t ht => hplain t (by simp [ht]), hall, List.map_append, List.map_singleton]
  | again _ _ _ =>
    obtain ⟨_, hl, -⟩ := hplain none (by simp)
    contradiction

section Conversation
variable {saddr daddr : SockaddrIn} {isn a : BitVec 32} {g : Talk} {packets : List (List Byte)}
  {before : List (BitVec 32)} {typed : List (Option (List Byte))} {text : List Byte}

theorem conversation_acked (hne : g.acks ≠ []) (hlen : g.acks.length = g.lines.length) :
    conversation saddr daddr isn { g with packets := packets, acks := g.acks ++ [a] } =
      conversation saddr daddr isn g := by
  have hpos := List.length_pos_of_ne_nil hne
  have hzip {f : BitVec 32 → List Byte → Segment} :
      List.zipWith f (g.acks ++ [a]) g.lines = List.zipWith f g.acks g.lines := by
    have happend := @List.zipWith_append _ _ _ f g.acks [a] g.lines [] hlen
    simpa using happend
  simp only [conversation, hzip]
  rw [List.take_append_of_le_length (by omega)]

theorem conversation_said (hacks : g.acks = before ++ [a])
    (hlen : before.length = g.lines.length) :
    conversation saddr daddr isn
        { g with packets := packets, typed := typed, lines := g.lines ++ [text] } =
      conversation saddr daddr isn g ++
        [segment saddr daddr a (g.peerSeq + 1) .data text] := by
  have hzip {f : BitVec 32 → List Byte → Segment} :
      List.zipWith f (before ++ [a]) g.lines = List.zipWith f before g.lines := by
    have happend := @List.zipWith_append _ _ _ f before [a] g.lines [] hlen
    simpa using happend
  simp only [conversation, hacks, hzip]
  rw [List.zipWith_append hlen]
  simp

end Conversation

section Run
variable {saddr daddr : SockaddrIn} {isn : BitVec 32} {s t : State} {g : Talk} {l : Step}

theorem intact_iff (type : TcpType) (seqNum ackNum : BitVec 32) {data : List Byte} (rand : Nat)
    (hlen : 40 + data.length < 65536) :
    ∀ p ∈ [makePacket type saddr daddr seqNum ackNum data rand], Intact p ↔
      FoldsOnce (setWord (p.take 20) 10 0) ∧ FoldsOnce (setWord (tcpBlock p) 28 0) := by
  intro p hp
  rw [List.mem_singleton.mp hp, intact_makePacket hlen, take_makePacket, tcpBlock_makePacket,
    makeIpHeader]
  generalize checksum (tcpChecksumBlock saddr daddr _ data) = tcpSum
  generalize checksum (ipFields saddr daddr _ rand) = ipSum
  rfl

theorem Wired.start (buffer message : Mem) :
    Wired saddr daddr isn (.start isn buffer message) .empty := by
  constructor
  case toWireLaw =>
    exact ⟨.nil, fun h => absurd rfl h, fun p hp => absurd hp List.not_mem_nil, Nat.le_refl _⟩
  case idle => exact fun _ => ⟨rfl, rfl, rfl⟩
  case connecting => exact fun _ => ⟨rfl, rfl, rfl⟩
  case input => exact fun h => nomatch h
  case waiting => exact fun h => nomatch h
  case last => exact fun _ _ h => nomatch h

theorem Wired.text_eq {line : Option (List Byte)} {str : List Byte}
    (h : Wired saddr daddr isn s g) (hphase : s.phase ≠ .stopped)
    (hline : ∀ l ∈ line, l ≠ [] ∧ l.length ≤ msgSize - 1)
    (hstr : strAt (line.elim s.message fun l => store s.message 0 (l ++ [0])) = .ok str) :
    g.text s line = str := by
  rw [← (textAt_eq hstr).1]
  cases line with
  | some l => exact (textAt_store (hline l rfl).2).symm
  | none =>
    simp only [Talk.text, Option.elim]
    cases hlast : g.lines.getLast? with
    | none => exact Option.getD_none
    | some text => exact (h.last hphase text hlast).symm

theorem Texts.said (h : Texts g.typed g.lines) (s : State) (line : Option (List Byte)) :
    Texts (g.typed ++ [line]) (g.lines ++ [g.text s line]) := by
  cases line with
  | some l => exact .line l h
  | none =>
    refine .again h fun last hlast => ?_
    rw [Talk.text, Option.elim_none, Option.mem_def.mp hlast, Option.getD_some]

theorem Wired.syn (h : Wired saddr daddr isn s g) (hphase : s.phase = .syn) (rand : Nat) :
    Wired saddr daddr isn { s with phase := .synAck } { g with
      packets := g.packets ++ [makePacket .syn saddr daddr s.seqNum s.ackNum [] rand] } := by
  obtain ⟨hpackets, hseq, hack⟩ := h.idle hphase
  obtain ⟨hacks, htyped, hlines⟩ := h.connecting (.inl hphase)
  rw [hpackets, List.nil_append]
  refine ⟨⟨h.texts, fun _ => ?_, intact_iff _ _ _ _ (by decide), h.numbered⟩, nofun,
    fun _ => ⟨hacks, htyped, hlines⟩, nofun, nofun, fun _ => ?_⟩
  · simp [conversation, decode_makePacket, hseq, hack, hacks, hlines]
  · simp [hlines]

theorem Wired.stopped {message : Mem} (h : Wired saddr daddr isn s g) (hphase : s.phase ≠ .syn) :
    Wired saddr daddr isn { s with message := message, phase := .stopped } g := by
  refine ⟨⟨h.texts, fun _ => h.conversation hphase, h.intact, h.numbered⟩, nofun, fun hp => ?_,
    nofun, nofun, fun hp => absurd rfl hp⟩
  rcases hp with hp | hp <;> cases hp

theorem Wired.connected (h : Wired saddr daddr isn s g) (hphase : s.phase = .synAck) (m : Mem)
    (rand : Nat) :
    Wired saddr daddr isn
      { s with buffer := m, seqNum := ackAt m, ackNum := seqAt m + 1, phase := .input }
      { g with
        packets := g.packets ++ [makePacket .ack saddr daddr (ackAt m) (seqAt m + 1) [] rand]
        peerSeq := seqAt m
        acks := g.acks ++ [ackAt m] } := by
  obtain ⟨hacks, htyped, hlines⟩ := h.connecting (.inr hphase)
  have hconv := h.conversation (by rw [hphase]; decide)
  refine ⟨⟨h.texts, fun _ => ?_, fun p hp => ?_, by simp [hlines]⟩, nofun, fun hp => ?_,
    fun _ => ⟨rfl, g.acks, rfl, ?_⟩, nofun, fun _ => ?_⟩
  · rw [List.map_append, hconv]
    simp [conversation, decode_makePacket, hacks, hlines]
  · rcases List.mem_append.mp hp with hp | hp
    · exact h.intact p hp
    · exact intact_iff _ _ _ _ (by decide) p hp
  · rcases hp with hp | hp <;> cases hp
  · simp [hacks, hlines]
  · simp [hlines]

theorem Wired.acked (h : Wired saddr daddr isn s g) (hphase : s.phase = .ack) (m : Mem) :
    Wired saddr daddr isn { s with buffer := m, seqNum := ackAt m, phase := .input }
      { g with acks := g.acks ++ [ackAt m] } := by
  obtain ⟨hack, hne, hlen⟩ := h.waiting hphase
  refine ⟨⟨h.texts, fun _ => ?_, h.intact, by simp [hlen]⟩, nofun, fun hp => ?_,
    fun _ => ⟨hack, g.acks, rfl, hlen⟩, nofun, fun _ => h.last (by rw [hphase]; decide)⟩
  · rw [conversation_acked hne hlen, ← h.conversation (by rw [hphase]; decide)]
  · rcases hp with hp | hp <;> cases hp

theorem Wired.said {line : Option (List Byte)} {message stale : Mem}
    (h : Wired saddr daddr isn s g) (hphase : s.phase = .input)
    (hstr : strAt message = .ok (g.text s line)) (rand : Nat) :
    Wired saddr daddr isn { s with message := message, buffer := stale, phase := .ack }
      { g with
        packets := g.packets ++
          [makePacket .data saddr daddr s.seqNum s.ackNum (g.text s line) rand]
        typed := g.typed ++ [line]
        lines := g.lines ++ [g.text s line] } := by
  obtain ⟨hack, before, hacks, hlen⟩ := h.input hphase
  obtain ⟨htext, hfits⟩ := textAt_eq hstr
  refine ⟨⟨h.texts.said s line, fun _ => ?_, fun p hp => ?_, by simp [hacks, hlen]⟩, nofun,
    fun hp => ?_, nofun, fun _ => ⟨hack, ?_, ?_⟩, fun _ text ht => ?_⟩
  · rw [conversation_said hacks hlen, List.map_append, List.map_append,
      h.conversation (by rw [hphase]; decide)]
    simp [decode_makePacket hfits, hack]
  · rcases List.mem_append.mp hp with hp | hp
    · exact h.intact p hp
    · exact intact_iff _ _ _ _ hfits p hp
  · rcases hp with hp | hp <;> cases hp
  · simp [hacks]
  · simp [hacks, hlen]
  · rw [htext]
    simpa using ht

theorem Wired.step (h : Wired saddr daddr isn s g)
    (hstep : (client saddr daddr isn).step s l t) : Wired saddr daddr isn t (g.look s l t) := by
  obtain ⟨hcan, hrun⟩ := hstep
  obtain ⟨e, sent⟩ := l
  cases handle_sends hrun with
  | syn rand => simpa [Talk.look] using h.syn hcan rand
  | closed received rand =>
    have hphase : s.phase ≠ .syn := by
      rcases hcan.1 with hp | hp <;> rw [hp] <;> decide
    simpa [Talk.look] using @Wired.stopped _ _ _ _ _ s.message h hphase
  | ignored bytes rand =>
    have hlook : g.look s ⟨.recv (some bytes) rand, []⟩
        { s with buffer := store s.buffer 0 bytes } = g := by
      rcases hcan.1 with hp | hp <;> simp [Talk.look, hp]
    rw [hlook]
    exact ⟨⟨h.texts, h.conversation, h.intact, h.numbered⟩, h.idle, h.connecting, h.input,
      h.waiting, h.last⟩
  | connected bytes rand hphase =>
    generalize store s.buffer 0 bytes = m
    simpa [Talk.look, hphase] using h.connected hphase m rand
  | acked bytes rand hphase =>
    have hwait : s.phase = .ack := hcan.1.resolve_left hphase
    generalize store s.buffer 0 bytes = m
    simpa [Talk.look, hwait] using h.acked hwait m
  | quit line stale message rand =>
    simpa [Talk.look] using @Wired.stopped _ _ _ _ _ message h (by rw [hcan.1]; decide)
  | said line stale rand str hstr =>
    obtain rfl := h.text_eq (by rw [hcan.1]; decide) hcan.2 hstr
    generalize line.elim s.message (fun l => store s.message 0 (l ++ [0])) = message at hstr
    simpa [Talk.look, hcan.1] using @Wired.said _ _ _ _ _ _ _ stale h hcan.1 hstr rand

end Run

def talking (saddr daddr : SockaddrIn) (isn : BitVec 32) :
    Transitions.System (State × Talk) Step :=
  (client saddr daddr isn).observe .empty Talk.look

/-- In every run, whatever segments are delivered and whatever is typed, the packets are the
conversation; and while the input lasts and has no 0 byte, its texts are the lines typed. -/
theorem wire_conversation {saddr daddr : SockaddrIn} {isn : BitVec 32} {s : State} {g : Talk}
    (h : Transitions.Reachable (talking saddr daddr isn) (s, g)) :
    WireLaw saddr daddr isn s g ∧
      ((∀ t ∈ g.typed, ∃ l, t = some l ∧ 0 ∉ l) → g.typed = g.lines.map some) := by
  have hwired := Transitions.Reachable.invariant (I := fun p => Wired saddr daddr isn p.1 p.2) ?_
    ?_ h
  · exact ⟨hwired.toWireLaw, hwired.texts.plain⟩
  · rintro ⟨s, g⟩ ⟨⟨buffer, message, rfl⟩, rfl⟩
    exact .start buffer message
  · rintro p l q _ hp ⟨hstep, hq⟩
    rw [hq]
    exact hp.step hstep

def demoTyping : List Event :=
  [.syn 0, .recv (some (segmentFrom homeDaddr 0x12 101)) 0, .input (some [104, 10]) (fun _ => 0) 0,
    .recv (some (segmentFrom otherHost 0x10 7)) 0, .input (some [111, 0, 10]) (fun _ => 0) 0,
    .recv (some (segmentFrom homeDaddr 0x10 9)) 0, .input none (fun _ => 0) 0]

theorem wire_conversation_demo : ∃ s g, Transitions.Reachable (talking homeSaddr homeDaddr 100)
      (s, g) ∧ g.acks = [101, 7, 9] ∧ g.typed = [some [104, 10], some [111, 0, 10], none] ∧
    g.lines = [[104, 10], [111], [111]] ∧ g.packets.length = 5 ∧
    WireLaw homeSaddr homeDaddr 100 s g := by
  obtain ⟨⟨s, g⟩, ls, -, hrun, htest⟩ := @Transitions.run_of_runsTo _ _ _ _ Step.event
    (Transitions.observeNext (nextStep homeSaddr homeDaddr) Talk.look)
    (fun p => p.2.acks = [101, 7, 9] ∧ p.2.typed = [some [104, 10], some [111, 0, 10], none] ∧
      p.2.lines = [[104, 10], [111], [111]] ∧ p.2.packets.length = 5)
    (@Transitions.observeNext_step _ _ _ _ _ _ _ Step.event _ _
      (@nextStep_step homeSaddr homeDaddr 100)) (.start 100 (fun _ => 0) (fun _ => 0), .empty)
    demoTyping (by decide +kernel)
  have hreach : Transitions.Reachable (talking homeSaddr homeDaddr 100) (s, g) :=
    hrun.of_restrict.reachable (.init ⟨⟨_, _, rfl⟩, rfl⟩)
  obtain ⟨hacks, htyped, hlines, hlen⟩ := of_decide_eq_true htest
  exact ⟨s, g, hreach, hacks, htyped, hlines, hlen, (wire_conversation hreach).1⟩

end TcpClientRaw
