import IotLab.Library.InternetChecksum

/-!
TCP segments in IPv4 packets, as a receiver reads them: every field in network byte order, the IP
header without options, the packet no fragment.
-/

set_option autoImplicit false

namespace TcpSegment
open HostMemory InternetChecksum

def net16 (v : BitVec 16) : List Byte := [v.extractLsb' 8 8, v.extractLsb' 0 8]

def net32 (v : BitVec 32) : List Byte :=
  [v.extractLsb' 24 8, v.extractLsb' 16 8, v.extractLsb' 8 8, v.extractLsb' 0 8]

@[simp] theorem net16_length (v : BitVec 16) : (net16 v).length = 2 := rfl

@[simp] theorem net32_length (v : BitVec 32) : (net32 v).length = 4 := rfl

theorem net16_append (a b : Byte) : net16 (a ++ b) = [a, b] := by
  rw [net16, append_lowByte, append_highByte]

theorem net32_append (a b c d : Byte) : net32 (a ++ b ++ c ++ d) = [a, b, c, d] := by
  simp only [net32, List.cons.injEq, and_true]
  refine ⟨?_, ?_, ?_, ?_⟩
  all_goals
    ext i hi
    simp
    grind

def read8 : List Byte → Option (Byte × List Byte)
  | b :: rest => some (b, rest)
  | [] => none

def read16 : List Byte → Option (BitVec 16 × List Byte)
  | a :: b :: rest => some (a ++ b, rest)
  | _ => none

def read32 : List Byte → Option (BitVec 32 × List Byte)
  | a :: b :: c :: d :: rest => some (a ++ b ++ c ++ d, rest)
  | _ => none

@[simp] theorem read8_cons (b : Byte) (rest : List Byte) : read8 (b :: rest) = some (b, rest) := rfl

@[simp] theorem read16_net16 (v : BitVec 16) (rest : List Byte) :
    read16 (net16 v ++ rest) = some (v, rest) := by
  simp only [net16, List.cons_append, List.nil_append, read16]
  exact congrArg (fun w => some (w, rest)) (bytes16_append v)

@[simp] theorem read32_net32 (v : BitVec 32) (rest : List Byte) :
    read32 (net32 v ++ rest) = some (v, rest) := by
  simp only [net32, List.cons_append, List.nil_append, read32]
  exact congrArg (fun w => some (w, rest)) (bytes32_append v)

abbrev Endpoint := BitVec 32 × BitVec 16

/-- A segment with the endpoints that it goes between: all of it but the checksum. -/
structure Segment where
  source : Endpoint
  dest : Endpoint
  seq : BitVec 32
  ack : BitVec 32
  reserved : BitVec 4
  flags : Byte
  window : BitVec 16
  urgent : BitVec 16
  options : List Byte
  payload : List Byte
  deriving DecidableEq

/-- The addresses of an IP packet of `length` bytes and what it carries: version 4 and five words
of header, no fragment, protocol 6. -/
def readIp (length : Nat) (bytes : List Byte) : Option (BitVec 32 × BitVec 32 × List Byte) := do
  let (versionIhl, rest) ← read8 bytes
  let (_, rest) ← read8 rest
  let (totalLength, rest) ← read16 rest
  let (_, rest) ← read16 rest
  let (fragment, rest) ← read16 rest
  let (_, rest) ← read8 rest
  let (protocol, rest) ← read8 rest
  let (_, rest) ← read16 rest
  let (saddr, rest) ← read32 rest
  let (daddr, rest) ← read32 rest
  if versionIhl = 0x45 ∧ totalLength.toNat = length ∧ fragment &&& 0xbfff = 0 ∧ protocol = 6 then
    some (saddr, daddr, rest)
  else none

def optionsLength (offset : BitVec 4) : Nat := 4 * (offset.toNat - 5)

def readTcp (saddr daddr : BitVec 32) (bytes : List Byte) : Option Segment := do
  let (source, rest) ← read16 bytes
  let (dest, rest) ← read16 rest
  let (seq, rest) ← read32 rest
  let (ack, rest) ← read32 rest
  let (offset, rest) ← read8 rest
  let (flags, rest) ← read8 rest
  let (window, rest) ← read16 rest
  let (_, rest) ← read16 rest
  let (urgent, rest) ← read16 rest
  let words := offset.extractLsb' 4 4
  if 5 ≤ words.toNat ∧ optionsLength words ≤ rest.length then
    some ⟨(saddr, source), (daddr, dest), seq, ack, offset.extractLsb' 0 4, flags, window, urgent,
      rest.take (optionsLength words), rest.drop (optionsLength words)⟩
  else none

def decode (bytes : List Byte) : Option Segment := do
  let (saddr, daddr, rest) ← readIp bytes.length bytes
  readTcp saddr daddr rest

def sourceAt (m : Mem) : Endpoint := (m 12 ++ m 13 ++ m 14 ++ m 15, m 20 ++ m 21)

def destAt (m : Mem) : Endpoint := (m 16 ++ m 17 ++ m 18 ++ m 19, m 22 ++ m 23)

def dataOffset (m : Mem) : BitVec 4 := (m 32).extractLsb' 4 4

def segmentAt (m : Mem) (rest : List Byte) : Segment where
  source := sourceAt m
  dest := destAt m
  seq := m 24 ++ m 25 ++ m 26 ++ m 27
  ack := m 28 ++ m 29 ++ m 30 ++ m 31
  reserved := (m 32).extractLsb' 0 4
  flags := m 33
  window := m 34 ++ m 35
  urgent := m 38 ++ m 39
  options := rest.take (optionsLength (dataOffset m))
  payload := rest.drop (optionsLength (dataOffset m))

def Segment.readdress (s : Segment) (source dest : Endpoint) : Segment :=
  { s with source := source, dest := dest }

section Memory
variable {m m' : Mem} {n : Nat}

theorem load_headers (m : Mem) (k : Nat) : load m 0 (40 + k) =
    m 0 :: m 1 :: m 2 :: m 3 :: m 4 :: m 5 :: m 6 :: m 7 :: m 8 :: m 9 :: m 10 :: m 11 :: m 12 ::
      m 13 :: m 14 :: m 15 :: m 16 :: m 17 :: m 18 :: m 19 :: m 20 :: m 21 :: m 22 :: m 23 ::
      m 24 :: m 25 :: m 26 :: m 27 :: m 28 :: m 29 :: m 30 :: m 31 :: m 32 :: m 33 :: m 34 ::
      m 35 :: m 36 :: m 37 :: m 38 :: m 39 :: load m 40 k := by
  rw [load_add]
  rfl

theorem readIp_load (m : Mem) (length : Nat) (rest : List Byte) : readIp length
    (m 0 :: m 1 :: m 2 :: m 3 :: m 4 :: m 5 :: m 6 :: m 7 :: m 8 :: m 9 :: m 10 :: m 11 :: m 12 ::
      m 13 :: m 14 :: m 15 :: m 16 :: m 17 :: m 18 :: m 19 :: rest) =
    if m 0 = 0x45 ∧ (m 2 ++ m 3 : BitVec 16).toNat = length ∧
      (m 6 ++ m 7 : BitVec 16) &&& 0xbfff = 0 ∧ m 9 = 6 then
      some ((sourceAt m).1, (destAt m).1, rest)
    else none := rfl

theorem readTcp_load (m : Mem) (rest : List Byte) : readTcp (sourceAt m).1 (destAt m).1
    (m 20 :: m 21 :: m 22 :: m 23 :: m 24 :: m 25 :: m 26 :: m 27 :: m 28 :: m 29 :: m 30 ::
      m 31 :: m 32 :: m 33 :: m 34 :: m 35 :: m 36 :: m 37 :: m 38 :: m 39 :: rest) =
    if 5 ≤ (dataOffset m).toNat ∧ optionsLength (dataOffset m) ≤ rest.length then
      some (segmentAt m rest)
    else none := rfl

theorem decode_load (m : Mem) (k : Nat) : decode (load m 0 (40 + k)) =
    if m 0 = 0x45 ∧ (m 2 ++ m 3 : BitVec 16).toNat = 40 + k ∧
      (m 6 ++ m 7 : BitVec 16) &&& 0xbfff = 0 ∧ m 9 = 6 then
      if 5 ≤ (dataOffset m).toNat ∧ optionsLength (dataOffset m) ≤ k then
        some (segmentAt m (load m 40 k))
      else none
    else none := by
  rw [decode, load_length, load_headers, readIp_load]
  split
  · simp only [Option.bind_eq_bind, Option.bind_some, readTcp_load, load_length]
  · rfl

theorem length_of_read8 {bytes : List Byte} {x : Byte × List Byte} (h : read8 bytes = some x) :
    bytes.length = x.2.length + 1 := by
  cases bytes with
  | nil => contradiction
  | cons b rest =>
    obtain rfl := Option.some.inj h
    rfl

theorem length_of_read16 {bytes : List Byte} {x : BitVec 16 × List Byte}
    (h : read16 bytes = some x) : bytes.length = x.2.length + 2 := by
  unfold read16 at h
  split at h
  · obtain rfl := Option.some.inj h
    rfl
  · contradiction

theorem length_of_read32 {bytes : List Byte} {x : BitVec 32 × List Byte}
    (h : read32 bytes = some x) : bytes.length = x.2.length + 4 := by
  unfold read32 at h
  split at h
  · obtain rfl := Option.some.inj h
    rfl
  · contradiction

theorem length_of_decode {bytes : List Byte} {seg : Segment} (h : decode bytes = some seg) :
    40 ≤ bytes.length := by
  simp only [decode, readIp, readTcp, Option.bind_eq_bind, Option.bind_eq_some_iff,
    Option.ite_none_right_eq_some, Option.some.injEq, Prod.exists] at h
  obtain ⟨saddr, daddr, segment, hip, htcp⟩ := h
  obtain ⟨_, _, h0, _, _, h1, _, _, h2, _, _, h4, _, _, h6, _, _, h8, _, _, h9, _, _, h10, _, _,
    h12, _, _, h16, _, heq⟩ := hip
  obtain ⟨_, _, h20, _, _, h22, _, _, h24, _, _, h28, _, _, h32, _, _, h33, _, _, h34, _, _, h36,
    _, _, h38, _⟩ := htcp
  cases heq
  have := length_of_read8 h0
  have := length_of_read8 h1
  have := length_of_read16 h2
  have := length_of_read16 h4
  have := length_of_read16 h6
  have := length_of_read8 h8
  have := length_of_read8 h9
  have := length_of_read16 h10
  have := length_of_read32 h12
  have := length_of_read32 h16
  have := length_of_read16 h20
  have := length_of_read16 h22
  have := length_of_read32 h24
  have := length_of_read32 h28
  have := length_of_read8 h32
  have := length_of_read8 h33
  have := length_of_read16 h34
  have := length_of_read16 h36
  have := length_of_read16 h38
  simp only at *
  omega

/-- A packet that is rewritten in nothing but its addresses, its ports and its checksums carries
the same segment between other endpoints. -/
theorem decode_readdressed (n : Nat)
    (hframe : ∀ k, ¬(10 ≤ k ∧ k < 24 ∨ 36 ≤ k ∧ k < 38) → m' k = m k) :
    decode (load m' 0 n) =
      (decode (load m 0 n)).map (·.readdress (sourceAt m') (destAt m')) := by
  by_cases hshort : n < 40
  · have hnone (m : Mem) : decode (load m 0 n) = none := by
      refine Option.eq_none_iff_forall_ne_some.mpr (fun seg hseg => ?_)
      have hlong := length_of_decode hseg
      rw [load_length] at hlong
      omega
    rw [hnone, hnone, Option.map_none]
  · obtain ⟨k, rfl⟩ := Nat.exists_eq_add_of_le (Nat.not_lt.mp hshort)
    have hpayload : load m' 40 k = load m 40 k := by
      have hagree : AgreeOn (40 ≤ ·) m' m := fun k hk => hframe k (by omega)
      exact hagree.load (fun k hk _ => hk)
    have hsame {j : Nat} (hj : j < 10 ∨ 24 ≤ j ∧ j < 36 ∨ 38 ≤ j) : m' j = m j :=
      hframe j (by omega)
    have hoffset : dataOffset m' = dataOffset m := by
      rw [dataOffset, dataOffset, hsame (j := 32) (by omega)]
    have hsegment (rest : List Byte) :
        segmentAt m' rest = (segmentAt m rest).readdress (sourceAt m') (destAt m') := by
      simp (disch := omega) only [segmentAt, Segment.readdress, hoffset, hsame]
    rw [decode_load, decode_load, hpayload, hoffset, hsegment, hsame (j := 0) (by omega),
      hsame (j := 2) (by omega), hsame (j := 3) (by omega), hsame (j := 6) (by omega),
      hsame (j := 7) (by omega), hsame (j := 9) (by omega)]
    split
    · split
      · rfl
      · rfl
    · rfl

theorem decode_endpoints {seg : Segment} (h : decode (load m 0 n) = some seg) :
    seg.source = sourceAt m ∧ seg.dest = destAt m := by
  have hlong := length_of_decode h
  rw [load_length] at hlong
  obtain ⟨k, rfl⟩ := Nat.exists_eq_add_of_le hlong
  rw [decode_load] at h
  split at h
  · split at h
    · cases h
      exact ⟨rfl, rfl⟩
    · contradiction
  · contradiction

end Memory

/-- What the TCP checksum of a packet is taken over: the addresses, the protocol, the length of the
segment, and the segment. -/
def tcpBlock (bytes : List Byte) : List Byte :=
  (bytes.drop 12).take 8 ++ [0, 6] ++ net16 (BitVec.ofNat 16 (bytes.length - 20)) ++ bytes.drop 20

def Intact (bytes : List Byte) : Prop := Verifies (bytes.take 20) ∧ Verifies (tcpBlock bytes)

end TcpSegment
