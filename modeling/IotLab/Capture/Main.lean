import IotLab.Library.WebSocketFrame

/-!
The packet sniffer: what it prints of the Ethernet, IP and TCP headers of a captured frame, and
for which frames that is what their TCP header holds.
-/

set_option autoImplicit false

namespace Capture
open HostMemory
open WebSocketFrame (beValue beValue_take_lt beValue_append)

def bufferSize : Nat := 65536

def ethHeaderSize : Nat := 14

def ipHeaderSize : Nat := 20

inductive Flag where
  | urg | ack | psh | rst | syn | fin
  deriving DecidableEq, Repr

def Flag.bit : Flag → Nat
  | .fin => 0
  | .syn => 1
  | .rst => 2
  | .psh => 3
  | .ack => 4
  | .urg => 5

structure TcpReport where
  source : Nat
  dest : Nat
  seq : Nat
  ackSeq : Nat
  flags : List Flag
  deriving DecidableEq, Repr

/-- The addresses are the bytes that `inet_ntoa` prints. -/
structure IpReport where
  saddr : List Byte
  daddr : List Byte
  protocol : Byte
  tcp : Option TcpReport
  deriving DecidableEq, Repr

structure EthernetReport where
  hSource : List Byte
  hDest : List Byte
  hProto : BitVec 16
  ip : Option IpReport
  deriving DecidableEq, Repr

/-- `ntohs` takes 16 bits of the two numbers too. -/
def printTcpPacket (buffer : Mem) : TcpReport where
  source := (swap16 (read16 buffer 0)).toNat
  dest := (swap16 (read16 buffer 2)).toNat
  seq := (swap16 ((read32 buffer 4).setWidth 16)).toNat
  ackSeq := (swap16 ((read32 buffer 8).setWidth 16)).toNat
  flags := [Flag.urg, .ack, .psh, .rst, .syn, .fin].filter fun flag =>
    (buffer 13).getLsbD flag.bit

def printIpHeader (buffer : Mem) : IpReport where
  saddr := load buffer 12 4
  daddr := load buffer 16 4
  protocol := buffer 9
  tcp := if buffer 9 = 6 then some (printTcpPacket fun i => buffer (ipHeaderSize + i)) else none

def printEthernetHeader (buffer : Mem) : EthernetReport where
  hSource := load buffer 6 6
  hDest := load buffer 0 6
  hProto := read16 buffer 12
  ip := if swap16 (read16 buffer 12) = 0x0800 then
      some (printIpHeader fun i => buffer (ethHeaderSize + i))
    else none

def ihl (bytes : List Byte) : Nat := (bytes.getD 14 0).toNat % 16

/-- An Ethernet frame with an IPv4 packet, whose TCP header has come whole. -/
structure TcpFrame where
  bytes : List Byte
  ethertype : bytes.getD 12 0 = 0x08 ∧ bytes.getD 13 0 = 0x00
  version : (bytes.getD 14 0).toNat / 16 = 4
  ihl_ge : 5 ≤ ihl bytes
  protocol : bytes.getD 23 0 = 6
  whole : ethHeaderSize + ihl bytes * 4 + 20 ≤ bytes.length
  length_le : bytes.length ≤ bufferSize

def TcpFrame.tcp (f : TcpFrame) : Nat := ethHeaderSize + ihl f.bytes * 4

def TcpFrame.field (f : TcpFrame) (off k : Nat) : Nat := beValue ((f.bytes.drop off).take k)

def TcpFrame.flag (f : TcpFrame) (off : Nat) (flag : Flag) : Bool :=
  (f.bytes.getD off 0).getLsbD flag.bit

structure TcpReport.Faithful (r : TcpReport) (f : TcpFrame) : Prop where
  source : r.source = f.field f.tcp 2
  dest : r.dest = f.field (f.tcp + 2) 2
  seq : r.seq = f.field (f.tcp + 4) 4
  ackSeq : r.ackSeq = f.field (f.tcp + 8) 4
  flags : ∀ flag, flag ∈ r.flags ↔ f.flag (f.tcp + 13) flag = true

/-- The frame is taken for a TCP packet, and its header is printed faithfully. The buffer held
`old` before. -/
def Decoded (f : TcpFrame) (old : Mem) : Prop :=
  ∃ ip tcp, (printEthernetHeader (store old 0 f.bytes)).ip = some ip ∧ ip.tcp = some tcp ∧
    tcp.Faithful f

/-- The bytes behind the first 20 of the IP header, where the options are, repeat the ports, the
lower halves of two numbers below 65536 and the flags of the TCP header. -/
structure OptionsRepeat (f : TcpFrame) : Prop where
  ports : f.field 34 4 = f.field f.tcp 4
  seq : f.field (f.tcp + 4) 2 = 0 ∧ f.field 38 2 = f.field (f.tcp + 6) 2
  ackSeq : f.field (f.tcp + 8) 2 = 0 ∧ f.field 42 2 = f.field (f.tcp + 10) 2
  flags : ∀ flag, f.flag 47 flag = f.flag (f.tcp + 13) flag

section Fields
variable (f : TcpFrame) (old : Mem) {off : Nat}

theorem TcpFrame.field_lt (off : Nat) : f.field off 2 < 65536 :=
  beValue_take_lt 2 (f.bytes.drop off)

theorem TcpFrame.field_four (h : off + 4 ≤ f.bytes.length) :
    f.field off 4 = f.field off 2 * 65536 + f.field (off + 2) 2 := by
  have hlen : (((f.bytes.drop off).drop 2).take 2).length = 2 := by simp; omega
  rw [TcpFrame.field, show 4 = 2 + 2 from rfl, List.take_add, beValue_append, hlen,
    List.drop_drop]
  rfl

theorem TcpFrame.load_at (h : off < f.bytes.length) :
    store old 0 f.bytes off = f.bytes.getD off 0 := store_start h

theorem TcpFrame.word (h : off + 2 ≤ f.bytes.length) :
    (swap16 (read16 (store old 0 f.bytes) off)).toNat = f.field off 2 := by
  have htake : (f.bytes.drop off).take 2 = [f.bytes.getD off 0, f.bytes.getD (off + 1) 0] := by
    rw [List.drop_eq_getElem_cons (by omega), List.drop_eq_getElem_cons (by omega),
      List.getD_eq_getElem?_getD, List.getD_eq_getElem?_getD,
      List.getElem?_eq_getElem (by omega), List.getElem?_eq_getElem (by omega)]
    rfl
  rw [swap16_read16, f.load_at old (by omega), f.load_at old (by omega), append_byte_toNat,
    TcpFrame.field, htake]
  simp [beValue]

end Fields

section Printed
variable (f : TcpFrame) (old : Mem)

theorem printEthernetHeader_eq : ∃ ip tcp,
    (printEthernetHeader (store old 0 f.bytes)).ip = some ip ∧ ip.tcp = some tcp ∧
      tcp.source = f.field 34 2 ∧ tcp.dest = f.field 36 2 ∧ tcp.seq = f.field 38 2 ∧
      tcp.ackSeq = f.field 42 2 ∧ ∀ flag, flag ∈ tcp.flags ↔ f.flag 47 flag = true := by
  have hlen : 54 ≤ f.bytes.length := by
    have hwhole := f.whole
    have hihl := f.ihl_ge
    simp only [ethHeaderSize] at hwhole
    omega
  have hproto : swap16 (read16 (store old 0 f.bytes) 12) = 0x0800 := by
    rw [swap16_read16, f.load_at old (by omega), f.load_at old (by omega), f.ethertype.1,
      f.ethertype.2]
    decide
  have hprotocol : store old 0 f.bytes (ethHeaderSize + 9) = 6 := by
    rw [f.load_at old (by simp only [ethHeaderSize]; omega)]
    exact f.protocol
  have hnumber (off : Nat) (h : off + 2 ≤ f.bytes.length) :
      (swap16 ((read32 (store old 0 f.bytes) off).setWidth 16)).toNat = f.field off 2 := by
    rw [read32_setWidth, f.word old h]
  refine ⟨_, _, if_pos hproto, if_pos hprotocol, @TcpFrame.word f old 34 (by omega),
    @TcpFrame.word f old 36 (by omega), hnumber 38 (by omega), hnumber 42 (by omega),
    fun flag => ?_⟩
  have hbyte : store old 0 f.bytes 47 = f.bytes.getD 47 0 := f.load_at old (by omega)
  have hmem : flag ∈ [Flag.urg, .ack, .psh, .rst, .syn, .fin] := by cases flag <;> decide
  rw [TcpFrame.flag, ← hbyte]
  exact List.mem_filter.trans (and_iff_right hmem)

theorem decoded_iff_repeat : Decoded f old ↔ OptionsRepeat f := by
  have hwhole : 14 + ihl f.bytes * 4 + 20 ≤ f.bytes.length := f.whole
  have htcp : f.tcp = 14 + ihl f.bytes * 4 := rfl
  have hihl := f.ihl_ge
  obtain ⟨ip, tcp, hip, hsome, hsource, hdest, hseq, hack, hflags⟩ := printEthernetHeader_eq f old
  have hports : f.field f.tcp 4 = f.field f.tcp 2 * 65536 + f.field (f.tcp + 2) 2 :=
    f.field_four (by omega)
  have hports' : f.field 34 4 = f.field 34 2 * 65536 + f.field 36 2 := f.field_four (by omega)
  have hdest_lt := f.field_lt (f.tcp + 2)
  have hdest_lt' := f.field_lt 36
  have hseqs : f.field (f.tcp + 4) 4 =
      f.field (f.tcp + 4) 2 * 65536 + f.field (f.tcp + 6) 2 := f.field_four (by omega)
  have hseq_lt := f.field_lt 38
  have hacks : f.field (f.tcp + 8) 4 =
      f.field (f.tcp + 8) 2 * 65536 + f.field (f.tcp + 10) 2 := f.field_four (by omega)
  have hack_lt := f.field_lt 42
  constructor
  · rintro ⟨ip', tcp', hip', hsome', h⟩
    obtain rfl := Option.some.inj (hip.symm.trans hip')
    obtain rfl := Option.some.inj (hsome.symm.trans hsome')
    have hs := hsource.symm.trans h.source
    have hd := hdest.symm.trans h.dest
    have hn := hseq.symm.trans h.seq
    have ha := hack.symm.trans h.ackSeq
    refine ⟨by omega, by omega, by omega, fun flag => ?_⟩
    exact Bool.eq_iff_iff.mpr ((hflags flag).symm.trans (h.flags flag))
  · intro h
    have hp := h.ports
    have hn := h.seq
    have ha := h.ackSeq
    refine ⟨ip, tcp, hip, hsome, ?_, ?_, ?_, ?_, fun flag => ?_⟩
    · omega
    · omega
    · omega
    · omega
    · rw [hflags flag, h.flags flag]

end Printed

/-- Without options a header is printed right when both numbers in it are 0; with options, when
these repeat the header. -/
theorem decoded_iff (f : TcpFrame) (old : Mem) : Decoded f old ↔
    (ihl f.bytes = 5 ∧ f.field 38 4 = 0 ∧ f.field 42 4 = 0) ∨
      (5 < ihl f.bytes ∧ OptionsRepeat f) := by
  have hihl := f.ihl_ge
  rw [decoded_iff_repeat]
  by_cases hfive : ihl f.bytes = 5
  · have hwhole : 14 + ihl f.bytes * 4 + 20 ≤ f.bytes.length := f.whole
    have htcp : f.tcp = 34 := by rw [TcpFrame.tcp, hfive]; rfl
    have hseqs : f.field 38 4 = f.field 38 2 * 65536 + f.field 40 2 := f.field_four (by omega)
    have hacks : f.field 42 4 = f.field 42 2 * 65536 + f.field 44 2 := f.field_four (by omega)
    constructor
    · intro h
      have hn := h.seq
      have ha := h.ackSeq
      simp only [htcp, Nat.reduceAdd] at hn ha
      exact .inl ⟨hfive, by omega, by omega⟩
    · intro h
      obtain ⟨-, hn, ha⟩ := h.resolve_right (by omega)
      refine ⟨?_, ?_, ?_, fun flag => ?_⟩
      · rw [htcp]
      · simp only [htcp, Nat.reduceAdd]
        omega
      · simp only [htcp, Nat.reduceAdd]
        omega
      · rw [htcp]
  · constructor
    · exact fun h => .inr ⟨by omega, h⟩
    · exact fun h => (h.resolve_left fun h' => hfive h'.1).2

def synFrame : TcpFrame where
  bytes := List.replicate 12 0 ++ [0x08, 0x00, 0x45] ++ List.replicate 8 0 ++ [6] ++
    List.replicate 10 0 ++
    [0, 80, 0x1f, 0x90, 0x12, 0x34, 0x56, 0x78, 0, 0, 0, 0, 0x50, 0x02] ++ List.replicate 6 0
  ethertype := by decide
  version := by decide
  ihl_ge := by decide
  protocol := by decide
  whole := by decide
  length_le := by decide

/-- The upper half of its sequence number is printed. -/
theorem syn_number_cut : ¬Decoded synFrame (fun _ => 0) ∧
    (printEthernetHeader (store (fun _ => 0) 0 synFrame.bytes)).ip.bind (·.tcp) =
      some ⟨80, 8080, 0x1234, 0, [.syn]⟩ := by
  have hprint : (printEthernetHeader (store (fun _ => 0) 0 synFrame.bytes)).ip.bind (·.tcp) =
      some ⟨80, 8080, 0x1234, 0, [.syn]⟩ := by decide
  refine ⟨?_, hprint⟩
  rintro ⟨ip, tcp, hip, htcp, hfaithful⟩
  rw [hip, Option.bind_some, htcp, Option.some.injEq] at hprint
  have hseq := hfaithful.seq
  rw [hprint] at hseq
  revert hseq
  decide

end Capture
