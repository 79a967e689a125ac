import IotLab.Capture.Main

set_option autoImplicit false

namespace Capture
open HostMemory

/-- The loop of `main`, as long as `recv` succeeds: the number and the report of each frame. -/
def reports : Mem → Nat → List (List Byte) → List (Nat × EthernetReport)
  | _, _, [] => []
  | buffer, numPackets, frame :: rest =>
    let buffer := store buffer 0 frame
    (numPackets, printEthernetHeader buffer) :: reports buffer (numPackets + 1) rest

def alone (frame : List Byte) : Mem := fun i => frame.getD i 0

/-- The frame has all the bytes that are printed of it: the Ethernet header, the IP header if its
type is IP, and 14 bytes of the TCP header if that is what the IP header says. -/
structure Complete (frame : List Byte) : Prop where
  ethernet : 14 ≤ frame.length
  ip : swap16 (read16 (alone frame) 12) = 0x0800 → 34 ≤ frame.length
  tcp : swap16 (read16 (alone frame) 12) = 0x0800 → alone frame 23 = 6 → 48 ≤ frame.length

/-- Whatever was captured before, the report of the frame is the one that it has alone. -/
def ReportedAlone (frame : List Byte) : Prop :=
  ∀ (buffer : Mem) (before : List (List Byte)), (∀ f ∈ before, f.length ≤ bufferSize) →
    reports buffer 0 (before ++ [frame]) =
      reports buffer 0 before ++ [(before.length, printEthernetHeader (alone frame))]

section Congr
variable {m m' : Mem}

theorem printTcpPacket_congr (h : ∀ k < 14, m k = m' k) :
    printTcpPacket m = printTcpPacket m' := by
  simp (disch := omega) only [printTcpPacket, read16, read32, h, Nat.zero_add]

theorem printIpHeader_congr (h : ∀ k < 20, m k = m' k) (htcp : m' 9 = 6 → ∀ k < 34, m k = m' k) :
    printIpHeader m = printIpHeader m' := by
  have hsaddr : load m 12 4 = load m' 12 4 := by
    have hagree : AgreeOn (· < 20) m m' := h
    exact hagree.load (by omega)
  have hdaddr : load m 16 4 = load m' 16 4 := by
    have hagree : AgreeOn (· < 20) m m' := h
    exact hagree.load (by omega)
  rw [printIpHeader, printIpHeader, hsaddr, hdaddr, h 9 (by omega)]
  split
  · rename_i hprotocol
    rw [printTcpPacket_congr fun k hk => htcp hprotocol (ipHeaderSize + k)
      (by simp only [ipHeaderSize]; omega)]
  · rfl

theorem printEthernetHeader_congr (h : ∀ k < 14, m k = m' k)
    (hip : swap16 (read16 m' 12) = 0x0800 → ∀ k < 34, m k = m' k)
    (htcp : swap16 (read16 m' 12) = 0x0800 → m' 23 = 6 → ∀ k < 48, m k = m' k) :
    printEthernetHeader m = printEthernetHeader m' := by
  have hagree : AgreeOn (· < 14) m m' := h
  have hsource : load m 6 6 = load m' 6 6 := hagree.load (by omega)
  have hdest : load m 0 6 = load m' 0 6 := hagree.load (by omega)
  have hproto : read16 m 12 = read16 m' 12 := by
    rw [read16, read16, h 12 (by omega), h 13 (by omega)]
  rw [printEthernetHeader, printEthernetHeader, hsource, hdest, hproto]
  split
  · rename_i htype
    rw [@printIpHeader_congr (fun i => m (ethHeaderSize + i)) (fun i => m' (ethHeaderSize + i))]
    · exact fun k hk => hip htype _ (by simp only [ethHeaderSize]; omega)
    · exact fun hprotocol k hk => htcp htype hprotocol _ (by simp only [ethHeaderSize]; omega)
  · rfl

end Congr

section Runs
variable {frame : List Byte} {before : List (List Byte)}

theorem Complete.report (h : Complete frame) (buffer : Mem) :
    printEthernetHeader (store buffer 0 frame) = printEthernetHeader (alone frame) := by
  have hsame {n : Nat} (hn : n ≤ frame.length) (k : Nat) (hk : k < n) :
      store buffer 0 frame k = alone frame k := store_start (by omega)
  exact printEthernetHeader_congr (hsame h.ethernet) (fun htype => hsame (h.ip htype))
    (fun htype hprotocol => hsame (h.tcp htype hprotocol))

theorem reports_append (buffer : Mem) (n : Nat) : reports buffer n (before ++ [frame]) =
    reports buffer n before ++ [(n + before.length,
      printEthernetHeader (store (before.foldl (store · 0 ·) buffer) 0 frame))] := by
  induction before generalizing buffer n with
  | nil => rfl
  | cons f before ih =>
    simp only [List.cons_append, reports, ih, List.foldl_cons, List.length_cons]
    rw [Nat.add_assoc, Nat.add_comm 1]

theorem reportedAlone_eq : ReportedAlone frame ↔
    ∀ (buffer : Mem) (before : List (List Byte)), (∀ f ∈ before, f.length ≤ bufferSize) →
      printEthernetHeader (store (before.foldl (store · 0 ·) buffer) 0 frame) =
        printEthernetHeader (alone frame) := by
  refine forall_congr' fun buffer => forall_congr' fun before => imp_congr_right fun _ => ?_
  rw [reports_append, Nat.zero_add]
  simp

def ones : List Byte := List.replicate bufferSize 1

theorem store_ones {k : Nat} (hk : k < bufferSize) (hbehind : frame.length ≤ k) :
    store ([ones].foldl (store · 0 ·) fun _ => 0) 0 frame k = 1 ∧ alone frame k = 0 := by
  constructor
  · rw [store_of_outside (by omega), List.foldl_cons, List.foldl_nil,
      store_start (by simpa [ones] using hk), ones, List.getD_eq_getElem?_getD,
      List.getElem?_replicate_of_lt hk]
    rfl
  · rw [alone, List.getD_eq_getElem?_getD, List.getElem?_eq_none hbehind]
    rfl

end Runs

section Missing
variable {frame : List Byte} {m : Mem}

theorem hProto_of_report {m' : Mem} (h : printEthernetHeader m = printEthernetHeader m') :
    read16 m 12 = read16 m' 12 := congrArg EthernetReport.hProto h

theorem ip_of_report {m' : Mem} (h : printEthernetHeader m = printEthernetHeader m')
    (htype : swap16 (read16 m' 12) = 0x0800) :
    printIpHeader (fun i => m (ethHeaderSize + i)) =
      printIpHeader fun i => m' (ethHeaderSize + i) := by
  have hfield := congrArg EthernetReport.ip h
  rw [printEthernetHeader, printEthernetHeader, hProto_of_report h] at hfield
  simpa only [if_pos htype, Option.some.injEq] using hfield

/-- Behind the frame, the buffer still has the ones of a frame before it. -/
def Stale (frame : List Byte) (m : Mem) : Prop :=
  ∀ k < bufferSize, frame.length ≤ k → m k = 1 ∧ alone frame k = 0

theorem Stale.ne (h : Stale frame m) {k : Nat} (hk : k < bufferSize) (hle : frame.length ≤ k) :
    m k ≠ alone frame k := by
  obtain ⟨hone, hzero⟩ := h k hk hle
  rw [hone, hzero]
  decide

theorem Stale.ethernet (h : Stale frame m)
    (hreport : printEthernetHeader m = printEthernetHeader (alone frame)) :
    14 ≤ frame.length := by
  by_contra hlt
  refine h.ne (k := 13) (by decide) (by omega) ?_
  rw [← append_highByte (m 13) (m 12), ← append_highByte (alone frame 13) (alone frame 12)]
  exact congrArg (BitVec.extractLsb' 8 8) (hProto_of_report hreport)

theorem Stale.ip (h : Stale frame m)
    (hreport : printEthernetHeader m = printEthernetHeader (alone frame))
    (htype : swap16 (read16 (alone frame) 12) = 0x0800) : 34 ≤ frame.length := by
  by_contra hlt
  refine h.ne (k := 33) (by decide) (by omega) ?_
  have hdaddr := congrArg (fun r => r.daddr[3]?) (ip_of_report hreport htype)
  simpa [printIpHeader, load, ethHeaderSize] using hdaddr

theorem Stale.tcp (h : Stale frame m)
    (hreport : printEthernetHeader m = printEthernetHeader (alone frame))
    (htype : swap16 (read16 (alone frame) 12) = 0x0800) (hm : m 23 = 6)
    (hprotocol : alone frame 23 = 6) : 48 ≤ frame.length := by
  by_contra hlt
  have htcp := congrArg IpReport.tcp (ip_of_report hreport htype)
  rw [printIpHeader, printIpHeader] at htcp
  simp only [ethHeaderSize, ipHeaderSize, Nat.reduceAdd, hm, hprotocol, if_true,
    Option.some.injEq] at htcp
  have hfin := congrArg (fun r => Flag.fin ∈ r.flags) htcp
  obtain ⟨hone, hzero⟩ := h 47 (by decide) (by omega)
  simp [printTcpPacket, Flag.bit, ← Nat.add_assoc, hone, hzero] at hfin

end Missing

/-- Exactly the complete frames are reported, in every run, as they are alone. -/
theorem reported_alone_iff {frame : List Byte} : ReportedAlone frame ↔ Complete frame := by
  rw [reportedAlone_eq]
  refine ⟨fun h => ?_, fun h buffer before _ => h.report _⟩
  have hreport := h (fun _ => 0) [ones] (by simp [ones])
  have hstale : Stale frame (store ([ones].foldl (store · 0 ·) fun _ => 0) 0 frame) :=
    fun k hk hle => store_ones hk hle
  constructor
  case ethernet => exact hstale.ethernet hreport
  case ip => exact hstale.ip hreport
  case tcp =>
    intro htype hprotocol
    have hlong := hstale.ip hreport htype
    exact hstale.tcp hreport htype ((store_start (by omega)).trans hprotocol) hprotocol

end Capture
