import IotLab.LoadBalancer.ChecksumValue
import IotLab.LoadBalancer.Independence

set_option autoImplicit false

namespace LoadBalancer
open HostMemory InternetChecksum

/-- The fields that a rewrite of addresses and ports touches in a packet whose IP header has
`h` bytes: the IP checksum, the addresses, the ports and the TCP checksum. -/
abbrev RewriteField (h k : Nat) : Prop :=
  (10 ≤ k ∧ k < 20) ∨ (h ≤ k ∧ k < h + 4) ∨ (h + 16 ≤ k ∧ k < h + 18)

/-- The packet `b'` is `b` with nothing but these fields changed, and its checksums are taken
over the `h` header bytes, and over the rest of the packet with its pseudo header. -/
structure RewrittenFrom (b b' : Mem) (h len : Nat) : Prop where
  frame : ∀ k, ¬RewriteField h k → b' k = b k
  ipCheck : read16 b' 10 = checksum (load (write16 b' 10 0) 0 h)
  tcpCheck : read16 b' (h + 16) =
    checksum (makePseudoHeader (ipSaddr b') (ipDaddr b') 6 (len - h) ++
      load (write16 b' (h + 16) 0) h (len - h))

structure WellFormed (b : Mem) : Prop where
  version : (b 0).toNat / 16 = 4
  protocol : b 9 = 6
  lengths : TcpPacket b
  check : Verifies (load b 0 (ihl b * 4))

/-- The two packets differ at most in their IP options and, with these, the IP checksum. -/
def SameButOptions (b c : Mem) : Prop :=
  ∀ k, ¬(20 ≤ k ∧ k < ihl b * 4) → ¬(10 ≤ k ∧ k < 12) → c k = b k

section Plain
variable {t : Tables} {b b' c : Mem} {lbaddr : SockaddrIn} {i : Fin maxServCnt}
  {j : Fin maxClntCnt} {dir : Direction}

theorem nat_segment_total (h : SegmentFits b) (t : Tables) (lbaddr : SockaddrIn)
    (i : Fin maxServCnt) (j : Fin maxClntCnt) (dir : Direction) :
    ∃ b', nat t b (segmentEnds i j dir).1 (segmentEnds i j dir).2 lbaddr dir = .ok b' := by
  cases dir with
  | clnt2serv => exact nat_clnt2serv_total h i
  | serv2clnt => exact nat_serv2clnt_total h i

theorem write16_zeroed {m : Mem} {off : Nat} (h0 : m off = 0) (h1 : m (off + 1) = 0)
    (v : BitVec 16) : write16 (write16 m off v) off 0 = m := by
  funext k
  by_cases hk : k = off
  · subst hk
    rw [h0]
    exact store_of_inside (k := 0) (by simp)
  · by_cases hk1 : k = off + 1
    · subst hk1
      rw [h1]
      exact store_of_inside (k := 1) (by simp)
    · rw [write16_other (by omega), write16_other (by omega)]

theorem write16_zero_at (m : Mem) (off : Nat) :
    write16 m off 0 off = 0 ∧ write16 m off 0 (off + 1) = 0 :=
  ⟨store_of_inside (k := 0) (by simp), store_of_inside (k := 1) (by simp)⟩

/-- The checksums of `nat` are those of a packet whose TCP header is at offset 20. -/
theorem natChecksums_checks {len : Int} (h : natChecksums b lbaddr len = .ok b')
    (hsaddr : ipSaddr b = lbaddr.addr) :
    read16 b' 10 = checksum (load (write16 b' 10 0) 0 20) ∧
      read16 b' 36 = checksum (makePseudoHeader (ipSaddr b') (ipDaddr b') 6 len.toNat ++
        load (write16 b' 36 0) 20 len.toNat) := by
  have hends := natChecksums_endpoints h
  have hsaddr' : ipSaddr b' = lbaddr.addr := (ipSaddr_congr hends).trans hsaddr
  rw [natChecksums_eq] at h
  split at h
  · contradiction
  obtain rfl := Except.ok.inj h
  -- The buffer with both checksum fields zeroed, and with the TCP checksum filled in.
  generalize hz : write16 (write16 b 10 0) 36 0 = z at *
  generalize hsum : checksum (checksumInput b lbaddr len.toNat) = sum at *
  have hz36 : z 36 = 0 ∧ z 37 = 0 := hz ▸ write16_zero_at _ 36
  have hz10 : z 10 = 0 ∧ z 11 = 0 := by
    have hlow (k : Nat) (hk : k < 36) : z k = write16 b 10 0 k := hz ▸ write16_other (.inl hk)
    rw [hlow 10 (by omega), hlow 11 (by omega)]
    exact write16_zero_at b 10
  have hm10 : write16 z 36 sum 10 = 0 ∧ write16 z 36 sum 11 = 0 := by
    rw [write16_other (by omega), write16_other (by omega)]
    exact hz10
  constructor
  · rw [read16_write16, write16_zeroed hm10.1 hm10.2]
    rfl
  · have hdaddr (v : BitVec 16) : ipDaddr (write16 (write16 z 36 sum) 10 v) = ipDaddr z := by
      rw [ipDaddr, read32_write16_frame (by omega), read32_write16_frame (by omega)]
      rfl
    have hsegment (v : BitVec 16) : load (write16 (write16 (write16 z 36 sum) 10 v) 36 0) 20
        len.toNat = load z 20 len.toNat := by
      have hagree : AgreeOn (20 ≤ ·) (write16 (write16 (write16 z 36 sum) 10 v) 36 0) z := by
        intro k hk
        refine Eq.trans ?_ (congrFun (write16_zeroed hz36.1 hz36.2 sum) k)
        exact store_at (fun _ => write16_other (.inr (by omega)))
      exact hagree.load (fun k hk _ => hk)
    rw [read16_write16_frame (by omega), read16_write16, hsegment, hsaddr', hdaddr, ← hsum,
      checksumInput, ← hz]
    rfl

theorem nat_rewritten {sourceId destId : Int} (hlen : TcpPacket b) (hihl : ihl b = 5)
    (h : nat t b sourceId destId lbaddr dir = .ok b') :
    RewrittenFrom b b' (ihl b * 4) (totLen b) := by
  obtain ⟨c, hrewrite, hsums⟩ := nat_eq_ok.mp h
  have hsaddr : ipSaddr c = lbaddr.addr := by
    obtain ⟨daddr, dest, source, hw⟩ := natRewrite_writes hrewrite
    obtain rfl := Except.ok.inj (hrewrite.symm.trans (hw b))
    rw [ipSaddr, read32_write16_frame (by omega), read32_write16_frame (by omega),
      read32_write32_frame (by omega), read32_write32]
  obtain ⟨hip, htcp⟩ := natChecksums_checks hsums hsaddr
  have hheader : ihl b * 4 = 20 := by omega
  have hlong := hlen.2
  have htcpLen : (tcpLen b).toNat = totLen b - 20 := by
    rw [tcpLen]
    omega
  rw [htcpLen] at htcp
  rw [hheader]
  exact ⟨fun k hk => nat_frame h (by omega), hip, htcp⟩

end Plain

section Options
variable {t : Tables} {b b' c : Mem} {lbaddr : SockaddrIn} {dir : Direction}

theorem nat_writes_at {sourceId destId : Int}
    (h : nat t b sourceId destId lbaddr dir = .ok b') :
    ∃ p : Byte, ∀ c c', nat t c sourceId destId lbaddr dir = .ok c' → c' 20 = p := by
  obtain ⟨d, hrewrite, _⟩ := nat_eq_ok.mp h
  obtain ⟨daddr, dest, source, hw⟩ := natRewrite_writes hrewrite
  refine ⟨source.extractLsb' 0 8, fun c c' hc => ?_⟩
  obtain ⟨e, hrewrite', hsums⟩ := nat_eq_ok.mp hc
  rw [natChecksums_frame hsums (by omega) (by omega)]
  obtain rfl := Except.ok.inj (hrewrite'.symm.trans (hw c))
  exact store_of_inside (k := 0) (by simp)

theorem load_write16 {m : Mem} {off len : Nat} (h : off + 2 ≤ len) (v : BitVec 16) :
    load (write16 m off v) 0 len = setWord (load m 0 len) off v := by
  have hlen : off + 2 ≤ (load m 0 len).length := by rw [load_length]; exact h
  refine List.ext_getElem ?_ (fun k hk hk' => ?_)
  · rw [setWord_length hlen, load_length, load_length]
  · rw [load_length] at hk
    have hmin : min off len = off := by omega
    simp only [setWord, load, List.getElem_append, List.getElem_map, List.getElem_range,
      List.length_append, List.length_take, List.length_map, List.length_range, bytes16_length,
      List.getElem_take, List.getElem_drop, Nat.zero_add, hmin]
    split
    · split
      · exact write16_other (.inl ‹_›)
      · obtain ⟨d, rfl⟩ := Nat.exists_eq_add_of_le (show off ≤ k by omega)
        have hd : d < (bytes16 v).length := by rw [bytes16_length]; omega
        rw [write16, store_of_inside hd, List.getD_eq_getElem?_getD, List.getElem?_eq_getElem hd]
        simp
    · rw [write16_other (by omega)]
      congr 1
      omega

def withOptions (b : Mem) (v : Byte) : Mem :=
  let c := store b 20 (List.replicate (ihl b * 4 - 20) v)
  write16 c 10 (rfcChecksum (load (write16 c 10 0) 0 (ihl b * 4)))

theorem withOptions_same (b : Mem) (v : Byte) : SameButOptions b (withOptions b v) := by
  intro k hopt hsum
  rw [withOptions, write16_other (by omega), store_of_outside]
  rw [List.length_replicate]
  omega

theorem SameButOptions.low (h : SameButOptions b c) {k : Nat} (hk : k < 10) : c k = b k :=
  h k (by omega) (by omega)

theorem SameButOptions.ihl_eq (h : SameButOptions b c) : ihl c = ihl b := by
  rw [ihl, ihl, h.low (by omega)]

theorem SameButOptions.totLen_eq (h : SameButOptions b c) : totLen c = totLen b := by
  rw [totLen, totLen, read16, read16, h.low (by omega), h.low (by omega)]

theorem withOptions_wellFormed (h : WellFormed b) (v : Byte) : WellFormed (withOptions b v) := by
  have hsame := withOptions_same b v
  have hlen := h.lengths
  refine ⟨?_, ?_, ?_, ?_⟩
  · rw [hsame.low (by omega)]
    exact h.version
  · rw [hsame.low (by omega)]
    exact h.protocol
  · rw [TcpPacket, hsame.ihl_eq, hsame.totLen_eq]
    exact hlen
  · have hin : 10 + 2 ≤ ihl b * 4 := by
      have := hlen.1
      omega
    rw [hsame.ihl_eq, withOptions, load_write16 hin, load_write16 hin]
    exact verifies_rfc rfl (by rw [load_length]; exact hin)

theorem withOptions_at {v : Byte} (h : 5 < ihl b) : withOptions b v 20 = v := by
  have hlen : 0 < (List.replicate (ihl b * 4 - 20) v).length := by
    rw [List.length_replicate]
    omega
  rw [withOptions, write16_other (by omega)]
  refine (store_of_inside (k := 0) hlen).trans ?_
  rw [List.getD_eq_getElem?_getD, List.getElem?_eq_getElem hlen, List.getElem_replicate]
  rfl

end Options

/-- `nat` keeps to its fields, whatever the options are, exactly if there are none: of the
packets that differ in their options it spoils at least one. -/
theorem nat_frame_iff {t : Tables} {b : Mem} {lbaddr : SockaddrIn} {i : Fin maxServCnt}
    {j : Fin maxClntCnt} {dir : Direction} (h : WellFormed b) :
    (∀ c, WellFormed c → SameButOptions b c → ∃ c',
      nat t c (segmentEnds i j dir).1 (segmentEnds i j dir).2 lbaddr dir = .ok c' ∧
        RewrittenFrom c c' (ihl c * 4) (totLen c)) ↔ ihl b = 5 := by
  constructor
  · intro hall
    by_contra hihl
    have hlong : 5 < ihl b := by
      have := h.lengths.1
      omega
    obtain ⟨b', hrun⟩ := nat_segment_total h.lengths.fits t lbaddr i j dir
    obtain ⟨p, hp⟩ := nat_writes_at hrun
    -- Options of zeros and options of ones cannot both hold the byte that `nat` writes.
    have hbyte (v : Byte) : v = p := by
      have hsame := withOptions_same b v
      obtain ⟨c', hrun', hlaw⟩ := hall _ (withOptions_wellFormed h v) hsame
      have hkept := hlaw.frame 20 (by rw [hsame.ihl_eq]; omega)
      rw [hp _ _ hrun', withOptions_at hlong] at hkept
      exact hkept.symm
    exact absurd ((hbyte 0).trans (hbyte 1).symm) (by decide)
  · intro hihl c hc hsame
    obtain ⟨c', hrun⟩ := nat_segment_total hc.lengths.fits t lbaddr i j dir
    exact ⟨c', hrun, nat_rewritten hc.lengths (hsame.ihl_eq.trans hihl) hrun⟩

def plainPacket : Mem := withOptions (recvInto (fun _ => 0) (some lastAck.received)) 0

def optionsPacket : Mem :=
  let head : List Byte := [0x46, 0, 0, 44, 0, 0, 0, 0, 64, 6, 0, 0]
  let tcp : List Byte := [0x9c, 0x40, 0, 0x50, 0, 0, 0, 0, 0, 0, 0, 0, 0x50, ackFlag]
  withOptions (store (fun _ => 0) 0 (head ++ bytes32 0x0900000a ++ bytes32 0x0100000a ++
    [0, 0, 0, 0] ++ tcp)) 1

theorem nat_frame_plain : ∃ c', nat twoClients plainPacket 0 0 demoConfig.lbaddr .clnt2serv =
    .ok c' ∧ RewrittenFrom plainPacket c' (ihl plainPacket * 4) (totLen plainPacket) := by
  have hformed : WellFormed plainPacket := ⟨by decide, by decide, by decide, by decide⟩
  have hiff := @nat_frame_iff twoClients plainPacket demoConfig.lbaddr 0 0 .clnt2serv hformed
  exact hiff.mpr (by decide) plainPacket hformed (fun _ _ _ => rfl)

/-- The first option is overwritten by the new source port. -/
theorem nat_spoils_options : WellFormed optionsPacket ∧
    ¬∃ c', nat twoClients optionsPacket 0 0 demoConfig.lbaddr .clnt2serv = .ok c' ∧
      RewrittenFrom optionsPacket c' (ihl optionsPacket * 4) (totLen optionsPacket) := by
  refine ⟨⟨by decide, by decide, by decide, by decide⟩, ?_⟩
  rintro ⟨c', hrun, hlaw⟩
  have hwritten : (nat twoClients optionsPacket 0 0 demoConfig.lbaddr .clnt2serv).toOption.all
      (fun c => c 20 ≠ optionsPacket 20) = true := by decide
  rw [hrun] at hwritten
  exact of_decide_eq_true hwritten (hlaw.frame 20 (by decide))

end LoadBalancer
