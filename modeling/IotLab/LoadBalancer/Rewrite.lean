import IotLab.LoadBalancer.Select
import IotLab.LoadBalancer.Packet

set_option autoImplicit false

namespace LoadBalancer
open SlotTable HostMemory Fallible

structure Endpoints where
  saddr : BitVec 32
  source : BitVec 16
  daddr : BitVec 32
  dest : BitVec 16
  deriving DecidableEq, Repr

def endpoints (b : Mem) : Endpoints := ⟨ipSaddr b, tcpSource b, ipDaddr b, tcpDest b⟩

def Endpoints.swap (e : Endpoints) : Endpoints := ⟨e.daddr, e.dest, e.saddr, e.source⟩

abbrev Rewritten (k : Nat) : Prop := (10 ≤ k ∧ k < 24) ∨ (36 ≤ k ∧ k < 38)

theorem write16_other {m : Mem} {off k : Nat} {v : BitVec 16} (h : k < off ∨ off + 2 ≤ k) :
    write16 m off v k = m k := store_of_outside h

theorem write32_other {m : Mem} {off k : Nat} {v : BitVec 32} (h : k < off ∨ off + 4 ≤ k) :
    write32 m off v k = m k := store_of_outside h

section Checksums
variable {b : Mem} {lbaddr : SockaddrIn} {tcpLen : Int}

theorem natChecksums_total (hpos : 0 ≤ tcpLen) (hle : (ipHeaderSize : Int) + tcpLen ≤ bufSize) :
    ∃ b', natChecksums b lbaddr tcpLen = .ok b' := by
  have hn : ¬(tcpLen < 0 ∨ (ipHeaderSize : Int) + tcpLen > bufSize) := by omega
  exact ⟨_, by rw [natChecksums, if_neg hn]⟩

theorem natChecksums_frame {b' : Mem} (h : natChecksums b lbaddr tcpLen = .ok b') {k : Nat}
    (hip : k < 10 ∨ 12 ≤ k) (htcp : k < 36 ∨ 38 ≤ k) : b' k = b k := by
  unfold natChecksums at h
  split at h
  · contradiction
  · cases h
    rw [write16_other (by omega), write16_other (by omega), write16_other (by omega),
      write16_other (by omega)]

theorem natChecksums_endpoints {b' : Mem} (h : natChecksums b lbaddr tcpLen = .ok b') :
    endpoints b' = endpoints b := by
  have hk (k : Nat) (hlo : 12 ≤ k) (hhi : k < 24) : b' k = b k :=
    natChecksums_frame h (.inr hlo) (.inl (by omega))
  simp [endpoints, ipSaddr, ipDaddr, tcpSource, tcpDest, read32, read16, hk]

end Checksums

def tcpLen (b : Mem) : Int := totLen b - ihl b * 4

/-- The segment lies inside the packet buffer, so `nat` can copy it. -/
def SegmentFits (b : Mem) : Prop := 0 ≤ tcpLen b ∧ (ipHeaderSize : Int) + tcpLen b ≤ bufSize

instance (b : Mem) : Decidable (SegmentFits b) :=
  inferInstanceAs (Decidable (0 ≤ tcpLen b ∧ (ipHeaderSize : Int) + tcpLen b ≤ bufSize))

section Nat
variable {t : Tables} {b b' : Mem} {lbaddr : SockaddrIn} {j : Fin maxClntCnt}

theorem TcpPacket.fits (h : TcpPacket b) : SegmentFits b := by
  unfold SegmentFits tcpLen
  obtain ⟨hihl, hlen⟩ := h
  have hlt : totLen b < 2 ^ 16 := (swap16 (read16 b 2)).isLt
  have hsize : bufSize = 2 ^ 16 := rfl
  have hheader : ipHeaderSize = 20 := rfl
  omega

theorem nat_clnt2serv_total (h : SegmentFits b) (i : Fin maxServCnt) :
    ∃ b', nat t b j i lbaddr .clnt2serv = .ok b' := by
  simp only [nat, natRewrite, servAt_coe, clntAt_coe, bind, Except.bind, pure, Except.pure]
  exact natChecksums_total h.1 h.2

theorem nat_serv2clnt_total (h : SegmentFits b) (sourceId : Int) :
    ∃ b', nat t b sourceId j lbaddr .serv2clnt = .ok b' := by
  simp only [nat, natRewrite, clntAt_coe, bind, Except.bind, pure, Except.pure]
  exact natChecksums_total h.1 h.2

theorem nat_clnt2serv_endpoints {i : Fin maxServCnt}
    (h : nat t b j i lbaddr .clnt2serv = .ok b') :
    endpoints b' = ⟨lbaddr.addr, BitVec.ofInt 16 (t.clntList j).pseudoPort,
      (t.servList i).ip, (t.servList i).port⟩ := by
  simp only [nat, natRewrite, servAt_coe, clntAt_coe, bind, Except.bind, pure,
    Except.pure] at h
  rw [natChecksums_endpoints h]
  simp [endpoints, ipSaddr, ipDaddr, tcpSource, tcpDest, read32_write16_frame,
    read32_write32_frame, read16_write16_frame]

theorem nat_serv2clnt_endpoints {sourceId : Int}
    (h : nat t b sourceId j lbaddr .serv2clnt = .ok b') :
    endpoints b' = ⟨lbaddr.addr, lbaddr.port, (t.clntList j).ip,
      BitVec.ofInt 16 (t.clntList j).port⟩ := by
  simp only [nat, natRewrite, clntAt_coe, bind, Except.bind, pure, Except.pure] at h
  rw [natChecksums_endpoints h]
  simp [endpoints, ipSaddr, ipDaddr, tcpSource, tcpDest, read32_write16_frame,
    read32_write32_frame, read16_write16_frame]

section Frame
variable {sourceId destId : Int} {dir : Direction} {c : Mem}

/-- What `nat` writes into the headers does not depend on the packet. -/
theorem natRewrite_writes (hrun : natRewrite t b sourceId destId lbaddr dir = .ok c) :
    ∃ daddr dest source, ∀ b', natRewrite t b' sourceId destId lbaddr dir =
      .ok (write16 (write16 (write32 (write32 b' 12 lbaddr.addr) 16 daddr) 22 dest) 20 source) := by
  cases dir with
  | clnt2serv =>
    simp only [natRewrite, bind, Except.bind, pure, Except.pure] at hrun ⊢
    cases hi : servAt destId with
    | error e => simp [hi] at hrun
    | ok i =>
      cases hj : clntAt sourceId with
      | error e => simp [hi, hj] at hrun
      | ok j => exact ⟨_, _, _, fun _ => rfl⟩
  | serv2clnt =>
    simp only [natRewrite, bind, Except.bind, pure, Except.pure] at hrun ⊢
    cases hj : clntAt destId with
    | error e => simp [hj] at hrun
    | ok j => exact ⟨_, _, _, fun _ => rfl⟩

theorem natRewrite_frame (hrun : natRewrite t b sourceId destId lbaddr dir = .ok c) {k : Nat}
    (hk : k < 12 ∨ 24 ≤ k) : c k = b k := by
  obtain ⟨daddr, dest, source, hw⟩ := natRewrite_writes hrun
  obtain rfl := Except.ok.inj (hrun.symm.trans (hw b))
  rw [write16_other (by omega), write16_other (by omega), write32_other (by omega),
    write32_other (by omega)]

theorem nat_eq_ok : nat t b sourceId destId lbaddr dir = .ok b' ↔
    ∃ c, natRewrite t b sourceId destId lbaddr dir = .ok c ∧
      natChecksums c lbaddr (tcpLen b) = .ok b' := bind_eq_ok

/-- `nat` keeps every byte it does not rewrite: the lengths, the TCP flags, the payload. -/
theorem nat_frame (h : nat t b sourceId destId lbaddr dir = .ok b') {k : Nat}
    (hk : ¬Rewritten k) : b' k = b k := by
  simp only [not_or, not_and, not_lt] at hk
  obtain ⟨c, hrun, hsums⟩ := nat_eq_ok.mp h
  rw [natChecksums_frame hsums (by omega) (by omega), natRewrite_frame hrun (by omega)]

end Frame

end Nat

end LoadBalancer
