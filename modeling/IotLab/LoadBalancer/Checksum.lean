import IotLab.LoadBalancer.Rewrite
import IotLab.LoadBalancer.Steps

set_option autoImplicit false

namespace LoadBalancer
open SlotTable HostMemory

theorem checksumSum_add (l : List Byte) (sum d : BitVec 32) :
    checksumSum l (sum + d) = checksumSum l sum + d := by
  induction l, sum using checksumSum.induct with
  | case1 a b rest sum ih =>
    rw [checksumSum, checksumSum, ← ih]
    congr 1
    ac_rfl
  | case2 a sum =>
    rw [checksumSum, checksumSum]
    ac_rfl
  | case3 sum => rfl

def checksumWeight (i : Nat) : BitVec 32 := if i % 2 = 0 then 1 else 256

theorem word_toNat (a b : Byte) : (b ++ a : BitVec 16).toNat = b.toNat * 256 + a.toNat := by
  rw [BitVec.toNat_append, ← Nat.shiftLeft_add_eq_or_of_lt a.isLt, Nat.shiftLeft_eq]

theorem word_low (b : Byte) : (b ++ (1 : Byte) : BitVec 16).setWidth 32 =
    (b ++ (0 : Byte) : BitVec 16).setWidth 32 + 1 := by
  have hb := b.isLt
  refine BitVec.eq_of_toNat_eq ?_
  simp only [BitVec.toNat_setWidth, BitVec.toNat_add, word_toNat, BitVec.ofNat_eq_ofNat,
    BitVec.toNat_ofNat]
  omega

theorem word_high (a : Byte) : ((1 : Byte) ++ a : BitVec 16).setWidth 32 =
    ((0 : Byte) ++ a : BitVec 16).setWidth 32 + 256 := by
  have ha := a.isLt
  refine BitVec.eq_of_toNat_eq ?_
  simp only [BitVec.toNat_setWidth, BitVec.toNat_add, word_toNat, BitVec.ofNat_eq_ofNat,
    BitVec.toNat_ofNat]
  omega

theorem checksumSum_set {l : List Byte} {i : Nat} (h : i < l.length) (sum : BitVec 32) :
    checksumSum (l.set i 1) sum = checksumSum (l.set i 0) sum + checksumWeight i := by
  induction l, sum using checksumSum.induct generalizing i with
  | case1 a b rest sum ih =>
    rcases i with _ | _ | i
    · have hw : checksumWeight 0 = 1 := rfl
      simp only [List.set_cons_zero, checksumSum, word_low, hw]
      rw [← checksumSum_add, BitVec.add_assoc]
    · have hw : checksumWeight (0 + 1) = 256 := rfl
      simp only [List.set_cons_succ, List.set_cons_zero, checksumSum, word_high, hw]
      rw [← checksumSum_add, BitVec.add_assoc]
    · have hw : checksumWeight (i + 1 + 1) = checksumWeight i := by
        simp [checksumWeight, Nat.add_assoc]
      simp only [List.set_cons_succ, checksumSum, hw]
      exact ih (by simpa using h)
  | case2 a sum =>
    have hi : i = 0 := by simpa using h
    subst hi
    have hw : checksumWeight 0 = 1 := rfl
    have hone : (1 : Byte).setWidth 32 = (0 : Byte).setWidth 32 + (1 : BitVec 32) := by decide
    simp only [List.set_cons_zero, checksumSum, hw]
    rw [hone, BitVec.add_assoc]
  | case3 sum => simp at h

/-- The carries added once, as `checksum` does. -/
def checksumFold (sum : BitVec 32) : BitVec 32 := (sum &&& 0xffff) + (sum >>> 16)

theorem checksumFold_toNat (sum : BitVec 32) :
    (checksumFold sum).toNat = sum.toNat % 65536 + sum.toNat / 65536 := by
  have hlt := sum.isLt
  have hand : sum.toNat &&& 65535 = sum.toNat % 65536 := Nat.and_two_pow_sub_one_eq_mod _ 16
  have hmask : ((65535 : Nat) : BitVec 32).toNat = 65535 := rfl
  simp only [checksumFold, BitVec.toNat_add, BitVec.toNat_and, BitVec.toNat_ushiftRight, hmask,
    Nat.shiftRight_eq_div_pow]
  omega

theorem checksum_low (sum : BitVec 32) :
    ((~~~checksumFold (sum + 1)).setWidth 16).extractLsb' 0 8 ≠
      ((~~~checksumFold sum).setWidth 16).extractLsb' 0 8 := by
  intro h
  have h := congrArg BitVec.toNat h
  have hlt := sum.isLt
  have hsum : (sum + 1).toNat = (sum.toNat + 1) % 2 ^ 32 := by simp [BitVec.toNat_add]
  simp only [BitVec.extractLsb'_toNat, BitVec.toNat_setWidth, BitVec.toNat_not,
    checksumFold_toNat, hsum, Nat.shiftRight_zero] at h
  omega

theorem checksum_high (sum : BitVec 32) :
    (~~~checksumFold (sum + 256)).setWidth 16 ≠ (~~~checksumFold sum).setWidth 16 := by
  intro h
  have h := congrArg BitVec.toNat h
  have hlt := sum.isLt
  have hsum : (sum + 256).toNat = (sum.toNat + 256) % 2 ^ 32 := by simp [BitVec.toNat_add]
  simp only [BitVec.toNat_setWidth, BitVec.toNat_not, checksumFold_toNat, hsum] at h
  omega

section Agree
variable {P : Nat → Prop} {t : Tables} {b b' c : Mem} {sourceId destId : Int}
  {lbaddr : SockaddrIn} {dir : Direction}

theorem tcpLen_agree (h : AgreeOn P b b') (hP : ∀ k, k < 4 → P k) : tcpLen b = tcpLen b' := by
  rw [tcpLen, tcpLen, totLen, totLen, ihl, ihl, h 0 (hP 0 (by omega)),
    h.read16 (fun k _ hk => hP k (by omega))]

theorem natRewrite_agree (h : AgreeOn P b b')
    (hrun : natRewrite t b sourceId destId lbaddr dir = .ok c) :
    ∃ c', natRewrite t b' sourceId destId lbaddr dir = .ok c' ∧ AgreeOn P c c' := by
  obtain ⟨daddr, dest, source, hw⟩ := natRewrite_writes hrun
  obtain rfl := Except.ok.inj (hrun.symm.trans (hw b))
  exact ⟨_, hw b', (((h.write32 12 _).write32 16 _).write16 22 _).write16 20 _⟩

def checksumInput (b : Mem) (lbaddr : SockaddrIn) (len : Nat) : List Byte :=
  let b := write16 (write16 b 10 0) 36 0
  makePseudoHeader lbaddr.addr (ipDaddr b) 6 len ++ load b ipHeaderSize len

theorem natChecksums_eq {len : Int} :
    natChecksums b lbaddr len = if len < 0 ∨ (ipHeaderSize : Int) + len > bufSize then
      .error .badCopy
    else
      let b' := write16 (write16 (write16 b 10 0) 36 0) 36
        (checksum (checksumInput b lbaddr len.toNat))
      .ok (write16 b' 10 (checksum (load b' 0 ipHeaderSize))) := rfl

theorem nat_fits {b' : Mem} (hrun : nat t b sourceId destId lbaddr dir = .ok b') :
    SegmentFits b := by
  obtain ⟨c, _, hsums⟩ := nat_eq_ok.mp hrun
  rw [natChecksums_eq] at hsums
  split at hsums
  · contradiction
  · rename_i hlen
    unfold SegmentFits
    omega

/-- The first `n` bytes of the packet that `nat` makes do not depend on anything behind the
first `n` bytes of the buffer. -/
def ChecksumRead (n : Nat) (b : Mem) : Prop :=
  n ≤ 36 ∨ (ipHeaderSize : Int) + tcpLen b ≤ (max n 38 : Nat)

instance (n : Nat) (b : Mem) : Decidable (ChecksumRead n b) :=
  inferInstanceAs (Decidable (n ≤ 36 ∨ (ipHeaderSize : Int) + tcpLen b ≤ (max n 38 : Nat)))

theorem checksumInput_agree {n : Nat} {len : Nat} (hn : 36 < n)
    (hlen : ipHeaderSize + len ≤ max n 38) (h : AgreeOn (· < n) b b') :
    checksumInput b lbaddr len = checksumInput b' lbaddr len := by
  have h20 : ipHeaderSize = 20 := rfl
  -- The checksum field itself counts as zero, whether it was received or not.
  have hzero : AgreeOn (· < max n 38) (write16 (write16 b 10 0) 36 0)
      (write16 (write16 b' 10 0) 36 0) := by
    intro k hk
    refine store_at (fun hout => store_at (fun _ => h k ?_))
    simp only [bytes16_length] at hout
    omega
  have hdaddr :
      ipDaddr (write16 (write16 b 10 0) 36 0) = ipDaddr (write16 (write16 b' 10 0) 36 0) :=
    hzero.read32 (fun k _ hk => by omega)
  simp only [checksumInput]
  rw [hdaddr, hzero.load (fun k _ hk => by omega)]

theorem natChecksums_agree {n : Nat} {b₁ : Mem} {len : Int} (hn : 24 ≤ n)
    (hcov : n ≤ 36 ∨ (ipHeaderSize : Int) + len ≤ (max n 38 : Nat))
    (h : AgreeOn (· < n) b b') (hrun : natChecksums b lbaddr len = .ok b₁) :
    ∃ b₂, natChecksums b' lbaddr len = .ok b₂ ∧ AgreeOn (· < n) b₁ b₂ := by
  rw [natChecksums_eq] at hrun
  split at hrun
  · contradiction
  rename_i hlen
  rw [natChecksums_eq, if_neg hlen]
  obtain rfl := Except.ok.inj hrun
  refine ⟨_, rfl, ?_⟩
  have h20 : ipHeaderSize = 20 := rfl
  have hsum : AgreeOn (· < n)
      (write16 (write16 (write16 b 10 0) 36 0) 36 (checksum (checksumInput b lbaddr len.toNat)))
      (write16 (write16 (write16 b' 10 0) 36 0) 36
        (checksum (checksumInput b' lbaddr len.toNat))) := by
    by_cases hn36 : n ≤ 36
    · intro k hk
      have hout (m : Mem) (v : BitVec 16) : write16 m 36 v k = m k := write16_other (by omega)
      simp only [hout]
      exact h.write16 10 0 k hk
    · have hcov := hcov.resolve_left hn36
      rw [checksumInput_agree (by omega) (by omega) h]
      exact (((h.write16 10 0).write16 36 0).write16 36 _)
  rw [hsum.load (fun k _ hk => by omega)]
  exact hsum.write16 10 _

theorem nat_agree {n : Nat} {b₁ : Mem} (hn : 24 ≤ n) (hcov : ChecksumRead n b)
    (h : AgreeOn (· < n) b b') (hrun : nat t b sourceId destId lbaddr dir = .ok b₁) :
    ∃ b₂, nat t b' sourceId destId lbaddr dir = .ok b₂ ∧ AgreeOn (· < n) b₁ b₂ := by
  obtain ⟨c, hrewrite, hsums⟩ := nat_eq_ok.mp hrun
  obtain ⟨c', hrewrite', hc⟩ := natRewrite_agree h hrewrite
  obtain ⟨b₂, hsums', hb⟩ := natChecksums_agree hn hcov hc hsums
  rw [tcpLen_agree h (fun k hk => by omega)] at hsums'
  exact ⟨b₂, nat_eq_ok.mpr ⟨c', hrewrite', hsums'⟩, hb⟩

end Agree

theorem checksum_set_even {l : List Byte} {i : Nat} (h : i < l.length) (heven : i % 2 = 0) :
    (checksum (l.set i 1)).extractLsb' 0 8 ≠ (checksum (l.set i 0)).extractLsb' 0 8 := by
  have hsum := checksumSum_set h 0
  rw [checksumWeight, if_pos heven] at hsum
  have hne := checksum_low (checksumSum (l.set i 0) 0)
  rw [← hsum] at hne
  exact hne

theorem checksum_set_odd {l : List Byte} {i : Nat} (h : i < l.length) (hodd : ¬i % 2 = 0) :
    checksum (l.set i 1) ≠ checksum (l.set i 0) := by
  have hsum := checksumSum_set h 0
  rw [checksumWeight, if_neg hodd] at hsum
  have hne := checksum_high (checksumSum (l.set i 0) 0)
  rw [← hsum] at hne
  exact hne

section Sensitive
variable {t : Tables} {b : Mem} {sourceId destId : Int} {lbaddr : SockaddrIn} {dir : Direction}
  {k : Nat} {v : Byte}

theorem store_update {off : Nat} {bs : List Byte} (h : k < off ∨ off + bs.length ≤ k) :
    store (Function.update b k v) off bs = Function.update (store b off bs) k v := by
  funext i
  by_cases hik : i = k
  · subst hik
    rw [store_of_outside h, Function.update_self, Function.update_self]
  · rw [Function.update_of_ne hik]
    exact store_at (fun _ => Function.update_of_ne hik ..)

theorem checksumInput_update (hk : 38 ≤ k) (len : Nat) :
    checksumInput (Function.update b k v) lbaddr len =
      (checksumInput b lbaddr len).set (k - 8) v := by
  have hzero : write16 (write16 (Function.update b k v) 10 0) 36 0 =
      Function.update (write16 (write16 b 10 0) 36 0) k v := by
    simp only [write16]
    rw [store_update (.inr (by simp; omega)), store_update (.inr (by simp; omega))]
  have hdaddr : ipDaddr (Function.update (write16 (write16 b 10 0) 36 0) k v) =
      ipDaddr (write16 (write16 b 10 0) 36 0) := by
    have hagree : AgreeOn (· ≠ k) (Function.update (write16 (write16 b 10 0) 36 0) k v)
        (write16 (write16 b 10 0) 36 0) := fun i hi => Function.update_of_ne hi ..
    exact hagree.read32 (fun i _ hi => by omega)
  have hidx : k - 8 - 12 = k - 20 := by omega
  simp only [checksumInput, hzero, hdaddr]
  rw [load_update (show ipHeaderSize ≤ k from by unfold ipHeaderSize; omega),
    List.set_append_right _ _ (show 12 ≤ k - 8 by omega)]
  exact congrArg (fun i => _ ++ List.set _ i _) hidx.symm

theorem checksumInput_length (len : Nat) : (checksumInput b lbaddr len).length = 12 + len := by
  simp only [checksumInput, List.length_append, load_length]
  rfl

theorem natChecksums_field {len : Int} {b' : Mem}
    (h : natChecksums b lbaddr len = .ok b') :
    b' 36 = (checksum (checksumInput b lbaddr len.toNat)).extractLsb' 0 8 ∧
      b' 37 = (checksum (checksumInput b lbaddr len.toNat)).extractLsb' 8 8 := by
  rw [natChecksums_eq] at h
  split at h
  · contradiction
  · obtain rfl := Except.ok.inj h
    constructor
    · rw [write16_other (by omega)]
      exact store_of_inside (k := 0) (by simp)
    · rw [write16_other (by omega)]
      exact store_of_inside (k := 1) (by simp)

theorem natRewrite_update {v w : Byte} {d₀ d₁ : Mem} (hk : 24 ≤ k)
    (h₀ : natRewrite t (Function.update b k v) sourceId destId lbaddr dir = .ok d₀)
    (h₁ : natRewrite t (Function.update b k w) sourceId destId lbaddr dir = .ok d₁) :
    ∃ d, d₀ = Function.update d k v ∧ d₁ = Function.update d k w := by
  obtain ⟨daddr, dest, source, hw⟩ := natRewrite_writes h₀
  have hupdate (x : Byte) :
      write16 (write16 (write32 (write32 (Function.update b k x) 12 lbaddr.addr) 16 daddr) 22
        dest) 20 source =
      Function.update (write16 (write16 (write32 (write32 b 12 lbaddr.addr) 16 daddr) 22 dest) 20
        source) k x := by
    simp only [write16, write32]
    rw [store_update (.inr (by simp; omega)), store_update (.inr (by simp; omega)),
      store_update (.inr (by simp; omega)), store_update (.inr (by simp; omega))]
  exact ⟨_, (Except.ok.inj (h₀.symm.trans (hw _))).trans (hupdate v),
    (Except.ok.inj (h₁.symm.trans (hw _))).trans (hupdate w)⟩

theorem nat_sensitive {n : Nat} {c₀ c₁ : Mem} (hcov : ¬ChecksumRead n b)
    (h₀ : nat t (Function.update b (max n 38) 0) sourceId destId lbaddr dir = .ok c₀)
    (h₁ : nat t (Function.update b (max n 38) 1) sourceId destId lbaddr dir = .ok c₁) :
    ∃ k, k < n ∧ c₀ k ≠ c₁ k := by
  obtain ⟨hn, hlen⟩ := not_or.mp hcov
  have h20 : ipHeaderSize = 20 := rfl
  obtain ⟨d₀, hr₀, hs₀⟩ := nat_eq_ok.mp h₀
  obtain ⟨d₁, hr₁, hs₁⟩ := nat_eq_ok.mp h₁
  have htcp (v : Byte) : tcpLen (Function.update b (max n 38) v) = tcpLen b :=
    @tcpLen_agree (· ≠ max n 38) _ _ (fun i hi => Function.update_of_ne hi ..)
      (fun i hi => by omega)
  obtain ⟨d, hd₀, hd₁⟩ := natRewrite_update (by omega) hr₀ hr₁
  rw [htcp, hd₀] at hs₀
  rw [htcp, hd₁] at hs₁
  have hin : max n 38 - 8 < (checksumInput d lbaddr (tcpLen b).toNat).length := by
    rw [checksumInput_length]
    omega
  obtain ⟨hlo₀, hhi₀⟩ := natChecksums_field hs₀
  obtain ⟨hlo₁, hhi₁⟩ := natChecksums_field hs₁
  rw [checksumInput_update (by omega)] at hlo₀ hhi₀ hlo₁ hhi₁
  by_cases heven : (max n 38 - 8) % 2 = 0
  · refine ⟨36, by omega, fun heq => ?_⟩
    rw [hlo₀, hlo₁] at heq
    exact checksum_set_even hin heven heq.symm
  · by_contra hall
    have hsame (k : Nat) (hk : k < n) : c₀ k = c₁ k :=
      Classical.not_not.mp (fun hne => hall ⟨k, hk, hne⟩)
    have hlo := hsame 36 (by omega)
    have hhi := hsame 37 (by omega)
    rw [hlo₀, hlo₁] at hlo
    rw [hhi₀, hhi₁] at hhi
    refine checksum_set_odd hin heven ?_
    rw [← bytes16_append (checksum (List.set _ _ 1)), ← bytes16_append (checksum (List.set _ _ 0)),
      hlo, hhi]

end Sensitive

end LoadBalancer
