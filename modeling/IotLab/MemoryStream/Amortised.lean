import IotLab.MemoryStream.Storage

set_option autoImplicit false

namespace MemoryStream
open HostMemory OutputMemoryStream

theorem reserve_grows_iff {s : OutputMemoryStream} {n : Nat} :
    (s.reserve n).mCapacity ≠ s.mCapacity ↔ s.mCapacity < n := by
  rw [reserve_mCapacity]
  split
  · rename_i hgt
    exact iff_of_true (by omega) hgt
  · rename_i hle
    exact iff_of_false (fun h => h rfl) hle

/-- The sizes of the blocks that `ReallocBuffer` replaces in a sequence of calls. -/
def replaced : OutputMemoryStream → List Op → List Nat
  | _, [] => []
  | s, op :: rest =>
    match op.write s with
    | .ok s' => (if s'.mCapacity = s.mCapacity then [] else [s.mCapacity]) ++ replaced s' rest
    | .error _ => []

def Tight (s : OutputMemoryStream) : Prop := s.mCapacity ≤ max 32 (2 * s.mHead)

/-- A call keeps the block, or replaces it by one of at least twice the size that it needs. -/
inductive GrowthStep (s s' : OutputMemoryStream) : Prop where
  | kept (hcap : s'.mCapacity = s.mCapacity) (hhead : s.mHead ≤ s'.mHead)
  | replaced (hcap : s'.mCapacity = max (s.mCapacity * 2) s'.mHead)
      (hfull : s.mCapacity < s'.mHead)

section Step
variable {s s' : OutputMemoryStream} {op : Op} {ops : List Op}

theorem grown_cases {cap n : Nat} (hn : n < 2 ^ 31) :
    grown cap n = cap ∨ grown cap n = max (cap * 2) n ∧ cap < n := by
  unfold grown
  split
  · rename_i hgt
    rw [u32_of_lt (by omega)]
    exact .inr ⟨rfl, hgt⟩
  · exact .inl rfl

theorem Op.growthStep (hs : s.Sized) (hnarrow : op.Narrow)
    (hlt : s.position + op.size < 8 * 2 ^ 31) (hrun : op.write s = .ok s') : GrowthStep s s' := by
  cases op with
  | bytes data =>
    simp only [Op.size, position] at hlt
    rw [Op.write, write_eq hs.capacity.2, if_pos (by omega)] at hrun
    obtain rfl := Except.ok.inj hrun
    rcases @grown_cases s.mCapacity (s.mHead + data.length) (by omega) with hcap | ⟨hcap, hfull⟩
    · exact .kept hcap (Nat.le_add_right _ _)
    · exact .replaced hcap hfull
  | bits v n =>
    simp only [Op.size, position] at hlt
    by_cases hn : s.mBitHead + n < 8
    · rw [Op.write, writeBits_within hn] at hrun
      split at hrun
      · obtain rfl := Except.ok.inj hrun
        exact .kept rfl (Nat.le_refl _)
      · contradiction
    · rw [Op.write, writeBits_across (by omega) hnarrow (by omega), reserve_grown] at hrun
      split at hrun
      · obtain rfl := Except.ok.inj hrun
        rcases @grown_cases s.mCapacity (s.mHead + 1) (by omega) with hcap | ⟨hcap, hfull⟩
        · exact .kept ((reserve_grown _).trans hcap) (Nat.le_succ _)
        · exact .replaced ((reserve_grown _).trans hcap) hfull
      · contradiction

theorem GrowthStep.tight (h : GrowthStep s s') (ht : Tight s) : Tight s' := by
  unfold Tight at ht ⊢
  cases h with
  | kept hcap hhead => omega
  | replaced hcap hfull => omega

/-- Whatever a sequence of calls replaces is paid for by what it ends with: in size, as each block
is at least twice the one before, and in number. -/
theorem replaced_paid (hs : s.Sized) (hnarrow : ∀ op ∈ ops, op.Narrow)
    (hlt : s.position + sizes ops < 8 * 2 ^ 31) (hrun : writeAll s ops = .ok s') (ht : Tight s) :
    s'.Sized ∧ Tight s' ∧ s.mCapacity + (replaced s ops).sum ≤ s'.mCapacity ∧
      s.mCapacity * 2 ^ (replaced s ops).length ≤ s'.mCapacity := by
  induction ops generalizing s with
  | nil =>
    obtain rfl := Except.ok.inj hrun
    exact ⟨hs, ht, by simp [replaced], by simp [replaced]⟩
  | cons op ops ih =>
    simp only [sizes] at hlt
    rcases op.write_inside hs (hnarrow op (by simp)) (by omega) with
      ⟨⟨s₁, hop, hsized, hpos⟩, -⟩ | ⟨⟨e, hop⟩, -⟩
    · rw [writeAll_cons hop] at hrun
      have hgrowth := op.growthStep hs (hnarrow op (by simp)) (by omega) hop
      obtain ⟨hsized', ht', hsum, hpow⟩ := ih hsized (fun op hop => hnarrow op (by simp [hop]))
        (by omega) hrun (hgrowth.tight ht)
      refine ⟨hsized', ht', ?_⟩
      simp only [replaced, hop]
      cases hgrowth with
      | kept hcap hhead =>
        rw [if_pos hcap, List.nil_append, ← hcap]
        exact ⟨hsum, hpow⟩
      | replaced hcap hfull =>
        rw [if_neg (by omega), List.singleton_append, List.sum_cons, List.length_cons, pow_succ']
        refine ⟨by omega, le_trans ?_ hpow⟩
        rw [← Nat.mul_assoc]
        exact Nat.mul_le_mul_right _ (by omega)
    · simp only [writeAll, List.foldlM_cons, hop] at hrun
      contradiction

end Step

/-- A sequence of writes on a fresh stream ends with a block at most twice as large as what was
written, or the first one; all that was ever copied is less than that, and the number of times is
the logarithm. -/
theorem growth_amortised (heap : Mem) {ops : List Op} {s : OutputMemoryStream}
    (hnarrow : ∀ op ∈ ops, op.Narrow) (hlt : sizes ops < 8 * 2 ^ 31)
    (hrun : writeAll (.new heap) ops = .ok s) :
    s.mCapacity ≤ max 32 (2 * s.getLength) ∧
      (replaced (.new heap) ops).sum + 32 ≤ s.mCapacity ∧
      32 * 2 ^ (replaced (.new heap) ops).length ≤ s.mCapacity := by
  have hstart : (OutputMemoryStream.new heap).position = 0 := rfl
  obtain ⟨hsized, htight, hsum, hpow⟩ := replaced_paid (new_sized heap) hnarrow (by omega) hrun
    (Nat.le_max_left _ _)
  refine ⟨htight.trans (max_le_max_left 32 (Nat.mul_le_mul_left 2 ?_)), ?_, hpow⟩
  · rw [getLength_eq hsized.length, position]
    omega
  · have hfirst : (OutputMemoryStream.new heap).mCapacity = 32 := rfl
    omega

def demoWrites : List Op :=
  [.bytes (List.replicate 40 7), .bits 1 3, .bytes (List.replicate 30 7)]

theorem growth_amortised_demo : ∃ s, writeAll (.new fun _ => 0) demoWrites = .ok s ∧
    replaced (.new fun _ => 0) demoWrites = [32, 64] ∧ s.mCapacity ≤ max 32 (2 * s.getLength) := by
  have hrun : ∃ s, writeAll (.new fun _ => 0) demoWrites = .ok s := ⟨_, rfl⟩
  obtain ⟨s, hs⟩ := hrun
  refine ⟨s, hs, rfl, (growth_amortised _ ?_ (by decide) hs).1⟩
  simp [demoWrites, Op.Narrow]

end MemoryStream
