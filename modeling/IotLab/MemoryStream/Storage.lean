import IotLab.MemoryStream.RoundTrip

set_option autoImplicit false

namespace MemoryStream
open HostMemory OutputMemoryStream

def EachCall (ok : OutputMemoryStream → Op → Prop) : OutputMemoryStream → List Op → Prop
  | _, [] => True
  | s, op :: rest => ok s op ∧ ∀ s', op.write s = .ok s' → EachCall ok s' rest

def StaysInside (s : OutputMemoryStream) (ops : List Op) : Prop :=
  ∀ before after, ops = before ++ after →
    ∃ s', writeAll s before = .ok s' ∧ s'.mHead ≤ s'.mCapacity

/-- A field inside the byte at the head finds that byte in the buffer; one that reaches the end
of the byte does not find it to be the last of the buffer. -/
def Op.Fits (s : OutputMemoryStream) : Op → Prop
  | .bytes _ => True
  | .bits _ n => (s.mBitHead.val + n < 8 → s.mHead < s.mCapacity) ∧
    (8 ≤ s.mBitHead.val + n → s.mHead + 1 ≠ s.mCapacity)

def Op.size : Op → Nat
  | .bytes data => 8 * data.length
  | .bits _ n => n

def sizes : List Op → Nat
  | [] => 0
  | op :: rest => op.size + sizes rest

def Op.Narrow : Op → Prop
  | .bytes _ => True
  | .bits _ n => n ≤ 8

section Step
variable {s s' : OutputMemoryStream} {op : Op}

theorem write_total (hs : s.Sized) {data : List Byte}
    (hlt : s.position + (Op.bytes data).size < 2 ^ 34) : ∃ s', s.write data = .ok s' ∧
      s'.Sized ∧ s'.position = s.position + (Op.bytes data).size := by
  simp only [Op.size, position] at hlt
  have hlen : s.mHead + data.length < 2 ^ 32 := by omega
  refine ⟨_, (write_eq hs.capacity.2 data).trans (if_pos hlen),
    ⟨le_grown _ _, grown_capacity hs hlen, fun _ => ?_⟩, ?_⟩
  · simp only
    omega
  · simp only [Op.size, position]
    omega

theorem writeBits_inside (hs : s.Sized) {v : Byte} {n : Nat} (hn : s.mBitHead + n < 8)
    (hlt : s.position + n < 2 ^ 34) (h : s.writeBits v n = .ok s') :
    s'.Sized ∧ s'.position = s.position + n := by
  rw [writeBits_within hn] at h
  split at h
  · cases h
    simp only [position] at hlt ⊢
    exact ⟨⟨hs.head, hs.capacity, fun _ => by simp only; omega⟩, by omega⟩
  · contradiction

/-- With room behind the byte at the head, or none for it, a field reaches the next byte. -/
theorem writeBits_reaches (hs : s.Sized) {v : Byte} {n : Nat} (hn8 : n ≤ 8)
    (hn : 8 ≤ s.mBitHead + n) (hlt : s.position + n < 2 ^ 34)
    (hne : s.mHead + 1 ≠ s.mCapacity) : ∃ s', s.writeBits v n = .ok s' ∧
      s'.Sized ∧ s'.position = s.position + n := by
  simp only [position] at hlt
  obtain ⟨s', hrun, hmoves, hhead, hbit, -⟩ := @write_across_moves s hs v n (by omega) hn8 hn hne
    (by omega)
  refine ⟨s', hrun, hmoves.sized, ?_⟩
  simp only [position, hhead, hbit]
  omega

theorem writeBits_beyond {v : Byte} {n : Nat} (hn8 : n ≤ 8) (hn : 8 ≤ s.mBitHead + n)
    (hcap : s.mCapacity < 2 ^ 32) (heq : s.mHead + 1 = s.mCapacity) :
    s.writeBits v n = .error .outOfBounds := by
  rw [writeBits_across_full hn hn8 (by omega) hcap, if_neg (by omega)]

theorem Op.write_inside (hs : s.Sized) (hnarrow : op.Narrow)
    (hlt : s.position + op.size < 2 ^ 34) :
    (∃ s', op.write s = .ok s' ∧ s'.Sized ∧ s'.position = s.position + op.size) ∧ op.Fits s ∨
      (∃ e, op.write s = .error e) ∧ ¬op.Fits s := by
  cases op with
  | bytes data => exact .inl ⟨write_total hs hlt, trivial⟩
  | bits v n =>
    by_cases hn : s.mBitHead + n < 8
    · cases hrun : s.writeBits v n with
      | ok s' =>
        refine .inl ⟨⟨s', hrun, writeBits_inside hs hn hlt hrun⟩, fun _ => ?_, by omega⟩
        rw [writeBits_within hn] at hrun
        split at hrun
        · assumption
        · contradiction
      | error e =>
        refine .inr ⟨⟨e, hrun⟩, fun hfits => ?_⟩
        rw [writeBits_within hn, if_pos (hfits.1 hn)] at hrun
        contradiction
    · by_cases hne : s.mHead + 1 = s.mCapacity
      · exact .inr ⟨⟨_, writeBits_beyond hnarrow (by omega) hs.capacity.2 hne⟩,
          fun hfits => hfits.2 (by omega) hne⟩
      · exact .inl ⟨writeBits_reaches hs hnarrow (by omega) hlt hne, by omega, fun _ => hne⟩

end Step

section Runs
variable {s : OutputMemoryStream} {op : Op} {ops : List Op}

theorem StaysInside.cons_iff : StaysInside s (op :: ops) ↔
    s.mHead ≤ s.mCapacity ∧ ∃ s', op.write s = .ok s' ∧ StaysInside s' ops := by
  constructor
  · intro h
    obtain ⟨s₀, hrun₀, hle⟩ := h [] (op :: ops) rfl
    cases hrun₀
    obtain ⟨s', hrun, -⟩ := h [op] ops rfl
    have hop : op.write s = .ok s' := by
      cases hop : op.write s with
      | error e =>
        simp only [writeAll, List.foldlM_cons, hop] at hrun
        contradiction
      | ok s₁ =>
        rw [writeAll_cons hop] at hrun
        exact hrun
    refine ⟨hle, s', hop, fun before after hops => ?_⟩
    obtain ⟨s'', hrun'', hle''⟩ := h (op :: before) after (by rw [hops]; rfl)
    rw [writeAll_cons hop] at hrun''
    exact ⟨s'', hrun'', hle''⟩
  · rintro ⟨hle, s', hop, h⟩ before after hops
    cases before with
    | nil => exact ⟨s, rfl, hle⟩
    | cons op' before =>
      obtain ⟨rfl, hrest⟩ := List.cons.inj hops
      rw [writeAll_cons hop]
      exact h before after hrest

theorem staysInside_iff_fits (hs : s.Sized) (hnarrow : ∀ op ∈ ops, op.Narrow)
    (hlt : s.position + sizes ops < 2 ^ 34) :
    StaysInside s ops ↔ EachCall (fun s op => op.Fits s) s ops := by
  induction ops generalizing s with
  | nil =>
    refine iff_of_true (fun before after hops => ?_) trivial
    obtain ⟨rfl, -⟩ := List.append_eq_nil_iff.mp hops.symm
    exact ⟨s, rfl, hs.head⟩
  | cons op ops ih =>
    simp only [sizes] at hlt
    rw [StaysInside.cons_iff]
    rcases op.write_inside hs (hnarrow op (by simp)) (by omega) with
      ⟨⟨s', hrun, hsized, hpos⟩, hfits⟩ | ⟨⟨e, hrun⟩, hnot⟩
    · have hrest : StaysInside s' ops ↔ EachCall (fun s op => op.Fits s) s' ops :=
        ih hsized (fun op hop => hnarrow op (by simp [hop])) (by omega)
      simp only [EachCall, hrun, Except.ok.injEq, exists_eq_left', forall_eq', hrest]
      exact ⟨fun h => ⟨hfits, h.2⟩, fun h => ⟨hs.head, h.2⟩⟩
    · refine iff_of_false ?_ (fun h => hnot h.1)
      rintro ⟨-, s', hok, -⟩
      rw [hrun] at hok
      contradiction

end Runs

/-- A sequence of writes on a fresh stream stays inside the buffer exactly when each field finds
its bytes there. -/
theorem storage_inside_iff (heap : Mem) {ops : List Op} (hnarrow : ∀ op ∈ ops, op.Narrow)
    (hlt : sizes ops < 8 * 2 ^ 31) :
    StaysInside (.new heap) ops ↔ EachCall (fun s op => op.Fits s) (.new heap) ops := by
  refine staysInside_iff_fits (new_sized heap) hnarrow ?_
  have hstart : (OutputMemoryStream.new heap).position = 0 := rfl
  omega

def growingOps : List Op :=
  [.bytes (List.replicate 30 7), .bits 5 3, .bits 9 7, .bytes (List.replicate 20 1), .bits 1 6]

theorem storage_inside_growing : StaysInside (.new fun _ => 0) growingOps ∧
    ∃ s, writeAll (.new fun _ => 0) growingOps = .ok s ∧ s.mHead = 52 ∧ s.mCapacity = 64 := by
  refine ⟨(storage_inside_iff _ (by simp [growingOps, Op.Narrow]) (by decide)).mpr ?_,
    _, rfl, rfl, rfl⟩
  refine ⟨trivial, ?_⟩
  rintro _ ⟨⟩
  refine ⟨⟨fun _ => by decide, fun h => absurd h (by decide)⟩, ?_⟩
  rintro _ ⟨⟩
  refine ⟨⟨fun h => absurd h (by decide), fun _ => by decide⟩, ?_⟩
  rintro _ ⟨⟩
  refine ⟨trivial, ?_⟩
  rintro _ ⟨⟩
  exact ⟨⟨fun h => absurd h (by decide), fun _ => by decide⟩, fun _ _ => trivial⟩

/-- A whole byte behind 31 bytes: the byte behind the buffer is written. -/
theorem byte_behind_buffer :
    writeAll (.new fun _ => 0) [.bytes (List.replicate 31 0), .bits 1 8] =
      .error .outOfBounds ∧
    ¬StaysInside (.new fun _ => 0) [.bytes (List.replicate 31 0), .bits 1 8] := by
  have hrun : writeAll (.new fun _ => 0) [.bytes (List.replicate 31 0), .bits 1 8] =
      .error .outOfBounds := rfl
  refine ⟨hrun, fun h => ?_⟩
  obtain ⟨s, hs, -⟩ := h _ [] (List.append_nil _).symm
  rw [hrun] at hs
  contradiction

end MemoryStream
