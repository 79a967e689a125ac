import IotLab.SimpleWsClient.Response

set_option autoImplicit false

namespace SimpleWsClient
open HostMemory WebSocketFrame

/-- All bytes read were received. The message is taken after one `recv`, so the frame that the
bytes announce must have come whole; a length in the 64-bit form is the one in its bytes. -/
structure Response.Sound (r : Response) (received : List Byte) : Prop where
  inside : ∀ i ∈ r.reads, i < received.length
  whole : ∃ n, frameSpan received = some n ∧ n ≤ received.length
  length64 : (received.getD 1 0 &&& 0x7f).toNat = 127 →
    r.payloadLen = beValue ((received.drop 2).take 8)

def Robust (signed : Bool) (old : Mem) (got : Option (List Byte)) : Prop :=
  ∃ r, decodeResponse signed (recv old got) = .ok r ∧ r.Sound (got.getD [])

/-- The bytes hold the whole frame that they announce, its length in the 64-bit form is 127, and
where a plain `char` is signed its mask bit is clear. -/
structure HeldWhole (signed : Bool) (received : List Byte) : Prop where
  whole : ∃ n, frameSpan received = some n ∧ n ≤ received.length
  length64 : (received.getD 1 0 &&& 0x7f).toNat = 127 →
    beValue ((received.drop 2).take 8) = 127
  plain : signed = true → received.getD 1 0 &&& 0x80 = 0

section Span
variable {received : List Byte} {n : Nat}

theorem frameSpan_eq_some (h : frameSpan received = some n) : ∃ first second bs k len,
    received = first :: second :: bs ∧ announcedLength second bs = some (k, len) ∧
      n = 2 + k + keyLength second + len := by
  match received, h with
  | first :: second :: bs, h =>
    obtain ⟨⟨k, len⟩, hlength, hn⟩ := Option.map_eq_some_iff.mp h
    exact ⟨first, second, bs, k, len, rfl, hlength, hn.symm⟩

theorem readBe_eq_some {k v : Nat} {bs rest : List Byte} (h : readBe k bs = some (v, rest)) :
    v = beValue (bs.take k) := by
  unfold readBe at h
  split at h
  · cases h
    rfl
  · contradiction

theorem announcedLength_form64 {second : Byte} {bs : List Byte} {k len : Nat}
    (hform : (second &&& 0x7f).toNat = 127) (h : announcedLength second bs = some (k, len)) :
    k = 8 ∧ len = beValue (bs.take 8) := by
  rw [announcedLength, hform, if_neg (by decide), if_neg (by decide)] at h
  obtain ⟨⟨v, rest⟩, hread, hr⟩ := Option.map_eq_some_iff.mp h
  simp only [Prod.mk.injEq] at hr
  exact ⟨hr.1.symm, hr.2.symm.trans (readBe_eq_some hread)⟩

theorem announcedLength_lt {second : Byte} {bs : List Byte} {k len : Nat}
    (hform : (second &&& 0x7f).toNat ≠ 127) (h : announcedLength second bs = some (k, len)) :
    len < 65536 := by
  have hlt := lowSeven_lt second
  simp only [announcedLength] at h
  split at h
  · simp only [Option.some.injEq, Prod.mk.injEq] at h
    omega
  · rw [if_pos (by omega)] at h
    obtain ⟨⟨v, rest⟩, hread, hr⟩ := Option.map_eq_some_iff.mp h
    simp only [Prod.mk.injEq] at hr
    rw [← hr.2, readBe_eq_some hread]
    exact beValue_take_lt 2 bs

end Span

section Reads
variable {signed : Bool} {old : Mem} {received : List Byte}

theorem decodeResponse_masked {r : Response} {got : Option (List Byte)}
    (h : decodeResponse signed (recv old got) = .ok r) (hlen : 2 ≤ (got.getD []).length) :
    signed = true → (got.getD []).getD 1 0 &&& 0x80 = 0 := by
  rintro rfl
  by_contra hmask
  have hsecond : recv old got 1 = (got.getD []).getD 1 0 := store_start hlen
  have hhuge := ptrdiffMax_le_lengthByte _ hmask
  have hlt := (decodeResponse_eq_ok.mp h).1
  have hbig : 127 < ptrdiffMax := by decide
  rw [readHeader, hsecond, if_neg (by omega), if_neg (by omega)] at hlt
  exact absurd hlt (Nat.not_lt_of_le hhuge)

theorem takeMessage_reads_lt {m : Mem} {header : Header} {n i : Nat}
    (hheader : ∀ j ∈ header.reads, j < n) (hsrc : header.iterator + header.payloadLen ≤ n)
    (hi : i ∈ (takeMessage m header).reads) : i < n := by
  rcases List.mem_append.mp hi with hi | hi
  · exact hheader i hi
  · obtain ⟨j, hj, rfl⟩ := List.mem_map.mp hi
    have hlt := List.mem_range.mp hj
    have hle := @strncpy_length_le m header.iterator header.payloadLen
    omega

theorem HeldWhole.robust (h : HeldWhole signed received) : Robust signed old (some received) := by
  obtain ⟨n, hspan, hle⟩ := h.whole
  obtain ⟨first, second, bs, k, len, rfl, hlength, rfl⟩ := frameSpan_eq_some hspan
  have hplain : signed = true → second &&& 0x80 = 0 := h.plain
  have hheader := @readHeader_eq _ old first _ _ _ _ hplain hlength
  by_cases hform : (second &&& 0x7f).toNat = 127
  · -- The length is not read, and happens to be the 127 that announces this form.
    obtain ⟨rfl, hvalue⟩ := announcedLength_form64 hform hlength
    have hlen : beValue (bs.take 8) = 127 := h.length64 hform
    rw [if_pos hform] at hheader
    refine ⟨_, decodeResponse_eq_ok.mpr ⟨?_, rfl⟩, ?_, h.whole, fun _ => ?_⟩
    · rw [hheader]
      decide
    · intro i hi
      rw [hheader] at hi
      simp only [Option.getD_some, List.length_cons] at hle ⊢
      exact takeMessage_reads_lt (by simp) (by simp only; omega) hi
    · rw [hheader]
      exact hlen.symm
  · rw [if_neg hform] at hheader
    refine ⟨_, decodeResponse_eq_ok.mpr ⟨?_, rfl⟩, ?_, h.whole, fun hf => absurd hf hform⟩
    · rw [hheader]
      exact Nat.lt_trans (announcedLength_lt hform hlength) (by decide)
    · intro i hi
      rw [hheader] at hi
      simp only [Option.getD_some, List.length_cons] at hle ⊢
      refine takeMessage_reads_lt (fun j hj => ?_) (by simp only; omega) hi
      rcases List.mem_cons.mp hj with rfl | hj
      · omega
      · obtain ⟨x, hx, rfl⟩ := List.mem_map.mp hj
        have := List.mem_range.mp hx
        omega

end Reads

/-- The client stays within what it received exactly where that is the frame announced, unmasked
or with an unsigned `char`, and not in the 64-bit form unless it has 127 bytes. -/
theorem response_robust_iff (signed : Bool) (old : Mem) (got : Option (List Byte)) :
    Robust signed old got ↔ HeldWhole signed (got.getD []) := by
  constructor
  · rintro ⟨r, hr, hsound⟩
    obtain ⟨n, hspan, hle⟩ := hsound.whole
    obtain ⟨first, second, bs, k, len, hgot, hlength, rfl⟩ := frameSpan_eq_some hspan
    have hmask := decodeResponse_masked hr (by rw [hgot]; simp)
    refine ⟨hsound.whole, fun hform => ?_, hmask⟩
    rw [← hsound.length64 hform, (decodeResponse_eq_ok.mp hr).2]
    rw [hgot] at hmask hform
    have hplain : signed = true → second &&& 0x80 = 0 := hmask
    have hrecv : recv old got = recv old (some (first :: second :: bs)) := by
      rw [recv, hgot]
      rfl
    rw [takeMessage_payloadLen, hrecv, readHeader_eq hplain hlength]
    exact congrArg Header.payloadLen (if_pos hform)
  · intro h
    cases got with
    | none => exact absurd h.whole (by simp [frameSpan])
    | some received => exact h.robust

/-- Of a text of five bytes one has come, and four old bytes of the buffer are printed with it. -/
theorem cut_text_completed : ¬Robust false (fun _ => 120) (some [0x81, 5, 97]) ∧
    decodeResponse false (recv (fun _ => 120) (some [0x81, 5, 97])) =
      .ok ⟨5, [97, 120, 120, 120, 120], [1, 2, 3, 4, 5, 6]⟩ := by
  have hdecode : decodeResponse false (recv (fun _ => 120) (some [0x81, 5, 97])) =
      .ok ⟨5, [97, 120, 120, 120, 120], [1, 2, 3, 4, 5, 6]⟩ := by decide
  refine ⟨?_, hdecode⟩
  rintro ⟨r, hr, hsound⟩
  obtain rfl := Except.ok.inj (hdecode.symm.trans hr)
  have hread := hsound.inside 3 (by decide)
  simp at hread

end SimpleWsClient
