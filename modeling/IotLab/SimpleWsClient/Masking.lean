import IotLab.SimpleWsClient.Frame

set_option autoImplicit false

namespace SimpleWsClient
open HostMemory WebSocketFrame

def payloadStart (message : CStr) : Nat := (lengthStores message.strlen).2 + 4

def framePayload (message : CStr) (key : Key) : List Byte :=
  ((messageFrame message key).drop (payloadStart message)).take message.strlen

/-- The bytes behind the mask key are the masked message, the server gets the message back from
the frame, and no store is outside the block. -/
structure PayloadMasked (message : CStr) (key : Key) : Prop where
  masked : framePayload message key = mask key message.chars
  unmasked : ∃ f rest, readFrame (messageFrame message key) = some (f, rest) ∧
    f.payload = message.chars
  inside : ∀ s ∈ frameStores message key, s.1 + s.2.length ≤ frameLen message.strlen

theorem keyIndex_lt (i : Nat) : i % 4 < 4 := Nat.mod_lt i (by decide)

/-- Byte `i` of the message is there and equals its key byte. -/
def Vanishes (message : CStr) (key : Key) (i : Nat) : Prop :=
  message.chars[i]? = some (key ⟨i % 4, keyIndex_lt i⟩)

section Copied
variable {message : CStr} {key : Key} {i : Nat}

theorem mask_getElem? (bs : List Byte) : (mask key bs)[i]? = bs[i]?.map fun b =>
    key ⟨i % 4, keyIndex_lt i⟩ ^^^ b := by
  simp [mask]

theorem vanishes_iff : Vanishes message key i ↔ (mask key message.chars)[i]? = some 0 := by
  rw [mask_getElem?, Vanishes]
  cases message.chars[i]? with
  | none => simp
  | some b =>
    rw [Option.map_some, Option.some.injEq, Option.some.injEq]
    exact eq_comm.trans BitVec.xor_eq_zero_iff.symm

theorem copied_eq : ∃ rest, mask key message.chars ++ [0] = copied message key ++ 0 :: rest ∧
    0 ∉ copied message key := by
  obtain ⟨str, hstr⟩ := Option.isSome_iff_exists.mp
    (cString_isSome.mpr (show 0 ∈ mask key message.chars ++ [0] by simp))
  obtain ⟨hmem, rest, hrest⟩ := cString_eq_some.mp hstr
  rw [copied, hstr]
  exact ⟨rest, hrest, hmem⟩

theorem copied_length_le : (copied message key).length ≤ message.strlen := by
  obtain ⟨rest, hrest, -⟩ := @copied_eq message key
  have hlen := congrArg List.length hrest
  simp only [List.length_append, mask_length, List.length_cons, List.length_nil] at hlen
  rw [CStr.strlen]
  omega

theorem copied_getElem? (hi : i < (copied message key).length) :
    (mask key message.chars)[i]? = (copied message key)[i]? := by
  obtain ⟨rest, hrest, -⟩ := @copied_eq message key
  have hle := @copied_length_le message key
  have hget := congrArg (fun l => l[i]?) hrest
  rw [CStr.strlen] at hle
  rwa [List.getElem?_append_left (by rw [mask_length]; omega),
    List.getElem?_append_left hi] at hget

theorem copied_not_vanishes (hi : i < (copied message key).length) :
    ¬Vanishes message key i := by
  rw [vanishes_iff, copied_getElem? hi]
  intro hzero
  obtain ⟨rest, -, hmem⟩ := @copied_eq message key
  exact hmem (List.mem_of_getElem? hzero)

theorem copied_end_vanishes (h : (copied message key).length < message.strlen) :
    Vanishes message key (copied message key).length := by
  obtain ⟨rest, hrest, -⟩ := @copied_eq message key
  have hget := congrArg (fun l => l[(copied message key).length]?) hrest
  rw [CStr.strlen] at h
  rw [List.getElem?_append_left (by rw [mask_length]; omega),
    List.getElem?_append_right (le_refl _), Nat.sub_self, List.getElem?_cons_zero] at hget
  exact vanishes_iff.mpr hget

theorem Vanishes.lt (h : Vanishes message key i) : i < message.strlen := by
  by_contra hge
  rw [Vanishes, List.getElem?_eq_none (by rw [CStr.strlen] at hge; omega)] at h
  contradiction

theorem frameLen_eq (h : message.strlen < 65536) : frameLen message.strlen =
    payloadStart message + message.strlen + if message.strlen < 126 then 1 else 0 := by
  unfold payloadStart lengthStores frameLen
  split
  · dsimp only
    omega
  · dsimp only
    omega

theorem framePayload_getElem? (h : message.strlen < 65536) (hi : i < message.strlen) :
    (framePayload message key)[i]? = some ((copied message key).getD i 0) := by
  have hroom : payloadStart message + i < frameLen message.strlen := by
    rw [frameLen_eq h]
    omega
  have hstart : payloadStart message + i = (frameHead message key).length + i := by
    rw [frameHead_length, payloadStart]
  rw [framePayload, List.getElem?_take_of_lt hi, List.getElem?_drop, messageFrame,
    load_getElem? hroom, runStores_frameStores, Nat.zero_add, store_zeros, hstart,
    List.getD_eq_getElem?_getD, List.getElem?_append_right (Nat.le_add_right _ _),
    Nat.add_sub_cancel_left, List.getD_eq_getElem?_getD]
  by_cases hcopied : i < (copied message key).length
  · rw [List.getElem?_append_left hcopied]
  · rw [List.getElem?_append_right (by omega), List.getElem?_eq_none (l := copied message key)
      (by omega)]
    cases i - (copied message key).length with
    | zero => rfl
    | succ k => rfl

theorem framePayload_length (h : message.strlen < 65536) :
    (framePayload message key).length = message.strlen := by
  rw [framePayload, List.length_take, List.length_drop, messageFrame, load_length, frameLen_eq h]
  omega

/-- The payload is right when nothing but zeros is masked behind the copy. -/
theorem framePayload_eq_iff (h : message.strlen < 65536) :
    framePayload message key = mask key message.chars ↔
      ∀ i j, i < j → j < message.strlen → Vanishes message key i → Vanishes message key j := by
  constructor
  · intro heq i j hij hj hi
    have hend : (copied message key).length ≤ i := by
      by_contra hlt
      exact copied_not_vanishes (by omega) hi
    rw [vanishes_iff, ← heq, framePayload_getElem? h hj, List.getD_eq_getElem?_getD,
      List.getElem?_eq_none (by omega)]
    rfl
  · intro hzeros
    refine List.ext_getElem? fun i => ?_
    by_cases hi : i < message.strlen
    · rw [framePayload_getElem? h hi, List.getD_eq_getElem?_getD]
      by_cases hcopied : i < (copied message key).length
      · rw [copied_getElem? hcopied, List.getElem?_eq_getElem hcopied]
        rfl
      · have hend := @copied_end_vanishes message key (by omega)
        have hi' : Vanishes message key i := by
          by_cases heq : i = (copied message key).length
          · exact heq ▸ hend
          · exact hzeros _ i (by omega) hi hend
        rw [vanishes_iff.mp hi', List.getElem?_eq_none (by omega)]
        rfl
    · rw [List.getElem?_eq_none (by rw [framePayload_length h]; omega),
        List.getElem?_eq_none (by rw [mask_length]; rw [CStr.strlen] at hi; omega)]

end Copied

section Masked
variable {message : CStr} {key : Key}

theorem readFrame_messageFrame (h : message.strlen < 65536) :
    ∃ f rest, readFrame (messageFrame message key) = some (f, rest) ∧
      f.payload = mask key (framePayload message key) := by
  have hlen := @framePayload_length message key h
  obtain ⟨payload, hframe, -⟩ := messageFrame_eq message key
  have hpayload : payload = framePayload message key ++ payload.drop message.strlen := by
    have hstart : payloadStart message = (frameHead message key).length := by
      rw [frameHead_length, payloadStart]
    rw [framePayload, hframe, hstart, List.drop_left, List.take_append_drop]
  refine ⟨⟨0x81, some key, mask key (framePayload message key), by rw [mask_length]; omega⟩,
    payload.drop message.strlen, ?_, rfl⟩
  have hencode : messageFrame message key =
      (Frame.mk 0x81 (some key) (mask key (framePayload message key))
        (by rw [mask_length]; omega)).encode ++ payload.drop message.strlen := by
    rw [hframe, frameHead, lengthStores_bytes h, hpayload, Frame.encode]
    simp [hlen, keyBytes, applyKey]
  rw [hencode]
  exact readFrame_encode _ _

theorem frameStores_inside_iff (h : message.strlen < 65536) :
    (∀ s ∈ frameStores message key, s.1 + s.2.length ≤ frameLen message.strlen) ↔
      (copied message key).length + 1 ≤
        message.strlen + if message.strlen < 126 then 1 else 0 := by
  have hstores : frameStores message key = (0, [0x81]) :: ((lengthStores message.strlen).1 ++
      [((lengthStores message.strlen).2, List.ofFn key),
        (payloadStart message, copied message key ++ [0])]) := rfl
  have hlength : ∀ s ∈ (lengthStores message.strlen).1,
      s.1 + s.2.length ≤ (lengthStores message.strlen).2 := by
    unfold lengthStores
    split
    · simp
    · simp
  have hstart : (lengthStores message.strlen).2 + 4 = payloadStart message := rfl
  rw [hstores, frameLen_eq h]
  constructor
  · intro hall
    have hcopy := hall (payloadStart message, copied message key ++ [0]) (by simp)
    simp only [List.length_append, List.length_cons, List.length_nil] at hcopy
    omega
  · intro hle s hs
    rcases List.mem_cons.mp hs with rfl | hs
    · simp only [List.length_cons, List.length_nil]
      omega
    rcases List.mem_append.mp hs with hs | hs
    · have := hlength s hs
      omega
    rcases List.mem_cons.mp hs with rfl | hs
    · rw [List.length_ofFn]
      omega
    · obtain rfl := List.mem_singleton.mp hs
      simp only [List.length_append, List.length_cons, List.length_nil]
      omega

end Masked

/-- The payload survives the copy exactly when no byte behind a masked 0 is other than 0, and
the copy stays inside when its terminator has room or falls on such a 0. -/
theorem payload_masked_iff (message : CStr) (key : Key) (h : message.strlen < 65536) :
    PayloadMasked message key ↔
      (∀ i j, i < j → j < message.strlen → Vanishes message key i → Vanishes message key j) ∧
      (message.strlen < 126 ∨ Vanishes message key (message.strlen - 1)) := by
  have hle := @copied_length_le message key
  constructor
  · rintro ⟨hmasked, -, hinside⟩
    have hzeros := (framePayload_eq_iff h).mp hmasked
    refine ⟨hzeros, ?_⟩
    by_cases hshort : message.strlen < 126
    · exact .inl hshort
    · rw [frameStores_inside_iff h, if_neg hshort] at hinside
      have hend := @copied_end_vanishes message key (by omega)
      by_cases hlast : (copied message key).length = message.strlen - 1
      · exact .inr (hlast ▸ hend)
      · exact .inr (hzeros _ _ (by omega) (by omega) hend)
  · rintro ⟨hzeros, hroom⟩
    have hmasked := (framePayload_eq_iff h).mpr hzeros
    obtain ⟨f, rest, hread, hpayload⟩ := @readFrame_messageFrame message key h
    refine ⟨hmasked, ⟨f, rest, hread, by rw [hpayload, hmasked, mask_mask]⟩,
      (frameStores_inside_iff h).mpr ?_⟩
    split
    · omega
    · have hlast := hroom.resolve_left ‹_›
      have hend : (copied message key).length ≤ message.strlen - 1 := by
        by_contra hlt
        exact copied_not_vanishes (by omega) hlast
      omega

def unseededKey : Key := fun k => [103, 198, 105, 115].getD k 0

theorem payload_masked_hello : PayloadMasked ⟨[104, 101, 108, 108, 111], by decide⟩ unseededKey ∧
    framePayload ⟨[104, 101, 108, 108, 111], by decide⟩ unseededKey = [15, 163, 5, 31, 8] := by
  have hnone : ∀ i < 5, ¬Vanishes ⟨[104, 101, 108, 108, 111], by decide⟩ unseededKey i := by
    unfold Vanishes
    decide
  refine ⟨(payload_masked_iff ⟨[104, 101, 108, 108, 111], by decide⟩ unseededKey
    (by decide)).mpr ⟨fun i j hij hj hi => ?_, .inl (by decide)⟩, by decide⟩
  exact absurd hi (hnone i (Nat.lt_trans hij hj))

/-- With the key of an unseeded `rand` the text "go" is lost, and the terminator of 126 times
"x" is stored behind the block. -/
theorem go_lost :
    ¬PayloadMasked ⟨[103, 111], by decide⟩ unseededKey ∧
    framePayload ⟨[103, 111], by decide⟩ unseededKey = [0, 0] ∧
    ¬∀ s ∈ frameStores ⟨List.replicate 126 120, by decide⟩ unseededKey,
      s.1 + s.2.length ≤ frameLen 126 := by
  refine ⟨fun h => ?_, by decide, by decide +kernel⟩
  have hmasked := h.masked
  revert hmasked
  decide

end SimpleWsClient
