import IotLab.Library.WebSocketFrame

/-!
The two frames that the WebSocket client sends: the message of the command line, built by
stores through `iterator` into a zeroed block, and the close frame.
-/

set_option autoImplicit false

namespace SimpleWsClient
open HostMemory WebSocketFrame

def closeCode : BitVec 16 := 1000

structure CStr where
  chars : List Byte
  noNul : 0 ∉ chars

def CStr.strlen (message : CStr) : Nat := message.chars.length

def frameLen (payloadLen : Nat) : Nat :=
  2 + (if payloadLen < 126 then 1 else if payloadLen < 65536 then 2 else 8) + 4 + payloadLen

abbrev Store := Nat × List Byte

/-- The stores of the second byte and of the length behind it, and where they leave
`iterator`. -/
def lengthStores (payloadLen : Nat) : List Store × Nat :=
  if payloadLen < 126 then ([(1, [0x80 ||| BitVec.ofNat 8 payloadLen])], 2)
  else if payloadLen < 65536 then
    ([(1, [0x80 ||| 126]), (2, bytes16 (swap16 (BitVec.ofNat 16 payloadLen)))], 4)
  else
    -- `htons`, in this branch too: the length is cut to 16 bits
    ([(1, [0x80 ||| 127]),
      (2, bytes64 ((swap16 (BitVec.ofNat 16 payloadLen)).setWidth 64))], 10)

def maskKey (rand : Nat → Nat) (i : Nat) : Key := fun k => BitVec.ofNat 8 (rand (i + k) % 256)

def strcpy (dst : Nat) (src : List Byte) : Store := (dst, (cString src).getD [] ++ [0])

/-- The message is masked in place before it is copied. -/
def frameStores (message : CStr) (key : Key) : List Store :=
  let (stores, iterator) := lengthStores message.strlen
  (0, [0x81]) :: stores ++
    [(iterator, List.ofFn key), strcpy (iterator + 4) (mask key message.chars ++ [0])]

/-- What the stores leave in the block, which `memset` has filled with zeros. -/
def runStores (stores : List Store) : Mem :=
  stores.foldl (fun m s => store m s.1 s.2) fun _ => 0

def messageFrame (message : CStr) (key : Key) : List Byte :=
  load (runStores (frameStores message key)) 0 (frameLen message.strlen)

def closeFrame (key : Key) : List Byte :=
  [0x88, 0x80 ||| 2] ++ List.ofFn key ++ mask key (bytes16 (swap16 closeCode))

/-- RFC 6455 has a length field for the message and the frame carries it, the bytes sent are the
header, the mask key and the message, and behind them the server finds the close frame. -/
structure FrameBoundary (message : CStr) (rand : Nat → Nat) : Prop where
  encoded : message.strlen < 2 ^ 63 ∧
    ((messageFrame message (maskKey rand 0)).drop 1).take
      (lengthField true message.strlen).length = lengthField true message.strlen
  sent : (messageFrame message (maskKey rand 0)).length =
    1 + (lengthField true message.strlen).length + 4 + message.strlen
  separate : ∃ f close,
    readFrame (messageFrame message (maskKey rand 0) ++ closeFrame (maskKey rand 4)) =
      some (f, closeFrame (maskKey rand 4)) ∧
    f.first = 0x81 ∧ f.key = some (maskKey rand 0) ∧ f.payload.length = message.strlen ∧
    readFrame (closeFrame (maskKey rand 4)) = some (close, []) ∧
    close.first = 0x88 ∧ close.payload = [0x03, 0xe8]

section Stores
variable {m : Mem} {off : Nat} {stores : List Store}

def Consecutive : Nat → List Store → Prop
  | _, [] => True
  | off, s :: rest => s.1 = off ∧ Consecutive (off + s.2.length) rest

theorem Consecutive.run (h : Consecutive off stores) :
    stores.foldl (fun m s => store m s.1 s.2) m = store m off (stores.flatMap (·.2)) := by
  induction stores generalizing m off with
  | nil => simp
  | cons s rest ih =>
    obtain ⟨rfl, hrest⟩ := h
    rw [List.foldl_cons, ih hrest, store_append]
    rfl

end Stores

section Length
variable {n : Nat}

theorem bytes16_swap16 (n : Nat) : bytes16 (swap16 (BitVec.ofNat 16 n)) = beBytes 2 n := by
  have hhi : (swap16 (BitVec.ofNat 16 n)).extractLsb' 0 8 = BitVec.ofNat 8 (n / 256) := by
    apply BitVec.eq_of_toNat_eq
    simp only [swap16, BitVec.extractLsb'_append_eq_right, BitVec.extractLsb'_toNat,
      BitVec.toNat_ofNat, Nat.shiftRight_eq_div_pow]
    omega
  have hlo : (swap16 (BitVec.ofNat 16 n)).extractLsb' 8 8 = BitVec.ofNat 8 n := by
    apply BitVec.eq_of_toNat_eq
    simp only [swap16, BitVec.extractLsb'_append_eq_left, BitVec.extractLsb'_toNat,
      BitVec.toNat_ofNat, Nat.shiftRight_eq_div_pow]
    omega
  rw [bytes16, hhi, hlo]
  rfl

theorem bytes64_setWidth (v : BitVec 16) :
    bytes64 (v.setWidth 64) = bytes16 v ++ List.replicate 6 0 := by
  have hzero (k len : Nat) (hk : 16 ≤ k) : v.extractLsb' k len = 0 := by
    apply BitVec.eq_of_toNat_eq
    rw [BitVec.extractLsb'_toNat, Nat.shiftRight_eq_div_pow, Nat.div_eq_of_lt, Nat.zero_mod]
    · rfl
    · exact Nat.lt_of_lt_of_le v.isLt (Nat.pow_le_pow_right (by decide) hk)
  simp (disch := decide) only [bytes64, bytes32, BitVec.extractLsb'_extractLsb'_of_le,
    BitVec.extractLsb'_setWidth_of_le, hzero]
  rfl

/-- In the 64-bit form it leaves the two low bytes of the length where the two high ones
belong. -/
theorem beValue_bytes64 (n : Nat) :
    beValue (bytes64 ((swap16 (BitVec.ofNat 16 n)).setWidth 64)) = n % 65536 * 2 ^ 48 := by
  rw [bytes64_setWidth, bytes16_swap16]
  simp only [beBytes, beValue, List.replicate, List.nil_append, List.cons_append,
    List.foldl_cons, List.foldl_nil, BitVec.toNat_ofNat, show (0 : Byte).toNat = 0 from rfl]
  omega

theorem lengthStores_consecutive (n : Nat) (rest : List Store) :
    Consecutive 1 ((lengthStores n).1 ++ rest) ↔ Consecutive (lengthStores n).2 rest := by
  unfold lengthStores
  split
  · simp [Consecutive]
  · split
    · simp [Consecutive]
    · simp [Consecutive]

theorem lengthStores_snd (n : Nat) :
    (lengthStores n).2 = 1 + ((lengthStores n).1.flatMap (·.2)).length := by
  unfold lengthStores
  split
  · rfl
  · split
    · rfl
    · rfl

theorem lengthStores_bytes (h : n < 65536) :
    (lengthStores n).1.flatMap (·.2) = lengthField true n := by
  unfold lengthStores lengthField shortLength extendedLength
  by_cases hn : n < 126
  · simp only [if_pos hn]
    rfl
  · simp only [if_neg hn, if_pos h, ← bytes16_swap16]
    rfl

end Length

section Frames
variable (message : CStr) (key : Key)

def frameHead : List Byte :=
  0x81 :: (lengthStores message.strlen).1.flatMap (·.2) ++ List.ofFn key

theorem frameHead_length :
    (frameHead message key).length = (lengthStores message.strlen).2 + 4 := by
  simp [frameHead, lengthStores_snd]
  omega

/-- What `strcpy` copies: the masked message, up to the first byte that is masked to 0. -/
def copied : List Byte := (cString (mask key message.chars ++ [0])).getD []

theorem runStores_frameStores : runStores (frameStores message key) =
    store (fun _ => 0) 0 (frameHead message key ++ (copied message key ++ [0])) := by
  have hstores : frameStores message key = (0, [0x81]) :: ((lengthStores message.strlen).1 ++
      [((lengthStores message.strlen).2, List.ofFn key),
        strcpy ((lengthStores message.strlen).2 + 4) (mask key message.chars ++ [0])]) := rfl
  have hconsecutive : Consecutive 0 (frameStores message key) := by
    rw [hstores]
    refine ⟨rfl, (lengthStores_consecutive _ _).mpr ⟨rfl, ?_, trivial⟩⟩
    rw [List.length_ofFn]
    rfl
  have hbytes : (frameStores message key).flatMap (·.2) =
      frameHead message key ++ (copied message key ++ [0]) := by
    rw [hstores]
    simp [frameHead, strcpy, copied]
  rw [runStores, hconsecutive.run, hbytes]

theorem messageFrame_eq : ∃ payload, messageFrame message key = frameHead message key ++ payload ∧
    payload.length = frameLen message.strlen - ((lengthStores message.strlen).2 + 4) := by
  have hlen := frameHead_length message key
  have hle : (lengthStores message.strlen).2 + 4 ≤ frameLen message.strlen := by
    unfold frameLen lengthStores
    split
    · omega
    · split <;> omega
  obtain ⟨k, hk⟩ : ∃ k, frameLen message.strlen = (frameHead message key).length + k :=
    ⟨frameLen message.strlen - (frameHead message key).length, by omega⟩
  refine ⟨load (runStores (frameStores message key)) (0 + (frameHead message key).length) k, ?_,
    ?_⟩
  · rw [messageFrame, runStores_frameStores, hk]
    exact load_prefix _ _ _ _ _
  · rw [load_length]
    omega

theorem readFrame_closeFrame : ∃ close, readFrame (closeFrame key) = some (close, []) ∧
    close.first = 0x88 ∧ close.payload = [0x03, 0xe8] := by
  have hencode : closeFrame key = (Frame.mk 0x88 (some key) [0x03, 0xe8] (by decide)).encode := rfl
  refine ⟨⟨0x88, some key, [0x03, 0xe8], by decide⟩, ?_, rfl, rfl⟩
  rw [hencode, ← List.append_nil (Frame.encode _)]
  exact readFrame_encode _ _

end Frames

section Boundary
variable {message : CStr} {rand : Nat → Nat}

theorem FrameBoundary.not_short (h : FrameBoundary message rand) : 126 ≤ message.strlen := by
  by_contra hlt
  have hsent := h.sent
  rw [messageFrame, load_length, frameLen, if_pos (by omega), lengthField, extendedLength,
    if_pos (by omega)] at hsent
  simp only [List.length_cons, List.length_nil] at hsent
  omega

theorem FrameBoundary.not_long (h : FrameBoundary message rand) : message.strlen < 65536 := by
  by_contra hge
  obtain ⟨hbound, hfield⟩ := h.encoded
  obtain ⟨payload, hframe, -⟩ := messageFrame_eq message (maskKey rand 0)
  have hstores : (lengthStores message.strlen).1.flatMap (·.2) = (0x80 ||| 127) ::
      bytes64 ((swap16 (BitVec.ofNat 16 message.strlen)).setWidth 64) := by
    rw [lengthStores, if_neg (by omega), if_neg hge]
    rfl
  have hlong : lengthField true message.strlen =
      (0x80 ||| 127) :: beBytes 8 message.strlen := by
    rw [lengthField, shortLength, extendedLength, if_neg (by omega), if_neg hge,
      if_neg (by omega), if_neg hge]
    rfl
  have hdrop : (messageFrame message (maskKey rand 0)).drop 1 = ((0x80 ||| 127) ::
      bytes64 ((swap16 (BitVec.ofNat 16 message.strlen)).setWidth 64)) ++
        (List.ofFn (maskKey rand 0) ++ payload) := by
    rw [hframe, frameHead, hstores]
    simp only [List.append_assoc, List.cons_append, List.drop_succ_cons, List.drop_zero]
  rw [hdrop, hlong, List.take_left' (by simp)] at hfield
  have hbytes := (List.cons.inj hfield).2
  have hvalue := congrArg beValue hbytes
  rw [beValue_bytes64, beValue_beBytes (by omega)] at hvalue
  omega

theorem frameBoundary_of_extended (h : 126 ≤ message.strlen) (h' : message.strlen < 65536) :
    FrameBoundary message rand := by
  obtain ⟨payload, hframe, hlen⟩ := messageFrame_eq message (maskKey rand 0)
  have hfield : (lengthField true message.strlen).length = 3 := by
    rw [lengthField, extendedLength, if_neg (by omega), if_pos h', List.length_cons,
      beBytes_length]
  have hpayload : payload.length = message.strlen := by
    rw [hlen, frameLen, lengthStores, if_neg (by omega), if_pos h', if_neg (by omega), if_pos h']
    omega
  rw [frameHead, lengthStores_bytes h'] at hframe
  have hencode : messageFrame message (maskKey rand 0) = (Frame.mk 0x81 (some (maskKey rand 0))
      (mask (maskKey rand 0) payload) (by rw [mask_length]; omega)).encode := by
    rw [hframe, Frame.encode]
    simp [hpayload, keyBytes, applyKey]
  obtain ⟨close, hclose, hfirst, hcode⟩ := readFrame_closeFrame (maskKey rand 4)
  refine ⟨⟨by omega, ?_⟩, ?_, ⟨_, close, hencode ▸ readFrame_encode _ _, rfl, rfl, ?_, hclose,
    hfirst, hcode⟩⟩
  · rw [hframe]
    simp [List.take_left']
  · rw [messageFrame, load_length, frameLen, if_neg (by omega), if_pos h', hfield]
  · rw [mask_length, hpayload]

end Boundary

/-- The server finds the frame, and right behind it the close frame, exactly when the length is
sent in its 16-bit form. -/
theorem frame_boundary_iff (message : CStr) (rand : Nat → Nat) :
    FrameBoundary message rand ↔ 126 ≤ message.strlen ∧ message.strlen < 65536 :=
  ⟨fun h => ⟨h.not_short, h.not_long⟩, fun h => frameBoundary_of_extended h.1 h.2⟩

/-- Behind the frame of "hi" the server reads a zero byte. -/
theorem frame_of_hi_one_over : ¬FrameBoundary ⟨[104, 105], by decide⟩ (fun _ => 0) ∧
    (readFrame (messageFrame ⟨[104, 105], by decide⟩ (maskKey (fun _ => 0) 0) ++
        closeFrame (maskKey (fun _ => 0) 4))).map (·.2) =
      some (0 :: closeFrame (maskKey (fun _ => 0) 4)) := by
  refine ⟨fun h => ?_, by decide⟩
  have hsent := h.sent
  revert hsent
  decide

end SimpleWsClient
