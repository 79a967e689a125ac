import IotLab.SimpleWsClient.Masking
import IotLab.SimpleWsClient.Response

set_option autoImplicit false

namespace SimpleWsClient
open HostMemory WebSocketFrame

def text (s : String) : List Byte := s.toList.map fun c => BitVec.ofNat 8 c.toNat

def secWebsocketKey : String := "erPKMz5t9vwqkJI+RmHnLw=="

/-- `port` is what `atoi` has made of the argument. -/
def request (host : CStr) (port : Int) : List Byte :=
  text "GET " ++ host.chars ++ text " HTTP/1.1\r\nHost: " ++ host.chars ++ text ":" ++
    text (toString port) ++ text "\r\nUpgrade: websocket\r\nConnection: Upgrade\r\n" ++
    text "Sec-WebSocket-Key: " ++ text secWebsocketKey ++
    text "\r\nSec-WebSocket-Version: 13\r\n\r\n"

inductive Crash where
  | buffer | frame | nullBlock
  deriving DecidableEq, Repr

def storeText (buffer : Mem) (bs : List Byte) : Except Crash Mem :=
  if bs.length < bufferSize then .ok (store buffer 0 (bs ++ [0])) else .error .buffer

/-- `recv` has failed with a -1, or has given bytes. -/
def greet (buffer : Mem) : Option (List Byte) → Except Crash Mem
  | none => .error .buffer
  | some greeting => storeText buffer greeting

def buildFrame (message : CStr) (key : Key) : Except Crash (List Byte) :=
  if ∀ s ∈ frameStores message key, s.1 + s.2.length ≤ frameLen message.strlen then
    .ok (messageFrame message key)
  else .error .frame

structure Session where
  sent : List (List Byte)
  greeting : List Byte
  payloadLen : Nat
  message : List Byte
  deriving DecidableEq

/-- `main`, given what `recv` gives as the greeting, and as the answer to a frame. -/
def main (signed : Bool) (host : CStr) (port : Int) (message : CStr) (rand : Nat → Nat)
    (buffer : Mem) (greeting : Option (List Byte)) (answer : List Byte → Option (List Byte)) :
    Except Crash Session := do
  let buffer ← storeText buffer (request host port)
  let buffer ← greet buffer greeting
  let frame ← buildFrame message (maskKey rand 0)
  let r ← (decodeResponse signed (recv buffer (answer frame))).mapError fun _ => .nullBlock
  .ok {
    sent := [request host port, frame, closeFrame (maskKey rand 4)]
    greeting := (cString (load buffer 0 bufferSize)).getD []
    payloadLen := r.payloadLen
    message := r.message }

def reply (f : Frame) : Frame := ⟨f.first, none, f.payload, f.bound⟩

/-- The server sends the payload back in a frame of its own, of which `recv` gives the first `k`
bytes. It does not answer what is not a frame. -/
def echo (k : Nat) (sent : List Byte) : Option (List Byte) :=
  (readFrame sent).map fun r => (reply r.1).encode.take k

/-- Whatever was in the buffer and whatever the server greets with, the client runs to its end
and prints its own message. -/
def EchoPrinted (signed : Bool) (host : CStr) (port : Int) (message : CStr) (rand : Nat → Nat)
    (k : Nat) : Prop :=
  ∀ buffer greeting, greeting.length < bufferSize → ∃ s,
    main signed host port message rand buffer (some greeting) (echo k) = .ok s ∧
      s.message = message.chars

section Printed
variable {signed : Bool} {m : Mem} {src n : Nat} {header : Header} {r : Response}

theorem cString_strncpy (rest : List Byte) : ∃ str,
    cString (strncpy m src n ++ 0 :: rest) = some str ∧ str <+: load m src n := by
  induction n generalizing src with
  | zero => exact ⟨[], by simp [strncpy, cString], List.nil_prefix⟩
  | succ n ih =>
    have hload : load m src (n + 1) = m src :: load m (src + 1) n := by
      rw [Nat.add_comm n 1, load_add]
      rfl
    rw [strncpy, hload]
    split
    · exact ⟨[], by simp [cString], List.nil_prefix⟩
    · rename_i hne
      obtain ⟨str, hstr, hpre⟩ := @ih (src + 1)
      refine ⟨m src :: str, ?_, List.cons_prefix_cons.mpr ⟨rfl, hpre⟩⟩
      rw [List.cons_append, cString, if_neg hne, hstr]
      rfl

theorem takeMessage_isPrefix :
    (takeMessage m header).message <+: load m header.iterator header.payloadLen := by
  let source := strncpy m header.iterator header.payloadLen
  let block := store (store (fun _ => 0) 0 source) header.payloadLen [0]
  have hle : source.length ≤ header.payloadLen := strncpy_length_le
  have hzero : block source.length = 0 := by
    by_cases heq : source.length = header.payloadLen
    · rw [heq]
      exact store_of_inside (k := 0) (by simp)
    · rw [show block source.length = _ from store_of_outside (by omega),
        store_of_outside (by omega)]
  obtain ⟨rest, hrest⟩ : ∃ rest, load block 0 (header.payloadLen + 1) = source ++ 0 :: rest := by
    have hsize : header.payloadLen + 1 =
        source.length + (1 + (header.payloadLen - source.length)) := by omega
    have hsource : load block 0 source.length = source := by
      rw [show load block 0 source.length = _ from load_store_before (by omega), load_store]
    refine ⟨load block (source.length + 1) (header.payloadLen - source.length), ?_⟩
    rw [hsize, load_add, hsource, Nat.zero_add, load_add]
    simp [load, hzero]
  obtain ⟨str, hstr, hpre⟩ := @cString_strncpy m header.iterator header.payloadLen rest
  have hmessage : (takeMessage m header).message = str := by
    change (cString (load block 0 (header.payloadLen + 1))).getD [] = str
    rw [hrest, hstr]
    rfl
  exact hmessage ▸ hpre

theorem message_length_lt (h : decodeResponse signed m = .ok r) : r.message.length < 65536 := by
  obtain ⟨hlt, rfl⟩ := decodeResponse_eq_ok.mp h
  have hle := (@takeMessage_isPrefix m (readHeader signed m)).length_le
  rw [load_length] at hle
  refine Nat.lt_of_le_of_lt hle ?_
  have hbig : 127 < ptrdiffMax := by decide
  have hshort : lengthByte signed (m 1) < 128 := by
    by_cases hplain : signed = true → m 1 &&& 0x80 = 0
    · rw [lengthByte_eq _ hplain]
      exact lowSeven_lt _
    · obtain ⟨rfl, hmask⟩ := Classical.not_imp.mp hplain
      have hhuge := ptrdiffMax_le_lengthByte _ hmask
      rw [readHeader, if_neg (by omega), if_neg (by omega)] at hlt
      exact absurd hlt (Nat.not_lt_of_le hhuge)
  rw [readHeader]
  split
  · exact (swap16 (read16 m 2)).isLt
  · split
    · simp only
      omega
    · simp only
      omega

theorem readHeader_reply (f : Frame) (h : f.payload.length < 65536) (old : Mem) :
    (readHeader signed (recv old (some (reply f).encode))).payloadLen = f.payload.length ∧
      (readHeader signed (recv old (some (reply f).encode))).iterator =
        2 + (extendedLength f.payload.length).length ∧
      load (recv old (some (reply f).encode)) (2 + (extendedLength f.payload.length).length)
        f.payload.length = f.payload := by
  have hencode : (reply f).encode = f.first ::
      (maskBit false ||| BitVec.ofNat 8 (shortLength f.payload.length)) ::
        (extendedLength f.payload.length ++ f.payload) := by
    simp [Frame.encode, reply, lengthField, keyBytes, applyKey]
  have hshort : ((maskBit false ||| BitVec.ofNat 8 (shortLength f.payload.length)) &&&
      0x7f).toNat ≠ 127 := by
    rw [maskBit_short false _ (shortLength_lt _), shortLength]
    split
    · omega
    · decide
  have hheader := @readHeader_eq signed old f.first _ _ _ _
    (fun _ => maskBit_flag false _ (shortLength_lt _))
    (announcedLength_lengthField f.bound false f.payload)
  rw [if_neg hshort, ← hencode] at hheader
  refine ⟨by rw [hheader], by rw [hheader], ?_⟩
  have hstart := store_append old 0 (f.first :: (maskBit false |||
    BitVec.ofNat 8 (shortLength f.payload.length)) :: extendedLength f.payload.length) f.payload
  rw [Nat.zero_add, List.length_cons, List.length_cons] at hstart
  rw [recv, Option.getD_some, hencode, Nat.add_comm 2]
  exact hstart ▸ load_store _ _ f.payload

end Printed

section Session
variable {signed : Bool} {host : CStr} {port : Int} {message : CStr} {rand : Nat → Nat}
  {buffer : Mem} {bs greeting : List Byte} {answer : List Byte → Option (List Byte)} {k : Nat}

theorem storeText_eq_ok {m : Mem} : storeText buffer bs = .ok m ↔
    bs.length < bufferSize ∧ m = store buffer 0 (bs ++ [0]) := by
  unfold storeText
  split
  · simp [*, eq_comm]
  · simp [*]

theorem buildFrame_eq_ok {key : Key} {frame : List Byte} : buildFrame message key = .ok frame ↔
    (∀ s ∈ frameStores message key, s.1 + s.2.length ≤ frameLen message.strlen) ∧
      frame = messageFrame message key := by
  unfold buildFrame
  split
  · rename_i hinside
    rw [Except.ok.injEq, and_iff_right hinside]
    exact eq_comm
  · rename_i hinside
    exact iff_of_false (by simp) fun h => hinside h.1

def greeted (buffer : Mem) (host : CStr) (port : Int) (greeting : List Byte) : Mem :=
  store (store buffer 0 (request host port ++ [0])) 0 (greeting ++ [0])

theorem main_prints {shown : List Byte} :
    (∃ s, main signed host port message rand buffer (some greeting) answer = .ok s ∧
        s.message = shown) ↔
      (request host port).length < bufferSize ∧ greeting.length < bufferSize ∧
        (∀ s ∈ frameStores message (maskKey rand 0), s.1 + s.2.length ≤ frameLen message.strlen) ∧
        ∃ r, decodeResponse signed (recv (greeted buffer host port greeting)
          (answer (messageFrame message (maskKey rand 0)))) = .ok r ∧ r.message = shown := by
  constructor
  · rintro ⟨s, hmain, rfl⟩
    obtain ⟨b, hb, hmain⟩ := Fallible.bind_eq_ok.mp hmain
    obtain ⟨b', hb', hmain⟩ := Fallible.bind_eq_ok.mp hmain
    obtain ⟨frame, hframe, hmain⟩ := Fallible.bind_eq_ok.mp hmain
    obtain ⟨r, hr, hmain⟩ := Fallible.bind_eq_ok.mp hmain
    obtain ⟨hreq, rfl⟩ := storeText_eq_ok.mp hb
    obtain ⟨hgreet, rfl⟩ := storeText_eq_ok.mp hb'
    obtain ⟨hinside, rfl⟩ := buildFrame_eq_ok.mp hframe
    cases hmain
    exact ⟨hreq, hgreet, hinside, r, Fallible.mapError_eq_ok.mp hr, rfl⟩
  · rintro ⟨hreq, hgreet, hinside, r, hr, rfl⟩
    refine ⟨_, Fallible.bind_eq_ok.mpr ⟨_, storeText_eq_ok.mpr ⟨hreq, rfl⟩,
      Fallible.bind_eq_ok.mpr ⟨_, storeText_eq_ok.mpr ⟨hgreet, rfl⟩,
        Fallible.bind_eq_ok.mpr ⟨_, buildFrame_eq_ok.mpr ⟨hinside, rfl⟩,
          Fallible.bind_eq_ok.mpr ⟨r, Fallible.mapError_eq_ok.mpr hr, rfl⟩⟩⟩⟩, rfl⟩

theorem greeted_zeros (h : (request host port).length < bufferSize) :
    greeted (fun _ => 0) host port (List.replicate (bufferSize - 1) 0) = fun _ => 0 := by
  have hzeros : (List.replicate (bufferSize - 1) (0 : Byte) ++ [0]) =
      List.replicate bufferSize 0 := List.replicate_succ'.symm
  funext i
  rw [greeted, hzeros]
  by_cases hi : i < bufferSize
  · rw [store_start (by simpa using hi)]
    simp [List.getD_eq_getElem?_getD, hi]
  · rw [store_of_outside (by simp; omega), store_of_outside (by simp; omega)]

theorem echo_eq (h : message.strlen < 65536) (key : Key) : ∃ f,
    echo k (messageFrame message key) = some ((reply f).encode.take k) ∧
      f.payload = mask key (framePayload message key) := by
  obtain ⟨f, rest, hread, hpayload⟩ := @readFrame_messageFrame message key h
  refine ⟨f, ?_, hpayload⟩
  rw [echo, hread]
  rfl

theorem payloadMasked_of_masked {key : Key} (h : message.strlen < 65536)
    (hmasked : framePayload message key = mask key message.chars)
    (hinside : ∀ s ∈ frameStores message key, s.1 + s.2.length ≤ frameLen message.strlen) :
    PayloadMasked message key := by
  obtain ⟨f, rest, hread, hpayload⟩ := @readFrame_messageFrame message key h
  exact ⟨hmasked, ⟨f, rest, hread, by rw [hpayload, hmasked, mask_mask]⟩, hinside⟩

theorem reply_encode_length (f : Frame) : (reply f).encode.length =
    2 + (extendedLength f.payload.length).length + f.payload.length := by
  simp [Frame.encode, reply, lengthField, keyBytes, applyKey]
  omega

theorem reply_second (f : Frame) : (reply f).encode.getD 1 0 =
    (maskBit false ||| BitVec.ofNat 8 (shortLength f.payload.length)) := by
  simp [Frame.encode, reply, lengthField]

theorem printed_ne_zero {m : Mem} {header : Header} {j : Nat}
    (hnul : 0 ∉ (takeMessage m header).message)
    (hj : j < (takeMessage m header).message.length) : m (header.iterator + j) ≠ 0 := by
  have hpre := @takeMessage_isPrefix m header
  have hget := List.prefix_iff_getElem?.mp hpre j hj
  have hle := hpre.length_le
  rw [load_length] at hle
  rw [load_getElem? (by omega), Option.some.injEq] at hget
  exact fun hzero => hnul (hzero ▸ hget ▸ List.getElem_mem hj)

/-- With zeros in the buffer, a message as long as the payload is printed only where the payload
has come whole: behind what has come there is nothing to print. -/
theorem printed_arrived {f : Frame} {r : Response} (hf : f.payload.length < 65536)
    (hr : decodeResponse signed (store (fun _ => 0) 0 ((reply f).encode.take k)) = .ok r)
    (hnul : 0 ∉ r.message) (hpos : 0 < r.message.length)
    (hlen : r.message.length = f.payload.length) : (reply f).encode.length ≤ k := by
  obtain ⟨got, hgot⟩ : ∃ got, got = (reply f).encode.take k := ⟨_, rfl⟩
  rw [← hgot] at hr
  obtain ⟨-, rfl⟩ := decodeResponse_eq_ok.mp hr
  have hlength : got.length = min k (reply f).encode.length := by rw [hgot, List.length_take]
  have hat {i : Nat} (hi : store (fun _ => 0) 0 got i ≠ 0) : i < got.length := by
    by_contra hge
    rw [store_zeros, List.getD_eq_getElem?_getD, List.getElem?_eq_none (by omega)] at hi
    exact hi rfl
  have hsecond : 1 < got.length := by
    refine hat fun hzero => ?_
    have hle := (@takeMessage_isPrefix (store (fun _ => 0) 0 got)
      (readHeader signed (store (fun _ => 0) 0 got))).length_le
    have hbyte : lengthByte signed 0 = 0 := by cases signed <;> rfl
    have hnone : (readHeader signed (store (fun _ => 0) 0 got)).payloadLen = 0 := by
      rw [readHeader, hzero, hbyte]
      rfl
    rw [load_length, hnone] at hle
    omega
  have hbyte : store (fun _ => 0) 0 got 1 =
      (maskBit false ||| BitVec.ofNat 8 (shortLength f.payload.length)) := by
    rw [store_zeros, hgot, List.getD_eq_getElem?_getD, List.getElem?_take_of_lt (by omega),
      ← List.getD_eq_getElem?_getD, reply_second]
  have hiter : (readHeader signed (store (fun _ => 0) 0 got)).iterator =
      2 + (extendedLength f.payload.length).length := by
    rw [readHeader, hbyte, lengthByte_eq _ fun _ => maskBit_flag false _ (shortLength_lt _),
      maskBit_short false _ (shortLength_lt _), shortLength, extendedLength]
    by_cases hn : f.payload.length < 126
    · rw [if_pos hn, if_pos hn, if_neg (by omega), if_neg (by omega)]
      rfl
    · rw [if_neg hn, if_neg hn, if_pos hf, if_pos hf, if_pos rfl, beBytes_length]
  have hlast := hat (printed_ne_zero hnul (Nat.sub_one_lt_of_lt hpos))
  have hsize := reply_encode_length f
  rw [hiter] at hlast
  omega

theorem whole_printed {f : Frame} {old : Mem} (hf : f.payload.length < 65536)
    (hk : (reply f).encode.length ≤ k) : ∃ r,
      decodeResponse signed (recv old (some ((reply f).encode.take k))) = .ok r ∧
        r.message <+: f.payload ∧ (0 ∉ f.payload → r.message = f.payload) := by
  obtain ⟨hlen, hiter, hload⟩ := @readHeader_reply signed f hf old
  rw [List.take_of_length_le hk]
  refine ⟨_, decodeResponse_eq_ok.mpr ⟨?_, rfl⟩, ?_, fun hnul => ?_⟩
  · rw [hlen]
    exact Nat.lt_trans hf (by decide)
  · have hpre := @takeMessage_isPrefix (recv old (some (reply f).encode))
      (readHeader signed (recv old (some (reply f).encode)))
    rwa [hlen, hiter, hload] at hpre
  · exact takeMessage_message (by rw [hlen, hiter, hload]) hnul

theorem nothing_arrived {f : Frame} (hk : k < 2) {r : Response}
    (hr : decodeResponse signed (recv (greeted (fun _ => 0) host port [1, 1, 120])
      (some ((reply f).encode.take k))) = .ok r) : r.message = [120] := by
  obtain ⟨-, rfl⟩ := decodeResponse_eq_ok.mp hr
  let m := recv (greeted (fun _ => 0) host port [1, 1, 120]) (some ((reply f).encode.take k))
  have hat (i : Nat) (hi : 1 ≤ i ∧ i < 4) : m i = [1, 1, 120, 0].getD i 0 := by
    have hout : m i = greeted (fun _ => 0) host port [1, 1, 120] i := by
      refine store_of_outside (.inr ?_)
      rw [Option.getD_some, List.length_take]
      omega
    rw [hout]
    exact store_start (by simp; omega)
  have hone : m 1 = 1 := hat 1 (by decide)
  have hbyte : lengthByte signed 1 = 1 := by cases signed <;> rfl
  have hheader : readHeader signed m = ⟨1, 2, [1]⟩ := by
    rw [readHeader, hone, hbyte]
    rfl
  change (takeMessage m (readHeader signed m)).message = _
  rw [hheader]
  refine takeMessage_message ?_ (by decide)
  simp [load, hat 2 (by decide)]

end Session

/-- The client prints its own message exactly when its request fits into the buffer, the masked
message has survived the copy, and the echo comes in one piece and fits into the buffer. -/
theorem echo_printed_iff (signed : Bool) (host : CStr) (port : Int) (message : CStr)
    (rand : Nat → Nat) (k : Nat) (hk : k ≤ bufferSize) :
    EchoPrinted signed host port message rand k ↔
      (request host port).length < bufferSize ∧ PayloadMasked message (maskKey rand 0) ∧
        2 + (extendedLength message.strlen).length + message.strlen ≤ k := by
  constructor
  · intro h
    obtain ⟨hreq, -, hinside, r, hr, hmessage⟩ := main_prints.mp
      (h (fun _ => 0) (List.replicate (bufferSize - 1) 0) (by rw [List.length_replicate]; decide))
    have hn : message.strlen < 65536 := by
      have hlt := message_length_lt hr
      rwa [hmessage] at hlt
    obtain ⟨f, hecho, hpayload⟩ := @echo_eq message k hn (maskKey rand 0)
    have hlen : f.payload.length = message.strlen := by
      rw [hpayload, mask_length, framePayload_length hn]
    rw [hecho] at hr
    have hwhole : (reply f).encode.length ≤ k := by
      by_cases hpos : 0 < message.strlen
      · rw [greeted_zeros hreq, recv] at hr
        exact printed_arrived (by omega) hr (hmessage ▸ message.noNul) (hmessage ▸ hpos)
          (hmessage ▸ hlen.symm)
      · by_contra hcut
        have hsize := reply_encode_length f
        rw [hlen, extendedLength, if_pos (by omega)] at hsize
        obtain ⟨-, -, -, r', hr', hmessage'⟩ := main_prints.mp
          (h (fun _ => 0) [1, 1, 120] (by decide))
        rw [hecho] at hr'
        have hone := nothing_arrived (by simp only [List.length_nil] at hsize; omega) hr'
        rw [hmessage'] at hone
        exact hpos (by rw [CStr.strlen, hone]; decide)
    refine ⟨hreq, ?_, by rwa [← hlen, ← reply_encode_length]⟩
    -- the answer has come whole: what is printed is the payload that the server has read
    obtain ⟨r', hr', hpre, -⟩ := @whole_printed signed k f (greeted (fun _ => 0) host port
      (List.replicate (bufferSize - 1) 0)) (by omega) hwhole
    obtain rfl := Except.ok.inj (hr.symm.trans hr')
    have hread : f.payload = message.chars :=
      (hmessage.symm.trans (hpre.eq_of_length (by rw [hmessage, hlen]; rfl))).symm
    have hmasked : framePayload message (maskKey rand 0) = mask (maskKey rand 0) message.chars := by
      rw [← hread, hpayload, mask_mask]
    exact payloadMasked_of_masked hn hmasked hinside
  · rintro ⟨hreq, hmasked, hwhole⟩ buffer greeting hgreet
    have hn : message.strlen < 65536 := by
      unfold bufferSize at hk
      omega
    refine main_prints.mpr ⟨hreq, hgreet, hmasked.inside, ?_⟩
    obtain ⟨f, hecho, hpayload⟩ := @echo_eq message k hn (maskKey rand 0)
    rw [hmasked.masked, mask_mask] at hpayload
    obtain ⟨r, hr, -, hmessage⟩ := @whole_printed signed k f
      (greeted buffer host port greeting) (by rw [hpayload]; exact hn)
      (by rw [reply_encode_length, hpayload]; exact hwhole)
    rw [hecho]
    exact ⟨r, hr, (hmessage (by rw [hpayload]; exact message.noNul)).trans hpayload⟩

def demoHost : CStr := ⟨[49, 50, 55, 46, 48, 46, 48, 46, 49], by decide⟩

theorem echo_printed_hi :
    EchoPrinted true demoHost 8080 ⟨[104, 105], by decide⟩ (fun i => 7 * i) 4 :=
  (echo_printed_iff true demoHost 8080 ⟨[104, 105], by decide⟩ (fun i => 7 * i) 4
    (by decide)).mpr ⟨by decide +kernel,
      payloadMasked_of_masked (by decide) (by decide) (by decide), by decide⟩

end SimpleWsClient
