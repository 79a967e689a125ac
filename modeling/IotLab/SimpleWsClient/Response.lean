import IotLab.Library.Fallible
import IotLab.Library.WebSocketFrame
import IotLab.MemoryStream.Stream

set_option autoImplicit false

namespace SimpleWsClient
open HostMemory WebSocketFrame
open MemoryStream (charToInt)

def bufferSize : Nat := 1024

inductive Fault where
  | nullBlock
  deriving DecidableEq, Repr

abbrev Result := Except Fault

def ptrdiffMax : Nat := 2 ^ 63 - 1

/-- `malloc` refuses blocks above PTRDIFF_MAX; that the memory is used up is not modelled. -/
def malloc (size : Nat) : Result Unit := if size ≤ ptrdiffMax then .ok () else .error .nullBlock

/-- What is in the buffer after `recv`; with `none`, a -1, as with no bytes, what was there. -/
def recv (buffer : Mem) (got : Option (List Byte)) : Mem := store buffer 0 (got.getD [])

/-- `*(iterator++) & ~0x80` as a `size_t`; a plain `char` becomes an `int` first. -/
def lengthByte (signed : Bool) (c : Byte) : Nat :=
  ((charToInt signed c &&& ~~~0x80).signExtend 64).toNat

/-- `payload_len` and `iterator` before the payload is copied, and the offsets of the bytes read
so far. -/
structure Header where
  payloadLen : Nat
  iterator : Nat
  reads : List Nat
  deriving DecidableEq, Repr

def readHeader (signed : Bool) (buffer : Mem) : Header :=
  let payloadLen := lengthByte signed (buffer 1)
  if payloadLen = 126 then ⟨(swap16 (read16 buffer 2)).toNat, 4, [1, 2, 3]⟩
  else if payloadLen = 127 then ⟨payloadLen, 10, [1]⟩
  else ⟨payloadLen, 2, [1]⟩

/-- The bytes that `strncpy` reads: at most `n`, and none behind a 0. -/
def strncpy (m : Mem) : Nat → Nat → List Byte
  | _, 0 => []
  | src, n + 1 => if m src = 0 then [0] else m src :: strncpy m (src + 1) n

/-- The message printed, the length taken for it, and the offsets of all bytes of the buffer
that were read. -/
structure Response where
  payloadLen : Nat
  message : List Byte
  reads : List Nat
  deriving DecidableEq, Repr

def takeMessage (buffer : Mem) (header : Header) : Response :=
  let src := strncpy buffer header.iterator header.payloadLen
  let recvMessage := store (store (fun _ => 0) 0 src) header.payloadLen [0]
  { payloadLen := header.payloadLen
    message := (cString (load recvMessage 0 (header.payloadLen + 1))).getD []
    reads := header.reads ++ (List.range src.length).map (header.iterator + ·) }

def decodeResponse (signed : Bool) (buffer : Mem) : Result Response := do
  let header := readHeader signed buffer
  malloc (header.payloadLen + 1)
  .ok (takeMessage buffer header)

section Decoding
variable {signed : Bool} {m : Mem} {src n : Nat}

theorem strncpy_length_le : (strncpy m src n).length ≤ n := by
  induction n generalizing src with
  | zero => exact le_refl _
  | succ n ih =>
    rw [strncpy]
    split
    · simp
    · have := @ih (src + 1)
      rw [List.length_cons]
      omega

theorem strncpy_eq_load (h : 0 ∉ load m src n) : strncpy m src n = load m src n := by
  induction n generalizing src with
  | zero => rfl
  | succ n ih =>
    have hload : load m src (n + 1) = m src :: load m (src + 1) n := by
      rw [Nat.add_comm n 1, load_add]
      rfl
    rw [hload, List.mem_cons, not_or] at h
    rw [hload, strncpy, if_neg (Ne.symm h.1), ih h.2]

theorem lowSeven_lt (c : Byte) : (c &&& 0x7f).toNat < 128 := by
  rw [BitVec.toNat_and]
  exact Nat.lt_of_le_of_lt Nat.and_le_right (by decide)

theorem lengthByte_eq : ∀ c : Byte, (signed = true → c &&& 0x80 = 0) →
    lengthByte signed c = (c &&& 0x7f).toNat := by
  cases signed <;> decide +kernel

theorem ptrdiffMax_le_lengthByte : ∀ c : Byte, c &&& 0x80 ≠ 0 → ptrdiffMax ≤ lengthByte true c := by
  decide +kernel

theorem malloc_eq_ok {size : Nat} : malloc size = .ok () ↔ size ≤ ptrdiffMax := by
  simp [malloc]

theorem decodeResponse_eq_ok {r : Response} : decodeResponse signed m = .ok r ↔
    (readHeader signed m).payloadLen < ptrdiffMax ∧ r = takeMessage m (readHeader signed m) := by
  rw [decodeResponse, Fallible.bind_eq_ok]
  constructor
  · rintro ⟨⟨⟩, hmalloc, hr⟩
    exact ⟨malloc_eq_ok.mp hmalloc, (Except.ok.inj hr).symm⟩
  · rintro ⟨hlt, rfl⟩
    exact ⟨(), malloc_eq_ok.mpr hlt, rfl⟩

@[simp] theorem takeMessage_payloadLen (header : Header) :
    (takeMessage m header).payloadLen = header.payloadLen := rfl

theorem takeMessage_message {header : Header} {payload : List Byte}
    (hload : load m header.iterator header.payloadLen = payload) (hnul : 0 ∉ payload) :
    (takeMessage m header).message = payload := by
  have hlen : payload.length = header.payloadLen := by rw [← hload, load_length]
  have hsrc : strncpy m header.iterator header.payloadLen = payload := by
    rw [strncpy_eq_load (hload ▸ hnul), hload]
  have hblock := store_append (fun _ => 0) 0 payload [0]
  have hall := load_store (fun _ => 0) 0 (payload ++ [0])
  rw [Nat.zero_add, hlen] at hblock
  rw [List.length_append, hlen, List.length_singleton] at hall
  have hstr : cString (payload ++ [0]) = some payload := cString_eq_some.mpr ⟨hnul, [], rfl⟩
  simp only [takeMessage, hsrc, hblock, hall, hstr, Option.getD_some]

end Decoding

section Header
variable {signed : Bool} {old : Mem} {first second : Byte} {bs : List Byte} {k n : Nat}

theorem readHeader_eq (hplain : signed = true → second &&& 0x80 = 0)
    (hlength : announcedLength second bs = some (k, n)) :
    readHeader signed (recv old (some (first :: second :: bs))) =
      if (second &&& 0x7f).toNat = 127 then ⟨127, 10, [1]⟩
      else ⟨n, 2 + k, 1 :: (List.range k).map (2 + ·)⟩ := by
  have hsecond : recv old (some (first :: second :: bs)) 1 = second := store_start (by simp)
  rw [readHeader, hsecond, lengthByte_eq second hplain]
  simp only [announcedLength] at hlength
  split at hlength
  · rename_i hshort
    simp only [Option.some.injEq, Prod.mk.injEq] at hlength
    obtain ⟨rfl, rfl⟩ := hlength
    rw [if_neg (by omega), if_neg (by omega), if_neg (by omega)]
    rfl
  · split at hlength
    · rename_i hshort
      obtain ⟨⟨v, rest⟩, hread, hr⟩ := Option.map_eq_some_iff.mp hlength
      simp only [Prod.mk.injEq] at hr
      obtain ⟨rfl, rfl⟩ := hr
      rw [readBe] at hread
      split at hread
      · rename_i hroom
        obtain _ | ⟨a, _ | ⟨b, bs⟩⟩ := bs
        · simp at hroom
        · simp at hroom
        · simp only [List.take_succ_cons, List.take_zero, Option.some.injEq, Prod.mk.injEq] at hread
          have ha : recv old (some (first :: second :: a :: b :: bs)) 2 = a :=
            store_start (by simp)
          have hb : recv old (some (first :: second :: a :: b :: bs)) 3 = b :=
            store_start (by simp)
          have hvalue : (a ++ b : BitVec 16).toNat = beValue [a, b] := by
            rw [append_byte_toNat]
            simp [beValue]
          rw [if_pos hshort, if_neg (by omega), swap16_read16, ha, hb, hvalue, hread.1]
          rfl
      · contradiction
    · rename_i hshort
      have hlt := lowSeven_lt second
      rw [if_neg hshort, if_pos (by omega), if_pos (by omega)]
      congr 1
      omega

end Header

/-- An unmasked, final text frame that the buffer has room for. -/
structure TextFrame extends Frame where
  first_eq : first = 0x81
  unmasked : key = none
  noNul : 0 ∉ payload
  fits : toFrame.encode.length ≤ bufferSize

/-- The message is the payload, whatever follows the frame and whatever the buffer held. -/
theorem text_frame_decoded (signed : Bool) (f : TextFrame) (rest : List Byte) (old : Mem) :
    ∃ r, decodeResponse signed (recv old (some (f.encode ++ rest))) = .ok r ∧
      r.message = f.payload := by
  let n := f.payload.length
  let second := maskBit false ||| BitVec.ofNat 8 (shortLength n)
  have hencode : f.encode ++ rest =
      f.first :: second :: (extendedLength n ++ (f.payload ++ rest)) := by
    simp [Frame.encode, lengthField, f.unmasked, keyBytes, applyKey, second, n]
  have hfits := f.fits
  have hn : n < 65536 := by
    simp only [Frame.encode, List.length_append, applyKey_length, bufferSize] at hfits
    omega
  have hshort : (second &&& 0x7f).toNat ≠ 127 := by
    rw [maskBit_short false _ (shortLength_lt n), shortLength]
    split
    · omega
    · decide
  have hplain : signed = true → second &&& 0x80 = 0 :=
    fun _ => maskBit_flag false _ (shortLength_lt n)
  have hheader := @readHeader_eq _ old f.first _ _ _ _ hplain
    (announcedLength_lengthField f.bound false (f.payload ++ rest))
  rw [if_neg hshort, ← hencode] at hheader
  have hload : load (recv old (some (f.encode ++ rest))) (2 + (extendedLength n).length) n =
      f.payload := by
    have hstart := store_append old 0 (f.first :: second :: extendedLength n) (f.payload ++ rest)
    rw [Nat.zero_add, List.length_cons, List.length_cons] at hstart
    rw [recv, Option.getD_some, hencode, Nat.add_comm 2]
    exact hstart ▸ load_store_prefix _ _ f.payload rest
  refine ⟨_, decodeResponse_eq_ok.mpr ⟨?_, rfl⟩, ?_⟩
  · rw [hheader]
    exact Nat.lt_trans hn (by decide)
  · rw [hheader]
    exact takeMessage_message hload f.noNul

def shortText : TextFrame where
  first := 0x81
  key := none
  payload := [104, 105]
  bound := by decide
  first_eq := rfl
  unmasked := rfl
  noNul := by decide
  fits := by decide

def longText : TextFrame where
  first := 0x81
  key := none
  payload := List.replicate 200 120
  bound := by
    rw [List.length_replicate]
    decide
  first_eq := rfl
  unmasked := rfl
  noNul := by decide +kernel
  fits := by decide +kernel

/-- Another frame follows the first one, and the buffer held something before the second. -/
theorem text_frame_decoded_forms :
    shortText.encode = [0x81, 2, 104, 105] ∧ longText.encode.take 4 = [0x81, 126, 0, 200] ∧
    (∃ r, decodeResponse true (recv (fun _ => 0) (some (shortText.encode ++ [0x88, 0]))) = .ok r ∧
      r.message = [104, 105]) ∧
    ∃ r, decodeResponse false (recv (fun _ => 7) (some (longText.encode ++ []))) = .ok r ∧
      r.message = List.replicate 200 120 :=
  ⟨by decide, by decide +kernel, text_frame_decoded true shortText [0x88, 0] _,
    text_frame_decoded false longText [] _⟩

end SimpleWsClient
