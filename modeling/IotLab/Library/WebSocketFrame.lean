import IotLab.Library.HostMemory
import Mathlib.Tactic.Ring

/-!
WebSocket frames as RFC 6455 has them: a byte with the flags and the opcode, the length of the
payload in its shortest form, the masking key if there is one, and the payload, masked with it.
-/

set_option autoImplicit false

namespace WebSocketFrame
open HostMemory

def beValue (bs : List Byte) : Nat := bs.foldl (fun v b => v * 256 + b.toNat) 0

theorem beValue_concat (bs : List Byte) (b : Byte) :
    beValue (bs ++ [b]) = beValue bs * 256 + b.toNat := by
  simp [beValue]

theorem beValue_lt (bs : List Byte) : beValue bs < 256 ^ bs.length := by
  induction bs using List.reverseRecOn with
  | nil => decide
  | append_singleton bs b ih =>
    have hb := b.isLt
    rw [beValue_concat, List.length_append, List.length_singleton, Nat.pow_succ]
    omega

theorem beValue_take_lt (n : Nat) (bs : List Byte) : beValue (bs.take n) < 256 ^ n :=
  Nat.lt_of_lt_of_le (beValue_lt (bs.take n))
    (Nat.pow_le_pow_right (by decide) (List.length_take_le n bs))

theorem beValue_append (bs more : List Byte) :
    beValue (bs ++ more) = beValue bs * 256 ^ more.length + beValue more := by
  induction more using List.reverseRecOn with
  | nil => simp [beValue]
  | append_singleton more b ih =>
    rw [← List.append_assoc, beValue_concat, ih, beValue_concat, List.length_append,
      List.length_singleton, Nat.pow_succ]
    ring

def beBytes : Nat → Nat → List Byte
  | 0, _ => []
  | k + 1, n => beBytes k (n / 256) ++ [BitVec.ofNat 8 n]

@[simp] theorem beBytes_length (k n : Nat) : (beBytes k n).length = k := by
  induction k generalizing n with
  | zero => rfl
  | succ k ih => simp [beBytes, ih]

theorem beValue_beBytes {k n : Nat} (h : n < 256 ^ k) : beValue (beBytes k n) = n := by
  induction k generalizing n with
  | zero =>
    obtain rfl : n = 0 := by simpa using h
    rfl
  | succ k ih =>
    have hdiv : n / 256 < 256 ^ k := by
      rw [Nat.div_lt_iff_lt_mul (by decide), ← Nat.pow_succ]
      exact h
    rw [beBytes, beValue_concat, ih hdiv, BitVec.toNat_ofNat]
    omega

abbrev Key := Fin 4 → Byte

def mask (key : Key) (bs : List Byte) : List Byte :=
  bs.mapIdx fun i b => key ⟨i % 4, Nat.mod_lt _ (by decide)⟩ ^^^ b

@[simp] theorem mask_length (key : Key) (bs : List Byte) : (mask key bs).length = bs.length := by
  simp [mask]

@[simp] theorem mask_mask (key : Key) (bs : List Byte) : mask key (mask key bs) = bs := by
  refine List.ext_getElem (by simp) (fun i _ _ => ?_)
  simp only [mask, List.getElem_mapIdx]
  rw [← BitVec.xor_assoc, BitVec.xor_self, BitVec.zero_xor]

/-- The longest payload is one byte short of 2^63. -/
structure Frame where
  first : Byte
  key : Option Key
  payload : List Byte
  bound : payload.length < 2 ^ 63

def shortLength (n : Nat) : Nat := if n < 126 then n else if n < 65536 then 126 else 127

def extendedLength (n : Nat) : List Byte :=
  if n < 126 then [] else if n < 65536 then beBytes 2 n else beBytes 8 n

def maskBit (masked : Bool) : Byte := if masked then 0x80 else 0

def lengthField (masked : Bool) (n : Nat) : List Byte :=
  (maskBit masked ||| BitVec.ofNat 8 (shortLength n)) :: extendedLength n

def keyBytes (key : Option Key) : List Byte := key.elim [] List.ofFn

def applyKey (key : Option Key) (bs : List Byte) : List Byte := key.elim bs fun key => mask key bs

@[simp] theorem applyKey_length (key : Option Key) (bs : List Byte) :
    (applyKey key bs).length = bs.length := by
  cases key with
  | none => rfl
  | some key => exact mask_length key bs

@[simp] theorem applyKey_applyKey (key : Option Key) (bs : List Byte) :
    applyKey key (applyKey key bs) = bs := by
  cases key with
  | none => rfl
  | some key => exact mask_mask key bs

def Frame.encode (f : Frame) : List Byte :=
  f.first :: lengthField f.key.isSome f.payload.length ++ keyBytes f.key ++
    applyKey f.key f.payload

def readBe (k : Nat) (bs : List Byte) : Option (Nat × List Byte) :=
  if k ≤ bs.length then some (beValue (bs.take k), bs.drop k) else none

/-- The length that the second byte of a frame announces; a longer form than needed is
refused. -/
def readLength (second : Byte) (bs : List Byte) : Option (Nat × List Byte) :=
  let short := (second &&& 0x7f).toNat
  if short < 126 then some (short, bs)
  else if short = 126 then (readBe 2 bs).filter fun r => 126 ≤ r.1
  else (readBe 8 bs).filter fun r => 65536 ≤ r.1

def readKey (second : Byte) (bs : List Byte) : Option (Option Key × List Byte) :=
  if second &&& 0x80 = 0 then some (none, bs)
  else if 4 ≤ bs.length then some (some fun i => bs.getD i 0, bs.drop 4)
  else none

def readFrame : List Byte → Option (Frame × List Byte)
  | first :: second :: bs => do
    let (n, bs) ← readLength second bs
    let (key, bs) ← readKey second bs
    if h : n ≤ bs.length ∧ n < 2 ^ 63 then
      some (⟨first, key, applyKey key (bs.take n), by simp; omega⟩, bs.drop n)
    else none
  | _ => none

/-- How many bytes the length takes behind the second byte of a frame, and the length, in
whichever form it is. -/
def announcedLength (second : Byte) (bs : List Byte) : Option (Nat × Nat) :=
  let short := (second &&& 0x7f).toNat
  if short < 126 then some (0, short)
  else if short = 126 then (readBe 2 bs).map fun r => (2, r.1)
  else (readBe 8 bs).map fun r => (8, r.1)

def keyLength (second : Byte) : Nat := if second &&& 0x80 = 0 then 0 else 4

def frameSpan : List Byte → Option Nat
  | _ :: second :: bs => (announcedLength second bs).map fun (k, n) => 2 + k + keyLength second + n
  | _ => none

theorem shortLength_lt (n : Nat) : shortLength n < 128 := by
  unfold shortLength
  split
  · omega
  · split <;> omega

theorem maskBit_short (masked : Bool) :
    ∀ n < 128, ((maskBit masked ||| BitVec.ofNat 8 n) &&& 0x7f).toNat = n := by
  cases masked <;> decide

theorem maskBit_flag (masked : Bool) :
    ∀ n < 128, (maskBit masked ||| BitVec.ofNat 8 n) &&& 0x80 = maskBit masked := by
  cases masked <;> decide

theorem readBe_beBytes {k n : Nat} (h : n < 256 ^ k) (rest : List Byte) :
    readBe k (beBytes k n ++ rest) = some (n, rest) := by
  rw [readBe, if_pos (by simp), List.take_left' (beBytes_length k n),
    List.drop_left' (beBytes_length k n), beValue_beBytes h]

theorem readLength_lengthField {n : Nat} (h : n < 2 ^ 63) (masked : Bool) (rest : List Byte) :
    readLength (maskBit masked ||| BitVec.ofNat 8 (shortLength n)) (extendedLength n ++ rest) =
      some (n, rest) := by
  rw [readLength, maskBit_short masked _ (shortLength_lt n)]
  unfold shortLength extendedLength
  split
  · simp
  · split
    · rename_i hn hn'
      rw [readBe_beBytes (by omega)]
      simp [Nat.le_of_not_lt hn]
    · rename_i hn hn'
      rw [readBe_beBytes (by omega)]
      simp [Nat.le_of_not_lt hn']

theorem readKey_keyBytes (key : Option Key) {n : Nat} (h : n < 128) (rest : List Byte) :
    readKey (maskBit key.isSome ||| BitVec.ofNat 8 n) (keyBytes key ++ rest) =
      some (key, rest) := by
  rw [readKey, maskBit_flag _ n h]
  cases key with
  | none => simp [maskBit, keyBytes]
  | some key =>
    have hlen : (List.ofFn key).length = 4 := List.length_ofFn
    have hkey : (fun i : Fin 4 => (List.ofFn key ++ rest).getD i 0) = key := by
      funext i
      rw [List.getD_eq_getElem?_getD, List.getElem?_append_left (by omega), List.getElem?_ofFn,
        dif_pos i.isLt]
      rfl
    rw [if_neg (by simp [maskBit]), if_pos (by simp [keyBytes])]
    simp only [keyBytes, Option.elim, hkey, List.drop_left' hlen]

theorem announcedLength_lengthField {n : Nat} (h : n < 2 ^ 63) (masked : Bool)
    (rest : List Byte) :
    announcedLength (maskBit masked ||| BitVec.ofNat 8 (shortLength n)) (extendedLength n ++ rest) =
      some ((extendedLength n).length, n) := by
  rw [announcedLength, maskBit_short masked _ (shortLength_lt n)]
  unfold shortLength extendedLength
  split
  · simp [*]
  · split
    · rw [readBe_beBytes (by omega)]
      simp
    · rw [readBe_beBytes (by omega)]
      simp

theorem frameSpan_encode (f : Frame) (rest : List Byte) :
    frameSpan (f.encode ++ rest) = some f.encode.length := by
  have hkey : keyLength (maskBit f.key.isSome ||| BitVec.ofNat 8 (shortLength f.payload.length)) =
      (keyBytes f.key).length := by
    rw [keyLength, maskBit_flag _ _ (shortLength_lt _)]
    cases f.key with
    | none => rfl
    | some key => simp [maskBit, keyBytes]
  simp only [Frame.encode, lengthField, List.cons_append, List.append_assoc, frameSpan,
    announcedLength_lengthField f.bound, hkey, Option.map_some, List.length_cons,
    List.length_append, applyKey_length, Option.some.injEq]
  omega

/-- A frame is read back, up to where it ends. -/
theorem readFrame_encode (f : Frame) (rest : List Byte) :
    readFrame (f.encode ++ rest) = some (f, rest) := by
  have hbound := f.bound
  have hpayload : (applyKey f.key f.payload).length = f.payload.length :=
    applyKey_length f.key f.payload
  simp only [Frame.encode, lengthField, List.cons_append, List.append_assoc, readFrame,
    readLength_lengthField hbound, readKey_keyBytes f.key (shortLength_lt _), bind,
    Option.bind_some, List.take_left' hpayload, List.drop_left' hpayload, applyKey_applyKey]
  rw [dif_pos ⟨by simp, hbound⟩]

end WebSocketFrame
