import Mathlib.Data.BitVec
import Mathlib.Tactic.Common

/-!
Byte memory of a little-endian host: loads and stores of 16-bit and 32-bit words, block
stores, and what each store leaves unchanged.
-/

set_option autoImplicit false

namespace HostMemory

abbrev Byte := BitVec 8

abbrev Mem := Nat → Byte

def store (m : Mem) (off : Nat) (bs : List Byte) : Mem := fun i =>
  if off ≤ i ∧ i < off + bs.length then bs.getD (i - off) 0 else m i

def load (m : Mem) (off len : Nat) : List Byte := (List.range len).map (fun i => m (off + i))

def read16 (m : Mem) (off : Nat) : BitVec 16 := m (off + 1) ++ m off

def read32 (m : Mem) (off : Nat) : BitVec 32 :=
  m (off + 3) ++ m (off + 2) ++ m (off + 1) ++ m off

def bytes16 (v : BitVec 16) : List Byte := [v.extractLsb' 0 8, v.extractLsb' 8 8]

def bytes32 (v : BitVec 32) : List Byte :=
  [v.extractLsb' 0 8, v.extractLsb' 8 8, v.extractLsb' 16 8, v.extractLsb' 24 8]

def write16 (m : Mem) (off : Nat) (v : BitVec 16) : Mem := store m off (bytes16 v)

def write32 (m : Mem) (off : Nat) (v : BitVec 32) : Mem := store m off (bytes32 v)

/-- `htons` and `ntohs` on a little-endian host. -/
def swap16 (v : BitVec 16) : BitVec 16 := v.extractLsb' 0 8 ++ v.extractLsb' 8 8

theorem store_of_outside {m : Mem} {off i : Nat} {bs : List Byte}
    (h : i < off ∨ off + bs.length ≤ i) : store m off bs i = m i := by
  have hn : ¬(off ≤ i ∧ i < off + bs.length) := by omega
  simp [store, hn]

theorem store_of_inside {m : Mem} {off k : Nat} {bs : List Byte} (h : k < bs.length) :
    store m off bs (off + k) = bs.getD k 0 := by
  have hin : off ≤ off + k ∧ off + k < off + bs.length := by omega
  simp [store, hin]

@[simp] theorem store_nil (m : Mem) (off : Nat) : store m off [] = m :=
  funext fun _ => store_of_outside (by simp; omega)

theorem store_start {m : Mem} {bs : List Byte} {k : Nat} (h : k < bs.length) :
    store m 0 bs k = bs.getD k 0 := by
  have hin := @store_of_inside m 0 k bs h
  rwa [Nat.zero_add] at hin

theorem store_zeros (bs : List Byte) (i : Nat) : store (fun _ => 0) 0 bs i = bs.getD i 0 := by
  by_cases h : i < bs.length
  · exact store_start h
  · rw [store_of_outside (by omega), List.getD_eq_getElem?_getD, List.getElem?_eq_none (by omega)]
    rfl

theorem store_append (m : Mem) (off : Nat) (bs bs' : List Byte) :
    store (store m off bs) (off + bs.length) bs' = store m off (bs ++ bs') := by
  funext i
  simp only [store, List.length_append]
  by_cases hlo : off + bs.length ≤ i
  · have hget : bs'.getD (i - (off + bs.length)) 0 = (bs ++ bs').getD (i - off) 0 := by
      rw [List.getD_eq_getElem?_getD, List.getD_eq_getElem?_getD,
        List.getElem?_append_right (by omega), Nat.sub_add_eq]
    by_cases hhi : i < off + bs.length + bs'.length
    · rw [if_pos ⟨hlo, hhi⟩, if_pos (by omega), hget]
    · rw [if_neg (by omega), if_neg (by omega), if_neg (by omega)]
  · rw [if_neg (by omega)]
    by_cases hoff : off ≤ i
    · rw [if_pos (by omega), if_pos (by omega), List.getD_eq_getElem?_getD,
        List.getD_eq_getElem?_getD, List.getElem?_append_left (by omega)]
    · rw [if_neg (by omega), if_neg (by omega)]

theorem store_cons (m : Mem) (off : Nat) (b : Byte) (bs : List Byte) :
    store m off (b :: bs) = store (Function.update m off b) (off + 1) bs := by
  have hone : store m off [b] = Function.update m off b := by
    funext i
    by_cases hi : i = off
    · subst hi
      rw [Function.update_self]
      exact store_of_inside (k := 0) (by simp)
    · rw [Function.update_of_ne hi, store_of_outside (by simp only [List.length_singleton]; omega)]
  rw [← hone]
  exact (store_append m off [b] bs).symm

theorem load_store (m : Mem) (off : Nat) (bs : List Byte) :
    load (store m off bs) off bs.length = bs := by
  refine List.ext_getElem (by simp [load]) (fun i hi hi' => ?_)
  simp [load, store_of_inside hi', hi']

theorem store_at {m m' : Mem} {off i : Nat} {bs : List Byte}
    (h : ¬(off ≤ i ∧ i < off + bs.length) → m i = m' i) :
    store m off bs i = store m' off bs i := by
  unfold store
  split
  · rfl
  · exact h ‹_›

@[simp] theorem bytes16_length (v : BitVec 16) : (bytes16 v).length = 2 := rfl

@[simp] theorem bytes32_length (v : BitVec 32) : (bytes32 v).length = 4 := rfl

theorem bytes16_append (v : BitVec 16) :
    (v.extractLsb' 8 8 ++ v.extractLsb' 0 8 : BitVec 16) = v := by
  ext i hi
  simp only [BitVec.getElem_append, BitVec.getElem_extractLsb']
  split <;> rename_i h
  · simp [BitVec.getLsbD_eq_getElem hi]
  · have hs : 8 + (i - 8) = i := by omega
    simp [hs, BitVec.getLsbD_eq_getElem hi]

theorem append_lowByte (a b : Byte) : (a ++ b : BitVec 16).extractLsb' 0 8 = b := by
  ext i hi
  simp only [BitVec.getElem_extractLsb', BitVec.getLsbD_append]
  simp [hi]

theorem append_highByte (a b : Byte) : (a ++ b : BitVec 16).extractLsb' 8 8 = a := by
  ext i hi
  simp only [BitVec.getElem_extractLsb', BitVec.getLsbD_append]
  simp [BitVec.getLsbD_eq_getElem hi]

theorem bytes16_of_length {bs : List Byte} (h : bs.length = 2) : ∃ v, bs = bytes16 v := by
  obtain ⟨a, b, rfl⟩ := List.length_eq_two.mp h
  exact ⟨b ++ a, by rw [bytes16, append_lowByte, append_highByte]⟩

theorem swap16_read16 (m : Mem) (off : Nat) :
    swap16 (read16 m off) = m off ++ m (off + 1) := by
  rw [swap16, read16, append_lowByte, append_highByte]

theorem bytes32_append (v : BitVec 32) :
    (v.extractLsb' 24 8 ++ v.extractLsb' 16 8 ++ v.extractLsb' 8 8 ++ v.extractLsb' 0 8 :
      BitVec 32) = v := by
  ext i hi
  simp only [BitVec.getElem_append, BitVec.getElem_extractLsb']
  split
  · simp [BitVec.getLsbD_eq_getElem hi]
  · split
    · have hs : 8 + (i - 8) = i := by omega
      simp [hs, BitVec.getLsbD_eq_getElem hi]
    · split
      · have hs : 16 + (i - 8 - 8) = i := by omega
        simp [hs, BitVec.getLsbD_eq_getElem hi]
      · have hs : 24 + (i - 8 - 8 - 8) = i := by omega
        simp [hs, BitVec.getLsbD_eq_getElem hi]

@[simp] theorem read16_write16 (m : Mem) (off : Nat) (v : BitVec 16) :
    read16 (write16 m off v) off = v := by
  have h (k : Nat) (hk : k < 2) : write16 m off v (off + k) = (bytes16 v).getD k 0 :=
    store_of_inside (by simpa using hk)
  have h0 : write16 m off v off = v.extractLsb' 0 8 := h 0 (by decide)
  rw [read16, h0, h 1 (by decide)]
  exact bytes16_append v

theorem read32_setWidth (m : Mem) (off : Nat) : (read32 m off).setWidth 16 = read16 m off := by
  refine BitVec.eq_of_getLsbD_eq fun i hi => ?_
  rw [read32, read16, BitVec.getLsbD_setWidth]
  simp only [BitVec.getLsbD_append, hi, decide_true, Bool.true_and]
  by_cases hlow : i < 8
  · simp [hlow]
  · simp [hlow, show i - 8 < 8 by omega]

def word32 (bs : List Byte) : BitVec 32 :=
  bs.getD 3 0 ++ bs.getD 2 0 ++ bs.getD 1 0 ++ bs.getD 0 0

@[simp] theorem word32_bytes32 (v : BitVec 32) : word32 (bytes32 v) = v := bytes32_append v

theorem read32_store_self {m : Mem} {off : Nat} {bs : List Byte} (h : bs.length = 4) :
    read32 (store m off bs) off = word32 bs := by
  have hat (k : Nat) (hk : k < 4) : store m off bs (off + k) = bs.getD k 0 :=
    store_of_inside (by omega)
  have h0 : store m off bs off = bs.getD 0 0 := hat 0 (by decide)
  rw [read32, h0, hat 1 (by decide), hat 2 (by decide), hat 3 (by decide), word32]

@[simp] theorem read32_write32 (m : Mem) (off : Nat) (v : BitVec 32) :
    read32 (write32 m off v) off = v := by
  rw [write32, read32_store_self (bytes32_length v), word32_bytes32]

def bytes64 (v : BitVec 64) : List Byte :=
  bytes32 (v.extractLsb' 0 32) ++ bytes32 (v.extractLsb' 32 32)

def word64 (bs : List Byte) : BitVec 64 := word32 (bs.drop 4) ++ word32 bs

theorem word32_append {bs : List Byte} (more : List Byte) (h : 4 ≤ bs.length) :
    word32 (bs ++ more) = word32 bs := by
  have hget (i : Nat) (hi : i < 4) : (bs ++ more).getD i 0 = bs.getD i 0 := by
    rw [List.getD_eq_getElem?_getD, List.getElem?_append_left (by omega),
      List.getD_eq_getElem?_getD]
  rw [word32, word32, hget 0 (by omega), hget 1 (by omega), hget 2 (by omega), hget 3 (by omega)]

@[simp] theorem bytes64_length (v : BitVec 64) : (bytes64 v).length = 8 := rfl

@[simp] theorem word64_bytes64 (v : BitVec 64) : word64 (bytes64 v) = v := by
  rw [word64, bytes64, List.drop_left' (bytes32_length _), word32_append _ (by simp),
    word32_bytes32, word32_bytes32]
  ext i hi
  simp only [BitVec.getElem_append, BitVec.getElem_extractLsb']
  split
  · simp [BitVec.getLsbD_eq_getElem hi]
  · have hs : 32 + (i - 32) = i := by omega
    simp [hs, BitVec.getLsbD_eq_getElem hi]

theorem append_byte_toNat {w : Nat} (v : BitVec w) (b : Byte) :
    (v ++ b).toNat = v.toNat * 2 ^ 8 + b.toNat := by
  rw [BitVec.toNat_append, Nat.shiftLeft_eq, Nat.mul_comm,
    ← Nat.two_pow_add_eq_or_of_lt b.isLt]

theorem word32_toNat (bs : List Byte) :
    (word32 bs).toNat = (bs.getD 0 0).toNat + 2 ^ 8 * (bs.getD 1 0).toNat +
      2 ^ 16 * (bs.getD 2 0).toNat + 2 ^ 24 * (bs.getD 3 0).toNat := by
  simp only [word32, append_byte_toNat]
  omega

/-- The C string at the start of a block, if the block holds its terminator. -/
def cString : List Byte → Option (List Byte)
  | [] => none
  | b :: rest => if b = 0 then some [] else (cString rest).map (b :: ·)

theorem cString_eq_some {block str : List Byte} :
    cString block = some str ↔ 0 ∉ str ∧ ∃ rest, block = str ++ 0 :: rest := by
  induction block generalizing str with
  | nil => simp [cString]
  | cons b rest ih =>
    by_cases hb : b = 0
    · subst hb
      cases str with
      | nil => simp [cString]
      | cons c str =>
        simp only [cString, if_true, List.mem_cons, List.cons_append, List.cons.injEq]
        constructor
        · simp
        · rintro ⟨hc, _, h0, _⟩
          exact absurd (Or.inl h0) hc
    · cases str with
      | nil => simp [cString]
      | cons c str =>
        simp only [cString, if_neg hb, Option.map_eq_some_iff, List.cons.injEq, List.cons_append,
          List.mem_cons, ih]
        constructor
        · rintro ⟨_, ⟨hmem, r, hr⟩, rfl, rfl⟩
          exact ⟨fun h => h.elim (fun h0 => hb h0.symm) hmem, r, rfl, hr⟩
        · rintro ⟨hmem, r, rfl, hr⟩
          exact ⟨str, ⟨fun h => hmem (Or.inr h), r, hr⟩, rfl, rfl⟩

theorem cString_append {str mem : List Byte} :
    cString (str ++ mem.drop str.length) = some str ↔
      0 ∉ str ∧ mem[str.length]? = some 0 := by
  rw [cString_eq_some, ← List.head?_drop]
  refine and_congr_right fun _ => ?_
  cases mem.drop str.length with
  | nil => simp
  | cons b rest => simp

theorem cString_isSome {block : List Byte} : (cString block).isSome ↔ 0 ∈ block := by
  induction block with
  | nil => simp [cString]
  | cons b rest ih =>
    by_cases hb : b = 0
    · simp [cString, hb]
    · rw [cString, if_neg hb, Option.isSome_map, ih, List.mem_cons, or_iff_right (Ne.symm hb)]

theorem cString_length_le {block str : List Byte} {k : Nat} (h : cString block = some str) :
    str.length ≤ k ↔ 0 ∈ block.take (k + 1) := by
  obtain ⟨hmem, rest, rfl⟩ := cString_eq_some.mp h
  constructor
  · intro hle
    rw [List.take_append, List.mem_append]
    obtain ⟨j, hj⟩ : ∃ j, k + 1 - str.length = j + 1 := ⟨k - str.length, by omega⟩
    exact .inr (by simp [hj])
  · intro hzero
    by_contra hlt
    rw [List.take_append_of_le_length (by omega)] at hzero
    exact hmem (List.mem_of_mem_take hzero)

section Frame
variable {m : Mem} {off pos : Nat}

theorem read16_store {bs : List Byte} (h : pos + 2 ≤ off ∨ off + bs.length ≤ pos) :
    read16 (store m off bs) pos = read16 m pos := by
  rw [read16, read16, store_of_outside (by omega), store_of_outside (by omega)]

theorem read32_store {bs : List Byte} (h : pos + 4 ≤ off ∨ off + bs.length ≤ pos) :
    read32 (store m off bs) pos = read32 m pos := by
  rw [read32, read32, store_of_outside (by omega), store_of_outside (by omega),
    store_of_outside (by omega), store_of_outside (by omega)]

theorem read16_write16_frame {v : BitVec 16} (h : pos + 2 ≤ off ∨ off + 2 ≤ pos) :
    read16 (write16 m off v) pos = read16 m pos := read16_store h

theorem read32_write16_frame {v : BitVec 16} (h : pos + 4 ≤ off ∨ off + 2 ≤ pos) :
    read32 (write16 m off v) pos = read32 m pos := read32_store h

theorem read32_write32_frame {v : BitVec 32} (h : pos + 4 ≤ off ∨ off + 4 ≤ pos) :
    read32 (write32 m off v) pos = read32 m pos := read32_store h

end Frame

/-- The two memories hold the same bytes wherever `P` holds. -/
def AgreeOn (P : Nat → Prop) (m m' : Mem) : Prop := ∀ k, P k → m k = m' k

section Agree
variable {P : Nat → Prop} {m m' : Mem}

theorem AgreeOn.store (h : AgreeOn P m m') (off : Nat) (bs : List Byte) :
    AgreeOn P (store m off bs) (store m' off bs) :=
  fun k hk => store_at (fun _ => h k hk)

theorem AgreeOn.write16 (h : AgreeOn P m m') (off : Nat) (v : BitVec 16) :
    AgreeOn P (write16 m off v) (write16 m' off v) := h.store off _

theorem AgreeOn.write32 (h : AgreeOn P m m') (off : Nat) (v : BitVec 32) :
    AgreeOn P (write32 m off v) (write32 m' off v) := h.store off _

theorem AgreeOn.read16 (h : AgreeOn P m m') {off : Nat}
    (hP : ∀ k, off ≤ k → k < off + 2 → P k) : read16 m off = read16 m' off := by
  rw [HostMemory.read16, HostMemory.read16, h _ (hP off (by omega) (by omega)),
    h _ (hP (off + 1) (by omega) (by omega))]

theorem AgreeOn.read32 (h : AgreeOn P m m') {off : Nat}
    (hP : ∀ k, off ≤ k → k < off + 4 → P k) : read32 m off = read32 m' off := by
  rw [HostMemory.read32, HostMemory.read32, h _ (hP off (by omega) (by omega)),
    h _ (hP (off + 1) (by omega) (by omega)), h _ (hP (off + 2) (by omega) (by omega)),
    h _ (hP (off + 3) (by omega) (by omega))]

theorem AgreeOn.load (h : AgreeOn P m m') {off len : Nat}
    (hP : ∀ k, off ≤ k → k < off + len → P k) : load m off len = load m' off len := by
  refine List.map_congr_left (fun i hi => h _ (hP _ (by omega) ?_))
  have := List.mem_range.mp hi
  omega

end Agree

theorem load_length (m : Mem) (off len : Nat) : (load m off len).length = len := by
  simp [load]

theorem load_getElem? {m : Mem} {off len i : Nat} (h : i < len) :
    (load m off len)[i]? = some (m (off + i)) := by
  simp [load, h]

theorem load_add (m : Mem) (off a b : Nat) :
    load m off (a + b) = load m off a ++ load m (off + a) b := by
  simp only [load, List.range_add, List.map_append, List.map_map]
  congr 1
  refine List.map_congr_left (fun i _ => ?_)
  simp only [Function.comp_apply, Nat.add_assoc]

theorem load_store_before {m : Mem} {off pos len : Nat} {bs : List Byte} (h : off + len ≤ pos) :
    load (store m pos bs) off len = load m off len := by
  refine List.map_congr_left (fun i hi => store_of_outside ?_)
  have := List.mem_range.mp hi
  omega

theorem load_store_append (m : Mem) (off len : Nat) (bs : List Byte) :
    load (store m (off + len) bs) off (len + bs.length) = load m off len ++ bs := by
  rw [load_add, load_store_before (le_refl _), load_store]

theorem load_store_prefix (m : Mem) (off : Nat) (bs more : List Byte) :
    load (store m off (bs ++ more)) off bs.length = bs := by
  rw [← store_append, load_store_before (le_refl _), load_store]

theorem load_prefix (m : Mem) (off : Nat) (bs more : List Byte) (k : Nat) :
    load (store m off (bs ++ more)) off (bs.length + k) =
      bs ++ load (store m off (bs ++ more)) (off + bs.length) k := by
  rw [load_add, load_store_prefix]

theorem flatten_map_length {α : Type} {f : α → List Byte} {k : Nat} (h : ∀ a, (f a).length = k)
    (l : List α) : (l.map f).flatten.length = k * l.length := by
  induction l with
  | nil => rfl
  | cons a l ih =>
    rw [List.map_cons, List.flatten_cons, List.length_append, h, ih, List.length_cons, Nat.mul_succ,
      Nat.add_comm]

theorem load_update {m : Mem} {off len k : Nat} {v : Byte} (hlo : off ≤ k) :
    load (Function.update m k v) off len = (load m off len).set (k - off) v := by
  refine List.ext_getElem (by simp [load]) (fun i hi _ => ?_)
  simp only [load, List.length_map, List.length_range] at hi
  simp only [load, List.getElem_map, List.getElem_range, List.getElem_set]
  by_cases hik : off + i = k
  · subst hik
    simp
  · have hne : k - off ≠ i := by omega
    rw [Function.update_of_ne hik, if_neg hne]

end HostMemory
