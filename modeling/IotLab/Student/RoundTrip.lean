import IotLab.MemoryStream.Growth
import IotLab.Student.Parsing

set_option autoImplicit false

open HostMemory MemoryStream InputMemoryStream Fallible

namespace Student

section Encoding
variable (st : Student)

def chunks : List (List Byte) :=
  [bytes32 st.mId, bytes32 st.mHealth, bytes32 st.mAbility,
    bytes64 (BitVec.ofNat 64 st.mName.length), st.mName,
    bytes64 (BitVec.ofNat 64 st.mFriends.length)] ++ st.mFriends.map bytes32

def bytes : List Byte := st.chunks.flatten

def size : Nat := 28 + st.mName.length + 4 * st.mFriends.length

/-- The bytes that hold the bit fields; the first one is or-ed into a byte of the heap. -/
def byte0 (g : Byte) : Byte := g ||| st.mBitData1 ||| st.mBitData2 <<< 5

def byte1 : Byte := st.mBitData2 >>> 3 ||| st.mBitData3 <<< 3

def byte2 : Byte := st.mBitData3 >>> 5

def writeBitData (s : OutputMemoryStream) : Result OutputMemoryStream := do
  let s ← s.writeBits st.mBitData1 5
  let s ← s.writeBits st.mBitData2 6
  s.writeBits st.mBitData3 8

theorem write_eq_chunks (s : OutputMemoryStream) :
    st.write s = st.chunks.foldlM OutputMemoryStream.write s >>= st.writeBitData := by
  simp [write, chunks, OutputMemoryStream.writeString, OutputMemoryStream.writeVector,
    OutputMemoryStream.write32, OutputMemoryStream.writeSize, List.foldlM_map]
  rfl

theorem bytes_length : st.bytes.length = st.size := by
  rw [bytes, chunks, List.flatten_append, List.length_append,
    flatten_map_length bytes32_length]
  simp [size]
  omega

theorem writeBitData_eq {m : Mem} {k cap : Nat} (hcap : cap < 2 ^ 32) :
    st.writeBitData ⟨m, k, cap, 0⟩ = if k + 2 < cap then
      .ok ⟨store m k [st.byte0 (m k), st.byte1, st.byte2], k + 2, cap, 3⟩
      else .error .outOfBounds := by
  have h1 : OutputMemoryStream.writeBits ⟨m, k, cap, 0⟩ st.mBitData1 5 = if k < cap then
      .ok ⟨Function.update m k (m k ||| st.mBitData1), k, cap, 5⟩ else .error .outOfBounds := by
    rw [OutputMemoryStream.writeBits_within (show 0 + 5 < 8 by decide)]
    simp [OutputMemoryStream.mixed]
  by_cases hk : k < cap
  · have h2 : OutputMemoryStream.writeBits ⟨Function.update m k (m k ||| st.mBitData1), k, cap, 5⟩
        st.mBitData2 6 = if k + 1 < cap then
          .ok ⟨Function.update (Function.update m k (st.byte0 (m k))) (k + 1)
            (st.mBitData2 >>> 3), k + 1, cap, 3⟩ else .error .outOfBounds := by
      rw [OutputMemoryStream.writeBits_across_full (show 8 ≤ 5 + 6 by decide) (by decide) hk hcap]
      simp [OutputMemoryStream.mixed, byte0]
    by_cases hk1 : k + 1 < cap
    · have h3 : OutputMemoryStream.writeBits ⟨Function.update (Function.update m k
          (st.byte0 (m k))) (k + 1) (st.mBitData2 >>> 3), k + 1, cap, 3⟩ st.mBitData3 8 =
            if k + 2 < cap then .ok ⟨store m k [st.byte0 (m k), st.byte1, st.byte2], k + 2, cap, 3⟩
            else .error .outOfBounds := by
        rw [OutputMemoryStream.writeBits_across_full (show 8 ≤ 3 + 8 by decide) (by decide) hk1
          hcap]
        simp [OutputMemoryStream.mixed, store_cons, byte1, byte2]
      rw [if_pos hk] at h1
      rw [if_pos hk1] at h2
      simp only [writeBitData, h1, h2, h3, bind, Except.bind]
    · rw [if_pos hk] at h1
      rw [if_neg hk1] at h2
      rw [if_neg (by omega)]
      simp only [writeBitData, h1, h2, bind, Except.bind]
  · rw [if_neg hk] at h1
    rw [if_neg (by omega)]
    simp only [writeBitData, h1]
    rfl

def fieldBytes (g : Byte) : List Byte := [st.byte0 g, st.byte1, st.byte2]

/-- The first capacity that is not outgrown by the end of the name. -/
def firstCapacity : Nat := if st.mName.length ≤ 44 then 32 else 20 + st.mName.length

def capacity : Nat := capacityAfter 32 0 (st.chunks.map List.length)

theorem capacity_grown (hlt : st.size < 2 ^ 32) :
    Grown st.firstCapacity st.size st.capacity ∧ st.capacity < 2 ^ 32 := by
  unfold size at hlt
  have hbase : 32 ≤ st.firstCapacity := by
    unfold firstCapacity
    split <;> omega
  have hname : Grown st.firstCapacity (20 + st.mName.length) (grown 32 (20 + st.mName.length)) := by
    unfold firstCapacity grown
    split
    · split
      · rw [u32_of_lt (by decide), Nat.max_eq_left (by omega)]
        refine .inl ⟨1, rfl, by omega, fun j hj => ?_⟩
        obtain rfl : j = 0 := by omega
        omega
      · exact .inl ⟨0, rfl, by omega, by simp⟩
    · rw [if_pos (by omega), u32_of_lt (by decide), Nat.max_eq_right (by omega)]
      exact .inl ⟨0, by simp, le_refl _, by simp⟩
  have hcount := hname.step hbase (grown_lt (by decide) (by omega)) (show 8 ≤ 32 by decide)
  have hall := hcount.capacityAfter hbase (show 4 ≤ 32 by decide) st.mFriends.length
    (grown_lt (grown_lt (by decide) (by omega)) (by omega)) (by omega)
  have hsizes : st.chunks.map List.length =
      [4, 4, 4, 8, st.mName.length, 8] ++ List.replicate st.mFriends.length 4 := by
    have hfriends : st.mFriends.map (List.length ∘ bytes32) = List.replicate st.mFriends.length 4 :=
      List.eq_replicate_iff.mpr ⟨List.length_map _, by simp⟩
    rw [chunks, List.map_append, List.map_map, hfriends]
    rfl
  have hcap : st.capacity = capacityAfter (grown (grown 32 (20 + st.mName.length))
      (20 + st.mName.length + 8)) (20 + st.mName.length + 8)
      (List.replicate st.mFriends.length 4) := by
    rw [capacity, hsizes]
    rfl
  have hsize : st.size = 20 + st.mName.length + 8 + 4 * st.mFriends.length := by
    unfold size
    omega
  rw [hcap, hsize]
  exact hall

theorem write_bytes (heap : Mem) :
    st.chunks.foldlM OutputMemoryStream.write (.new heap) = if st.size < 2 ^ 32 then
      .ok ⟨store heap 0 st.bytes, st.size, st.capacity, 0⟩ else .error .outOfBounds := by
  have hchunks := OutputMemoryStream.write_chunks (s := .new heap) st.chunks
    (show 32 < 2 ^ 32 by decide) (Nat.zero_le _)
  rw [← bytes, st.bytes_length] at hchunks
  simp only [OutputMemoryStream.new, Nat.zero_add] at hchunks
  exact hchunks

def encoding (heap : Mem) : List Byte := st.bytes ++ st.fieldBytes (heap st.size)

theorem encoding_length (heap : Mem) : (st.encoding heap).length = st.size + 3 := by
  rw [encoding, List.length_append, bytes_length]
  rfl

theorem write_eq_ok {heap : Mem} {out : OutputMemoryStream} :
    st.write (.new heap) = .ok out ↔
      Room st.firstCapacity st.size ∧
        out = ⟨store heap 0 (st.encoding heap), st.size + 2, st.capacity, 3⟩ := by
  rw [write_eq_chunks, write_bytes]
  by_cases hlt : st.size < 2 ^ 32
  · obtain ⟨hgrown, hcap⟩ := st.capacity_grown hlt
    have hbyte : store heap 0 st.bytes st.size = heap st.size :=
      store_of_outside (.inr (by rw [st.bytes_length, Nat.zero_add]))
    have hjoin : store (store heap 0 st.bytes) st.size (st.fieldBytes (heap st.size)) =
        store heap 0 (st.encoding heap) := by
      rw [encoding, ← store_append, st.bytes_length, Nat.zero_add]
    have hfields := st.writeBitData_eq (m := store heap 0 st.bytes) (k := st.size) hcap
    rw [hbyte, ← fieldBytes, hjoin] at hfields
    rw [if_pos hlt, ← hgrown.room_iff hcap]
    simp only [bind, Except.bind, hfields]
    by_cases hroom : st.size + 2 < st.capacity
    · rw [if_pos hroom, Except.ok.injEq]
      exact ⟨fun h => ⟨hroom, h.symm⟩, fun h => h.2.symm⟩
    · rw [if_neg hroom]
      simp [hroom]
  · rw [if_neg hlt]
    simp only [bind, Except.bind, reduceCtorEq, false_iff, not_and]
    intro hroom
    exact absurd hroom.lt (by omega)

theorem write_of_room (heap : Mem) (hroom : Room st.firstCapacity st.size) :
    st.write (.new heap) =
      .ok ⟨store heap 0 (st.encoding heap), st.size + 2, st.capacity, 3⟩ :=
  (write_eq_ok st).mpr ⟨hroom, rfl⟩

theorem written_getLength {heap : Mem} {out : OutputMemoryStream}
    (h : st.write (.new heap) = .ok out) : out.getLength = st.size + 3 := by
  obtain ⟨hroom, rfl⟩ := (write_eq_ok st).mp h
  have hlt := hroom.lt
  exact u32_of_lt (show st.size + 2 + 1 < 2 ^ 32 by omega)

theorem written_bytes {heap : Mem} {out : OutputMemoryStream}
    (h : st.write (.new heap) = .ok out) :
    load out.mBuffer 0 out.getLength = st.encoding heap := by
  rw [written_getLength st h, ← st.encoding_length heap]
  obtain ⟨-, rfl⟩ := (write_eq_ok st).mp h
  exact load_store heap 0 (st.encoding heap)

theorem send_eq_ok {heap : Mem} {sent : List Byte} :
    st.send heap = .ok sent ↔ Room st.firstCapacity st.size ∧ sent = st.encoding heap := by
  simp only [send, bind_eq_ok, Except.ok.injEq]
  constructor
  · rintro ⟨out, hwrite, rfl⟩
    exact ⟨((write_eq_ok st).mp hwrite).1, st.written_bytes hwrite⟩
  · rintro ⟨hroom, rfl⟩
    have hwrite := st.write_of_room heap hroom
    exact ⟨_, hwrite, st.written_bytes hwrite⟩

end Encoding

section Decoding
variable {st : Student} {tail : List Byte}

theorem bytes_append : st.bytes ++ tail = bytes32 st.mId ++ (bytes32 st.mHealth ++
    (bytes32 st.mAbility ++ (bytes64 (BitVec.ofNat 64 st.mName.length) ++ (st.mName ++
    (bytes64 (BitVec.ofNat 64 st.mFriends.length) ++
    ((st.mFriends.map bytes32).flatten ++ tail)))))) := by
  simp [bytes, chunks]

theorem drop_name : (st.bytes ++ tail).drop 12 = bytes64 (BitVec.ofNat 64 st.mName.length) ++
    (st.mName ++ (bytes64 (BitVec.ofNat 64 st.mFriends.length) ++
    ((st.mFriends.map bytes32).flatten ++ tail))) := by
  rw [bytes_append]
  rfl

theorem drop_friends : (st.bytes ++ tail).drop (20 + st.mName.length) =
    bytes64 (BitVec.ofNat 64 st.mFriends.length) ++
    ((st.mFriends.map bytes32).flatten ++ tail) := by
  have h : (st.bytes ++ tail).drop (20 + st.mName.length) =
      (((st.bytes ++ tail).drop 12).drop 8).drop st.mName.length := by
    simp only [List.drop_drop]
  rw [h, drop_name, List.drop_left' (bytes64_length _), List.drop_left' rfl]

theorem nameCount_bytes (hlt : st.size < 2 ^ 32) :
    nameCount (st.bytes ++ tail) = st.mName.length := by
  unfold size at hlt
  rw [nameCount, drop_name, countOf_bytes64 (by omega)]

theorem u32_nameCount (hlt : st.size < 2 ^ 32) :
    u32 (nameCount (st.bytes ++ tail)) = st.mName.length := by
  rw [nameCount_bytes hlt]
  unfold size at hlt
  exact u32_of_lt (by omega)

theorem nameBytes_bytes (hlt : st.size < 2 ^ 32) : nameBytes (st.bytes ++ tail) = st.mName := by
  have h : (st.bytes ++ tail).drop 20 = ((st.bytes ++ tail).drop 12).drop 8 := by
    rw [List.drop_drop]
  rw [nameBytes, u32_nameCount hlt, h, drop_name, List.drop_left' (bytes64_length _),
    List.take_left' rfl]

theorem friendsOffset_bytes (hlt : st.size < 2 ^ 32) :
    friendsOffset (st.bytes ++ tail) = 20 + st.mName.length := by
  rw [friendsOffset, u32_nameCount hlt]

theorem friendCount_bytes (hlt : st.size < 2 ^ 32) :
    friendCount (st.bytes ++ tail) = st.mFriends.length := by
  rw [friendCount, friendsOffset_bytes hlt, drop_friends]
  unfold size at hlt
  exact countOf_bytes64 (by omega) _

theorem bitsOffset_bytes (hlt : st.size < 2 ^ 32) : bitsOffset (st.bytes ++ tail) = st.size := by
  rw [bitsOffset, friendsOffset_bytes hlt, friendCount_bytes hlt, size]
  omega

theorem words_bytes (hlt : st.size < 2 ^ 32) : words (friendCount (st.bytes ++ tail))
    ((st.bytes ++ tail).drop (friendsOffset (st.bytes ++ tail) + 8)) = st.mFriends := by
  rw [friendCount_bytes hlt, friendsOffset_bytes hlt, ← List.drop_drop, drop_friends,
    List.drop_left' (bytes64_length _), words_bytes32]

theorem bytes_getElem? (k : Nat) : (st.bytes ++ tail)[st.size + k]? = tail[k]? := by
  rw [List.getElem?_append_right (by rw [bytes_length]; omega), bytes_length,
    Nat.add_sub_cancel_left]

theorem readsAs_bytes {signed : Bool} {alloc : Allocator} (hlt : st.size < 2 ^ 32)
    {c c' c'' : Byte} {behind : List Byte} :
    ReadsAs signed alloc (st.bytes ++ c :: c' :: c'' :: behind) st ↔
      (0 ∉ st.mName ∧ ∃ mem, alloc.malloc st.mName.length = some mem ∧
        mem[st.mName.length]? = some 0) ∧
      alloc.resize st.mFriends.length = true ∧ st.mBitData1 = bitData1 c ∧
      st.mBitData2 = bitData2 signed c c' ∧ st.mBitData3 = bitData3 signed c' c'' := by
  have hc : (st.bytes ++ c :: c' :: c'' :: behind)[st.size]? = some c := bytes_getElem? 0
  have hc' : (st.bytes ++ c :: c' :: c'' :: behind)[st.size + 1]? = some c' := bytes_getElem? 1
  have hc'' : (st.bytes ++ c :: c' :: c'' :: behind)[st.size + 2]? = some c'' := bytes_getElem? 2
  constructor
  · intro h
    obtain ⟨mem, hmem, hname⟩ := h.name
    rw [nameCount_bytes hlt] at hmem
    rw [nameBytes_bytes hlt, u32_nameCount hlt, cString_append] at hname
    have hresize := h.resize
    rw [friendCount_bytes hlt] at hresize
    obtain ⟨b, b', b'', hb, hb', hb'', hd1, hd2, hd3⟩ := h.bits
    rw [bitsOffset_bytes hlt] at hb hb' hb''
    obtain rfl := Option.some.inj (hc.symm.trans hb)
    obtain rfl := Option.some.inj (hc'.symm.trans hb')
    obtain rfl := Option.some.inj (hc''.symm.trans hb'')
    exact ⟨⟨hname.1, mem, hmem, hname.2⟩, hresize, hd1, hd2, hd3⟩
  · rintro ⟨⟨hzero, mem, hmem, hnext⟩, hresize, hd1, hd2, hd3⟩
    constructor
    case length =>
      rw [bitsOffset_bytes hlt, List.length_append, bytes_length]
      simp
    case id => rw [bytes_append, List.take_left' (bytes32_length _), word32_bytes32]
    case health =>
      rw [bytes_append, List.drop_left' (bytes32_length _), List.take_left' (bytes32_length _),
        word32_bytes32]
    case ability =>
      have h : (st.bytes ++ c :: c' :: c'' :: behind).drop 8 =
          ((st.bytes ++ c :: c' :: c'' :: behind).drop 4).drop 4 := by rw [List.drop_drop]
      rw [h, bytes_append, List.drop_left' (bytes32_length _), List.drop_left' (bytes32_length _),
        List.take_left' (bytes32_length _), word32_bytes32]
    case name =>
      refine ⟨mem, by rw [nameCount_bytes hlt, hmem], ?_⟩
      rw [nameBytes_bytes hlt, u32_nameCount hlt, cString_append]
      exact ⟨hzero, hnext⟩
    case resize => rw [friendCount_bytes hlt, hresize]
    case friends => exact (words_bytes hlt).symm
    case bits =>
      rw [bitsOffset_bytes hlt]
      exact ⟨c, c', c'', hc, hc', hc'', hd1, hd2, hd3⟩

end Decoding

section BitData

theorem byte_eq_iff {x y : Byte} : x = y ↔ x[0] = y[0] ∧ x[1] = y[1] ∧ x[2] = y[2] ∧
    x[3] = y[3] ∧ x[4] = y[4] ∧ x[5] = y[5] ∧ x[6] = y[6] ∧ x[7] = y[7] := by
  constructor
  · rintro rfl
    simp
  · rintro ⟨h0, h1, h2, h3, h4, h5, h6, h7⟩
    ext j hj
    obtain rfl | rfl | rfl | rfl | rfl | rfl | rfl | rfl : j = 0 ∨ j = 1 ∨ j = 2 ∨ j = 3 ∨ j = 4 ∨
      j = 5 ∨ j = 6 ∨ j = 7 := by omega
    all_goals assumption

theorem lowPart_getElem (signed : Bool) (h : Nat) (c : Byte) {j : Nat} (hj : j < 8) :
    (lowPart signed h c)[j] =
      if h + j < 8 then c.getLsbD (h + j) else signed && c.getLsbD 7 := by
  rw [← BitVec.getLsbD_eq_getElem, lowPart_getLsbD c signed hj, BitVec.msb_eq_getLsbD_last]

/-- The bit fields come back: the first is one of five bits, the byte of the heap adds nothing to
the two in its place, the second is one of six bits (or its upper bits are the sign that a signed
`char` fills in, and what they add to the third is there), and the sign filled into the third is
its own. -/
@[mk_iff]
structure BitsKept (signed : Bool) (g : Byte) (st : Student) : Prop where
  first : st.mBitData1.toNat < 32
  clean : g &&& ~~~(st.mBitData1 ||| st.mBitData2 <<< 5) = 0
  second : if signed && st.mBitData2.getLsbD 2 then 248 ≤ st.mBitData2.toNat
    else st.mBitData2.toNat < 64
  leak : st.mBitData2 >>> 6 &&& ~~~st.mBitData3 = 0
  third : signed = true → st.mBitData3.getLsbD 4 = true → 224 ≤ st.mBitData3.toNat

section Bounds
variable (d : Byte)

theorem lt_two_pow_iff (k : Nat) : d.toNat < 2 ^ k ↔ d >>> k = 0 := by
  rw [BitVec.toNat_eq, BitVec.toNat_ushiftRight, Nat.shiftRight_eq_div_pow]
  exact (Nat.div_eq_zero_iff_lt (Nat.two_pow_pos k)).symm

theorem sub_two_pow_le_iff {k : Nat} (hk : k ≤ 8) :
    2 ^ 8 - 2 ^ k ≤ d.toNat ↔ ~~~d >>> k = 0 := by
  have hlt := d.isLt
  have hpos := Nat.two_pow_pos k
  have hle : 2 ^ k ≤ 2 ^ 8 := Nat.pow_le_pow_right (by decide) hk
  rw [← lt_two_pow_iff, BitVec.toNat_not]
  omega

theorem lt_32_iff : d.toNat < 32 ↔ d[5] = false ∧ d[6] = false ∧ d[7] = false := by
  rw [show 32 = 2 ^ 5 from rfl, lt_two_pow_iff, byte_eq_iff]
  simp

theorem lt_64_iff : d.toNat < 64 ↔ d[6] = false ∧ d[7] = false := by
  rw [show 64 = 2 ^ 6 from rfl, lt_two_pow_iff, byte_eq_iff]
  simp

theorem le_248_iff : 248 ≤ d.toNat ↔
    d[3] = true ∧ d[4] = true ∧ d[5] = true ∧ d[6] = true ∧ d[7] = true := by
  rw [show 248 = 2 ^ 8 - 2 ^ 3 from rfl, sub_two_pow_le_iff d (by decide), byte_eq_iff]
  simp

theorem le_224_iff : 224 ≤ d.toNat ↔ d[5] = true ∧ d[6] = true ∧ d[7] = true := by
  rw [show 224 = 2 ^ 8 - 2 ^ 5 from rfl, sub_two_pow_le_iff d (by decide), byte_eq_iff]
  simp

theorem le_240_iff : 240 ≤ d.toNat ↔ d[4] = true ∧ 224 ≤ d.toNat := by
  rw [show 240 = 2 ^ 8 - 2 ^ 4 from rfl, sub_two_pow_le_iff d (by decide), byte_eq_iff, le_224_iff]
  simp

end Bounds

theorem bitsKept_iff_fields {signed : Bool} {g : Byte} {st : Student} :
    BitsKept signed g st ↔ st.mBitData1 = bitData1 (st.byte0 g) ∧
      st.mBitData2 = bitData2 signed (st.byte0 g) st.byte1 ∧
      st.mBitData3 = bitData3 signed st.byte1 st.byte2 := by
  obtain ⟨_, _, _, _, _, d1, d2, d3⟩ := st
  rw [bitsKept_iff, byte_eq_iff (x := d1), byte_eq_iff (x := d2), byte_eq_iff (x := d3),
    lt_32_iff, lt_64_iff, le_248_iff, le_224_iff, byte_eq_iff (y := 0), byte_eq_iff (y := 0)]
  cases signed with
  | false =>
    simp [bitData1, bitData2, bitData3, byte0, byte1, byte2, lowPart_getElem]
    grind
  | true =>
    simp [bitData1, bitData2, bitData3, byte0, byte1, byte2, lowPart_getElem]
    grind

section Flips
variable {signed : Bool} {c c' c'' : Byte}

theorem bitData3_getElem_zero : (bitData3 signed c' c'')[0] = c'[3] := by
  simp [bitData3, lowPart_getElem]

theorem bitData3_getElem_five : (bitData3 signed c' c'')[5] = (c''[0] || signed && c'[7]) := by
  simp [bitData3, lowPart_getElem]

theorem bitData3_of_sign (h : c'[7] = true) : bitData3 true c' c = bitData3 true c' c'' := by
  rw [byte_eq_iff]
  simp [bitData3, lowPart_getElem, h]

theorem byte1_getElem_seven (st : Student) : st.byte1[7] = st.mBitData3[4] := by
  simp [byte1]

end Flips

end BitData

/-- A student written to a fresh stream comes back from its bytes, and the reader ends where the
writer did. -/
def RoundTrips (signed : Bool) (heap : Mem) (alloc : Allocator) (st : Student) : Prop :=
  ∃ out s, st.write (.new heap) = .ok out ∧
    read signed alloc (.new (load out.mBuffer 0 out.getLength) out.getLength) = .ok (st, s) ∧
    s.mHead = out.mHead ∧ s.mBitHead = out.mBitHead

/-- What the code needs to restore a student: a buffer whose size is not just reached, a name
that ends right behind the block allocated for it, and bit fields that are kept. -/
structure Restorable (signed : Bool) (heap : Mem) (alloc : Allocator) (st : Student) : Prop where
  room : Room st.firstCapacity st.size
  name : 0 ∉ st.mName
  terminated : ∃ mem, alloc.malloc st.mName.length = some mem ∧ mem[st.mName.length]? = some 0
  resize : alloc.resize st.mFriends.length = true
  bits : BitsKept signed (heap st.size) st

theorem readsAs_encoding {signed : Bool} {heap : Mem} {alloc : Allocator} {st : Student}
    (hroom : Room st.firstCapacity st.size) (behind : List Byte) :
    ReadsAs signed alloc (st.encoding heap ++ behind) st ↔ Restorable signed heap alloc st := by
  have hlt := hroom.lt
  rw [encoding, fieldBytes, List.append_assoc]
  simp only [List.cons_append, List.nil_append]
  rw [readsAs_bytes (by omega), ← bitsKept_iff_fields]
  exact ⟨fun ⟨⟨hname, hterm⟩, hresize, hbits⟩ => ⟨hroom, hname, hterm, hresize, hbits⟩,
    fun h => ⟨⟨h.name, h.terminated⟩, h.resize, h.bits⟩⟩

theorem read_encoding {signed : Bool} {heap : Mem} {alloc : Allocator} {st : Student}
    (hroom : Room st.firstCapacity st.size) {s : InputMemoryStream} :
    read signed alloc (.new (st.encoding heap) (st.size + 3)) = .ok (st, s) ↔
      Restorable signed heap alloc st ∧ s = ⟨st.encoding heap, st.size + 2, st.size + 3, 3⟩ := by
  have hlt := hroom.lt
  have hlen : (st.encoding heap).length < 2 ^ 32 := by
    rw [encoding_length]
    omega
  have hbits : bitsOffset (st.encoding heap) = st.size := bitsOffset_bytes (by omega)
  have h : ReadsAs signed alloc (st.encoding heap ++ []) st ↔ Restorable signed heap alloc st :=
    readsAs_encoding hroom []
  rw [List.append_nil] at h
  rw [read_eq_ok hlen, h, hbits]

theorem RoundTrips.restorable {signed : Bool} {heap : Mem} {alloc : Allocator} {st : Student}
    (h : RoundTrips signed heap alloc st) : Restorable signed heap alloc st := by
  obtain ⟨out, s, hwrite, hrun, -⟩ := h
  rw [st.written_bytes hwrite, st.written_getLength hwrite] at hrun
  exact ((read_encoding ((write_eq_ok st).mp hwrite).1).mp hrun).1

theorem Restorable.roundTrips {signed : Bool} {heap : Mem} {alloc : Allocator} {st : Student}
    (h : Restorable signed heap alloc st) : RoundTrips signed heap alloc st := by
  have hwrite := st.write_of_room heap h.room
  have hrun := (read_encoding h.room).mpr ⟨h, rfl⟩
  refine ⟨_, ⟨st.encoding heap, st.size + 2, st.size + 3, 3⟩, hwrite, ?_, rfl, rfl⟩
  rw [st.written_bytes hwrite, st.written_getLength hwrite, hrun]

/-- A student is restored from its bytes exactly when it is restorable. -/
theorem student_round_trip_iff (signed : Bool) (heap : Mem) (alloc : Allocator) (st : Student) :
    RoundTrips signed heap alloc st ↔ Restorable signed heap alloc st :=
  ⟨RoundTrips.restorable, Restorable.roundTrips⟩

def seoeun : Student := construct 1111111 [83, 101, 111, 101, 117, 110]

example : Restorable false (fun _ => 0) .zeroed seoeun where
  room := ⟨1, by decide, by decide, by decide⟩
  name := by decide
  terminated := ⟨_, rfl, by decide⟩
  resize := by decide
  bits := ⟨by decide, by decide, by decide, by decide, by decide⟩

/-- With a signed `char` the second bit field of that student does not come back: bit 2 of its 52
is taken for a sign. -/
theorem seoeun_not_restored : ¬RoundTrips true (fun _ => 0) .zeroed seoeun := by
  intro h
  have hsecond := h.restorable.bits.second
  revert hsecond
  decide

end Student
