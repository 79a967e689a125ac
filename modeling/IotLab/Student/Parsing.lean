import IotLab.Student.Main

set_option autoImplicit false

open HostMemory MemoryStream InputMemoryStream Fallible

namespace Student

section Layout
variable (block : List Byte)

def nameCount : Nat := countOf (block.drop 12)

/-- The bytes copied for the name: `Read` takes its count as a `uint32_t`. -/
def nameBytes : List Byte := (block.drop 20).take (u32 (nameCount block))

def friendsOffset : Nat := 20 + u32 (nameCount block)

def friendCount : Nat := countOf (block.drop (friendsOffset block))

def bitsOffset : Nat := friendsOffset block + 8 + 4 * friendCount block

end Layout

def bitData1 (c : Byte) : Byte := c &&& 31

def bitData2 (signed : Bool) (c c' : Byte) : Byte := ((c' &&& 7) <<< 3) ||| lowPart signed 5 c

def bitData3 (signed : Bool) (c c' : Byte) : Byte := ((c' &&& 7) <<< 5) ||| lowPart signed 3 c

/-- The student in a block, with the memory behind the block of its name. -/
structure ReadsAs (signed : Bool) (alloc : Allocator) (block : List Byte) (st : Student) :
    Prop where
  length : bitsOffset block + 3 ≤ block.length
  id : st.mId = word32 (block.take 4)
  health : st.mHealth = word32 ((block.drop 4).take 4)
  ability : st.mAbility = word32 ((block.drop 8).take 4)
  name : ∃ mem, alloc.malloc (nameCount block) = some mem ∧
    cString (nameBytes block ++ mem.drop (u32 (nameCount block))) = some st.mName
  resize : alloc.resize (friendCount block) = true
  friends : st.mFriends = words (friendCount block) (block.drop (friendsOffset block + 8))
  bits : ∃ c c' c'', block[bitsOffset block]? = some c ∧ block[bitsOffset block + 1]? = some c' ∧
    block[bitsOffset block + 2]? = some c'' ∧ st.mBitData1 = bitData1 c ∧
    st.mBitData2 = bitData2 signed c c' ∧ st.mBitData3 = bitData3 signed c' c''

section Read
variable {signed : Bool} {alloc : Allocator} {block : List Byte} {count : Nat}

section Fields
variable {s s' : InputMemoryStream} {d : Byte}

theorem readBitData1_eq_ok (hbit : s.mBitHead = 0) : s.readBits signed 5 = .ok (d, s') ↔
    ∃ c, s.mBuffer[s.mHead]? = some c ∧ d = bitData1 c ∧ s' = { s with mBitHead := 5 } := by
  obtain ⟨mBuffer, mHead, mCapacity, mBitHead⟩ := s
  subst hbit
  rw [readBits_within_eq_ok (show 0 + 5 < 8 by decide)]
  simp [bitData1]

theorem readBitData2_eq_ok (hbit : s.mBitHead = 5) (hhead : s.mHead + 1 < 2 ^ 32) :
    s.readBits signed 6 = .ok (d, s') ↔
      ∃ c c', s.mBuffer[s.mHead]? = some c ∧ s.mBuffer[s.mHead + 1]? = some c' ∧
        d = bitData2 signed c c' ∧ s' = { s with mHead := s.mHead + 1, mBitHead := 3 } := by
  obtain ⟨mBuffer, mHead, mCapacity, mBitHead⟩ := s
  subst hbit
  exact readBits_across_eq_ok (show 8 ≤ 5 + 6 by decide) (by decide) hhead

theorem readBitData3_eq_ok (hbit : s.mBitHead = 3) (hhead : s.mHead + 1 < 2 ^ 32) :
    s.readBits signed 8 = .ok (d, s') ↔
      ∃ c c', s.mBuffer[s.mHead]? = some c ∧ s.mBuffer[s.mHead + 1]? = some c' ∧
        d = bitData3 signed c c' ∧ s' = { s with mHead := s.mHead + 1, mBitHead := 3 } := by
  obtain ⟨mBuffer, mHead, mCapacity, mBitHead⟩ := s
  subst hbit
  exact readBits_across_eq_ok (show 8 ≤ 3 + 8 by decide) (by decide) hhead

end Fields

def reader (block : List Byte) (count k : Nat) : InputMemoryStream :=
  { new block count with mHead := k }

section Bytes
variable {k : Nat} {s' : InputMemoryStream}

theorem reader_inside (hlen : block.length < 2 ^ 32) (hk : k ≤ block.length) :
    (reader block count k).Inside := ⟨hk, hlen⟩

theorem unread_reader : (reader block count k).unread = block.drop k := rfl

theorem advance_reader (n : Nat) : (reader block count k).advance n = reader block count (k + n) :=
  rfl

theorem le_unread {n : Nat} (hk : k ≤ block.length) :
    n ≤ (reader block count k).unread.length ↔ k + n ≤ block.length := by
  rw [unread_reader, List.length_drop]
  omega

theorem read32_reader (hlen : block.length < 2 ^ 32) (hk : k ≤ block.length) {v : BitVec 32} :
    (reader block count k).read32 = .ok (v, s') ↔
      k + 4 ≤ block.length ∧ v = word32 ((block.drop k).take 4) ∧
        s' = reader block count (k + 4) := by
  rw [read32_eq_ok (reader_inside hlen hk), le_unread hk]
  rfl

theorem readString_reader (hlen : block.length < 2 ^ 32) (hk : k ≤ block.length)
    {str : List Byte} : (reader block count k).readString alloc = .ok (str, s') ↔
      k + 8 ≤ block.length ∧ ∃ mem, alloc.malloc (countOf (block.drop k)) = some mem ∧
        k + 8 + u32 (countOf (block.drop k)) ≤ block.length ∧
        cString ((block.drop (k + 8)).take (u32 (countOf (block.drop k))) ++
          mem.drop (u32 (countOf (block.drop k)))) = some str ∧
        s' = reader block count (k + 8 + u32 (countOf (block.drop k))) := by
  rw [readString_eq_ok (reader_inside hlen hk), le_unread hk, le_unread hk, unread_reader,
    advance_reader, List.drop_drop, Nat.add_assoc]

theorem readVector_reader (hlen : block.length < 2 ^ 32) (hk : k ≤ block.length)
    {elements : List (BitVec 32)} :
    (reader block count k).readVector alloc = .ok (elements, s') ↔
      k + 8 ≤ block.length ∧ alloc.resize (countOf (block.drop k)) = true ∧
        k + 8 + 4 * countOf (block.drop k) ≤ block.length ∧
        elements = words (countOf (block.drop k)) (block.drop (k + 8)) ∧
        s' = reader block count (k + 8 + 4 * countOf (block.drop k)) := by
  rw [readVector_eq_ok (reader_inside hlen hk), le_unread hk, le_unread hk, unread_reader,
    advance_reader, List.drop_drop, Nat.add_assoc]

end Bytes

theorem read_eq_ok (hlen : block.length < 2 ^ 32) {st : Student} {s : InputMemoryStream} :
    read signed alloc (new block count) = .ok (st, s) ↔
      ReadsAs signed alloc block st ∧ s = ⟨block, bitsOffset block + 2, count, 3⟩ := by
  simp only [read, bind_eq_ok, Prod.exists, Except.ok.injEq, Prod.mk.injEq]
  constructor
  · rintro ⟨id, s₁, h₁, health, s₂, h₂, ability, s₃, h₃, name, s₄, h₄, friends, s₅, h₅, d1, s₆, h₆,
      d2, s₇, h₇, d3, s₈, h₈, rfl, rfl⟩
    obtain ⟨hle₁, rfl, rfl⟩ := (read32_reader (k := 0) hlen (Nat.zero_le _)).mp h₁
    obtain ⟨hle₂, rfl, rfl⟩ := (read32_reader (k := 4) hlen hle₁).mp h₂
    obtain ⟨hle₃, rfl, rfl⟩ := (read32_reader (k := 8) hlen hle₂).mp h₃
    obtain ⟨hle₄, mem, hmem, hname, hstr, rfl⟩ := (readString_reader (k := 12) hlen hle₃).mp h₄
    obtain ⟨hle₅, hresize, hfriends, rfl, rfl⟩ := (readVector_reader hlen hname).mp h₅
    change bitsOffset block ≤ block.length at hfriends
    obtain ⟨c, hc, rfl, rfl⟩ := (readBitData1_eq_ok rfl).mp h₆
    change block[bitsOffset block]? = some c at hc
    have hroom := (List.getElem?_eq_some_iff.mp hc).1
    obtain ⟨c₁, c', hc₁, hc', rfl, rfl⟩ :=
      (readBitData2_eq_ok rfl (show bitsOffset block + 1 < 2 ^ 32 by omega)).mp h₇
    change block[bitsOffset block]? = some c₁ at hc₁
    change block[bitsOffset block + 1]? = some c' at hc'
    have hroom' := (List.getElem?_eq_some_iff.mp hc').1
    obtain ⟨c₂, c'', hc₂, hc'', rfl, rfl⟩ :=
      (readBitData3_eq_ok rfl (show bitsOffset block + 2 < 2 ^ 32 by omega)).mp h₈
    change block[bitsOffset block + 1]? = some c₂ at hc₂
    change block[bitsOffset block + 2]? = some c'' at hc''
    have hroom'' := (List.getElem?_eq_some_iff.mp hc'').1
    obtain rfl := Option.some.inj (hc.symm.trans hc₁)
    obtain rfl := Option.some.inj (hc'.symm.trans hc₂)
    exact ⟨⟨by omega, rfl, rfl, rfl, ⟨mem, hmem, hstr⟩, hresize, rfl,
      ⟨c, c', c'', hc, hc', hc'', rfl, rfl, rfl⟩⟩, rfl⟩
  · rintro ⟨h, rfl⟩
    obtain ⟨mem, hmem, hstr⟩ := h.name
    obtain ⟨c, c', c'', hc, hc', hc'', hd1, hd2, hd3⟩ := h.bits
    have hfriends : friendsOffset block + 8 + 4 * friendCount block + 3 ≤ block.length := h.length
    have hname : 20 + u32 (nameCount block) + 8 + 4 * friendCount block + 3 ≤ block.length :=
      h.length
    refine ⟨_, _, (read32_reader (k := 0) hlen (by omega)).mpr ⟨by omega, rfl, rfl⟩,
      _, _, (read32_reader (k := 4) hlen (by omega)).mpr ⟨by omega, rfl, rfl⟩,
      _, _, (read32_reader (k := 8) hlen (by omega)).mpr ⟨by omega, rfl, rfl⟩,
      _, _, (readString_reader (k := 12) hlen (by omega)).mpr
        ⟨by omega, mem, hmem, by change 20 + u32 (nameCount block) ≤ _; omega, hstr, rfl⟩,
      _, _, (readVector_reader (k := friendsOffset block) hlen (by omega)).mpr
        ⟨by omega, h.resize, by change _ + 4 * friendCount block ≤ _; omega, rfl, rfl⟩,
      _, _, (readBitData1_eq_ok rfl).mpr ⟨c, hc, rfl, rfl⟩,
      _, _, (readBitData2_eq_ok rfl ?_).mpr ⟨c, c', hc, hc', rfl, rfl⟩,
      _, _, (readBitData3_eq_ok rfl ?_).mpr ⟨c', c'', hc', hc'', rfl, rfl⟩, ?_, rfl⟩
    · change bitsOffset block + 1 < 2 ^ 32
      have := h.length
      omega
    · change bitsOffset block + 2 < 2 ^ 32
      have := h.length
      omega
    · cases st
      exact (Student.mk.injEq ..).mpr ⟨h.id.symm, h.health.symm, h.ability.symm, rfl,
        h.friends.symm, hd1.symm, hd2.symm, hd3.symm⟩

theorem read_eq_exception (hlen : block.length < 2 ^ 32) :
    read signed alloc (new block count) = .error .exception ↔
      friendsOffset block + 8 ≤ block.length ∧
      (∃ mem, alloc.malloc (nameCount block) = some mem ∧
        0 ∈ nameBytes block ++ mem.drop (u32 (nameCount block))) ∧
      alloc.resize (friendCount block) = false := by
  simp only [read, bind_eq_error, read32_ne_exception, readString_ne_exception,
    readBits_ne_exception, false_or, Prod.exists, reduceCtorEq, and_false, exists_false, or_false]
  constructor
  · rintro ⟨id, s₁, h₁, health, s₂, h₂, ability, s₃, h₃, name, s₄, h₄, h₅⟩
    obtain ⟨hle₁, rfl, rfl⟩ := (read32_reader (k := 0) hlen (Nat.zero_le _)).mp h₁
    obtain ⟨hle₂, rfl, rfl⟩ := (read32_reader (k := 4) hlen hle₁).mp h₂
    obtain ⟨hle₃, rfl, rfl⟩ := (read32_reader (k := 8) hlen hle₂).mp h₃
    obtain ⟨hle₄, mem, hmem, hname, hstr, rfl⟩ := (readString_reader (k := 12) hlen hle₃).mp h₄
    obtain ⟨hle₅, hresize⟩ := (readVector_eq_exception (reader_inside hlen hname)).mp h₅
    exact ⟨(le_unread hname).mp hle₅,
      ⟨mem, hmem, cString_isSome.mp (Option.isSome_of_eq_some hstr)⟩, hresize⟩
  · rintro ⟨hle, ⟨mem, hmem, hzero⟩, hresize⟩
    obtain ⟨name, hstr⟩ := Option.isSome_iff_exists.mp (cString_isSome.mpr hzero)
    have hname : 20 + u32 (nameCount block) + 8 ≤ block.length := hle
    refine ⟨_, _, (read32_reader (k := 0) hlen (by omega)).mpr ⟨by omega, rfl, rfl⟩,
      _, _, (read32_reader (k := 4) hlen (by omega)).mpr ⟨by omega, rfl, rfl⟩,
      _, _, (read32_reader (k := 8) hlen (by omega)).mpr ⟨by omega, rfl, rfl⟩,
      name, _, (readString_reader (k := 12) hlen (by omega)).mpr
        ⟨by omega, mem, hmem, by change 20 + u32 (nameCount block) ≤ _; omega, hstr, rfl⟩,
      (readVector_eq_exception (reader_inside hlen ?_)).mpr ⟨(le_unread ?_).mpr hle, hresize⟩⟩
    · change 20 + u32 (nameCount block) ≤ _
      omega
    · change 20 + u32 (nameCount block) ≤ _
      omega

end Read

def received (packet : List Byte) : List Byte := packet.take (u32 packet.length)

/-- `Read` of a packet: an access at or beyond the capacity is one outside the block. -/
def parse (signed : Bool) (alloc : Allocator) (packet : List Byte) :
    Result (Student × InputMemoryStream) :=
  read signed alloc (new (received packet) (u32 packet.length))

/-- A safe outcome is an exception, or a student with a name of received bytes and a head inside
the stream. -/
def Safe (packet : List Byte) : Result (Student × InputMemoryStream) → Prop
  | .error e => e = .exception
  | .ok (st, s) => s.mHead ≤ s.mCapacity ∧ st.mName.length ≤ u32 (nameCount (received packet))

/-- The block holds what its counts say, and the name ends in it or right behind it. -/
structure Covered (alloc : Allocator) (block : List Byte) : Prop where
  counts : friendsOffset block + 8 ≤ block.length
  name : ∃ mem, alloc.malloc (nameCount block) = some mem ∧ (0 ∈ nameBytes block ∨
    mem[u32 (nameCount block)]? = some 0 ∨
    0 ∈ mem.drop (u32 (nameCount block)) ∧ alloc.resize (friendCount block) = false)
  friends : alloc.resize (friendCount block) = true → bitsOffset block + 3 ≤ block.length

section Safety
variable {signed : Bool} {alloc : Allocator} {block : List Byte} {st : Student}

theorem nameBytes_length (h : friendsOffset block ≤ block.length) :
    (nameBytes block).length = u32 (nameCount block) := by
  unfold friendsOffset at h
  rw [nameBytes, List.length_take, List.length_drop]
  omega

theorem ReadsAs.counts (h : ReadsAs signed alloc block st) :
    friendsOffset block + 8 ≤ block.length := by
  have hle : friendsOffset block + 8 + 4 * friendCount block + 3 ≤ block.length := h.length
  omega

theorem name_length_le {mem name : List Byte} (h : friendsOffset block ≤ block.length)
    (hstr : cString (nameBytes block ++ mem.drop (u32 (nameCount block))) = some name) :
    name.length ≤ u32 (nameCount block) ↔
      0 ∈ nameBytes block ∨ mem[u32 (nameCount block)]? = some 0 := by
  have hnext : 0 ∈ (mem.drop (u32 (nameCount block))).take 1 ↔
      mem[u32 (nameCount block)]? = some 0 := by
    rw [← List.head?_drop]
    cases mem.drop (u32 (nameCount block)) with
    | nil => simp
    | cons b rest =>
      rw [List.take_succ_cons, List.take_zero, List.mem_singleton, List.head?_cons,
        Option.some.injEq]
      exact eq_comm
  rw [cString_length_le hstr, List.take_append, List.mem_append, nameBytes_length h,
    Nat.add_sub_cancel_left, hnext,
    List.take_of_length_le (by rw [nameBytes_length h]; exact Nat.le_succ _)]

theorem Covered.terminated (h : Covered alloc block) :
    ∃ mem, alloc.malloc (nameCount block) = some mem ∧
      0 ∈ nameBytes block ++ mem.drop (u32 (nameCount block)) := by
  obtain ⟨mem, hmem, hname⟩ := h.name
  refine ⟨mem, hmem, List.mem_append.mpr ?_⟩
  rcases hname with hin | hnext | ⟨hbehind, -⟩
  · exact .inl hin
  · refine .inr (List.mem_of_getElem? (i := 0) ?_)
    rw [List.getElem?_drop]
    exact hnext
  · exact .inr hbehind

theorem Covered.readsAs (h : Covered alloc block)
    (hresize : alloc.resize (friendCount block) = true) : ∃ st, ReadsAs signed alloc block st := by
  obtain ⟨mem, hmem, hzero⟩ := h.terminated
  obtain ⟨name, hname⟩ := Option.isSome_iff_exists.mp (cString_isSome.mpr hzero)
  have hle := h.friends hresize
  exact ⟨⟨_, _, _, name, _, _, _, _⟩, hle, rfl, rfl, rfl, ⟨mem, hmem, hname⟩, hresize, rfl,
    _, _, _, List.getElem?_eq_getElem (by omega), List.getElem?_eq_getElem (by omega),
    List.getElem?_eq_getElem (by omega), rfl, rfl, rfl⟩

end Safety

/-- A packet is parsed safely exactly when it holds what its counts say. -/
theorem parse_safe_iff (signed : Bool) (alloc : Allocator) (packet : List Byte) :
    Safe packet (parse signed alloc packet) ↔ Covered alloc (received packet) := by
  have hlen : (received packet).length = u32 packet.length := by
    rw [received, List.length_take]
    exact Nat.min_eq_left (u32_le _)
  have hlt : (received packet).length < 2 ^ 32 := hlen ▸ Nat.mod_lt _ (by decide)
  cases hrun : parse signed alloc packet with
  | error e =>
    constructor
    · intro hsafe
      obtain rfl : e = .exception := hsafe
      obtain ⟨hcounts, ⟨mem, hmem, hzero⟩, hresize⟩ := (read_eq_exception hlt).mp hrun
      refine ⟨hcounts, ⟨mem, hmem, ?_⟩, fun h => by simp [hresize] at h⟩
      exact (List.mem_append.mp hzero).imp id fun hbehind => .inr ⟨hbehind, hresize⟩
    · intro h
      cases hresize : alloc.resize (friendCount (received packet)) with
      | false =>
        have hthrow : parse signed alloc packet = .error .exception :=
          (read_eq_exception hlt).mpr ⟨h.counts, h.terminated, hresize⟩
        exact Except.error.inj (hrun.symm.trans hthrow)
      | true =>
        obtain ⟨st, hst⟩ : ∃ st, ReadsAs signed alloc (received packet) st := h.readsAs hresize
        have hok : parse signed alloc packet = .ok (st, ⟨received packet,
            bitsOffset (received packet) + 2, u32 packet.length, 3⟩) :=
          (read_eq_ok hlt).mpr ⟨hst, rfl⟩
        rw [hok] at hrun
        contradiction
  | ok result =>
    obtain ⟨st, s⟩ := result
    obtain ⟨hst, rfl⟩ := (read_eq_ok hlt).mp hrun
    obtain ⟨mem, hmem, hstr⟩ := hst.name
    have hcounts := hst.counts
    have hname := name_length_le (by omega) hstr
    have hle := hst.length
    constructor
    · rintro ⟨-, hsafe⟩
      exact ⟨hcounts, ⟨mem, hmem, (hname.mp hsafe).imp id .inl⟩, fun _ => hle⟩
    · intro h
      obtain ⟨mem', hmem', hdisj⟩ := h.name
      obtain rfl := Option.some.inj (hmem.symm.trans hmem')
      refine ⟨by simp only; omega, hname.mpr ?_⟩
      rcases hdisj with hin | hnext | ⟨-, hresize⟩
      · exact .inl hin
      · exact .inr hnext
      · rw [hst.resize] at hresize
        contradiction

instance (packet : List Byte) : (r : Result (Student × InputMemoryStream)) →
    Decidable (Safe packet r)
  | .error e => inferInstanceAs (Decidable (e = .exception))
  | .ok (st, s) => inferInstanceAs (Decidable (s.mHead ≤ s.mCapacity ∧
      st.mName.length ≤ u32 (nameCount (received packet))))

/-- Of a packet of one byte, `Read` reads three bytes that were not received. -/
theorem short_packet_overread :
    ¬Safe [0] (parse true .zeroed [0]) ∧ ¬Safe [0] (parse false .zeroed [0]) := by
  decide

end Student
