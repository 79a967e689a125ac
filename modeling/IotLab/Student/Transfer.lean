import IotLab.Student.RoundTrip

set_option autoImplicit false

open HostMemory MemoryStream InputMemoryStream Fallible

namespace Student

/-- A stream of bytes cut into segments of the given sizes, and a last one. -/
def segments : List Nat → List Byte → List (List Byte)
  | [], sent => [sent]
  | k :: cuts, sent => sent.take k :: segments cuts (sent.drop k)

theorem segments_flatten (cuts : List Nat) (sent : List Byte) :
    (segments cuts sent).flatten = sent := by
  induction cuts generalizing sent with
  | nil => simp [segments]
  | cons k cuts ih => rw [segments, List.flatten_cons, ih, List.take_append_drop]

/-- The peer of a student sent in segments ends up with that student, whatever its own student
was and whatever the buffer for `recv` held. -/
def Transfers (signed : Bool) (heap : Mem) (alloc : Allocator) (st : Student) (cuts : List Nat) :
    Prop :=
  ∃ sent, st.send heap = .ok sent ∧ ∀ buffer old, buffer.length = kMaxPacketSize →
    receive signed alloc buffer (.ok (segments cuts sent)) old = .ok st

/-- The bytes fit into the buffer for `recv` and come in one segment, or all but the last come,
which a sign makes up for. -/
structure Arrives (signed : Bool) (cuts : List Nat) (st : Student) : Prop where
  packet : st.size + 3 ≤ kMaxPacketSize
  first : ∀ k ∈ cuts.head?, st.size + 3 ≤ k ∨
    k = st.size + 2 ∧ signed = true ∧ 240 ≤ st.mBitData3.toNat

section Receive
variable {signed : Bool} {alloc : Allocator} {buffer : List Byte} {old st : Student}

def arrived (cuts : List Nat) (sent : List Byte) : Nat :=
  min (min (cuts.headD sent.length) kMaxPacketSize) sent.length

theorem recv_segments (cuts : List Nat) (sent : List Byte) :
    TCPSocket.recv kMaxPacketSize (segments cuts sent) = sent.take (arrived cuts sent) := by
  cases cuts with
  | nil =>
    refine List.take_eq_take_iff.mpr ?_
    simp only [arrived, List.headD_nil]
    omega
  | cons k cuts =>
    rw [segments, TCPSocket.recv, List.take_take]
    refine List.take_eq_take_iff.mpr ?_
    simp only [arrived, List.headD_cons]
    omega

theorem arrived_le (cuts : List Nat) (sent : List Byte) :
    arrived cuts sent ≤ kMaxPacketSize ∧ arrived cuts sent ≤ sent.length := by
  unfold arrived
  omega

theorem receive_eq_ok {sent : List Byte} {cuts : List Nat}
    (hbuffer : buffer.length = kMaxPacketSize) (hpos : 0 < arrived cuts sent) :
    receive signed alloc buffer (.ok (segments cuts sent)) old = .ok st ↔
      ReadsAs signed alloc
        (sent.take (arrived cuts sent) ++ buffer.drop (arrived cuts sent)) st := by
  obtain ⟨hmax, hle⟩ := arrived_le cuts sent
  have hlen : (sent.take (arrived cuts sent)).length = arrived cuts sent := by
    rw [List.length_take]
    omega
  have hblock : (sent.take (arrived cuts sent) ++
      buffer.drop (arrived cuts sent)).length < 2 ^ 32 := by
    rw [List.length_append, hlen, List.length_drop, hbuffer]
    unfold kMaxPacketSize at hmax ⊢
    omega
  have hcount : ((arrived cuts sent : Int) % 2 ^ 64).toNat = arrived cuts sent := by
    unfold kMaxPacketSize at hmax
    omega
  simp only [receive, TCPSocket.receive, recv_segments, hlen, hcount, if_pos hpos, bind_eq_ok,
    Prod.exists, read_eq_ok hblock, Except.ok.injEq]
  constructor
  · rintro ⟨got, s, ⟨hreads, -⟩, rfl⟩
    exact hreads
  · intro hreads
    exact ⟨st, _, ⟨hreads, rfl⟩, rfl⟩

theorem receive_nothing {sent : List Byte} {cuts : List Nat} (hzero : arrived cuts sent = 0) :
    receive signed alloc buffer (.ok (segments cuts sent)) old = .ok old := by
  simp [receive, TCPSocket.receive, recv_segments, hzero]

end Receive

section Truncation
variable {bs : List Byte} {n : Nat}

theorem countOf_take (h : 8 ≤ n) : countOf (bs.take n) = countOf bs := by
  rw [countOf, List.take_take, Nat.min_eq_left h, countOf]

theorem bitsOffset_take (h : friendsOffset (bs.take n) + 8 ≤ n) :
    bitsOffset (bs.take n) = bitsOffset bs := by
  have hname : nameCount (bs.take n) = nameCount bs := by
    unfold friendsOffset at h
    rw [nameCount, List.drop_take, countOf_take (by omega), nameCount]
  have hoffset : friendsOffset (bs.take n) = friendsOffset bs := by
    rw [friendsOffset, hname, friendsOffset]
  have hfriends : friendCount (bs.take n) = friendCount bs := by
    rw [friendCount, List.drop_take, hoffset, countOf_take (by omega), friendCount]
  rw [bitsOffset, hoffset, hfriends, bitsOffset]

end Truncation

section Transfer
variable {signed : Bool} {heap : Mem} {alloc : Allocator} {st : Student} {cuts : List Nat}

theorem Restorable.transfers (h : Restorable signed heap alloc st) (ha : Arrives signed cuts st) :
    Transfers signed heap alloc st cuts := by
  refine ⟨st.encoding heap, (send_eq_ok st).mpr ⟨h.room, rfl⟩, fun buffer old hbuffer => ?_⟩
  have hpacket := ha.packet
  have hlen := st.encoding_length heap
  have harrived : arrived cuts (st.encoding heap) = st.size + 3 ∨
      arrived cuts (st.encoding heap) = st.size + 2 ∧ signed = true ∧ 240 ≤ st.mBitData3.toNat := by
    unfold arrived
    cases cuts with
    | nil =>
      rw [List.headD_nil]
      omega
    | cons k cuts =>
      rw [List.headD_cons]
      rcases ha.first k rfl with hall | ⟨rfl, hsigned, hbig⟩
      · omega
      · exact .inr ⟨by omega, hsigned, hbig⟩
  rw [receive_eq_ok hbuffer (by omega)]
  rcases harrived with hall | ⟨hcut, rfl, hbig⟩
  · rw [hall, ← hlen, List.take_length]
    exact (readsAs_encoding h.room _).mpr h
  · obtain ⟨x, rest, hrest⟩ : ∃ x rest, buffer.drop (st.size + 2) = x :: rest := by
      refine List.exists_cons_of_ne_nil (List.ne_nil_of_length_pos ?_)
      rw [List.length_drop]
      omega
    have hprefix : (st.encoding heap).take (st.size + 2) =
        st.bytes ++ [st.byte0 (heap st.size), st.byte1] := by
      have hsplit : st.encoding heap =
          (st.bytes ++ [st.byte0 (heap st.size), st.byte1]) ++ [st.byte2] := by
        simp [encoding, fieldBytes]
      rw [hsplit]
      exact List.take_left' (by rw [List.length_append, bytes_length]; rfl)
    obtain ⟨hd1, hd2, hd3⟩ := bitsKept_iff_fields.mp h.bits
    have hsign : st.byte1[7] = true := by
      rw [byte1_getElem_seven]
      exact ((le_240_iff _).mp hbig).1
    have hlt := h.room.lt
    rw [hcut, hprefix, hrest, List.append_assoc]
    exact (readsAs_bytes (by omega)).mpr ⟨⟨h.name, h.terminated⟩, h.resize, hd1, hd2,
      hd3.trans (bitData3_of_sign hsign)⟩

theorem Transfers.reads (h : Transfers signed heap alloc st cuts) {whole : List Byte}
    (hlen : whole.length = kMaxPacketSize)
    (hsame : whole.take (arrived cuts (st.encoding heap)) =
      (st.encoding heap).take (arrived cuts (st.encoding heap))) :
    ReadsAs signed alloc whole st := by
  obtain ⟨sent, hsend, hreceive⟩ := h
  obtain ⟨-, rfl⟩ := (send_eq_ok st).mp hsend
  have hpos : 0 < arrived cuts (st.encoding heap) := by
    by_contra hzero
    have hold := hreceive whole { st with mName := 0 :: st.mName } hlen
    rw [receive_nothing (by omega), Except.ok.injEq] at hold
    exact List.cons_ne_self _ _ (congrArg mName hold)
  have hreads := (receive_eq_ok hlen hpos).mp (hreceive whole st hlen)
  rw [← hsame, List.take_append_drop] at hreads
  exact hreads

theorem Transfers.room (h : Transfers signed heap alloc st cuts) :
    Room st.firstCapacity st.size := by
  obtain ⟨sent, hsend, -⟩ := h
  exact ((send_eq_ok st).mp hsend).1

theorem Transfers.reads_zeros (h : Transfers signed heap alloc st cuts) :
    ReadsAs signed alloc
      ((st.encoding heap ++ List.replicate kMaxPacketSize 0).take kMaxPacketSize) st := by
  obtain ⟨hmax, hle⟩ := arrived_le cuts (st.encoding heap)
  refine h.reads (by simp) ?_
  rw [List.take_take, Nat.min_eq_left hmax, List.take_append_of_le_length hle]

theorem Transfers.packet (h : Transfers signed heap alloc st cuts) :
    st.size + 3 ≤ kMaxPacketSize := by
  have hreads := h.reads_zeros
  have hlt := h.room.lt
  have hlen := hreads.length
  have hcounts := hreads.counts
  rw [List.length_take] at hlen hcounts
  have hbits : bitsOffset (st.encoding heap ++ List.replicate kMaxPacketSize 0) = st.size := by
    rw [encoding, List.append_assoc]
    exact bitsOffset_bytes (by omega)
  rw [bitsOffset_take (by omega), hbits] at hlen
  omega

theorem Transfers.restorable (h : Transfers signed heap alloc st cuts) :
    Restorable signed heap alloc st := by
  have hreads := h.reads_zeros
  have hpacket := h.packet
  rw [List.take_append, List.take_of_length_le (by rw [encoding_length]; exact hpacket)] at hreads
  exact (readsAs_encoding h.room _).mp hreads

theorem Transfers.fields (h : Transfers signed heap alloc st cuts) (c c' c'' : Byte)
    (hsame : (st.bytes ++ [c, c', c'']).take (arrived cuts (st.encoding heap)) =
      (st.encoding heap).take (arrived cuts (st.encoding heap))) :
    st.mBitData3 = bitData3 signed c' c'' := by
  have hlt := h.room.lt
  have hpacket := h.packet
  have hle := (arrived_le cuts (st.encoding heap)).2
  rw [encoding_length] at hle
  have hjoin : st.bytes ++ c :: c' :: c'' :: List.replicate (kMaxPacketSize - (st.size + 3)) 0 =
      (st.bytes ++ [c, c', c'']) ++ List.replicate (kMaxPacketSize - (st.size + 3)) 0 := by
    simp
  have hreads : ReadsAs signed alloc (st.bytes ++ c :: c' :: c'' ::
      List.replicate (kMaxPacketSize - (st.size + 3)) 0) st := by
    refine h.reads ?_ ?_
    · simp only [List.length_append, bytes_length, List.length_cons, List.length_replicate]
      omega
    · rw [hjoin, List.take_append_of_le_length (by simpa [bytes_length] using hle), hsame]
  exact ((readsAs_bytes (by omega)).mp hreads).2.2.2.2

theorem Transfers.arrives (h : Transfers signed heap alloc st cuts) : Arrives signed cuts st := by
  have hpacket := h.packet
  have hlen := st.encoding_length heap
  have hd3 := (bitsKept_iff_fields.mp h.restorable.bits).2.2
  refine ⟨hpacket, fun k hk => ?_⟩
  by_contra hnot
  obtain ⟨hcut, hsign⟩ := not_or.mp hnot
  have harrived : arrived cuts (st.encoding heap) = k := by
    rw [arrived, List.headD_eq_head?_getD, Option.mem_def.mp hk, Option.getD_some]
    omega
  by_cases hmiddle : k ≤ st.size + 1
  · -- the byte in the middle has not arrived: flip the bit that the third field starts with
    have hfirst (tail : List Byte) : (st.bytes ++ st.byte0 (heap st.size) :: tail).take k =
        (st.bytes ++ [st.byte0 (heap st.size)]).take k := by
      rw [List.append_cons, List.take_append_of_le_length (by simpa [bytes_length] using hmiddle)]
    have hflip := h.fields (st.byte0 (heap st.size)) (st.byte1 ^^^ 8) st.byte2
      (by rw [harrived]; exact (hfirst _).trans (hfirst _).symm)
    have hbit := congrArg (fun d : Byte => d[0]) (hd3.symm.trans hflip)
    simp only [bitData3_getElem_zero] at hbit
    simp at hbit
  · -- only the last byte has not arrived: its low bit counts unless the sign covers it
    have hk : k = st.size + 2 := by omega
    have hfirst (x : Byte) : (st.bytes ++ [st.byte0 (heap st.size), st.byte1, x]).take k =
        (st.bytes ++ [st.byte0 (heap st.size), st.byte1]).take k := by
      have hsplit : st.bytes ++ [st.byte0 (heap st.size), st.byte1, x] =
          (st.bytes ++ [st.byte0 (heap st.size), st.byte1]) ++ [x] := by simp
      rw [hsplit, List.take_append_of_le_length (by simp [bytes_length]; omega)]
    have hflip := h.fields (st.byte0 (heap st.size)) st.byte1 (st.byte2 ^^^ 1)
      (by rw [harrived]; exact (hfirst _).trans (hfirst _).symm)
    have hbit := congrArg (fun d : Byte => d[5]) (hd3.symm.trans hflip)
    simp only [bitData3_getElem_five, byte1_getElem_seven] at hbit
    have hcovered : ∀ low sign top : Bool, (low || sign && top) = (!low || sign && top) →
        sign = true ∧ top = true := by decide
    have hcover := hcovered _ _ _ (by simpa using hbit)
    refine hsign ⟨hk, hcover.1, (le_240_iff _).mpr ⟨hcover.2, ?_⟩⟩
    exact h.restorable.bits.third hcover.1 hcover.2

/-- A student is transferred exactly when it is restorable, fits into the receive buffer and
arrives in one segment, or all but its last byte do and the sign of the byte before makes up for
it. -/
theorem student_transfer_iff (signed : Bool) (heap : Mem) (alloc : Allocator) (st : Student)
    (cuts : List Nat) : Transfers signed heap alloc st cuts ↔
      Restorable signed heap alloc st ∧ Arrives signed cuts st :=
  ⟨fun h => ⟨h.restorable, h.arrives⟩, fun h => h.1.transfers h.2⟩

end Transfer

/-- The student of the client is not transferred when TCP cuts its bytes behind the first. -/
theorem seoeun_cut : ¬Transfers false (fun _ => 0) .zeroed seoeun [1] := by
  intro h
  have hfirst := h.arrives.first 1 rfl
  revert hfirst
  decide

end Student
