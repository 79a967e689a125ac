import IotLab.FileUpload.Disk
import Mathlib.Algebra.BigOperators.Group.Finset.Basic
import Mathlib.Algebra.Order.BigOperators.Group.Finset
import Mathlib.Combinatorics.Pigeonhole
import Mathlib.Data.Finset.Option

set_option autoImplicit false

namespace FileUpload
open SlotTable HostMemory

def Room.share (r : Room) (n : Nat) : Nat :=
  (r.sent n).length + (r.left n).elim 0 fun ws => ws.flatten.length + ws.length + 1

def Room.work (count : Nat) (r : Room) : Nat :=
  ∑ n ∈ Finset.range count, r.share n + (count - r.connected) +
    2 * (count - r.log.conns.length) + r.server.openSocks.length

section Work
variable {count : Nat} {uploads : Nat → Upload} {r r' : Room} {fd : Int} {n : Nat}

theorem sum_share_lt (hn : n < count) (hle : ∀ k, k ≠ n → r'.share k = r.share k)
    (hlt : r'.share n < r.share n) :
    ∑ k ∈ Finset.range count, r'.share k < ∑ k ∈ Finset.range count, r.share k := by
  refine Finset.sum_lt_sum (fun k _ => ?_) ⟨n, Finset.mem_range.mpr hn, hlt⟩
  by_cases hk : k = n
  · subst hk
    exact hlt.le
  · exact (hle k hk).le

theorem share_afterAct {ws : List (List Byte)} (hleft : r.left n = some ws) :
    (r.afterAct n ws).share n < r.share n := by
  cases ws with
  | nil => simp [Room.share, Room.afterAct, hleft]
  | cons w ws =>
    simp [Room.share, Room.afterAct, hleft]
    omega

theorem share_of_sent (hleft : r'.left = r.left) (hsent : r'.sent n = r.sent n) :
    r'.share n = r.share n := by
  rw [Room.share, Room.share, hleft, hsent]

theorem share_of_read {bytes : List Byte} (hleft : r'.left = r.left) (hne : bytes ≠ [])
    (hbytes : bytes <+: r.sent n)
    (hsent : r'.sent = Function.update r.sent n ((r.sent n).drop bytes.length)) :
    r'.share n < r.share n := by
  have hpos := List.length_pos_of_ne_nil hne
  have hle := hbytes.length_le
  rw [Room.share, Room.share, hleft, hsent, Function.update_self, List.length_drop]
  omega

theorem Tidy.lt_count (h : Tidy count uploads r) (hn : r.log.current fd = some n) : n < count := by
  obtain ⟨c, hc, -⟩ := h.tracked.sock fd n hn
  have hlt := (List.getElem?_eq_some_iff.mp hc).1
  have haccepted := h.accepted
  have hcounted := h.counted
  omega

theorem Round.work_lt (hround : Round r fd r') (h : Tidy count uploads r)
    (hleft : r'.left = r.left) (hconnected : r'.connected = r.connected) :
    r'.work count < r.work count := by
  have hcounted := h.counted
  cases hround with
  | accepted fd' hfd hlt hnew hlog hsent hfiles hopen =>
    have hsum : ∑ k ∈ Finset.range count, r'.share k = ∑ k ∈ Finset.range count, r.share k :=
      Finset.sum_congr rfl fun k _ => share_of_sent hleft (by rw [hsent])
    have hlen : (r.log.accept fd').conns.length = r.log.conns.length + 1 := by simp [Log.accept]
    rw [Room.work, Room.work, hsum, hconnected, hlog, hlen, hopen, List.length_cons]
    omega
  | header n c bytes name hn hc hrec hne hbytes hlog hsent hfiles hopen =>
    have hsum := sum_share_lt (h.lt_count hn)
      (fun k hk => share_of_sent hleft (by rw [hsent, Function.update_of_ne hk]))
      (share_of_read hleft hne hbytes hsent)
    have hlen : r'.log.conns.length = r.log.conns.length := by simp [hlog, Log.read]
    rw [Room.work, Room.work, hconnected, hlen, hopen]
    omega
  | data n f c bytes hn hc hopened hne hbytes hlog hsent hfiles hopen =>
    have hsum := sum_share_lt (h.lt_count hn)
      (fun k hk => share_of_sent hleft (by rw [hsent, Function.update_of_ne hk]))
      (share_of_read hleft hne hbytes hsent)
    have hlen : r'.log.conns.length = r.log.conns.length := by simp [hlog, Log.read]
    rw [Room.work, Room.work, hconnected, hlen, hopen]
    omega
  | closed n f c hn hc hopened hended hnone hlog hsent hfiles hopen =>
    have hsum : ∑ k ∈ Finset.range count, r'.share k = ∑ k ∈ Finset.range count, r.share k :=
      Finset.sum_congr rfl fun k _ => share_of_sent hleft (by rw [hsent])
    have hmem : fd ∈ r.server.openSocks := (h.tracked.current fd).mpr (by simp [hn])
    have hless : (r.server.openSocks.filter (· ≠ fd)).length < r.server.openSocks.length :=
      List.length_filter_lt_length_iff_exists.mpr ⟨fd, hmem, by simp⟩
    have hlen : r'.log.conns.length = r.log.conns.length := by rw [hlog]; rfl
    rw [Room.work, Room.work, hsum, hconnected, hlen, hopen]
    omega

theorem Tidy.work_le (h : Tidy count uploads r) {m : Move} (hm : Moves count r m r') :
    r'.work count + (if decide ¬m.Waits then 1 else 0) ≤ r.work count := by
  have hbusy : (if decide ¬m.Waits then 1 else 0) ≤ 1 := by split <;> decide
  cases hm with
  | connect hlt =>
    have hwork : Room.work count { r with connected := r.connected + 1 } + 1 = r.work count := by
      rw [Room.work, Room.work]
      simp only [Room.share]
      omega
    omega
  | @act n ws hn hleft =>
    have hsum := sum_share_lt (Nat.lt_of_lt_of_le hn h.counted)
      (fun k hk => by simp [Room.share, Room.afterAct, hk]) (share_afterAct hleft)
    have hwork : (r.afterAct n ws).work count + 1 ≤ r.work count :=
      Nat.add_lt_add_right (Nat.add_lt_add_right (Nat.add_lt_add_right hsum _) _) _
    omega
  | wait hocc hready => exact Nat.le_of_eq rfl
  | serve hready hocc hallow hrun =>
    have hlt := (h.round hready hocc hallow hrun).1.work_lt h rfl rfl
    omega

end Work

section Progress
variable {count : Nat} {uploads : Nat → Upload} {r : Room} {fd : Int} {n : Nat} {c : Conn}
  {rest : List Int} {calls : Calls}

/-- While fewer clients than `MAX_USER` have come, `accept` finds a descriptor in the table. -/
theorem Tidy.free (h : Tidy count uploads r) (hlt : r.log.conns.length + 1 < maxUser) :
    ∃ k : Fin maxUser, (k : Int) ≠ r.server.servSock ∧ (k : Int) ∉ r.server.openSocks := by
  by_contra hnone
  have hopen (k : Fin maxUser) (hk : (k : Int) ≠ r.server.servSock) :
      ∃ n, r.log.current k = some n := by
    by_contra hclosed
    refine hnone ⟨k, hk, fun hmem => hclosed ?_⟩
    exact Option.isSome_iff_exists.mp ((h.tracked.current k).mp hmem)
  obtain ⟨k, -, k', -, hne, heq⟩ := Finset.exists_ne_map_eq_of_card_lt_of_maps_to
    (s := Finset.univ) (t := (Finset.range r.log.conns.length).insertNone)
    (f := fun k : Fin maxUser => r.log.current k) (by simpa using hlt) (fun k _ => by
      refine Finset.mem_insertNone.mpr fun n hn => ?_
      obtain ⟨c, hc, -⟩ := h.tracked.sock k n hn
      exact Finset.mem_range.mpr (List.getElem?_eq_some_iff.mp hc).1)
  have hsame : (k : Int) = k' := by
    by_cases hk : (k : Int) = r.server.servSock
    · rw [hk, h.listening] at heq
      by_cases hk' : (k' : Int) = r.server.servSock
      · rw [hk, hk']
      · obtain ⟨n, hn⟩ := hopen k' hk'
        simp [hn] at heq
    · obtain ⟨n, hn⟩ := hopen k hk
      exact h.tracked.current_inj hn (heq ▸ hn)
  exact hne (Fin.ext (by omega))

def headerCalls (u : Upload) : Calls where
  lenRead := some (bytes32 (BitVec.ofNat 32 u.filename.length))
  memory := some (List.replicate (u.filename.length + 1) 0)
  nameRead := some u.filename
  opened := true

theorem headerCalls_readLen (u : Upload) (record : ClntFile) :
    (record.readLen (headerCalls u)).toNat = u.filename.length := by
  have hover : readOver (bytes32 record.filenameLen) (headerCalls u).lenRead =
      bytes32 (BitVec.ofNat 32 u.filename.length) := by
    simp [readOver, headerCalls]
  rw [ClntFile.readLen, hover, u.word_length]

theorem headerCalls_canReturn (u : Upload) (record : ClntFile) :
    (headerCalls u).CanReturn record where
  lenRead := by simp [headerCalls]
  memory := by
    rintro _ ⟨⟩
    have hlen := headerCalls_readLen u record
    have hlt := u.length_lt
    rw [BitVec.toInt_eq_toNat_of_lt (by omega), List.length_replicate]
    omega
  nameRead := by
    rintro _ ⟨⟩
    exact (headerCalls_readLen u record).ge
  data := by simp [headerCalls]

theorem headerCalls_done (u : Upload) : HeaderDone (headerCalls u) where
  lenRead := bytes32_length _
  nameRead := u.word_length.symm
  memory := by simp [headerCalls]
  opened := rfl

theorem headerCalls_nameEnds (u : Upload) : NameEnds (headerCalls u) := by
  simp [NameEnds, headerCalls]

theorem Tidy.header (h : Tidy count uploads r) (hready : r.server.ready = fd :: rest)
    (hn : r.log.current fd = some n) (hc : r.log.conns[n]? = some c) (hrec : c.record = none)
    (hleft : r.left n = none) : r.Reads (headerCalls (uploads n)) n := by
  have hfresh := h.owned.fresh fd c (Log.on_eq_some.mpr ⟨n, hn, hc⟩) hrec
  have hstream := h.stream n
  rw [Room.stream, bytes_of hc, (h.tracked.waiting n c hc hrec).1, hleft, Upload.writes,
    clientWrites_flatten] at hstream
  refine ⟨⟨(uploads n).content, ?_⟩, fun c' hc' => ?_⟩
  · rw [takes_of hready, hfresh]
    simpa [bytesRead, headerCalls] using hstream.symm
  · obtain rfl := Option.some.inj (hc.symm.trans hc')
    rw [if_pos hrec]
    exact ⟨headerCalls_done _, headerCalls_nameEnds _⟩

def dataCalls (sent : List Byte) : Calls := { data := some (sent.take bufSize) }

theorem dataCalls_canReturn (sent : List Byte) (record : ClntFile) :
    (dataCalls sent).CanReturn record where
  lenRead := by simp [dataCalls]
  memory := by simp [dataCalls]
  nameRead := by simp [dataCalls]
  data := by simp [dataCalls]

theorem Tidy.data (h : Tidy count uploads r) (hready : r.server.ready = fd :: rest)
    (hn : r.log.current fd = some n) (hc : r.log.conns[n]? = some c) (hrec : c.record ≠ none)
    (hleft : r.left n = none) : r.Reads (dataCalls (r.sent n)) n := by
  obtain ⟨p, hp⟩ := Option.ne_none_iff_exists'.mp hrec
  obtain ⟨record, f, hrecord, hholds, -⟩ := h.tracked.held fd n c p hn hc hp
  obtain rfl := h.owned.own fd c p (Log.on_eq_some.mpr ⟨n, hn, hc⟩) hp
  have htakes : r.takes (dataCalls (r.sent n)) = (r.sent n).take bufSize := by
    rw [takes_of hready, hrecord]
    simp [bytesRead, hholds.1, dataCalls]
  refine ⟨htakes ▸ List.take_prefix _ _, fun c' hc' => ?_⟩
  obtain rfl := Option.some.inj (hc.symm.trans hc')
  rw [if_neg hrec, htakes]
  refine ⟨by simp [dataCalls], fun hnil => ⟨?_, hleft⟩⟩
  exact (List.take_eq_nil_iff.mp hnil).resolve_left (by decide)

theorem Tidy.serves (h : Tidy count uploads r) (hroom : count < maxUser)
    (hquiet : ∀ n < r.connected, r.left n = none) (hready : r.server.ready = fd :: rest) :
    ∃ calls t, Moves count r (.serve (.serve calls)) (r.after (.serve calls) t) := by
  have hhead : r.server.ready.head? = some fd := by rw [hready]; rfl
  have hne : r.server.ready ≠ [] := by simp [hready]
  suffices hcalls : ∃ calls, (Event.serve calls).canOccur byDescriptor r.server ∧
      r.Allows (.serve calls) by
    obtain ⟨calls, hocc, hallow⟩ := hcalls
    obtain ⟨t, hrun, -⟩ := (h.fits hocc hallow hhead).served h.tracked hready
    exact ⟨calls, t, .serve hready hocc hallow hrun⟩
  rcases h.pending fd (by simp [hready]) with ⟨hserv, hlt⟩ | ⟨n, hn, -⟩
  · have hcounted := h.counted
    obtain ⟨k, hk, hclosed⟩ := h.free (by omega)
    refine ⟨{ accepted := k }, ⟨hne, .inr ⟨by simp, hk, hclosed⟩, fun _ _ record _ => ?_⟩, ?_⟩
    · constructor <;> simp
    · rintro fd' hfd'
      obtain rfl := Option.some.inj (hhead.symm.trans hfd')
      rw [if_pos hserv]
      exact ⟨hlt, by simp, by simp⟩
  · obtain ⟨c, hc, -⟩ := h.tracked.sock fd n hn
    have hleft := hquiet n (Nat.lt_of_lt_of_le (List.getElem?_eq_some_iff.mp hc).1 h.accepted)
    have hserv : fd ≠ r.server.servSock := by
      rintro rfl
      rw [h.listening] at hn
      contradiction
    have hallow {calls : Calls} (hreads : r.Reads calls n) : r.Allows (.serve calls) := by
      rintro fd' hfd'
      obtain rfl := Option.some.inj (hhead.symm.trans hfd')
      rw [if_neg hserv]
      rintro m hm
      obtain rfl := Option.some.inj (hn.symm.trans hm)
      exact hreads
    by_cases hrec : c.record = none
    · exact ⟨headerCalls (uploads n), ⟨hne, .inl rfl, fun _ _ _ _ => headerCalls_canReturn _ _⟩,
        hallow (h.header hready hn hc hrec hleft)⟩
    · exact ⟨dataCalls (r.sent n), ⟨hne, .inl rfl, fun _ _ _ _ => dataCalls_canReturn _ _⟩,
        hallow (h.data hready hn hc hrec hleft)⟩

theorem Tidy.progress (h : Tidy count uploads r) (hroom : count < maxUser)
    (hnot : ¬∀ n < count, r.Finished n) :
    ∃ ms r', Transitions.Run (room count uploads) r ms r' ∧ Tidy count uploads r' ∧
      r'.work count < r.work count := by
  have hless {r r' : Room} {m : Move} (h : Tidy count uploads r) (hm : Moves count r m r')
      (hbusy : ¬m.Waits) : r'.work count < r.work count := by
    have hle := h.work_le hm
    rw [if_pos (decide_eq_true hbusy)] at hle
    omega
  -- A client calls, a client connects, or the server does, which may have to wait first.
  by_cases hquiet : ∀ n < r.connected, r.left n = none
  · have hwaits (fd : Int) (hempty : r.server.ready = []) (hfd : r.Ready fd)
        (hopen : fd = r.server.servSock ∨ fd ∈ r.server.openSocks) :
        ∃ ms r', Transitions.Run (room count uploads) r ms r' ∧ Tidy count uploads r' ∧
          r'.work count < r.work count := by
      have hwait : Moves count r (.serve (.wait [fd]))
          { r with server := { r.server with ready := [fd], i := 0 } } :=
        .wait ⟨hempty, List.nodup_singleton fd, by simp [epollSize], by simpa using hopen⟩
          (by simpa using hfd)
      obtain ⟨calls, t, hm⟩ := (h.step hwait).serves hroom hquiet rfl
      have hle := h.work_le hwait
      have hlt := hless (h.step hwait) hm id
      exact ⟨_, _, .cons (moves_next hwait) (.single (moves_next hm)), (h.step hwait).step hm,
        by omega⟩
    by_cases hempty : r.server.ready = []
    · by_cases hconnected : r.connected < count
      · have hm : Moves count r _ _ := .connect hconnected
        exact ⟨_, _, .single (moves_next hm), h.step hm, hless h hm id⟩
      · by_cases haccepted : r.log.conns.length < r.connected
        · exact hwaits r.server.servSock hempty (.inl ⟨rfl, haccepted⟩) (.inl rfl)
        · obtain ⟨fd, hfd⟩ : ∃ fd, fd ∈ r.server.openSocks := by
            by_contra hnone
            refine hnot fun n hn => ⟨by omega, fun fd hcur => hnone ⟨fd, ?_⟩⟩
            exact (h.tracked.current fd).mpr (by simp [hcur])
          obtain ⟨n, hn⟩ := Option.isSome_iff_exists.mp ((h.tracked.current fd).mp hfd)
          have hlt := h.lt_count hn
          exact hwaits fd hempty (.inr ⟨n, hn, .inr (hquiet n (by omega))⟩) (.inr hfd)
    · obtain ⟨fd, rest, hready⟩ := List.exists_cons_of_ne_nil hempty
      obtain ⟨calls, t, hm⟩ := h.serves hroom hquiet hready
      exact ⟨_, _, .single (moves_next hm), h.step hm, hless h hm id⟩
  · obtain ⟨n, hn⟩ := not_forall.mp hquiet
    obtain ⟨hlt, hleft⟩ := Classical.not_imp.mp hn
    obtain ⟨ws, hws⟩ := Option.ne_none_iff_exists'.mp hleft
    have hm : Moves count r (.act n) (r.afterAct n ws) := .act hlt hws
    exact ⟨_, _, .single (moves_next hm), h.step hm, hless h hm id⟩

end Progress

/-- A connection whose header was read has a stream of its own, and the file under its client's
name holds the start of its client's content: all of it, and the stream is closed, once the
connection is. No other file is touched, and there is no fault. Only so many moves are left
besides calls of `epoll_wait`, and while the descriptors fit the table, some of them lead to the
end. -/
structure RoomLaw (count : Nat) (uploads : Nat → Upload) (disk : Disk) (p : Room × Disk) :
    Prop where
  arriving : ∀ n c, p.1.log.conns[n]? = some c → c.record ≠ none → ∃ file, p.1.Uploaded n file ∧
    p.2 (uploads n).filename = some file.content ∧ file.content <+: (uploads n).content
  whole : ∀ n, p.1.Finished n → p.2 (uploads n).filename = some (uploads n).content ∧
    p.1.Uploaded n ⟨(uploads n).filename, (uploads n).content, false⟩
  apart : ∀ (n m : Nat) c c', p.1.log.conns[n]? = some c → p.1.log.conns[m]? = some c' →
    ∀ f ∈ c.opened, f ∈ c'.opened → n = m
  untouched : ∀ name, (∀ n c, p.1.log.conns[n]? = some c → c.record ≠ none →
    (uploads n).filename ≠ name) → p.2 name = disk name
  inside : ∀ e, e.canOccur byDescriptor p.1.server → p.1.Allows e →
    ∃ t, handle byDescriptor p.1.server e = .ok t
  ends : ∃ c, ∀ ms q, Transitions.Run (directory count uploads disk) p ms q →
    ms.countP (fun m => ¬m.Waits) ≤ c
  completes : count < maxUser → ∃ ms q, Transitions.Run (directory count uploads disk) p ms q ∧
    ∀ n < count, q.2 (uploads n).filename = some (uploads n).content

/-- However the clients, their streams and the server's batches interleave. Clients of one name
would write to one file. -/
theorem uploads_arrive {count : Nat} {uploads : Nat → Upload} {disk : Disk} {p : Room × Disk}
    (hnames : NamesApart count uploads)
    (h : Transitions.Reachable (directory count uploads disk) p) :
    RoomLaw count uploads disk p := by
  obtain ⟨r, d⟩ := p
  obtain ⟨htidy, hd⟩ := stored_of_reachable hnames h
  constructor
  case arriving => exact fun n c hc hrec => hd.arriving htidy hc hrec
  case whole => exact fun n hfin => ⟨hd.whole htidy hfin, htidy.whole hfin⟩
  case apart => exact htidy.tracked.apart
  case untouched => exact fun name hname => hd.untouched htidy hname
  case inside =>
    intro e hocc hallow
    cases e with
    | wait ready => exact ⟨_, rfl⟩
    | serve calls =>
      obtain ⟨fd, rest, hready⟩ := List.exists_cons_of_ne_nil hocc.1
      obtain ⟨t, hrun, -⟩ := (htidy.fits hocc hallow (by rw [hready]; rfl)).served htidy.tracked
        hready
      exact ⟨t, hrun⟩
  case ends =>
    refine ⟨r.work count, fun ms q hrun => ?_⟩
    have hle := hrun.of_observe.countP_le (I := Tidy count uploads) (m := Room.work count)
      (fun s m t hs hm => ⟨hs.step (next_moves hm), hs.work_le (next_moves hm)⟩) htidy
    exact (Nat.le_add_right _ _).trans hle
  case completes =>
    intro hroom
    obtain ⟨ms, r', hrun, hdone⟩ := Transitions.exists_run_of_progress (S := room count uploads)
      (I := Tidy count uploads) (m := Room.work count)
      (fun s hs hnot => hs.progress hroom hnot) htidy
    obtain ⟨d', hrun'⟩ := hrun.observed
    obtain ⟨htidy', hd'⟩ := stored_of_reachable hnames (hrun'.reachable h)
    exact ⟨ms, (r', d'), hrun', fun n hn => hd'.whole htidy' (hdone n hn)⟩

def shortUpload : Upload := ⟨[97], [1, 2], by decide, by decide⟩

def longUpload : Upload := ⟨[98, 99], [9], by decide, by decide⟩

def demoUploads (n : Nat) : Upload := if n = 0 then shortUpload else longUpload

def demoMoves : List Move :=
  [.connect, .connect, .serve (.wait [3]), .serve (.serve { accepted := 5 }), .act 0, .act 0,
    .serve (.wait [5, 3]), .serve (.serve (headerCalls shortUpload)),
    .serve (.serve { accepted := 6 }), .act 1, .act 1, .act 1, .act 0,
    .serve (.wait [6, 5]), .serve (.serve (headerCalls longUpload)),
    .serve (.serve (data [1])), .act 0, .serve (.wait [5, 6]), .serve (.serve (data [2])),
    .serve (.serve (data [9])), .act 1, .serve (.wait [6, 5]), .serve (.serve (data [])),
    .serve (.serve (data []))]

def demoDisk : Disk := fun name => if name = [97] ∨ name = [122] then some [7, 7, 7] else none

theorem uploads_arrive_demo :
    ∃ p, Transitions.Reachable (directory 2 demoUploads demoDisk) p ∧ p.2 [97] = some [1, 2] ∧
      p.2 [98, 99] = some [9] ∧ p.2 [122] = some [7, 7, 7] ∧
      RoomLaw 2 demoUploads demoDisk p := by
  obtain ⟨p, ms, -, hrun, htest⟩ := @Transitions.run_of_runsTo _ _ _
    (directory 2 demoUploads demoDisk) id
    (fun p m => (p.1.next 2 m).map fun r' => (m, r', p.2.after p.1.server.files r'.server.files))
    (fun p => p.2 [97] = some [1, 2] ∧ p.2 [98, 99] = some [9] ∧ p.2 [122] = some [7, 7, 7])
    (fun p m l q h => by
      obtain ⟨r', hr', heq⟩ := Option.map_eq_some_iff.mp h
      cases heq
      exact ⟨rfl, hr', rfl⟩)
    (.start 3 demoUploads, demoDisk) demoMoves (by decide +kernel)
  have hreach := hrun.reachable (.init ⟨⟨3, by decide, rfl⟩, rfl⟩)
  obtain ⟨hshort, hlong, hother⟩ := of_decide_eq_true htest
  exact ⟨p, hreach, hshort, hlong, hother, uploads_arrive (by decide) hreach⟩

end FileUpload
