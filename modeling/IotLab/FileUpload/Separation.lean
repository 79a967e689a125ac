import IotLab.FileUpload.Transfers

set_option autoImplicit false

namespace FileUpload
open SlotTable HostMemory Transitions

def sentName (sent : List Byte) : List Byte := sent.takeWhile (· ≠ 0)

/-- The two `read`s of a header are whole, and `malloc` and `fopen` succeed. -/
structure HeaderDone (calls : Calls) : Prop where
  lenRead : (calls.lenRead.getD []).length = 4
  nameRead : (calls.nameRead.getD []).length = (word32 (calls.lenRead.getD [])).toNat
  memory : calls.memory ≠ none
  opened : calls.opened = true

/-- The name holds a 0, or one lies behind its block. -/
def NameEnds (calls : Calls) : Prop :=
  ∀ memory ∈ calls.memory, 0 ∈ calls.nameRead.getD [] ∨
    memory[(calls.nameRead.getD []).length]? = some 0

def StringEnds (calls : Calls) : Prop :=
  ∀ memory ∈ calls.memory, 0 ∈ readOver memory calls.nameRead

section Names
variable {calls : Calls}

theorem cString_append_zero (sent rest : List Byte) :
    cString (sent ++ 0 :: rest) = some (sentName sent) := by
  induction sent with
  | nil => simp [cString, sentName]
  | cons b sent ih =>
    by_cases hb : b = 0
    · simp [cString, sentName, hb]
    · simp only [List.cons_append, cString, if_neg hb, ih, Option.map_some, sentName]
      rw [List.takeWhile_cons_of_pos (by simpa using hb)]

theorem cString_append_of_mem {sent : List Byte} (rest : List Byte) (h : 0 ∈ sent) :
    cString (sent ++ rest) = some (sentName sent) := by
  induction sent with
  | nil => simp at h
  | cons b sent ih =>
    by_cases hb : b = 0
    · simp [cString, sentName, hb]
    · have hmem : 0 ∈ sent := (List.mem_cons.mp h).resolve_left fun h0 => hb h0.symm
      simp only [List.cons_append, cString, if_neg hb, ih hmem, Option.map_some, sentName]
      rw [List.takeWhile_cons_of_pos (by simpa using hb)]

theorem HeaderDone.whole_of_nameEnds (h : HeaderDone calls) (hends : NameEnds calls) :
    HeaderWhole (fun sent name => name = sentName sent) calls := by
  obtain ⟨memory, hmemory⟩ := Option.ne_none_iff_exists'.mp h.memory
  refine ⟨h.lenRead, h.nameRead, ⟨memory, sentName (calls.nameRead.getD []), hmemory, ?_, rfl⟩,
    h.opened⟩
  rw [stringAt, readOver]
  rcases hends memory hmemory with hmem | hbehind
  · rw [cString_append_of_mem _ hmem]
  · obtain ⟨hlt, hget⟩ := List.getElem?_eq_some_iff.mp hbehind
    rw [List.drop_eq_getElem_cons hlt, hget, cString_append_zero]

theorem HeaderDone.whole_of_stringEnds (h : HeaderDone calls) (hends : StringEnds calls) :
    HeaderWhole (fun _ _ => True) calls := by
  obtain ⟨memory, hmemory⟩ := Option.ne_none_iff_exists'.mp h.memory
  have hstring := cString_append_of_mem [] (hends memory hmemory)
  rw [List.append_nil] at hstring
  exact ⟨h.lenRead, h.nameRead, ⟨memory, _, hmemory, by rw [stringAt, hstring], trivial⟩, h.opened⟩

end Names

/-- What holds in every state, for connections and files: a connection that has been served
has a file of its own with exactly its data, under a good name; one that has not been served
has read nothing. -/
structure Separate (names : List Byte → List Byte → Prop) (g : Log) (files : List File) :
    Prop where
  waiting : ∀ c ∈ g.conns, c.record = none → c.bytes = [] ∧ c.opened = []
  delivered : ∀ c ∈ g.conns, c.record ≠ none → ∃ f, c.Delivered names files f
  apart : ∀ (n m : Nat) c c', g.conns[n]? = some c → g.conns[m]? = some c' →
    ∀ f ∈ c.opened, f ∈ c'.opened → n = m

def Survives (recordOf : Nat → Int → Int) (ok : State × Log → Event → Prop)
    (p : State × Log) : Prop :=
  ∀ e, e.canOccur recordOf p.1 → ok p e → ∃ t, handle recordOf p.1 e = .ok t

/-- The records of the other uploads, and the ones that wait for a header, are not changed by
an `accept` or by the end of a connection. -/
def KeepsOthers (recordOf : Nat → Int → Int) (ok : State × Log → Event → Prop)
    (p : State × Log) : Prop :=
  ∀ e q, ((observed recordOf).restrict ok).step p e q → ∀ fd ∈ p.1.ready.head?,
    fd = p.1.servSock ∨ fd ∉ q.1.openSocks → ∀ k : Fin maxUser,
      ((p.1.clntArray k).flag = true ∨
        ∃ fd' c, fd' ≠ fd ∧ p.2.on fd' = some c ∧ c.record = some (k : Int)) →
      q.1.clntArray k = p.1.clntArray k

section Reached
variable {names : List Byte → List Byte → Prop} {recordOf : Nat → Int → Int} {s t : State}
  {g g' : Log} {calls : Calls} {fd : Int} {rest : List Int}

theorem Tracked.separate (h : Tracked names s g) : Separate names g s.files where
  waiting c hc hrec := by
    obtain ⟨n, hn⟩ := List.mem_iff_getElem?.mp hc
    exact h.waiting n c hn hrec
  delivered c hc hrec := by
    obtain ⟨n, hn⟩ := List.mem_iff_getElem?.mp hc
    exact h.started n c hn hrec
  apart := h.apart

theorem Log.on_eq_some {c : Conn} :
    g.on fd = some c ↔ ∃ n, g.current fd = some n ∧ g.conns[n]? = some c := by
  simp [Log.on, Option.bind_eq_some_iff]

theorem Tracked.flag_keeps (h : Tracked names s g) {k k' : Fin maxUser}
    (hidle : (s.clntArray k').Idle) (hk : (s.clntArray k).flag = true ∨
      ∃ fd' c, fd' ≠ fd ∧ g.on fd' = some c ∧ c.record = some (k : Int)) :
    (s.setRecord k' { s.clntArray k' with flag := true }).clntArray k = s.clntArray k := by
  by_cases hkk : k = k'
  · subst hkk
    rcases hk with hflag | ⟨fd', c, -, hon, hrec⟩
    · rw [State.setRecord_self, ← hflag]
    · obtain ⟨n, hn, hc⟩ := Log.on_eq_some.mp hon
      obtain ⟨r, f, hr, hholds, -⟩ := h.held fd' n c k hn hc hrec
      rw [s.recordAt_coe, Option.some.injEq] at hr
      subst hr
      have := hholds.2.2
      simp [hidle.2.2] at this
  · exact s.setRecord_of_ne k' _ hkk

theorem Served.keepsOthers (hserved : Served names recordOf s g calls fd rest t g')
    (h : Tracked names s g) (hround : fd = s.servSock ∨ fd ∉ t.openSocks) {k : Fin maxUser}
    (hk : (s.clntArray k).flag = true ∨
      ∃ fd' c, fd' ≠ fd ∧ g.on fd' = some c ∧ c.record = some (k : Int)) :
    t.clntArray k = s.clntArray k := by
  cases hserved with
  | refused k' hfd hk' hidle hacc => exact h.flag_keeps hidle hk
  | accepted k' hfd hk' hidle hacc => exact h.flag_keeps hidle hk
  | header k' n c name hfd hk' hn hc hrec hflag hwhole hname =>
    refine absurd ?_ (hround.resolve_left hfd)
    exact (h.current fd).mpr (by simp [hn])
  | data k' n f c buf hfd hk' hn hc hrec hholds hopened hbuf => rfl
  | closed k' n f c hfd hk' hn hc hrec hholds hopened =>
    refine s.setRecord_of_ne k' .zero ?_
    rintro rfl
    rcases hk with hflag | ⟨fd', c', hne, hon, hrec'⟩
    · have := hholds.1
      simp [hflag] at this
    · obtain ⟨m, hm, hc'⟩ := Log.on_eq_some.mp hon
      exact hne (h.record_inj hm hc' hrec' hn hc hrec)

variable {ok : State × Log → Event → Prop}

def MakesFit (names : List Byte → List Byte → Prop) (recordOf : Nat → Int → Int)
    (ok : State × Log → Event → Prop) (s : State) (g : Log) : Prop :=
  ∀ calls fd, (Event.serve calls).canOccur recordOf s → ok (s, g) (.serve calls) →
    s.ready.head? = some fd → Fits recordOf names s g calls fd

theorem Tracked.survives (h : Tracked names s g) (hfit : MakesFit names recordOf ok s g) :
    Survives recordOf ok (s, g) := by
  intro e hocc hok
  cases e with
  | wait ready => exact ⟨_, rfl⟩
  | serve calls =>
    obtain ⟨fd, rest, hready⟩ := List.exists_cons_of_ne_nil hocc.1
    obtain ⟨t, hrun, -⟩ := (hfit calls fd hocc hok (by rw [hready]; rfl)).served h hready
    exact ⟨t, hrun⟩

theorem Tracked.keepsOthers (h : Tracked names s g) (hfit : MakesFit names recordOf ok s g) :
    KeepsOthers recordOf ok (s, g) := by
  intro e q hstep fd hfd hround k hk
  obtain ⟨hok, ⟨hocc, hrun⟩, -⟩ := hstep
  cases e with
  | wait ready =>
    have hnil : s.ready = [] := hocc.1
    simp [hnil] at hfd
  | serve calls =>
    obtain ⟨rest, hready⟩ := List.head?_eq_some_iff.mp hfd
    exact ((hfit calls fd hocc hok hfd).served_of_step h hready hrun).keepsOthers h hround hk

end Reached

def headersWhole (p : State × Log) : Event → Prop
  | .wait _ => True
  | .serve calls => ∀ fd ∈ p.1.ready.head?, fd ≠ p.1.servSock → ∀ c ∈ p.2.on fd,
    c.record = none → HeaderDone calls ∧ NameEnds calls

/-- Rounds of `lab05_src/fileup_serv.c` that come at a position which suits them: an `accept`
where no upload has its record, a whole header where a header is awaited, and data at the
position where the connection's header was read. No `read` of data fails. -/
structure InPlace (s : State) (g : Log) (calls : Calls) (fd : Int) : Prop where
  accept : fd = s.servSock → ∃ r ∈ s.recordAt s.i, r.fp = none
  header : fd ≠ s.servSock → ∀ c ∈ g.on fd, c.record = none →
    (∃ r ∈ s.recordAt s.i, r.flag = true) ∧ HeaderDone calls ∧ NameEnds calls
  data : fd ≠ s.servSock → ∀ c ∈ g.on fd, ∀ q ∈ c.record, (s.i : Int) = q ∧ calls.data ≠ none

def inPlace (p : State × Log) : Event → Prop
  | .wait _ => True
  | .serve calls => ∀ fd ∈ p.1.ready.head?, InPlace p.1 p.2 calls fd

theorem InPlace.fits {s : State} {g : Log} {calls : Calls} {fd : Int}
    (h : InPlace s g calls fd) :
    Fits byPosition (fun sent name => name = sentName sent) s g calls fd where
  accept := h.accept
  header hfd c hc hrec := by
    obtain ⟨⟨r, hr, hflag⟩, hdone, hends⟩ := h.header hfd c hc hrec
    exact ⟨r, hr, hflag, hdone.whole_of_nameEnds hends⟩
  data := h.data

/-- In every run of `lab05_src/fileup_serv.c` whose rounds come at positions that suit them,
uploads do not mix. -/
theorem uploads_by_position {p : State × Log}
    (h : Reachable ((observed byPosition).restrict inPlace) p) :
    Separate (fun sent name => name = sentName sent) p.2 p.1.files ∧
      KeepsOthers byPosition inPlace p ∧ Survives byPosition inPlace p := by
  have hfit (s : State) (g : Log) : MakesFit _ byPosition inPlace s g :=
    fun calls fd _ hok hfd => (hok fd hfd).fits
  have htracked : Tracked (fun sent name => name = sentName sent) p.1 p.2 := by
    refine h.invariant (I := fun p => Tracked _ p.1 p.2) ?_ ?_
    · rintro ⟨s, g⟩ ⟨⟨servSock, rfl, -⟩, hg⟩
      subst hg
      exact .start _ servSock
    · rintro ⟨s, g⟩ e ⟨t, g'⟩ - hs ⟨hok, ⟨hocc, hrun⟩, hlook⟩
      dsimp only at hlook
      subst hlook
      refine hs.step hocc hrun ?_
      rintro calls fd rfl hfd
      exact hfit s g calls fd hocc hok hfd
  exact ⟨htracked.separate, htracked.keepsOthers (hfit p.1 p.2), htracked.survives (hfit p.1 p.2)⟩

section Instances
variable (calls : Calls)

instance : Decidable (NameEnds calls) := by unfold NameEnds; infer_instance

instance : Decidable (StringEnds calls) := by unfold StringEnds; infer_instance

instance : Decidable (HeaderDone calls) :=
  decidable_of_iff ((calls.lenRead.getD []).length = 4 ∧
    (calls.nameRead.getD []).length = (word32 (calls.lenRead.getD [])).toNat ∧
    calls.memory ≠ none ∧ calls.opened = true)
    ⟨fun ⟨h₁, h₂, h₃, h₄⟩ => ⟨h₁, h₂, h₃, h₄⟩, fun ⟨h₁, h₂, h₃, h₄⟩ => ⟨h₁, h₂, h₃, h₄⟩⟩

instance (p : State × Log) (e : Event) : Decidable (headersWhole p e) :=
  match e with
  | .wait _ => inferInstanceAs (Decidable True)
  | .serve calls => inferInstanceAs (Decidable (∀ fd ∈ p.1.ready.head?, fd ≠ p.1.servSock →
      ∀ c ∈ p.2.on fd, c.record = none → HeaderDone calls ∧ NameEnds calls))

instance (s : State) (g : Log) (fd : Int) : Decidable (InPlace s g calls fd) :=
  decidable_of_iff ((fd = s.servSock → ∃ r ∈ s.recordAt s.i, r.fp = none) ∧
    (fd ≠ s.servSock → ∀ c ∈ g.on fd, c.record = none →
      (∃ r ∈ s.recordAt s.i, r.flag = true) ∧ HeaderDone calls ∧ NameEnds calls) ∧
    (fd ≠ s.servSock → ∀ c ∈ g.on fd, ∀ q ∈ c.record, (s.i : Int) = q ∧ calls.data ≠ none))
    ⟨fun ⟨h₁, h₂, h₃⟩ => ⟨h₁, h₂, h₃⟩, fun ⟨h₁, h₂, h₃⟩ => ⟨h₁, h₂, h₃⟩⟩

instance (p : State × Log) (e : Event) : Decidable (inPlace p e) :=
  match e with
  | .wait _ => inferInstanceAs (Decidable True)
  | .serve calls => inferInstanceAs (Decidable (∀ fd ∈ p.1.ready.head?, InPlace p.1 p.2 calls fd))

end Instances

def header (c : Byte) : Calls :=
  { lenRead := some (bytes32 1), memory := some [0, 0], nameRead := some [c], opened := true }

def data (buf : List Byte) : Calls := { data := some buf }

def twoClients : List Event :=
  [.wait [3], .serve { accepted := 5 }, .wait [5], .serve (header 97),
    .wait [5, 3], .serve (data [1]), .serve { accepted := 6 },
    .wait [5, 6], .serve (data [2]), .serve (header 98)]

theorem uploads_by_position_demo : ∃ p : State × Log,
    p.1.files = [⟨[97], [1, 2], false⟩, ⟨[98], [9], false⟩] ∧
      Separate (fun sent name => name = sentName sent) p.2 p.1.files ∧
      KeepsOthers byPosition inPlace p ∧ Survives byPosition inPlace p := by
  obtain ⟨p, hp, htest⟩ := reachable_of_runsTo byPosition inPlace 3
    (fun p => p.1.files == [⟨[97], [1, 2], false⟩, ⟨[98], [9], false⟩])
    (twoClients ++ [.wait [5, 6], .serve (data []), .serve (data [9]),
      .wait [3, 6], .serve { accepted := 5 }, .serve (data [])]) (by decide) (by decide)
  exact ⟨p, by simpa using htest, uploads_by_position hp⟩

/-- The second client's data comes at the position 0 and goes to the first client's file. -/
theorem uploads_mix : ∃ p : State × Log,
    Reachable ((observed byPosition).restrict headersWhole) p ∧
      ¬Separate (fun sent name => name = sentName sent) p.2 p.1.files := by
  obtain ⟨p, hp, htest⟩ := reachable_of_runsTo byPosition headersWhole 3
    (fun p => p.2.conns[0]? == some ⟨5, some 0, [1, 0, 0, 0, 97, 1, 2], [0]⟩ &&
      p.1.files[0]? == some ⟨[97], [1, 2, 9], true⟩)
    (twoClients ++ [.wait [6], .serve (data [9])]) (by decide) (by decide)
  simp only [Bool.and_eq_true, beq_iff_eq] at htest
  obtain ⟨hconn, hfile⟩ := htest
  refine ⟨p, hp, fun hsep => ?_⟩
  obtain ⟨f, hopened, sent, data, file, hparse, hf, hdata, -⟩ :=
    hsep.delivered _ (List.mem_of_getElem? hconn) (by simp)
  simp only [List.cons.injEq, and_true] at hopened
  rw [← hopened, hfile, Option.some.injEq] at hf
  have hparse' : parse [1, 0, 0, 0, 97, 1, 2] = some ([97], [1, 2]) := by decide
  rw [hparse', Option.some.injEq, Prod.mk.injEq] at hparse
  rw [← hf, ← hparse.2] at hdata
  simp at hdata

structure Owned (s : State) (g : Log) : Prop where
  fresh : ∀ fd c, g.on fd = some c → c.record = none →
    s.recordAt fd = some { ClntFile.zero with flag := true }
  own : ∀ fd c p, g.on fd = some c → c.record = some p → p = fd

def promised (p : State × Log) : Event → Prop
  | .wait _ => True
  | .serve calls => ∀ fd ∈ p.1.ready.head?,
    (fd = p.1.servSock → 0 ≤ calls.accepted ∧ calls.accepted < maxUser) ∧
    (fd ≠ p.1.servSock → ∀ c ∈ p.2.on fd, c.record = none → HeaderDone calls ∧ StringEnds calls)

def readsSucceed (p : State × Log) : Event → Prop
  | .wait _ => True
  | .serve calls => promised p (.serve calls) ∧ ∀ fd ∈ p.1.ready.head?, fd ≠ p.1.servSock →
    ∀ c ∈ p.2.on fd, c.record ≠ none → calls.data ≠ none

section Descriptor
variable {names : List Byte → List Byte → Prop} {s t : State} {g g' : Log} {calls : Calls}
  {fd : Int} {rest : List Int} {k : Fin maxUser} {c : Conn}

theorem Tracked.on_accept (h : Tracked names s g) {fd' : Int}
    (hon : (g.accept fd).on fd' = some c) :
    fd' = fd ∧ c = ⟨fd, none, [], []⟩ ∨ fd' ≠ fd ∧ g.on fd' = some c := by
  obtain ⟨n, hn, hc⟩ := Log.on_eq_some.mp hon
  simp only [Log.accept, Function.update_apply] at hn
  split at hn
  · cases hn
    rcases accept_conns.mp hc with hc | ⟨-, hc⟩
    · simp at hc
    · exact .inl ⟨‹_›, hc⟩
  · obtain ⟨c', hc', -⟩ := h.sock fd' n hn
    have hcc := (@accept_conns g n c' fd).mpr (.inl hc')
    rw [hc, Option.some.injEq] at hcc
    exact .inr ⟨‹_›, Log.on_eq_some.mpr ⟨n, hn, hcc ▸ hc'⟩⟩

theorem Tracked.on_read (h : Tracked names s g) {fd' : Int} {n : Nat} {record : Int}
    {bytes : List Byte} {opened : List Nat} (hn : g.current fd = some n)
    (hon : (g.read n record bytes opened).on fd' = some c) :
    (fd' = fd ∧ ∃ c₀, g.on fd = some c₀ ∧ c = c₀.read record bytes opened) ∨
      fd' ≠ fd ∧ g.on fd' = some c := by
  obtain ⟨m, hm, hc⟩ := Log.on_eq_some.mp hon
  obtain ⟨c₀, hc₀, rfl⟩ := read_conns.mp hc
  by_cases hfd : fd' = fd
  · subst hfd
    have hnm : n = m := by
      have hm' : g.current fd' = some m := hm
      rw [hn, Option.some.injEq] at hm'
      exact hm'
    exact .inl ⟨rfl, c₀, Log.on_eq_some.mpr ⟨m, hm, hc₀⟩, if_pos hnm⟩
  · have hnm : n ≠ m := by
      rintro rfl
      exact hfd (h.current_inj hm hn)
    rw [if_neg hnm]
    exact .inr ⟨hfd, Log.on_eq_some.mpr ⟨m, hm, hc₀⟩⟩

theorem on_close {fd' : Int} (hon : (g.close fd).on fd' = some c) :
    fd' ≠ fd ∧ g.on fd' = some c := by
  obtain ⟨n, hn, hc⟩ := Log.on_eq_some.mp hon
  simp only [Log.close, Function.update_apply] at hn
  split at hn
  · contradiction
  · exact ⟨‹_›, Log.on_eq_some.mpr ⟨n, hn, hc⟩⟩

theorem Owned.idle (hown : Owned s g) (h : Tracked names s g) (hclosed : (k : Int) ∉ s.openSocks) :
    (s.clntArray k).Idle := by
  rcases h.free k with hidle | ⟨fd, n, c, hn, hc, hrec⟩
  · exact hidle
  · have hk := hown.own fd c k (Log.on_eq_some.mpr ⟨n, hn, hc⟩) hrec
    exact absurd ((h.current k).mpr (by simp [hk, hn])) hclosed

theorem Owned.fits (hown : Owned s g) (h : Tracked (fun _ _ => True) s g)
    (hocc : (Event.serve calls).canOccur byDescriptor s) (hok : readsSucceed (s, g) (.serve calls))
    (hfd : s.ready.head? = some fd) : Fits byDescriptor (fun _ _ => True) s g calls fd where
  accept hsock := by
    have hrange := (hok.1 fd hfd).1 hsock
    have hclosed := (hocc.2.1.resolve_left (by omega)).2.2
    obtain ⟨k, hk⟩ : ∃ k : Fin maxUser, (k : Int) = calls.accepted :=
      ⟨⟨calls.accepted.toNat, by omega⟩, by simp [hrange.1]⟩
    refine ⟨s.clntArray k, ?_, (hown.idle h (hk ▸ hclosed)).2.2⟩
    simp only [byDescriptor, ← hk]
    exact s.recordAt_coe k
  header hsock c hc hrec := by
    obtain ⟨hdone, hends⟩ := (hok.1 fd hfd).2 hsock c hc hrec
    exact ⟨_, hown.fresh fd c hc hrec, rfl, hdone.whole_of_stringEnds hends⟩
  data hsock c hc p hp := by
    refine ⟨(hown.own fd c p hc hp).symm, hok.2 fd hfd hsock c hc ?_⟩
    simp [Option.mem_def.mp hp]

theorem ClntFile.Idle.flagged {r : ClntFile} (h : r.Idle) :
    ({ r with flag := true } : ClntFile) = { ClntFile.zero with flag := true } := by
  obtain ⟨hlen, hname, hfp⟩ := h
  simp [ClntFile.zero, hlen, hname, hfp]

theorem Owned.read (hown : Owned s g) (h : Tracked names s g) {n : Nat} {bytes : List Byte}
    {opened : List Nat} (hn : g.current fd = some n) (hc : g.conns[n]? = some c)
    (hrecord : ∀ fd', fd' ≠ fd → t.recordAt fd' = s.recordAt fd') :
    Owned t (g.read n fd bytes opened) := by
  have hon₀ : g.on fd = some c := Log.on_eq_some.mpr ⟨n, hn, hc⟩
  refine ⟨fun fd' c' hon hrec => ?_, fun fd' c' p hon hrec => ?_⟩
  · rcases h.on_read hn hon with ⟨-, c₀, -, rfl⟩ | ⟨hne, hon⟩
    · contradiction
    · rw [hrecord fd' hne]
      exact hown.fresh fd' c' hon hrec
  · rcases h.on_read hn hon with ⟨rfl, c₀, hc₀, rfl⟩ | ⟨hne, hon⟩
    · rw [hon₀, Option.some.injEq] at hc₀
      subst hc₀
      simp only [Conn.read, Option.some.injEq] at hrec
      cases hrec₀ : c.record with
      | none => simpa [hrec₀] using hrec.symm
      | some q => simpa [hrec₀, hown.own fd' c q hon₀ hrec₀] using hrec.symm
    · exact hown.own fd' c' p hon hrec

theorem Owned.served (hown : Owned s g) (h : Tracked names s g)
    (hserved : Served names byDescriptor s g calls fd rest t g') : Owned t g' := by
  cases hserved with
  | refused k hfd hk hidle hacc =>
    simp only [byDescriptor, hacc] at hk
    omega
  | accepted k hfd hk hidle hacc =>
    simp only [byDescriptor] at hk
    refine ⟨fun fd' c hon hrec => ?_, fun fd' c p hon hrec => ?_⟩
    · change (s.setRecord k { s.clntArray k with flag := true }).recordAt fd' = _
      rcases h.on_accept hon with ⟨rfl, -⟩ | ⟨hne, hon⟩
      · rw [← hk, State.recordAt_coe, State.setRecord_self, hidle.flagged]
      · rw [State.setRecord_recordAt _ _ _ (fun hfk => hne (hfk.trans hk))]
        exact hown.fresh fd' c hon hrec
    · rcases h.on_accept hon with ⟨rfl, rfl⟩ | ⟨hne, hon⟩
      · contradiction
      · exact hown.own fd' c p hon hrec
  | header k n c name hfd hk hn hc hrec hflag hwhole hname =>
    simp only [byDescriptor] at hk
    subst hk
    exact hown.read h hn hc (fun fd' hne => State.setRecord_recordAt _ _ _ hne)
  | data k n f c buf hfd hk hn hc hrec hholds hopened hbuf =>
    simp only [byDescriptor] at hk
    subst hk
    exact hown.read h hn hc (fun fd' hne => rfl)
  | closed k n f c hfd hk hn hc hrec hholds hopened =>
    simp only [byDescriptor] at hk
    refine ⟨fun fd' c hon hrec => ?_,
      fun fd' c p hon hrec => hown.own fd' c p (on_close hon).2 hrec⟩
    obtain ⟨hne, hon⟩ := on_close hon
    change (s.setRecord k .zero).recordAt fd' = _
    rw [State.setRecord_recordAt _ _ _ (fun hfk => hne (hfk.trans hk))]
    exact hown.fresh fd' c hon hrec

end Descriptor

/-- In every run of `fileup_serv_dir/fileup_serv.c` in which no `read` of data fails, every
connection finds its record fresh and has a file with exactly its data. -/
theorem uploads_by_descriptor {p : State × Log}
    (h : Reachable ((observed byDescriptor).restrict readsSucceed) p) :
    Separate (fun _ _ => True) p.2 p.1.files ∧ Owned p.1 p.2 ∧
      Survives byDescriptor readsSucceed p := by
  have hinv : Tracked (fun _ _ => True) p.1 p.2 ∧ Owned p.1 p.2 := by
    refine h.invariant (I := fun p => Tracked (fun _ _ => True) p.1 p.2 ∧ Owned p.1 p.2) ?_ ?_
    · rintro ⟨s, g⟩ ⟨⟨servSock, rfl, -⟩, hg⟩
      subst hg
      exact ⟨.start _ servSock, by simp [Log.on, Log.start], by simp [Log.on, Log.start]⟩
    · rintro ⟨s, g⟩ e ⟨t, g'⟩ - ⟨htracked, hown⟩ ⟨hok, ⟨hocc, hrun⟩, hlook⟩
      dsimp only at hlook
      subst hlook
      refine ⟨htracked.step hocc hrun ?_, ?_⟩
      · rintro calls fd rfl hfd
        exact hown.fits htracked hocc hok hfd
      · cases e with
        | wait ready =>
          simp only [handle, Except.ok.injEq] at hrun
          subst hrun
          exact ⟨hown.fresh, hown.own⟩
        | serve calls =>
          obtain ⟨fd, rest, hready⟩ := List.exists_cons_of_ne_nil hocc.1
          have hhead : s.ready.head? = some fd := by rw [hready]; rfl
          have hfit := hown.fits htracked hocc hok hhead
          exact hown.served htracked (hfit.served_of_step htracked hready hrun)
  obtain ⟨htracked, hown⟩ := hinv
  exact ⟨htracked.separate, hown, htracked.survives fun calls fd hocc hok hfd =>
    hown.fits htracked hocc hok hfd⟩

instance (p : State × Log) (e : Event) : Decidable (promised p e) :=
  match e with
  | .wait _ => inferInstanceAs (Decidable True)
  | .serve calls => inferInstanceAs (Decidable (∀ fd ∈ p.1.ready.head?,
      (fd = p.1.servSock → 0 ≤ calls.accepted ∧ calls.accepted < maxUser) ∧
      (fd ≠ p.1.servSock → ∀ c ∈ p.2.on fd, c.record = none →
        HeaderDone calls ∧ StringEnds calls)))

instance (p : State × Log) (e : Event) : Decidable (readsSucceed p e) :=
  match e with
  | .wait _ => inferInstanceAs (Decidable True)
  | .serve calls => inferInstanceAs (Decidable (promised p (.serve calls) ∧
      ∀ fd ∈ p.1.ready.head?, fd ≠ p.1.servSock → ∀ c ∈ p.2.on fd, c.record ≠ none →
        calls.data ≠ none))

/-- One client after the other on one descriptor. -/
theorem uploads_by_descriptor_demo : ∃ p : State × Log,
    p.1.files = [⟨[97], [1, 2], false⟩, ⟨[98], [9], true⟩] ∧
      Separate (fun _ _ => True) p.2 p.1.files ∧ Owned p.1 p.2 ∧
      Survives byDescriptor readsSucceed p := by
  obtain ⟨p, hp, htest⟩ := reachable_of_runsTo byDescriptor readsSucceed 3
    (fun p => p.1.files == [⟨[97], [1, 2], false⟩, ⟨[98], [9], true⟩])
    [.wait [3], .serve { accepted := 5 }, .wait [5], .serve (header 97), .wait [5],
      .serve (data [1, 2]), .wait [5], .serve (data []), .wait [3], .serve { accepted := 5 },
      .wait [5], .serve (header 98), .wait [5], .serve (data [9])] (by decide) (by decide)
  exact ⟨p, by simpa using htest, uploads_by_descriptor hp⟩

/-- A `read` that fails is handed to `fwrite` as a count. -/
theorem failed_read_faults : ∃ p : State × Log,
    Reachable ((observed byDescriptor).restrict promised) p ∧
      ¬Survives byDescriptor promised p := by
  obtain ⟨p, hp, htest⟩ := reachable_of_runsTo byDescriptor promised 3
    (fun p => decide ((Event.serve {}).canOccur byDescriptor p.1) &&
      (decide (promised p (.serve {})) && (handle byDescriptor p.1 (.serve {})).toOption.isNone))
    [.wait [3], .serve { accepted := 5 }, .wait [5], .serve (header 97), .wait [5]]
    (by decide) (by decide)
  simp only [Bool.and_eq_true, decide_eq_true_eq] at htest
  obtain ⟨hocc, hok, hnone⟩ := htest
  refine ⟨p, hp, fun hsurvives => ?_⟩
  obtain ⟨t, ht⟩ := hsurvives _ hocc hok
  simp [ht, Except.toOption] at hnone

end FileUpload
