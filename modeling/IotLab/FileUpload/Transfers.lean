import IotLab.FileUpload.Main

set_option autoImplicit false

namespace FileUpload
open SlotTable HostMemory Transitions

def parse (bytes : List Byte) : Option (List Byte × List Byte) :=
  let len := (word32 bytes).toNat
  if 4 + len ≤ bytes.length then some ((bytes.drop 4).take len, bytes.drop (4 + len)) else none

/-- A connection: its socket, the record its first round used, every byte read from it, and
the files opened in its rounds. -/
structure Conn where
  sock : Int
  record : Option Int
  bytes : List Byte
  opened : List Nat
  deriving DecidableEq

/-- The connections in the order of `accept`, and the one on each socket that is open. -/
structure Log where
  conns : List Conn
  current : Int → Option Nat

def Log.start : Log := ⟨[], fun _ => none⟩

def Log.on (g : Log) (fd : Int) : Option Conn := (g.current fd).bind fun n => g.conns[n]?

def Log.accept (g : Log) (fd : Int) : Log where
  conns := g.conns ++ [⟨fd, none, [], []⟩]
  current := Function.update g.current fd (some g.conns.length)

def Conn.read (c : Conn) (record : Int) (bytes : List Byte) (opened : List Nat) : Conn :=
  { c with
    record := some (c.record.getD record)
    bytes := c.bytes ++ bytes
    opened := c.opened ++ opened }

def Log.read (g : Log) (n : Nat) (record : Int) (bytes : List Byte) (opened : List Nat) : Log :=
  { g with conns := g.conns.modify n fun c => c.read record bytes opened }

def Log.close (g : Log) (fd : Int) : Log :=
  { g with current := Function.update g.current fd none }

def bytesRead (calls : Calls) (r : ClntFile) : List Byte :=
  if r.flag then calls.lenRead.getD [] ++ calls.nameRead.getD [] else calls.data.getD []

def newFiles (s t : State) : List Nat :=
  List.range' s.files.length (t.files.length - s.files.length)

section Observer
variable (recordOf : Nat → Int → Int)

def lookClient (g : Log) (s : State) (calls : Calls) (fd : Int) (n : Nat) (t : State) : Log :=
  let record := recordOf s.i fd
  let g := g.read n record (((s.recordAt record).map (bytesRead calls)).getD []) (newFiles s t)
  if fd ∈ t.openSocks then g else g.close fd

def look (g : Log) (s : State) (e : Event) (t : State) : Log :=
  match e, s.ready with
  | .serve calls, fd :: _ =>
    if fd = s.servSock then
      if calls.accepted = -1 then g else g.accept calls.accepted
    else (g.current fd).elim g fun n => lookClient recordOf g s calls fd n t
  | _, _ => g

def observed : System (State × Log) Event := (system recordOf).observe .start (look recordOf)

-- The names that a file may be opened under, for the name that a header sends.
variable (names : List Byte → List Byte → Prop)

/-- The two `read`s of the header are whole, the string at the block is a good name, and the
file can be opened. -/
structure HeaderWhole (calls : Calls) : Prop where
  lenRead : (calls.lenRead.getD []).length = 4
  nameRead : (calls.nameRead.getD []).length = (word32 (calls.lenRead.getD [])).toNat
  name : ∃ memory name, calls.memory = some memory ∧
    stringAt (readOver memory calls.nameRead) = .ok name ∧ names (calls.nameRead.getD []) name
  opened : calls.opened = true

/-- The round uses a record that fits: no upload uses the one of an `accept`, the one of a
header waits for a header that arrives whole, and data comes at the record of its header. No
`read` of data fails. -/
structure Fits (s : State) (g : Log) (calls : Calls) (fd : Int) : Prop where
  accept : fd = s.servSock → ∃ r ∈ s.recordAt (recordOf s.i calls.accepted), r.fp = none
  header : fd ≠ s.servSock → ∀ c ∈ g.on fd, c.record = none →
    ∃ r ∈ s.recordAt (recordOf s.i fd), r.flag = true ∧ HeaderWhole names calls
  data : fd ≠ s.servSock → ∀ c ∈ g.on fd, ∀ p ∈ c.record,
    recordOf s.i fd = p ∧ calls.data ≠ none

def Conn.Delivered (c : Conn) (files : List File) (f : Nat) : Prop :=
  c.opened = [f] ∧ ∃ sent data file, parse c.bytes = some (sent, data) ∧
    files[f]? = some file ∧ file.content = data ∧ names sent file.name

end Observer

def ClntFile.Idle (r : ClntFile) : Prop :=
  r.filenameLen = 0 ∧ r.filename = .null ∧ r.fp = none

def ClntFile.Holds (r : ClntFile) (f : Nat) : Prop :=
  r.flag = false ∧ r.filename = .block ∧ r.fp = some f

structure Tracked (names : List Byte → List Byte → Prop) (s : State) (g : Log) : Prop where
  nodup : s.ready.Nodup
  ready : ∀ fd ∈ s.ready, fd = s.servSock ∨ fd ∈ s.openSocks
  servSock : s.servSock ∉ s.openSocks
  current : ∀ fd, fd ∈ s.openSocks ↔ (g.current fd).isSome
  sock : ∀ fd n, g.current fd = some n → ∃ c, g.conns[n]? = some c ∧ c.sock = fd
  waiting : ∀ (n : Nat) c, g.conns[n]? = some c → c.record = none →
    c.bytes = [] ∧ c.opened = []
  started : ∀ (n : Nat) c, g.conns[n]? = some c → c.record ≠ none →
    ∃ f, c.Delivered names s.files f
  held : ∀ fd n c p, g.current fd = some n → g.conns[n]? = some c → c.record = some p →
    ∃ r f, s.recordAt p = some r ∧ r.Holds f ∧ c.opened = [f]
  free : ∀ k, (s.clntArray k).Idle ∨
    ∃ fd n c, g.current fd = some n ∧ g.conns[n]? = some c ∧ c.record = some (k : Int)
  apart : ∀ (n m : Nat) c c', g.conns[n]? = some c → g.conns[m]? = some c' →
    ∀ f ∈ c.opened, f ∈ c'.opened → n = m

section Parse
variable {bytes name data more : List Byte}

theorem parse_append (h : parse bytes = some (name, data)) :
    parse (bytes ++ more) = some (name, data ++ more) := by
  simp only [parse, Option.ite_none_right_eq_some, Option.some.injEq, Prod.mk.injEq] at h
  obtain ⟨hlen, hname, hdata⟩ := h
  rw [parse, word32_append more (by omega), if_pos (by rw [List.length_append]; omega)]
  rw [List.drop_append_of_le_length (by omega), List.drop_append_of_le_length (by omega),
    List.take_append_of_le_length (by rw [List.length_drop]; omega), hname, hdata]

theorem parse_header {len : List Byte} (hlen : len.length = 4)
    (hname : name.length = (word32 len).toNat) : parse (len ++ name) = some (name, []) := by
  rw [parse, word32_append name hlen.ge, ← hname, if_pos (by simp [hlen]),
    List.drop_left' hlen, List.take_length,
    List.drop_of_length_le (by simp [hlen])]

end Parse

section Conns
variable {g : Log} {n m : Nat} {record : Int} {bytes : List Byte} {opened : List Nat} {c : Conn}

theorem read_conns : (g.read n record bytes opened).conns[m]? = some c ↔
    ∃ c₀, g.conns[m]? = some c₀ ∧ (if n = m then c₀.read record bytes opened else c₀) = c := by
  simp only [Log.read, List.getElem?_modify, Option.map_eq_map, Option.map_eq_some_iff]

theorem read_conns_self (h : g.conns[n]? = some c) :
    (g.read n record bytes opened).conns[n]? = some (c.read record bytes opened) :=
  read_conns.mpr ⟨c, h, if_pos rfl⟩

theorem read_conns_cases (h : g.conns[n]? = some c) {c' : Conn}
    (h' : (g.read n record bytes opened).conns[m]? = some c') :
    m = n ∧ c' = c.read record bytes opened ∨ n ≠ m ∧ g.conns[m]? = some c' := by
  obtain ⟨c₀, hc₀, rfl⟩ := read_conns.mp h'
  by_cases hm : n = m
  · subst hm
    rw [h, Option.some.injEq] at hc₀
    subst hc₀
    exact .inl ⟨rfl, if_pos rfl⟩
  · rw [if_neg hm]
    exact .inr ⟨hm, hc₀⟩

theorem read_conns_of_ne (hne : n ≠ m) (h : g.conns[m]? = some c) :
    (g.read n record bytes opened).conns[m]? = some c :=
  read_conns.mpr ⟨c, h, if_neg hne⟩

theorem read_nil (h : g.conns[n]? = some c) (hrec : c.record = some record) :
    g.read n record [] [] = g := by
  have hc : c.read record [] [] = c := by
    simp only [Conn.read, hrec, Option.getD_some, List.append_nil]
    rw [← hrec]
  have hconns : (g.read n record [] []).conns = g.conns := by
    refine List.ext_getElem? (fun m => ?_)
    simp only [Log.read, List.getElem?_modify, Option.map_eq_map]
    by_cases hm : n = m
    · subst hm
      simp [h, hc]
    · simp [hm]
  exact congrArg (fun conns => (⟨conns, g.current⟩ : Log)) hconns

theorem accept_conns {fd : Int} : (g.accept fd).conns[n]? = some c ↔
    g.conns[n]? = some c ∨ n = g.conns.length ∧ c = ⟨fd, none, [], []⟩ := by
  simp only [Log.accept]
  rcases lt_trichotomy n g.conns.length with hlt | rfl | hgt
  · simp [List.getElem?_append_left hlt, hlt.ne]
  · simp [eq_comm]
  · have hnone : (g.conns ++ [⟨fd, none, [], []⟩])[n]? = none := by
      rw [List.getElem?_eq_none_iff, List.length_append, List.length_singleton]
      omega
    simp [hnone, List.getElem?_eq_none hgt.le, hgt.ne']

end Conns

section Files
variable {names : List Byte → List Byte → Prop} {c : Conn} {files : List File} {f f' : Nat}
  {buf : List Byte} {record : Int}

theorem Conn.Delivered.opened_file (h : c.Delivered names files f) : f < files.length := by
  obtain ⟨-, -, -, file, -, hfile, -⟩ := h
  exact (List.getElem?_eq_some_iff.mp hfile).1

theorem Conn.Delivered.append (h : c.Delivered names files f) (more : List File) :
    c.Delivered names (files ++ more) f := by
  obtain ⟨hopened, sent, data, file, hparse, hfile, hdata, hname⟩ := h
  refine ⟨hopened, sent, data, file, hparse, ?_, hdata, hname⟩
  rw [List.getElem?_append_left (List.getElem?_eq_some_iff.mp hfile).1, hfile]

theorem Conn.Delivered.modify (h : c.Delivered names files f) {change : File → File}
    (hchange : ∀ file, (change file).name = file.name ∧
      (f' = f → (change file).content = file.content)) :
    c.Delivered names (files.modify f' change) f := by
  obtain ⟨hopened, sent, data, file, hparse, hfile, hdata, hname⟩ := h
  by_cases hf : f' = f
  · refine ⟨hopened, sent, data, change file, hparse, ?_, by rw [(hchange file).2 hf, hdata],
      by rw [(hchange file).1]; exact hname⟩
    simp [hf, hfile]
  · refine ⟨hopened, sent, data, file, hparse, ?_, hdata, hname⟩
    simp [hf, hfile]

theorem Conn.Delivered.read (h : c.Delivered names files f) :
    (c.read record buf []).Delivered names
      (files.modify f fun file => { file with content := file.content ++ buf }) f := by
  obtain ⟨hopened, sent, data, file, hparse, hfile, hdata, hname⟩ := h
  refine ⟨by simp [Conn.read, hopened], sent, data ++ buf,
    { file with content := file.content ++ buf }, parse_append hparse, ?_, by simp [hdata], hname⟩
  simp [hfile]

end Files

section Preserved
variable {names : List Byte → List Byte → Prop} {s : State} {g : Log} {fd : Int}
  {rest : List Int} {k : Fin maxUser} {n f : Nat} {c : Conn} {bytes : List Byte}

def State.next (s : State) (rest : List Int) : State := { s with ready := rest, i := s.i + 1 }

theorem Tracked.current_inj (h : Tracked names s g) {fd' : Int} (hn : g.current fd = some n)
    (hn' : g.current fd' = some n) : fd = fd' := by
  obtain ⟨c, hc, hsock⟩ := h.sock fd n hn
  obtain ⟨c', hc', hsock'⟩ := h.sock fd' n hn'
  rw [hc, Option.some.injEq] at hc'
  rw [← hsock, hc', hsock']

theorem Tracked.record_inj (h : Tracked names s g) {fd' : Int} {m : Nat} {c' : Conn} {p : Int}
    (hn : g.current fd = some n) (hc : g.conns[n]? = some c) (hrec : c.record = some p)
    (hm : g.current fd' = some m) (hc' : g.conns[m]? = some c') (hrec' : c'.record = some p) :
    fd = fd' := by
  obtain ⟨r, f, hr, hholds, hopen⟩ := h.held fd n c p hn hc hrec
  obtain ⟨r', f', hr', hholds', hopen'⟩ := h.held fd' m c' p hm hc' hrec'
  rw [hr, Option.some.injEq] at hr'
  subst hr'
  have hff : f = f' := by
    have := hholds.2.2
    rw [hholds'.2.2, Option.some.injEq] at this
    exact this.symm
  have hnm := h.apart n m c c' hc hc' f (by simp [hopen]) (by simp [hopen', hff])
  exact h.current_inj hn (hnm ▸ hm)

theorem Tracked.idle_or_holds (h : Tracked names s g) (k : Fin maxUser) :
    (s.clntArray k).Idle ∨ ∃ f, (s.clntArray k).Holds f := by
  rcases h.free k with hidle | ⟨fd, n, c, hn, hc, hrec⟩
  · exact .inl hidle
  · obtain ⟨r, f, hr, hholds, -⟩ := h.held fd n c k hn hc hrec
    rw [s.recordAt_coe, Option.some.injEq] at hr
    exact .inr ⟨f, hr ▸ hholds⟩

theorem Tracked.idle_of_fp (h : Tracked names s g) (hfp : (s.clntArray k).fp = none) :
    (s.clntArray k).Idle :=
  (h.idle_or_holds k).resolve_right fun ⟨f, hholds⟩ => by
    have := hholds.2.2
    simp [hfp] at this

theorem Tracked.wait (h : Tracked names s g) {ready : List Int} (hnodup : ready.Nodup)
    (hready : ∀ fd ∈ ready, fd = s.servSock ∨ fd ∈ s.openSocks) :
    Tracked names { s with ready := ready, i := 0 } g :=
  { h with nodup := hnodup, ready := hready }

theorem Tracked.ready_next (h : Tracked names s g) (hready : s.ready = fd :: rest) :
    fd ∉ rest ∧ rest.Nodup ∧ ∀ fd' ∈ rest, fd' = s.servSock ∨ fd' ∈ s.openSocks := by
  have hnodup := h.nodup
  rw [hready, List.nodup_cons] at hnodup
  exact ⟨hnodup.1, hnodup.2, fun fd' hfd' => h.ready fd' (by simp [hready, hfd'])⟩

theorem Tracked.flagged (h : Tracked names s g) (hready : s.ready = fd :: rest)
    (hidle : (s.clntArray k).Idle) :
    Tracked names ((s.setRecord k { s.clntArray k with flag := true }).next rest) g := by
  obtain ⟨-, hnodup, hrest⟩ := h.ready_next hready
  refine { h with nodup := hnodup, ready := hrest, held := ?_, free := ?_ }
  · intro fd' n c p hn hc hrec
    obtain ⟨r, f, hr, hholds, hopened⟩ := h.held fd' n c p hn hc hrec
    refine ⟨r, f, ?_, hholds, hopened⟩
    obtain ⟨k', rfl, rfl⟩ := State.recordAt_eq_some.mp hr
    have hne : k' ≠ k := by
      rintro rfl
      have := hholds.2.2
      simp [hidle.2.2] at this
    exact State.recordAt_eq_some.mpr ⟨k', rfl, s.setRecord_of_ne k _ hne⟩
  · intro k'
    by_cases hk : k' = k
    · subst hk
      refine .inl ?_
      simpa [State.next, ClntFile.Idle] using hidle
    · have hfree := h.free k'
      rw [← s.setRecord_of_ne k { s.clntArray k with flag := true } hk] at hfree
      exact hfree

theorem Tracked.connect (h : Tracked names s g) (hfd : fd ∉ s.openSocks) (hne : fd ≠ s.servSock) :
    Tracked names { s with openSocks := fd :: s.openSocks } (g.accept fd) where
  nodup := h.nodup
  ready fd' hfd' := (h.ready fd' hfd').imp_right (List.mem_cons_of_mem fd)
  servSock := by
    simpa using ⟨hne.symm, h.servSock⟩
  current fd' := by
    by_cases hff : fd' = fd
    · simp [hff, Log.accept]
    · simp [hff, Log.accept, h.current fd']
  sock fd' n hn := by
    simp only [Log.accept, Function.update_apply] at hn
    split at hn
    · cases hn
      exact ⟨_, accept_conns.mpr (.inr ⟨rfl, rfl⟩), by simp [*]⟩
    · obtain ⟨c, hc, hsock⟩ := h.sock fd' n hn
      exact ⟨c, accept_conns.mpr (.inl hc), hsock⟩
  waiting n c hc hrec := by
    rcases accept_conns.mp hc with hc | ⟨-, rfl⟩
    · exact h.waiting n c hc hrec
    · exact ⟨rfl, rfl⟩
  started n c hc hrec := by
    rcases accept_conns.mp hc with hc | ⟨-, rfl⟩
    · exact h.started n c hc hrec
    · contradiction
  held fd' n c p hn hc hrec := by
    rcases accept_conns.mp hc with hc' | ⟨-, rfl⟩
    · simp only [Log.accept, Function.update_apply] at hn
      split at hn
      · cases hn
        simp at hc'
      · exact h.held fd' n c p hn hc' hrec
    · contradiction
  free k := by
    refine (h.free k).imp_right ?_
    rintro ⟨fd', n, c, hn, hc, hrec⟩
    have hff : fd' ≠ fd := by
      rintro rfl
      exact hfd ((h.current fd').mpr (by simp [hn]))
    exact ⟨fd', n, c, by simpa [Log.accept, hff] using hn, accept_conns.mpr (.inl hc), hrec⟩
  apart n m c c' hc hc' f hf hf' := by
    rcases accept_conns.mp hc with hc | ⟨-, rfl⟩
    · rcases accept_conns.mp hc' with hc' | ⟨-, rfl⟩
      · exact h.apart n m c c' hc hc' f hf hf'
      · simp at hf'
    · simp at hf

theorem Tracked.opened_lt (h : Tracked names s g) (hc : g.conns[n]? = some c) (hf : f ∈ c.opened) :
    f < s.files.length := by
  by_cases hrec : c.record = none
  · simp [(h.waiting n c hc hrec).2] at hf
  · obtain ⟨f', hdel⟩ := h.started n c hc hrec
    rw [hdel.1, List.mem_singleton] at hf
    exact hf ▸ hdel.opened_file

theorem Tracked.sock_read (h : Tracked names s g) {record : Int} {opened : List Nat} {fd' : Int}
    {m : Nat} (hm : g.current fd' = some m) :
    ∃ c', (g.read n record bytes opened).conns[m]? = some c' ∧ c'.sock = fd' := by
  obtain ⟨c', hc', hsock⟩ := h.sock fd' m hm
  refine ⟨_, read_conns.mpr ⟨c', hc', rfl⟩, ?_⟩
  split <;> exact hsock

theorem Tracked.waiting_read (h : Tracked names s g) (hc : g.conns[n]? = some c) {record : Int}
    {opened : List Nat} (m : Nat) (c' : Conn)
    (hc' : (g.read n record bytes opened).conns[m]? = some c') (hrec : c'.record = none) :
    c'.bytes = [] ∧ c'.opened = [] := by
  rcases read_conns_cases hc hc' with ⟨-, rfl⟩ | ⟨-, hc'⟩
  · contradiction
  · exact h.waiting m c' hc' hrec

theorem Tracked.held_setRecord (h : Tracked names s g) (r' : ClntFile) {fd' : Int} {m : Nat}
    {c' : Conn} {p : Int} (hm : g.current fd' = some m) (hc' : g.conns[m]? = some c')
    (hrec' : c'.record = some p) (hne : p ≠ k) :
    ∃ r f, (s.setRecord k r').recordAt p = some r ∧ r.Holds f ∧ c'.opened = [f] := by
  obtain ⟨r, f, hr, hholds, hopened⟩ := h.held fd' m c' p hm hc' hrec'
  obtain ⟨k', rfl, rfl⟩ := State.recordAt_eq_some.mp hr
  have hk : k' ≠ k := fun heq => hne (congrArg (fun j : Fin maxUser => (j : Int)) heq)
  exact ⟨_, f, State.recordAt_eq_some.mpr ⟨k', rfl, s.setRecord_of_ne k r' hk⟩, hholds, hopened⟩

theorem Tracked.opened_header (h : Tracked names s g) (hc : g.conns[n]? = some c)
    (hopened : c.opened = []) {m : Nat} {c' : Conn} {record : Int}
    (hc' : (g.read n record bytes [s.files.length]).conns[m]? = some c') (hf : f ∈ c'.opened) :
    n = m ∧ f = s.files.length ∨ f < s.files.length ∧ g.conns[m]? = some c' := by
  rcases read_conns_cases hc hc' with ⟨rfl, rfl⟩ | ⟨-, hc'⟩
  · exact .inl ⟨rfl, by simpa [Conn.read, hopened] using hf⟩
  · exact .inr ⟨h.opened_lt hc' hf, hc'⟩

theorem Tracked.header (h : Tracked names s g) (hready : s.ready = fd :: rest)
    (hn : g.current fd = some n) (hc : g.conns[n]? = some c) (hrec : c.record = none)
    (hflag : (s.clntArray k).flag = true) {sent name : List Byte}
    (hparse : parse bytes = some (sent, [])) (hname : names sent name) (len : BitVec 32) :
    Tracked names ({ s.setRecord k ⟨false, len, .block, some s.files.length⟩ with
      files := s.files ++ [(⟨name, [], true⟩ : File)] }.next rest)
      (g.read n k bytes [s.files.length]) := by
  obtain ⟨-, hnodup, hrest⟩ := h.ready_next hready
  obtain ⟨hbytes, hopened⟩ := h.waiting n c hc hrec
  have hread : c.read k bytes [s.files.length] = ⟨c.sock, some k, bytes, [s.files.length]⟩ := by
    simp [Conn.read, hrec, hbytes, hopened]
  refine ⟨hnodup, hrest, h.servSock, h.current, fun fd' m hm => h.sock_read hm,
    h.waiting_read hc, ?started, ?held, ?free, ?apart⟩
  case started =>
    intro m c' hc' hrec'
    rcases read_conns_cases hc hc' with ⟨rfl, rfl⟩ | ⟨-, hc'⟩
    · rw [hread]
      have hfile : (s.files ++ [(⟨name, [], true⟩ : File)])[s.files.length]? =
          some ⟨name, [], true⟩ := by simp
      exact ⟨s.files.length, rfl, sent, [], _, hparse, hfile, rfl, hname⟩
    · obtain ⟨f, hdel⟩ := h.started m c' hc' hrec'
      exact ⟨f, hdel.append _⟩
  case held =>
    intro fd' m c' p hm hc' hrec'
    rcases read_conns_cases hc hc' with ⟨rfl, rfl⟩ | ⟨-, hc'⟩
    · rw [hread] at hrec' ⊢
      cases hrec'
      refine ⟨⟨false, len, .block, some s.files.length⟩, s.files.length, ?_, ⟨rfl, rfl, rfl⟩, rfl⟩
      rw [State.recordAt_coe]
      exact congrArg some (s.setRecord_self k _)
    · refine h.held_setRecord _ hm hc' hrec' ?_
      rintro rfl
      obtain ⟨r, f, hr, hholds, -⟩ := h.held fd' m c' k hm hc' hrec'
      rw [State.recordAt_coe, Option.some.injEq] at hr
      have hheader := hholds.1
      simp [← hr, hflag] at hheader
  case free =>
    intro k'
    by_cases hk : k' = k
    · subst hk
      exact .inr ⟨fd, n, _, hn, read_conns_self hc, by rw [hread]⟩
    · have hfree := h.free k'
      rw [← s.setRecord_of_ne k ⟨false, len, .block, some s.files.length⟩ hk] at hfree
      refine hfree.imp_right ?_
      rintro ⟨fd', m, c', hm, hc', hrec'⟩
      have hnm : n ≠ m := by
        rintro rfl
        rw [hc, Option.some.injEq] at hc'
        simp [← hc', hrec] at hrec'
      exact ⟨fd', m, c', hm, read_conns_of_ne hnm hc', hrec'⟩
  case apart =>
    intro m m' c' c'' hc' hc'' f hf hf'
    rcases h.opened_header hc hopened hc' hf with ⟨rfl, rfl⟩ | ⟨hlt, hc'⟩
    · rcases h.opened_header hc hopened hc'' hf' with ⟨rfl, -⟩ | ⟨hlt, -⟩
      · rfl
      · omega
    · rcases h.opened_header hc hopened hc'' hf' with ⟨-, rfl⟩ | ⟨-, hc''⟩
      · omega
      · exact h.apart m m' c' c'' hc' hc'' f hf hf'

theorem Tracked.data (h : Tracked names s g) (hready : s.ready = fd :: rest)
    (hc : g.conns[n]? = some c) {p : Int} (hrec : c.record = some p) (hf : c.opened = [f])
    (buf : List Byte) :
    Tracked names ({ s with
      files := s.files.modify f fun file => { file with content := file.content ++ buf } }.next
        rest) (g.read n p buf []) := by
  obtain ⟨-, hnodup, hrest⟩ := h.ready_next hready
  have hopened {m : Nat} {c' : Conn} (hc' : (g.read n p buf []).conns[m]? = some c') :
      ∃ c₀, g.conns[m]? = some c₀ ∧ c'.opened = c₀.opened ∧ c'.record = c₀.record := by
    rcases read_conns_cases hc hc' with ⟨rfl, rfl⟩ | ⟨-, hc'⟩
    · exact ⟨c, hc, by simp [Conn.read, hrec]⟩
    · exact ⟨c', hc', rfl, rfl⟩
  refine ⟨hnodup, hrest, h.servSock, h.current, fun fd' m hm => h.sock_read hm,
    h.waiting_read hc, ?started, ?held, ?free, ?apart⟩
  case started =>
    intro m c' hc' hrec'
    rcases read_conns_cases hc hc' with ⟨rfl, rfl⟩ | ⟨hm, hc'⟩
    · obtain ⟨f', hdel⟩ := h.started m c hc (by simp [hrec])
      have hff : f' = f := by simpa [hf] using hdel.1.symm
      exact ⟨f, hff ▸ hdel.read⟩
    · obtain ⟨f', hdel⟩ := h.started m c' hc' hrec'
      refine ⟨f', hdel.modify (fun file => ⟨rfl, fun hff => ?_⟩)⟩
      exact absurd (h.apart n m c c' hc hc' f (by simp [hf]) (by simp [hdel.1, hff])) hm
  case held =>
    intro fd' m c' p' hm hc' hrec'
    obtain ⟨c₀, hc₀, hopen, hrecord⟩ := hopened hc'
    rw [hrecord] at hrec'
    obtain ⟨r, f', hr, hholds, hopen'⟩ := h.held fd' m c₀ p' hm hc₀ hrec'
    exact ⟨r, f', hr, hholds, by rw [hopen, hopen']⟩
  case free =>
    intro k'
    refine (h.free k').imp_right ?_
    rintro ⟨fd', m, c', hm, hc', hrec'⟩
    refine ⟨fd', m, _, hm, read_conns.mpr ⟨c', hc', rfl⟩, ?_⟩
    split
    · simp [Conn.read, hrec']
    · exact hrec'
  case apart =>
    intro m m' c' c'' hc' hc'' f' hf' hf''
    obtain ⟨c₀, hc₀, hopen, -⟩ := hopened hc'
    obtain ⟨c₁, hc₁, hopen', -⟩ := hopened hc''
    exact h.apart m m' c₀ c₁ hc₀ hc₁ f' (hopen ▸ hf') (hopen' ▸ hf'')

theorem Tracked.close (h : Tracked names s g) (hready : s.ready = fd :: rest)
    (hn : g.current fd = some n) (hc : g.conns[n]? = some c) (hrec : c.record = some (k : Int)) :
    Tracked names ({ s.setRecord k .zero with
      openSocks := s.openSocks.filter (· ≠ fd)
      files := s.files.modify f fun file => { file with isOpen := false } }.next rest)
      (g.close fd) := by
  obtain ⟨hnot, hnodup, hrest⟩ := h.ready_next hready
  have hcurrent {fd' : Int} {m : Nat} (hm : (g.close fd).current fd' = some m) :
      fd' ≠ fd ∧ g.current fd' = some m := by
    simp only [Log.close, Function.update_apply] at hm
    split at hm
    · contradiction
    · exact ⟨‹_›, hm⟩
  refine ⟨hnodup, ?ready, ?servSock, ?current, ?sock, h.waiting, ?started, ?held, ?free, h.apart⟩
  case ready =>
    intro fd' hfd'
    refine (hrest fd' hfd').imp_right fun hopen => ?_
    simp only [State.next, List.mem_filter, decide_eq_true_eq]
    exact ⟨hopen, fun heq => hnot (heq ▸ hfd')⟩
  case servSock =>
    intro hmem
    exact h.servSock (List.mem_filter.mp hmem).1
  case current =>
    intro fd'
    by_cases hfd : fd' = fd
    · simp [State.next, Log.close, hfd]
    · simp [State.next, Log.close, hfd, h.current fd']
  case sock =>
    intro fd' m hm
    exact h.sock fd' m (hcurrent hm).2
  case started =>
    intro m c' hc' hrec'
    obtain ⟨f', hdel⟩ := h.started m c' hc' hrec'
    exact ⟨f', hdel.modify fun _ => ⟨rfl, fun _ => rfl⟩⟩
  case held =>
    intro fd' m c' p hm hc' hrec'
    obtain ⟨hfd, hm⟩ := hcurrent hm
    refine h.held_setRecord .zero hm hc' hrec' ?_
    rintro rfl
    exact hfd (h.record_inj hm hc' hrec' hn hc hrec)
  case free =>
    intro k'
    by_cases hk : k' = k
    · subst hk
      refine .inl ?_
      simp [State.next, ClntFile.zero, ClntFile.Idle]
    · have hfree := h.free k'
      rw [← s.setRecord_of_ne k .zero hk] at hfree
      refine hfree.imp_right ?_
      rintro ⟨fd', m, c', hm, hc', hrec'⟩
      have hfd : fd' ≠ fd := by
        rintro rfl
        rw [hn, Option.some.injEq] at hm
        subst hm
        rw [hc, Option.some.injEq] at hc'
        subst hc'
        rw [hrec, Option.some.injEq] at hrec'
        exact hk (Fin.ext (by omega))
      exact ⟨fd', m, c', by simpa [Log.close, hfd] using hm, hc', hrec'⟩

end Preserved

section Rounds
variable (names : List Byte → List Byte → Prop) (recordOf : Nat → Int → Int) (s : State)
  (g : Log) (calls : Calls) (fd : Int) (rest : List Int)

/-- What a round that fits does, and what the observer makes of it. -/
inductive Served : State → Log → Prop where
  | refused (k : Fin maxUser) (hfd : fd = s.servSock)
      (hk : (k : Int) = recordOf s.i calls.accepted) (hidle : (s.clntArray k).Idle)
      (hacc : calls.accepted = -1) :
      Served ((s.setRecord k { s.clntArray k with flag := true }).next rest) g
  | accepted (k : Fin maxUser) (hfd : fd = s.servSock)
      (hk : (k : Int) = recordOf s.i calls.accepted) (hidle : (s.clntArray k).Idle)
      (hacc : calls.accepted ≠ -1) :
      Served ({ s.setRecord k { s.clntArray k with flag := true } with
        openSocks := calls.accepted :: s.openSocks }.next rest) (g.accept calls.accepted)
  | header (k : Fin maxUser) (n : Nat) (c : Conn) (name : List Byte)
      (hfd : fd ≠ s.servSock) (hk : (k : Int) = recordOf s.i fd) (hn : g.current fd = some n)
      (hc : g.conns[n]? = some c) (hrec : c.record = none)
      (hflag : (s.clntArray k).flag = true) (hwhole : HeaderWhole names calls)
      (hname : names (calls.nameRead.getD []) name) :
      Served ({ s.setRecord k ⟨false, (s.clntArray k).readLen calls, .block,
          some s.files.length⟩ with
        files := s.files ++ [(⟨name, [], true⟩ : File)] }.next rest)
        (g.read n k (calls.lenRead.getD [] ++ calls.nameRead.getD []) [s.files.length])
  | data (k : Fin maxUser) (n f : Nat) (c : Conn) (buf : List Byte)
      (hfd : fd ≠ s.servSock) (hk : (k : Int) = recordOf s.i fd) (hn : g.current fd = some n)
      (hc : g.conns[n]? = some c) (hrec : c.record = some (k : Int))
      (hholds : (s.clntArray k).Holds f) (hopened : c.opened = [f]) (hbuf : buf ≠ []) :
      Served ({ s with
        files := s.files.modify f fun file => { file with content := file.content ++ buf } }.next
          rest) (g.read n k buf [])
  | closed (k : Fin maxUser) (n f : Nat) (c : Conn)
      (hfd : fd ≠ s.servSock) (hk : (k : Int) = recordOf s.i fd) (hn : g.current fd = some n)
      (hc : g.conns[n]? = some c) (hrec : c.record = some (k : Int))
      (hholds : (s.clntArray k).Holds f) (hopened : c.opened = [f]) :
      Served ({ s.setRecord k .zero with
        openSocks := s.openSocks.filter (· ≠ fd)
        files := s.files.modify f fun file => { file with isOpen := false } }.next rest)
        (g.close fd)

end Rounds

section Step
variable {names : List Byte → List Byte → Prop} {recordOf : Nat → Int → Int} {s t : State}
  {g g' : Log} {calls : Calls} {fd : Int} {rest : List Int}

theorem HeaderWhole.parse (h : HeaderWhole names calls) :
    parse (calls.lenRead.getD [] ++ calls.nameRead.getD []) =
      some (calls.nameRead.getD [], []) := parse_header h.lenRead h.nameRead

theorem Served.tracked (hserved : Served names recordOf s g calls fd rest t g')
    (h : Tracked names s g) (hready : s.ready = fd :: rest)
    (hocc : (Event.serve calls).canOccur recordOf s) :
    Tracked names t g' := by
  cases hserved with
  | refused k hfd hk hidle hacc => exact h.flagged hready hidle
  | accepted k hfd hk hidle hacc =>
    obtain ⟨-, hfresh, hclosed⟩ := hocc.2.1.resolve_left hacc
    exact (h.flagged hready hidle).connect hclosed hfresh
  | header k n c name hfd hk hn hc hrec hflag hwhole hname =>
    exact h.header hready hn hc hrec hflag hwhole.parse hname _
  | data k n f c buf hfd hk hn hc hrec hholds hopened hbuf =>
    exact h.data hready hc hrec hopened buf
  | closed k n f c hfd hk hn hc hrec hholds hopened => exact h.close hready hn hc hrec

theorem handle_serve (hready : s.ready = fd :: rest) {t : State}
    (hrun : serve recordOf s fd calls = .ok t) :
    handle recordOf s (.serve calls) = .ok { t with ready := rest, i := s.i + 1 } := by
  simp [handle, hready, hrun, bind, Except.bind]

theorem Fits.served_listening (hfit : Fits recordOf names s g calls s.servSock)
    (h : Tracked names s g) (hready : s.ready = s.servSock :: rest) :
    ∃ t, handle recordOf s (.serve calls) = .ok t ∧
      Served names recordOf s g calls s.servSock rest t (look recordOf g s (.serve calls) t) := by
  obtain ⟨r, hr, hfp⟩ := hfit.accept rfl
  obtain ⟨k, hk, rfl⟩ := State.recordAt_eq_some.mp hr
  have hidle := h.idle_of_fp hfp
  have hrun : serve recordOf s s.servSock calls =
      .ok { s.setRecord k { s.clntArray k with flag := true } with
        openSocks := if calls.accepted = -1 then s.openSocks
          else calls.accepted :: s.openSocks } := by
    rw [serve_listening recordOf hk]
    simp [acceptClient, hidle.2.1, Pointer.free, Pointer.afterFree, bind, Except.bind]
  refine ⟨_, handle_serve hready hrun, ?_⟩
  by_cases hacc : calls.accepted = -1
  · simp only [look, hready, hacc, if_true]
    exact .refused k rfl hk hidle hacc
  · simp only [look, hready, hacc, if_true, if_false]
    exact .accepted k rfl hk hidle hacc

theorem Fits.served_header (hfit : Fits recordOf names s g calls fd) (h : Tracked names s g)
    (hready : s.ready = fd :: rest) (hfd : fd ≠ s.servSock) {n : Nat} {c : Conn}
    (hn : g.current fd = some n) (hc : g.conns[n]? = some c) (hrec : c.record = none) :
    ∃ t, handle recordOf s (.serve calls) = .ok t ∧
      Served names recordOf s g calls fd rest t (look recordOf g s (.serve calls) t) := by
  obtain ⟨r, hr, hflag, hwhole⟩ := hfit.header hfd c (by simp [Log.on, hn, hc]) hrec
  obtain ⟨k, hk, rfl⟩ := State.recordAt_eq_some.mp hr
  obtain ⟨memory, name, hmemory, hstring, hname⟩ := hwhole.name
  have hopen : fd ∈ s.openSocks := (h.current fd).mpr (by simp [hn])
  have hrun : serve recordOf s fd calls = .ok { s.setRecord k
      ⟨false, (s.clntArray k).readLen calls, .block, some s.files.length⟩ with
        files := s.files ++ [⟨name, [], true⟩] } := by
    rw [serve_client recordOf hfd hk, if_pos hflag]
    simp [readHeader, hmemory, hstring, hwhole.opened, bind, Except.bind]
  refine ⟨_, handle_serve hready hrun, ?_⟩
  have hbytes : bytesRead calls (s.clntArray k) =
      calls.lenRead.getD [] ++ calls.nameRead.getD [] := if_pos hflag
  simp only [look, hready, if_neg hfd, hn, Option.elim, lookClient, ← hk, State.recordAt_coe,
    Option.map_some, Option.getD_some, hbytes, newFiles, List.length_append,
    List.length_singleton, Nat.add_sub_cancel_left, List.range'_one,
    State.setRecord_openSocks, hopen, if_true]
  exact .header k n c name hfd hk hn hc hrec hflag hwhole hname

theorem Fits.served_data (hfit : Fits recordOf names s g calls fd) (h : Tracked names s g)
    (hready : s.ready = fd :: rest) (hfd : fd ≠ s.servSock) {n : Nat} {c : Conn} {p : Int}
    (hn : g.current fd = some n) (hc : g.conns[n]? = some c) (hrec : c.record = some p) :
    ∃ t, handle recordOf s (.serve calls) = .ok t ∧
      Served names recordOf s g calls fd rest t (look recordOf g s (.serve calls) t) := by
  obtain ⟨hp, hdata⟩ := hfit.data hfd c (by simp [Log.on, hn, hc]) p hrec
  obtain ⟨r, f, hr, hholds, hopened⟩ := h.held fd n c p hn hc hrec
  obtain ⟨k, hk, rfl⟩ := State.recordAt_eq_some.mp hr
  subst hk
  obtain ⟨buf, hbuf⟩ := Option.ne_none_iff_exists'.mp hdata
  have hopen : fd ∈ s.openSocks := (h.current fd).mpr (by simp [hn])
  have hbytes : bytesRead calls (s.clntArray k) = buf := by simp [bytesRead, hholds.1, hbuf]
  have hserve : serve recordOf s fd calls = readData s fd k (some buf) := by
    rw [serve_client recordOf hfd hp.symm, hholds.1, hbuf]
    rfl
  cases buf with
  | nil =>
    have hrun : serve recordOf s fd calls = .ok { s.setRecord k .zero with
        openSocks := s.openSocks.filter (· ≠ fd)
        files := s.files.modify f fun file => { file with isOpen := false } } := by
      rw [hserve]
      simp [readData, stream, hholds.2.2, hholds.2.1, Pointer.free, bind, Except.bind]
    refine ⟨_, handle_serve hready hrun, ?_⟩
    simp only [look, hready, if_neg hfd, hn, Option.elim, lookClient, hp, State.recordAt_coe,
      Option.map_some, Option.getD_some, hbytes, newFiles, List.length_modify, Nat.sub_self,
      List.range'_zero, read_nil hc hrec]
    rw [if_neg (by simp)]
    exact .closed k n f c hfd hp.symm hn hc hrec hholds hopened
  | cons b bs =>
    have hrun : serve recordOf s fd calls = .ok { s with
        files := s.files.modify f fun file =>
          { file with content := file.content ++ b :: bs } } := by
      rw [hserve]
      simp [readData, stream, hholds.2.2, bind, Except.bind]
    refine ⟨_, handle_serve hready hrun, ?_⟩
    simp only [look, hready, if_neg hfd, hn, Option.elim, lookClient, hp, State.recordAt_coe,
      Option.map_some, Option.getD_some, hbytes, newFiles, List.length_modify, Nat.sub_self,
      List.range'_zero, hopen, if_true]
    exact .data k n f c (b :: bs) hfd hp.symm hn hc hrec hholds hopened (by simp)

theorem Fits.served (hfit : Fits recordOf names s g calls fd) (h : Tracked names s g)
    (hready : s.ready = fd :: rest) :
    ∃ t, handle recordOf s (.serve calls) = .ok t ∧
      Served names recordOf s g calls fd rest t (look recordOf g s (.serve calls) t) := by
  by_cases hfd : fd = s.servSock
  · subst hfd
    exact hfit.served_listening h hready
  · have hopen : fd ∈ s.openSocks := (h.ready fd (by simp [hready])).resolve_left hfd
    obtain ⟨n, hn⟩ := Option.isSome_iff_exists.mp ((h.current fd).mp hopen)
    obtain ⟨c, hc, -⟩ := h.sock fd n hn
    cases hrec : c.record with
    | none => exact hfit.served_header h hready hfd hn hc hrec
    | some p => exact hfit.served_data h hready hfd hn hc hrec

theorem Fits.served_of_step (hfit : Fits recordOf names s g calls fd) (h : Tracked names s g)
    (hready : s.ready = fd :: rest) (hrun : handle recordOf s (.serve calls) = .ok t) :
    Served names recordOf s g calls fd rest t (look recordOf g s (.serve calls) t) := by
  obtain ⟨t', hrun', hserved⟩ := hfit.served h hready
  rw [hrun, Except.ok.injEq] at hrun'
  exact hrun' ▸ hserved

theorem Tracked.step (h : Tracked names s g) {e : Event} (hocc : e.canOccur recordOf s)
    (hrun : handle recordOf s e = .ok t)
    (hfit : ∀ calls fd, e = .serve calls → s.ready.head? = some fd →
      Fits recordOf names s g calls fd) : Tracked names t (look recordOf g s e t) := by
  cases e with
  | wait ready =>
    simp only [handle, Except.ok.injEq] at hrun
    subst hrun
    exact h.wait hocc.2.1 hocc.2.2.2
  | serve calls =>
    obtain ⟨fd, rest, hready⟩ := List.exists_cons_of_ne_nil hocc.1
    have hserved := (hfit calls fd rfl (by simp [hready])).served_of_step h hready hrun
    exact hserved.tracked h hready hocc

theorem Tracked.start (names : List Byte → List Byte → Prop) (servSock : Int) :
    Tracked names (.start servSock) .start where
  nodup := .nil
  ready := by simp [State.start]
  servSock := by simp [State.start]
  current := by simp [State.start, Log.start]
  sock := by simp [Log.start]
  waiting := by simp [Log.start]
  started := by simp [Log.start]
  held := by simp [Log.start]
  free _ := .inl ⟨rfl, rfl, rfl⟩
  apart := by simp [Log.start]

end Step

section Executed

instance (calls : Calls) (r : ClntFile) : Decidable (calls.CanReturn r) :=
  decidable_of_iff ((∀ b ∈ calls.lenRead, b.length ≤ 4) ∧
    (∀ m ∈ calls.memory,
      0 ≤ (r.readLen calls).toInt ∧ (r.readLen calls).toNat ≤ m.length) ∧
    (∀ b ∈ calls.nameRead, b.length ≤ (r.readLen calls).toNat) ∧
    ∀ b ∈ calls.data, b.length ≤ bufSize)
    ⟨fun ⟨h₁, h₂, h₃, h₄⟩ => ⟨h₁, h₂, h₃, h₄⟩, fun ⟨h₁, h₂, h₃, h₄⟩ => ⟨h₁, h₂, h₃, h₄⟩⟩

instance (recordOf : Nat → Int → Int) (s : State) (e : Event) :
    Decidable (e.canOccur recordOf s) :=
  match e with
  | .wait ready => inferInstanceAs (Decidable (s.ready = [] ∧ ready.Nodup ∧
      ready.length ≤ epollSize ∧ ∀ fd ∈ ready, fd = s.servSock ∨ fd ∈ s.openSocks))
  | .serve calls => inferInstanceAs (Decidable (s.ready ≠ [] ∧
      (calls.accepted = -1 ∨ 0 ≤ calls.accepted ∧ calls.accepted ≠ s.servSock ∧
        calls.accepted ∉ s.openSocks) ∧
      ∀ fd ∈ s.ready.head?, ∀ r ∈ s.recordAt (recordOf s.i fd), calls.CanReturn r))

variable (recordOf : Nat → Int → Int) (ok : State × Log → Event → Prop)
  [∀ p e, Decidable (ok p e)]

def nextEvent (p : State × Log) (e : Event) : Option (Event × (State × Log)) :=
  if ok p e ∧ e.canOccur recordOf p.1 then
    match handle recordOf p.1 e with
    | .ok t => some (e, (t, look recordOf p.2 p.1 e t))
    | .error _ => none
  else none

theorem nextEvent_step (p : State × Log) (e l : Event) (q : State × Log)
    (h : nextEvent recordOf ok p e = some (l, q)) :
    l = e ∧ ((observed recordOf).restrict ok).step p l q := by
  unfold nextEvent at h
  split at h
  · rename_i hok
    cases hrun : handle recordOf p.1 e with
    | error f => simp [hrun] at h
    | ok t =>
      simp only [hrun, Option.some.injEq, Prod.mk.injEq] at h
      obtain ⟨rfl, rfl⟩ := h
      exact ⟨rfl, hok.1, ⟨hok.2, hrun⟩, rfl⟩
  · contradiction

theorem reachable_of_runsTo (servSock : Int) (test : State × Log → Bool) (events : List Event)
    (hserv : 0 ≤ servSock)
    (h : runsTo (nextEvent recordOf ok) test (.start servSock, .start) events = true) :
    ∃ p, Reachable ((observed recordOf).restrict ok) p ∧ test p = true := by
  obtain ⟨p, ls, -, hrun, htest⟩ := @run_of_runsTo _ _ _ _ id _ _ (nextEvent_step recordOf ok) _ _ h
  exact ⟨p, hrun.reachable (.init ⟨⟨servSock, rfl, hserv⟩, rfl⟩), htest⟩

end Executed

end FileUpload
