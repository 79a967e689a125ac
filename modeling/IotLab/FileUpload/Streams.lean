import IotLab.FileUpload.Room
import Mathlib.Data.List.TakeWhile

set_option autoImplicit false

namespace FileUpload
open SlotTable HostMemory

abbrev Named (sent name : List Byte) : Prop := name = sentName sent

def Log.bytes (g : Log) (n : Nat) : List Byte := (g.conns[n]?.map (·.bytes)).getD []

inductive Moves (count : Nat) (r : Room) : Move → Room → Prop where
  | connect (hlt : r.connected < count) :
      Moves count r .connect { r with connected := r.connected + 1 }
  | act {n : Nat} {ws : List (List Byte)} (hn : n < r.connected) (hleft : r.left n = some ws) :
      Moves count r (.act n) (r.afterAct n ws)
  | wait {ready : List Int} (hocc : (Event.wait ready).canOccur byDescriptor r.server)
      (hready : ∀ fd ∈ ready, r.Ready fd) :
      Moves count r (.serve (.wait ready))
        { r with server := { r.server with ready := ready, i := 0 } }
  | serve {calls : Calls} {t : State} {fd : Int} {rest : List Int}
      (hready : r.server.ready = fd :: rest)
      (hocc : (Event.serve calls).canOccur byDescriptor r.server)
      (hallow : r.Allows (.serve calls))
      (hrun : handle byDescriptor r.server (.serve calls) = .ok t) :
      Moves count r (.serve (.serve calls)) (r.after (.serve calls) t)

theorem next_moves {count : Nat} {r r' : Room} {m : Move} (h : r.next count m = some r') :
    Moves count r m r' := by
  cases m with
  | connect =>
    simp only [Room.next, Option.ite_none_right_eq_some, Option.some.injEq] at h
    obtain ⟨hlt, rfl⟩ := h
    exact .connect hlt
  | act n =>
    simp only [Room.next, Option.ite_none_right_eq_some, Option.map_eq_some_iff] at h
    obtain ⟨hn, ws, hleft, rfl⟩ := h
    exact .act hn hleft
  | serve e =>
    simp only [Room.next, Option.ite_none_right_eq_some, Option.map_eq_some_iff] at h
    obtain ⟨⟨hocc, hallow⟩, t, hrun, rfl⟩ := h
    rw [Fallible.toOption_eq_some] at hrun
    cases e with
    | wait ready =>
      cases hrun
      exact .wait hocc hallow
    | serve calls =>
      obtain ⟨fd, rest, hready⟩ := List.exists_cons_of_ne_nil hocc.1
      exact .serve hready hocc hallow hrun

theorem moves_next {count : Nat} {r r' : Room} {m : Move} (h : Moves count r m r') :
    r.next count m = some r' := by
  cases h with
  | connect hlt => exact if_pos hlt
  | act hn hleft => rw [Room.next, if_pos hn, hleft, Option.map_some]
  | wait hocc hready =>
    rw [Room.next, if_pos ⟨hocc, hready⟩]
    rfl
  | serve hready hocc hallow hrun =>
    rw [Room.next, if_pos ⟨hocc, hallow⟩, hrun]
    rfl

section Bytes
variable {g : Log} {s t : State} {calls : Calls} {fd : Int} {rest : List Int} {n m : Nat} {c : Conn}

theorem bytes_of (hc : g.conns[n]? = some c) : g.bytes n = c.bytes := by
  simp [Log.bytes, hc]

theorem bytes_accept : (g.accept fd).bytes n = g.bytes n := by
  simp only [Log.bytes, Log.accept, List.getElem?_append]
  split
  · rfl
  · have hnone : g.conns[n]? = none := List.getElem?_eq_none (Nat.le_of_not_lt ‹_›)
    rw [hnone]
    cases n - g.conns.length <;> rfl

theorem bytes_read {k : Int} {bytes : List Byte} {opened : List Nat} (hc : g.conns[n]? = some c) :
    (g.read n k bytes opened).bytes m = if n = m then g.bytes m ++ bytes else g.bytes m := by
  by_cases hnm : n = m
  · subst hnm
    rw [bytes_of (read_conns_self hc), if_pos rfl, bytes_of hc]
    rfl
  · rw [if_neg hnm]
    simp [Log.bytes, Log.read, hnm]

theorem bytes_look (hready : s.ready = fd :: rest) (hfd : fd ≠ s.servSock)
    (hn : g.current fd = some n) (hc : g.conns[n]? = some c) :
    (look byDescriptor g s (.serve calls) t).bytes m =
      if n = m then g.bytes m ++ ((s.recordAt fd).map (bytesRead calls)).getD []
      else g.bytes m := by
  simp only [look, hready, if_neg hfd, hn, Option.elim, lookClient, byDescriptor]
  split
  · exact bytes_read hc
  · exact bytes_read hc

theorem bytes_look_listening (hready : s.ready = s.servSock :: rest) :
    (look byDescriptor g s (.serve calls) t).bytes m = g.bytes m := by
  simp only [look, hready, if_true]
  split
  · rfl
  · exact bytes_accept

end Bytes

/-- The bytes of a client, wherever they are. -/
def Room.stream (r : Room) (n : Nat) : List Byte :=
  r.log.bytes n ++ (r.sent n ++ ((r.left n).getD []).flatten)

structure Tidy (count : Nat) (uploads : Nat → Upload) (r : Room) : Prop where
  tracked : Tracked Named r.server r.log
  owned : Owned r.server r.log
  accepted : r.log.conns.length ≤ r.connected
  counted : r.connected ≤ count
  stream : ∀ n, r.stream n = (uploads n).writes.flatten
  pending : ∀ fd ∈ r.server.ready, r.Ready fd
  ended : ∀ n, r.Finished n → r.left n = none ∧ r.sent n = []
  shut : ∀ n, r.Finished n → ∃ file, r.Uploaded n file ∧ file.isOpen = false
  known : ∀ f < r.server.files.length, ∃ (n : Nat) (c : Conn),
    r.log.conns[n]? = some c ∧ c.opened = [f]

section Rounds
variable {count : Nat} {uploads : Nat → Upload} {r : Room} {calls : Calls} {fd : Int}
  {rest : List Int} {n : Nat} {c : Conn} {t : State}

theorem Tidy.fits (h : Tidy count uploads r)
    (hocc : (Event.serve calls).canOccur byDescriptor r.server)
    (hallow : r.Allows (.serve calls)) (hfd : r.server.ready.head? = some fd) :
    Fits byDescriptor Named r.server r.log calls fd where
  accept hsock := by
    have hacc := hallow fd hfd
    rw [if_pos hsock] at hacc
    obtain ⟨-, hpos, hlt⟩ := hacc
    have hclosed := (hocc.2.1.resolve_left (by omega)).2.2
    obtain ⟨k, hk⟩ : ∃ k : Fin maxUser, (k : Int) = calls.accepted :=
      ⟨⟨calls.accepted.toNat, by omega⟩, by simp [hpos]⟩
    refine ⟨r.server.clntArray k, ?_, (h.owned.idle h.tracked (hk ▸ hclosed)).2.2⟩
    simp only [byDescriptor, ← hk]
    exact r.server.recordAt_coe k
  header hsock c hc hrec := by
    obtain ⟨n, hn, hconn⟩ := Log.on_eq_some.mp hc
    have hreads := hallow fd hfd
    rw [if_neg hsock] at hreads
    have hheader := (hreads n hn).2 c hconn
    rw [if_pos hrec] at hheader
    exact ⟨_, h.owned.fresh fd c hc hrec, rfl, hheader.1.whole_of_nameEnds hheader.2⟩
  data hsock c hc p hp := by
    obtain ⟨n, hn, hconn⟩ := Log.on_eq_some.mp hc
    have hreads := hallow fd hfd
    rw [if_neg hsock] at hreads
    have hdata := (hreads n hn).2 c hconn
    rw [if_neg (by simp [Option.mem_def.mp hp])] at hdata
    exact ⟨(h.owned.own fd c p hc hp).symm, hdata.1⟩

theorem caller_of (hready : r.server.ready = fd :: rest) : r.caller = r.log.current fd := by
  simp [Room.caller, hready]

theorem takes_of (hready : r.server.ready = fd :: rest) :
    r.takes calls = ((r.server.recordAt fd).map (bytesRead calls)).getD [] := by
  simp [Room.takes, hready]

theorem Tidy.listening (h : Tidy count uploads r) : r.log.current r.server.servSock = none := by
  have hnot := fun hsome => h.tracked.servSock ((h.tracked.current _).mpr hsome)
  simpa using hnot

theorem Tidy.client (h : Tidy count uploads r) (hready : r.server.ready = fd :: rest)
    (hfd : fd ≠ r.server.servSock) : ∃ n c, r.log.current fd = some n ∧
      r.log.conns[n]? = some c := by
  have hopen := (h.tracked.ready fd (by simp [hready])).resolve_left hfd
  obtain ⟨n, hn⟩ := Option.isSome_iff_exists.mp ((h.tracked.current fd).mp hopen)
  obtain ⟨c, hc, -⟩ := h.tracked.sock fd n hn
  exact ⟨n, c, hn, hc⟩

theorem Tidy.stream_after (h : Tidy count uploads r) (hready : r.server.ready = fd :: rest)
    (hallow : r.Allows (.serve calls)) (m : Nat) :
    (r.after (.serve calls) t).stream m = r.stream m := by
  simp only [Room.stream, Room.after, caller_of hready]
  by_cases hfd : fd = r.server.servSock
  · subst hfd
    rw [bytes_look_listening hready, h.listening, if_neg (by simp)]
  · obtain ⟨n, c, hn, hc⟩ := h.client hready hfd
    have hreads := hallow fd (by simp [hready])
    rw [if_neg hfd] at hreads
    obtain ⟨rest', hsent⟩ := (hreads n hn).1
    rw [bytes_look hready hfd hn hc, ← takes_of hready, hn]
    by_cases hnm : n = m
    · subst hnm
      rw [if_pos rfl, if_pos rfl, ← hsent, List.drop_left]
      simp only [List.append_assoc]
    · rw [if_neg hnm, if_neg (by simp [hnm])]

theorem takes_eq (more : List Byte) (hready : r.server.ready = fd :: rest)
    (hfd : fd ≠ r.server.servSock) (hn : r.log.current fd = some n) (hc : r.log.conns[n]? = some c)
    (hmore : (r.after (.serve calls) t).log.bytes n = c.bytes ++ more) : r.takes calls = more := by
  rw [Room.after, bytes_look hready hfd hn hc, if_pos rfl, bytes_of hc, ← takes_of hready] at hmore
  exact List.append_cancel_left hmore

end Rounds

/-- What the room sees of a round: a client is accepted; a header is read, or data, and is in the
client's file; a connection that has come to its end is closed. -/
inductive Round (r : Room) (fd : Int) (r' : Room) : Prop where
  | accepted (fd' : Int) (hfd : fd = r.server.servSock)
      (hlt : r.log.conns.length < r.connected) (hnew : r.log.current fd' = none)
      (hlog : r'.log = r.log.accept fd') (hsent : r'.sent = r.sent)
      (hfiles : r'.server.files = r.server.files)
      (hopen : r'.server.openSocks = fd' :: r.server.openSocks)
  | header (n : Nat) (c : Conn) (bytes name : List Byte)
      (hn : r.log.current fd = some n) (hc : r.log.conns[n]? = some c) (hrec : c.record = none)
      (hne : bytes ≠ []) (hbytes : bytes <+: r.sent n)
      (hlog : r'.log = r.log.read n fd bytes [r.server.files.length])
      (hsent : r'.sent = Function.update r.sent n ((r.sent n).drop bytes.length))
      (hfiles : r'.server.files = r.server.files ++ [⟨name, [], true⟩])
      (hopen : r'.server.openSocks = r.server.openSocks)
  | data (n f : Nat) (c : Conn) (bytes : List Byte) (hn : r.log.current fd = some n)
      (hc : r.log.conns[n]? = some c) (hopened : c.opened = [f]) (hne : bytes ≠ [])
      (hbytes : bytes <+: r.sent n) (hlog : r'.log = r.log.read n fd bytes [])
      (hsent : r'.sent = Function.update r.sent n ((r.sent n).drop bytes.length))
      (hfiles : r'.server.files =
        r.server.files.modify f fun file => { file with content := file.content ++ bytes })
      (hopen : r'.server.openSocks = r.server.openSocks)
  | closed (n f : Nat) (c : Conn) (hn : r.log.current fd = some n)
      (hc : r.log.conns[n]? = some c) (hopened : c.opened = [f]) (hleft : r.left n = none)
      (hnone : r.sent n = []) (hlog : r'.log = r.log.close fd) (hsent : r'.sent = r.sent)
      (hfiles : r'.server.files =
        r.server.files.modify f fun file => { file with isOpen := false })
      (hopen : r'.server.openSocks = r.server.openSocks.filter (· ≠ fd))

section Seen
variable {count : Nat} {uploads : Nat → Upload} {r r' : Room} {calls : Calls} {fd : Int}
  {rest : List Int} {n : Nat} {c : Conn} {t : State}

theorem sent_after (calls : Calls) (t : State) (hready : r.server.ready = fd :: rest)
    (hn : r.log.current fd = some n) :
    (r.after (.serve calls) t).sent =
      Function.update r.sent n ((r.sent n).drop (r.takes calls).length) := by
  funext m
  simp only [Room.after, caller_of hready, hn, Option.some.injEq]
  by_cases hnm : n = m
  · subst hnm
    rw [if_pos rfl, Function.update_self]
  · rw [if_neg hnm, Function.update_of_ne (Ne.symm hnm)]

theorem Tidy.round (h : Tidy count uploads r) (hready : r.server.ready = fd :: rest)
    (hocc : (Event.serve calls).canOccur byDescriptor r.server)
    (hallow : r.Allows (.serve calls))
    (hrun : handle byDescriptor r.server (.serve calls) = .ok t) :
    Round r fd (r.after (.serve calls) t) ∧ t.ready = rest ∧
      t.servSock = r.server.servSock := by
  have hhead : r.server.ready.head? = some fd := by rw [hready]; rfl
  have hserved := (h.fits hocc hallow hhead).served_of_step h.tracked hready hrun
  have hallowed := hallow fd hhead
  generalize hg : look byDescriptor r.log r.server (.serve calls) t = g' at hserved
  have hlog : (r.after (.serve calls) t).log = g' := hg
  cases hserved with
  | refused k hfd hk hidle hacc =>
    rw [if_pos hfd] at hallowed
    have hpos := hallowed.2.1
    omega
  | accepted k hfd hk hidle hacc =>
    rw [if_pos hfd] at hallowed
    have hclosed := (hocc.2.1.resolve_left hacc).2.2
    have hnew : r.log.current calls.accepted = none := by
      have hnot := fun hsome => hclosed ((h.tracked.current calls.accepted).mpr hsome)
      simpa using hnot
    have hsent (u : State) : (r.after (.serve calls) u).sent = r.sent := by
      funext m
      simp [Room.after, caller_of hready, hfd, h.listening]
    exact ⟨.accepted calls.accepted hfd hallowed.1 hnew hlog (hsent _) rfl rfl, rfl, rfl⟩
  | header k n c name hfd hk hn hc hrec hflag hwhole hname =>
    rw [if_neg hfd] at hallowed
    obtain rfl : (k : Int) = fd := hk
    have htakes := takes_eq _ hready hfd hn hc (by rw [hlog, bytes_of (read_conns_self hc)]; rfl)
    have hsent (u : State) := sent_after calls u hready hn
    rw [htakes] at hsent
    refine ⟨.header n c _ name hn hc hrec ?_ (htakes ▸ (hallowed n hn).1) hlog
      (hsent _) rfl rfl, rfl, rfl⟩
    refine List.ne_nil_of_length_pos ?_
    rw [List.length_append, hwhole.lenRead]
    omega
  | data k n f c buf hfd hk hn hc hrec hholds hopened hbuf =>
    rw [if_neg hfd] at hallowed
    obtain rfl : (k : Int) = fd := hk
    have htakes := takes_eq _ hready hfd hn hc (by rw [hlog, bytes_of (read_conns_self hc)]; rfl)
    have hsent (u : State) := sent_after calls u hready hn
    rw [htakes] at hsent
    exact ⟨.data n f c buf hn hc hopened hbuf (htakes ▸ (hallowed n hn).1) hlog (hsent _) rfl rfl,
      rfl, rfl⟩
  | closed k n f c hfd hk hn hc hrec hholds hopened =>
    rw [if_neg hfd] at hallowed
    obtain rfl : (k : Int) = fd := hk
    have htakes := takes_eq [] hready hfd hn hc (by
      rw [hlog]
      exact (bytes_of hc).trans (List.append_nil _).symm)
    have hsent (u : State) := sent_after calls u hready hn
    rw [htakes] at hsent
    have hreads := (hallowed n hn).2 c hc
    rw [if_neg (by simp [hrec])] at hreads
    obtain ⟨hnone, hleft⟩ := hreads.2 htakes
    refine ⟨.closed n f c hn hc hopened hleft hnone hlog ((hsent _).trans ?_) rfl rfl, rfl, rfl⟩
    simp

end Seen

section Steps
variable {count : Nat} {uploads : Nat → Upload} {r r' : Room} {fd : Int} {n m : Nat} {c : Conn}
  {file : File}

theorem Round.current_of_ne (hround : Round r fd r') {fd' : Int} (hne : fd' ≠ fd)
    (hn : r.log.current fd' = some n) : r'.log.current fd' = some n := by
  cases hround with
  | accepted fd'' hfd hlt hnew hlog hsent hfiles hopen =>
    have hother : fd' ≠ fd'' := by
      rintro rfl
      simp [hnew] at hn
    rw [hlog]
    exact (Function.update_of_ne hother _ _).trans hn
  | header k c bytes name hk hc hrec hempty hbytes hlog hsent hfiles hopen =>
    rw [hlog]
    exact hn
  | data k f c bytes hk hc hopened hempty hbytes hlog hsent hfiles hopen =>
    rw [hlog]
    exact hn
  | closed k f c hk hc hopened hleft hnone hlog hsent hfiles hopen =>
    rw [hlog]
    exact (Function.update_of_ne hne _ _).trans hn

theorem Round.sent_of_ne (hround : Round r fd r') (hm : r.log.current fd ≠ some m) :
    r'.sent m = r.sent m := by
  cases hround with
  | accepted fd' hfd hlt hnew hlog hsent hfiles hopen => rw [hsent]
  | header n c bytes name hn hc hrec hempty hbytes hlog hsent hfiles hopen =>
    rw [hsent, Function.update_of_ne]
    rintro rfl
    exact hm hn
  | data n f c bytes hn hc hopened hempty hbytes hlog hsent hfiles hopen =>
    rw [hsent, Function.update_of_ne]
    rintro rfl
    exact hm hn
  | closed n f c hn hc hopened hleft hnone hlog hsent hfiles hopen => rw [hsent]

theorem Round.conns_length (hround : Round r fd r') (hfd : fd ≠ r.server.servSock) :
    r'.log.conns.length = r.log.conns.length := by
  cases hround with
  | accepted fd' hfd' => exact absurd hfd' hfd
  | header n c bytes name hn hc hrec hempty hbytes hlog => simp [hlog, Log.read]
  | data n f c bytes hn hc hopened hempty hbytes hlog => simp [hlog, Log.read]
  | closed n f c hn hc hopened hleft hnone hlog => rw [hlog]; rfl

theorem Round.finished (hround : Round r fd r') (hfin : r'.Finished m) :
    r.Finished m ∨ r.log.current fd = some m ∧ r.left m = none ∧ r.sent m = [] := by
  obtain ⟨hlt, hnot⟩ := hfin
  cases hround with
  | accepted fd' hfd hroom hnew hlog hsent hfiles hopen =>
    rw [hlog] at hlt hnot
    have hne : m ≠ r.log.conns.length := by
      rintro rfl
      exact hnot fd' (Function.update_self ..)
    have hlen : m < r.log.conns.length + 1 := by simpa [Log.accept] using hlt
    refine .inl ⟨by omega, fun fd'' hcur => hnot fd'' ?_⟩
    have hother : fd'' ≠ fd' := by
      rintro rfl
      simp [hnew] at hcur
    exact (Function.update_of_ne hother _ _).trans hcur
  | header n c bytes name hn hc hrec hempty hbytes hlog hsent hfiles hopen =>
    rw [hlog] at hlt hnot
    exact .inl ⟨by simpa [Log.read] using hlt, hnot⟩
  | data n f c bytes hn hc hopened hempty hbytes hlog hsent hfiles hopen =>
    rw [hlog] at hlt hnot
    exact .inl ⟨by simpa [Log.read] using hlt, hnot⟩
  | closed n f c hn hc hopened hleft hnone hlog hsent hfiles hopen =>
    rw [hlog] at hlt hnot
    by_cases hnm : n = m
    · subst hnm
      exact .inr ⟨hn, hleft, hnone⟩
    · refine .inl ⟨hlt, fun fd' hcur => hnot fd' ?_⟩
      have hother : fd' ≠ fd := by
        rintro rfl
        rw [hn, Option.some.injEq] at hcur
        exact hnm hcur
      exact (Function.update_of_ne hother _ _).trans hcur

theorem Round.opened (hround : Round r fd r') (h : Tidy count uploads r)
    (hc : r.log.conns[m]? = some c) {f : Nat} (hopened : c.opened = [f])
    (hf : r.server.files[f]? = some file) :
    ∃ c' file', r'.log.conns[m]? = some c' ∧ c'.opened = [f] ∧
      r'.server.files[f]? = some file' ∧ (file.isOpen = false → file'.isOpen = false) := by
  cases hround with
  | accepted fd' hfd hlt hnew hlog hsent hfiles hopen =>
    refine ⟨c, file, ?_, hopened, by rw [hfiles, hf], id⟩
    rw [hlog]
    exact accept_conns.mpr (.inl hc)
  | header n c' bytes name hn hc' hrec hempty hbytes hlog hsent hfiles hopen =>
    have hne : n ≠ m := by
      rintro rfl
      obtain rfl := Option.some.inj (hc.symm.trans hc')
      simp [(h.tracked.waiting n c hc hrec).2] at hopened
    refine ⟨c, file, ?_, hopened, ?_, id⟩
    · rw [hlog]
      exact read_conns_of_ne hne hc
    · rw [hfiles, List.getElem?_append_left (List.getElem?_eq_some_iff.mp hf).1, hf]
  | data n f' c' bytes hn hc' hopened' hempty hbytes hlog hsent hfiles hopen =>
    refine ⟨if n = m then c.read fd bytes [] else c,
      if f' = f then { file with content := file.content ++ bytes } else file, ?_, ?_, ?_, ?_⟩
    · rw [hlog]
      exact read_conns.mpr ⟨c, hc, rfl⟩
    · split
      · simp [Conn.read, hopened]
      · exact hopened
    · rw [hfiles, List.getElem?_modify, hf]
      rfl
    · split <;> exact id
  | closed n f' c' hn hc' hopened' hleft hnone hlog hsent hfiles hopen =>
    refine ⟨c, if f' = f then { file with isOpen := false } else file, ?_, hopened, ?_, ?_⟩
    · rw [hlog]
      exact hc
    · rw [hfiles, List.getElem?_modify, hf]
      rfl
    · split
      · exact fun _ => rfl
      · exact id

/-- A connection that has opened a file has read its header. -/
theorem Tidy.recorded (h : Tidy count uploads r) {f : Nat} (hc : r.log.conns[n]? = some c)
    (hopened : c.opened = [f]) : c.record ≠ none := by
  intro hrec
  simp [(h.tracked.waiting n c hc hrec).2] at hopened

theorem Tidy.opened_file (h : Tidy count uploads r) {f : Nat} (hc : r.log.conns[n]? = some c)
    (hopened : c.opened = [f]) : ∃ file, r.server.files[f]? = some file := by
  have hrec := h.recorded hc hopened
  obtain ⟨f', hopened', -, -, file, -, hfile, -⟩ := h.tracked.started n c hc hrec
  rw [hopened, List.cons.injEq] at hopened'
  exact ⟨file, hopened'.1 ▸ hfile⟩

theorem Round.shut (hround : Round r fd r') (h : Tidy count uploads r) (hfin : r'.Finished m) :
    ∃ file, r'.Uploaded m file ∧ file.isOpen = false := by
  by_cases hbefore : r.Finished m
  · obtain ⟨file, ⟨c, f, hc, hopened, hfile⟩, hshut⟩ := h.shut m hbefore
    obtain ⟨c', file', hc', hopened', hfile', hkeep⟩ := hround.opened h hc hopened hfile
    exact ⟨file', ⟨c', f, hc', hopened', hfile'⟩, hkeep hshut⟩
  · have hcur := ((hround.finished hfin).resolve_left hbefore).1
    cases hround with
    | accepted fd' hfd hlt hnew hlog hsent hfiles hopen =>
      rw [hfd, h.listening] at hcur
      contradiction
    | header n c bytes name hn hc hrec hempty hbytes hlog hsent hfiles hopen =>
      exact absurd (hlog ▸ hcur) (hfin.2 fd)
    | data n f c bytes hn hc hopened hempty hbytes hlog hsent hfiles hopen =>
      exact absurd (hlog ▸ hcur) (hfin.2 fd)
    | closed n f c hn hc hopened hleft hnone hlog hsent hfiles hopen =>
      obtain rfl := Option.some.inj (hn.symm.trans hcur)
      obtain ⟨file, hfile⟩ := h.opened_file hc hopened
      refine ⟨{ file with isOpen := false }, ⟨c, f, ?_, hopened, ?_⟩, rfl⟩
      · rw [hlog]
        exact hc
      · rw [hfiles, List.getElem?_modify, hfile]
        simp

theorem Round.known (hround : Round r fd r') (h : Tidy count uploads r) {f : Nat}
    (hf : f < r'.server.files.length) :
    ∃ (n : Nat) (c : Conn), r'.log.conns[n]? = some c ∧ c.opened = [f] := by
  by_cases hlt : f < r.server.files.length
  · obtain ⟨n, c, hc, hopened⟩ := h.known f hlt
    obtain ⟨file, hfile⟩ := h.opened_file hc hopened
    obtain ⟨c', -, hc', hopened', -⟩ := hround.opened h hc hopened hfile
    exact ⟨n, c', hc', hopened'⟩
  · cases hround with
    | accepted fd' hfd hroom hnew hlog hsent hfiles hopen =>
      rw [hfiles] at hf
      exact absurd hf hlt
    | header n c bytes name hn hc hrec hempty hbytes hlog hsent hfiles hopen =>
      have hnone := (h.tracked.waiting n c hc hrec).2
      rw [hfiles, List.length_append, List.length_singleton] at hf
      obtain rfl : f = r.server.files.length := by omega
      refine ⟨n, c.read fd bytes [r.server.files.length], ?_, ?_⟩
      · rw [hlog]
        exact read_conns_self hc
      · simp [Conn.read, hnone]
    | data n f' c bytes hn hc hopened hempty hbytes hlog hsent hfiles hopen =>
      rw [hfiles, List.length_modify] at hf
      exact absurd hf hlt
    | closed n f' c hn hc hopened hleft hnone hlog hsent hfiles hopen =>
      rw [hfiles, List.length_modify] at hf
      exact absurd hf hlt

theorem Tidy.act (h : Tidy count uploads r) {ws : List (List Byte)} (hleft : r.left n = some ws) :
    Tidy count uploads (r.afterAct n ws) := by
  have hgo (k : Nat) (hk : r.sent k ≠ [] ∨ r.left k = none) :
      (r.afterAct n ws).sent k ≠ [] ∨ (r.afterAct n ws).left k = none := by
    by_cases hkn : k = n
    · subst hkn
      refine .inl ?_
      have hne := hk.resolve_right (by simp [hleft])
      simp [Room.afterAct, hne]
    · simpa [Room.afterAct, hkn] using hk
  refine { h with stream := fun k => ?_, pending := fun fd hfd => ?_, ended := fun k hk => ?_ }
  · rw [← h.stream k]
    by_cases hkn : k = n
    · subst hkn
      cases ws <;> simp [Room.stream, Room.afterAct, hleft]
    · simp [Room.stream, Room.afterAct, hkn]
  · refine (h.pending fd hfd).imp_right ?_
    rintro ⟨k, hk, hready⟩
    exact ⟨k, hk, hgo k hready⟩
  · obtain ⟨hnone, hsent⟩ := h.ended k hk
    have hkn : k ≠ n := by
      rintro rfl
      simp [hleft] at hnone
    simp [Room.afterAct, hkn, hnone, hsent]

theorem Tidy.serve (h : Tidy count uploads r) {calls : Calls} {t : State} {rest : List Int}
    (hready : r.server.ready = fd :: rest)
    (hocc : (Event.serve calls).canOccur byDescriptor r.server)
    (hallow : r.Allows (.serve calls))
    (hrun : handle byDescriptor r.server (.serve calls) = .ok t) :
    Tidy count uploads (r.after (.serve calls) t) := by
  have hhead : r.server.ready.head? = some fd := by rw [hready]; rfl
  have hfits := h.fits hocc hallow hhead
  have hserved := hfits.served_of_step h.tracked hready hrun
  obtain ⟨hround, hrest, hserv⟩ := h.round hready hocc hallow hrun
  obtain ⟨hnot, -, -⟩ := h.tracked.ready_next hready
  refine ⟨hserved.tracked h.tracked hready hocc, h.owned.served h.tracked hserved, ?accepted,
    h.counted, fun n => (h.stream_after hready hallow n).trans (h.stream n), ?pending, ?ended,
    fun n => hround.shut h, fun f => hround.known h⟩
  case accepted =>
    by_cases hfd : fd = r.server.servSock
    · cases hround with
      | accepted fd' hfd' hlt hnew hlog hsent hfiles hopen =>
        have hlen : (r.log.accept fd').conns.length = r.log.conns.length + 1 := by
          simp [Log.accept]
        rw [hlog, hlen]
        exact hlt
      | header n c bytes name hn =>
        rw [hfd, h.listening] at hn
        contradiction
      | data n f c bytes hn =>
        rw [hfd, h.listening] at hn
        contradiction
      | closed n f c hn =>
        rw [hfd, h.listening] at hn
        contradiction
    · rw [hround.conns_length hfd]
      exact h.accepted
  case pending =>
    intro fd' hfd'
    have hmem : fd' ∈ rest := hrest ▸ hfd'
    have hne : fd' ≠ fd := fun heq => hnot (heq ▸ hmem)
    rcases h.pending fd' (by simp [hready, hmem]) with ⟨hserv', hlt⟩ | ⟨n, hn, hgo⟩
    · refine .inl ⟨hserv'.trans hserv.symm, ?_⟩
      rw [hround.conns_length (fun heq => hne (hserv'.trans heq.symm))]
      exact hlt
    · refine .inr ⟨n, hround.current_of_ne hne hn, ?_⟩
      rw [hround.sent_of_ne fun hcur => hne (h.tracked.current_inj hn hcur)]
      exact hgo
  case ended =>
    intro n hn
    obtain ⟨hleft, hsent⟩ : r.left n = none ∧ r.sent n = [] := by
      rcases hround.finished hn with hbefore | ⟨-, hend⟩
      · exact h.ended n hbefore
      · exact hend
    refine ⟨hleft, ?_⟩
    simp [Room.after, hsent]

theorem Tidy.start (count : Nat) (uploads : Nat → Upload) (servSock : Int) :
    Tidy count uploads (.start servSock uploads) where
  tracked := .start Named servSock
  owned := ⟨by simp [Room.start, Log.on, Log.start], by simp [Room.start, Log.on, Log.start]⟩
  accepted := by simp [Room.start, Log.start]
  counted := Nat.zero_le count
  stream n := by simp [Room.start, Room.stream, Log.bytes, Log.start]
  pending := by simp [Room.start, State.start]
  ended n hn := by simp [Room.start, Room.Finished, Log.start] at hn
  shut n hn := by simp [Room.start, Room.Finished, Log.start] at hn
  known f hf := by simp [Room.start, State.start] at hf

theorem Tidy.step (h : Tidy count uploads r) {m : Move} (hm : Moves count r m r') :
    Tidy count uploads r' := by
  cases hm with
  | connect hlt =>
    refine { h with accepted := Nat.le_succ_of_le h.accepted, counted := hlt, pending := ?_ }
    exact fun fd hfd => (h.pending fd hfd).imp_left fun hserv => ⟨hserv.1, by
      have := hserv.2
      exact Nat.lt_succ_of_lt this⟩
  | act hn hleft => exact h.act hleft
  | wait hocc hready =>
    refine { h with tracked := h.tracked.wait hocc.2.1 hocc.2.2.2, owned := ?_, pending := hready }
    exact ⟨h.owned.fresh, h.owned.own⟩
  | serve hready hocc hallow hrun => exact h.serve hready hocc hallow hrun

end Steps

section Files
variable {count : Nat} {uploads : Nat → Upload} {r : Room} {n : Nat} {c : Conn}

theorem Upload.word_length (u : Upload) :
    (word32 (bytes32 (BitVec.ofNat 32 u.filename.length))).toNat = u.filename.length := by
  have := u.length_lt
  rw [word32_bytes32, BitVec.toNat_ofNat]
  exact Nat.mod_eq_of_lt (by omega)

theorem Upload.parse_writes (u : Upload) :
    parse u.writes.flatten = some (u.filename, u.content) := by
  rw [Upload.writes, clientWrites_flatten, ← List.append_assoc]
  exact parse_append (parse_header (bytes32_length _) u.word_length.symm)

theorem Upload.sentName (u : Upload) : FileUpload.sentName u.filename = u.filename := by
  refine List.takeWhile_eq_self_iff.mpr fun b hb => decide_eq_true fun hzero => ?_
  subst hzero
  exact u.noNul hb

theorem Tidy.uploaded (h : Tidy count uploads r) (hc : r.log.conns[n]? = some c)
    (hrec : c.record ≠ none) : ∃ file, r.Uploaded n file ∧
      file.name = (uploads n).filename ∧
      file.content ++ (r.sent n ++ ((r.left n).getD []).flatten) = (uploads n).content := by
  obtain ⟨f, hopened, sent, data, file, hparse, hfile, hdata, hname⟩ :=
    h.tracked.started n c hc hrec
  have hstream := h.stream n
  rw [Room.stream, bytes_of hc] at hstream
  have hwhole := @parse_append _ _ _ (r.sent n ++ ((r.left n).getD []).flatten) hparse
  rw [hstream, Upload.parse_writes, Option.some.injEq, Prod.mk.injEq] at hwhole
  obtain ⟨hsent, hcontent⟩ := hwhole
  refine ⟨file, ⟨c, f, hc, hopened, hfile⟩, ?_, ?_⟩
  · rw [hname, ← hsent]
    exact (uploads n).sentName
  · rw [hdata, ← hcontent]

theorem Room.Uploaded.unique {file file' : File} (h : r.Uploaded n file)
    (h' : r.Uploaded n file') : file = file' := by
  obtain ⟨c, f, hc, hopened, hfile⟩ := h
  obtain ⟨c', f', hc', hopened', hfile'⟩ := h'
  obtain rfl := Option.some.inj (hc.symm.trans hc')
  obtain rfl := (List.cons.inj (hopened.symm.trans hopened')).1
  exact Option.some.inj (hfile.symm.trans hfile')

theorem Tidy.whole (h : Tidy count uploads r) (hfin : r.Finished n) :
    r.Uploaded n ⟨(uploads n).filename, (uploads n).content, false⟩ := by
  obtain ⟨⟨name, content, isOpen⟩, hup, hshut⟩ := h.shut n hfin
  obtain ⟨c, f, hc, hopened, hfile⟩ := hup
  have hrec := h.recorded hc hopened
  obtain ⟨file, hup', hname, hcontent⟩ := h.uploaded hc hrec
  obtain rfl := Room.Uploaded.unique ⟨c, f, hc, hopened, hfile⟩ hup'
  obtain ⟨hleft, hsent⟩ := h.ended n hfin
  simp only [hleft, hsent, Option.getD_none, List.flatten_nil, List.append_nil] at hcontent
  simp only at hname hshut
  rw [← hname, ← hcontent, ← hshut]
  exact ⟨c, f, hc, hopened, hfile⟩

end Files

end FileUpload
