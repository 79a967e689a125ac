import IotLab.FileUpload.Streams
import IotLab.Library.FileSystem

set_option autoImplicit false

namespace FileUpload
open SlotTable HostMemory

abbrev Disk := FileSystem.Disk (List Byte) Byte

/-- The directory after the `fopen`s and `fwrite`s of a move. Streams of one name share a file,
which each `fopen` makes empty. -/
def Disk.after (d : Disk) (before after : List File) : Disk :=
  FileSystem.replay 0 File.name File.content d before after

/-- The room with the server's directory, which starts as `disk`. -/
def directory (count : Nat) (uploads : Nat → Upload) (disk : Disk) :
    Transitions.System (Room × Disk) Move :=
  (room count uploads).observe disk fun d r _ r' => d.after r.server.files r'.server.files

/-- No two of the first `count` clients upload under one name. -/
def NamesApart (count : Nat) (uploads : Nat → Upload) : Prop :=
  ∀ n < count, ∀ m < count, (uploads n).filename = (uploads m).filename → n = m

instance (count : Nat) (uploads : Nat → Upload) : Decidable (NamesApart count uploads) :=
  inferInstanceAs (Decidable (∀ n < count, ∀ m < count,
    (uploads n).filename = (uploads m).filename → n = m))

abbrev Stored (disk d : Disk) (r : Room) : Prop :=
  FileSystem.Holds File.name File.content disk d r.server.files

section Files
variable {count : Nat} {uploads : Nat → Upload} {disk d : Disk} {r r' : Room} {fd : Int}
  {n f : Nat} {c : Conn} {file : File}

theorem Tidy.name_of (h : Tidy count uploads r) (hc : r.log.conns[n]? = some c)
    (hopened : c.opened = [f]) (hfile : r.server.files[f]? = some file) :
    n < count ∧ file.name = (uploads n).filename := by
  have hlt := (List.getElem?_eq_some_iff.mp hc).1
  have hrec := h.recorded hc hopened
  obtain ⟨file', hup, hname, -⟩ := h.uploaded hc hrec
  obtain rfl := Room.Uploaded.unique ⟨c, f, hc, hopened, hfile⟩ hup
  exact ⟨Nat.lt_of_lt_of_le hlt (h.accepted.trans h.counted), hname⟩

theorem Tidy.names_nodup (h : Tidy count uploads r) (hnames : NamesApart count uploads) :
    (r.server.files.map File.name).Nodup := by
  refine List.pairwise_iff_getElem.mpr fun i j hi hj hij heq => ?_
  rw [List.length_map] at hi hj
  rw [List.getElem_map, List.getElem_map] at heq
  obtain ⟨n, c, hc, hopened⟩ := h.known i hi
  obtain ⟨m, c', hc', hopened'⟩ := h.known j hj
  obtain ⟨hn, hname⟩ := h.name_of hc hopened (List.getElem?_eq_getElem hi)
  obtain ⟨hm, hname'⟩ := h.name_of hc' hopened' (List.getElem?_eq_getElem hj)
  obtain rfl := hnames n hn m hm (hname ▸ hname' ▸ heq)
  obtain rfl := Option.some.inj (hc.symm.trans hc')
  rw [hopened, List.cons.injEq] at hopened'
  omega

/-- What a round does to the directory: nothing, an `fopen`, or an `fwrite` at the end of the
file that the stream opened. -/
theorem Round.stored (hround : Round r fd r') (h : Tidy count uploads r)
    (h' : Tidy count uploads r') (hnames : NamesApart count uploads) (hd : Stored disk d r) :
    Stored disk (d.after r.server.files r'.server.files) r' := by
  have hbefore := h.names_nodup hnames
  have hafter := h'.names_nodup hnames
  cases hround with
  | accepted fd' hfd hlt hnew hlog hsent hfiles hopen =>
    rw [Stored, Disk.after, hfiles, FileSystem.replay_self]
    exact hd
  | header n c bytes name hn hc hrec hne hbytes hlog hsent hfiles hopen =>
    rw [hfiles] at hafter
    rw [Stored, Disk.after, hfiles]
    exact hd.opened rfl hafter
  | data n f c bytes hn hc hopened hne hbytes hlog hsent hfiles hopen =>
    obtain ⟨file, hfile⟩ := h.opened_file hc hopened
    rw [Stored, Disk.after, hfiles]
    exact hd.grown (fun _ => rfl) (fun _ => rfl) hfile hbefore
  | closed n f c hn hc hopened hleft hnone hlog hsent hfiles hopen =>
    obtain ⟨file, hfile⟩ := h.opened_file hc hopened
    rw [Stored, Disk.after, hfiles]
    exact hd.grown (fun _ => rfl) (fun _ => (List.append_nil _).symm) hfile hbefore

theorem Stored.step (hd : Stored disk d r) (h : Tidy count uploads r)
    (hnames : NamesApart count uploads) {m : Move} (hm : Moves count r m r') :
    Stored disk (d.after r.server.files r'.server.files) r' := by
  have hsame : d.after r.server.files r.server.files = d := FileSystem.replay_self
  have h' := h.step hm
  cases hm with
  | connect hlt => exact hsame.symm ▸ hd
  | act hn hleft => exact hsame.symm ▸ hd
  | wait hocc hready => exact hsame.symm ▸ hd
  | serve hready hocc hallow hrun =>
    exact (h.round hready hocc hallow hrun).1.stored h h' hnames hd

theorem stored_of_reachable (hnames : NamesApart count uploads) {p : Room × Disk}
    (h : Transitions.Reachable (directory count uploads disk) p) :
    Tidy count uploads p.1 ∧ Stored disk p.2 p.1 := by
  refine h.invariant (I := fun p => Tidy count uploads p.1 ∧ Stored disk p.2 p.1) ?_ ?_
  · rintro ⟨r, d⟩ ⟨⟨servSock, -, rfl⟩, rfl⟩
    exact ⟨.start count uploads servSock, by simp [Room.start, State.start], fun n _ => rfl⟩
  · rintro ⟨r, d⟩ m ⟨r', d'⟩ - ⟨htidy, hd⟩ ⟨hstep, hlook⟩
    have hm := next_moves hstep
    exact ⟨htidy.step hm, hlook ▸ hd.step htidy hnames hm⟩

theorem Stored.arriving (hd : Stored disk d r) (h : Tidy count uploads r)
    (hc : r.log.conns[n]? = some c) (hrec : c.record ≠ none) :
    ∃ file, r.Uploaded n file ∧ d (uploads n).filename = some file.content ∧
      file.content <+: (uploads n).content := by
  obtain ⟨file, hup, hname, hcontent⟩ := h.uploaded hc hrec
  obtain ⟨c', f, -, -, hfile⟩ := id hup
  exact ⟨file, hup, hname ▸ hd.held file (List.mem_of_getElem? hfile),
    hcontent ▸ List.prefix_append _ _⟩

theorem Stored.whole (hd : Stored disk d r) (h : Tidy count uploads r) (hfin : r.Finished n) :
    d (uploads n).filename = some (uploads n).content := by
  obtain ⟨c, f, -, -, hfile⟩ := h.whole hfin
  exact hd.held _ (List.mem_of_getElem? hfile)

theorem Stored.untouched (hd : Stored disk d r) (h : Tidy count uploads r) {name : List Byte}
    (hname : ∀ n c, r.log.conns[n]? = some c → c.record ≠ none → (uploads n).filename ≠ name) :
    d name = disk name := by
  refine hd.other name fun file hmem => ?_
  obtain ⟨f, hfile⟩ := List.mem_iff_getElem?.mp hmem
  obtain ⟨n, c, hc, hopened⟩ := h.known f (List.getElem?_eq_some_iff.mp hfile).1
  have hrec := h.recorded hc hopened
  rw [(h.name_of hc hopened hfile).2]
  exact hname n c hc hrec

end Files

end FileUpload
