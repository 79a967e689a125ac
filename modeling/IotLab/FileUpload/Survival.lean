import IotLab.Library.Fallible
import IotLab.FileUpload.Separation

set_option autoImplicit false

namespace FileUpload
open SlotTable HostMemory Transitions

def served (s : State) (fd : Int) (calls : Calls) : Int :=
  if fd = s.servSock then calls.accepted else fd

/-- A `read` that the handler makes fails or finds the connection closed; where nothing is asked
for, no bytes do not mean that. -/
def Ended (r : ClntFile) (calls : Calls) : Prop :=
  if r.flag then
    calls.lenRead.getD [] = [] ∨ calls.nameRead = none ∨
      (calls.nameRead = some [] ∧ r.readLen calls ≠ 0)
  else calls.data.getD [] = []

/-- The round has no fault, a connection that has ended is closed and its record zero, and the
other records are as they were. -/
def Withstands (s : State) (fd : Int) (calls : Calls) : Prop :=
  ∃ t, serve byDescriptor s fd calls = .ok t ∧
    (fd ≠ s.servSock → ∀ r ∈ s.recordAt fd, Ended r calls →
      fd ∉ t.openSocks ∧ t.recordAt fd = some .zero) ∧
    ∀ k : Fin maxUser, (k : Int) ≠ served s fd calls → t.clntArray k = s.clntArray k

/-- `accept` gives a descriptor below MAX_USER. In the header both `read`s give bytes, the name
unless its length is 0, `malloc` gives a block, and the name ends somewhere behind it. Behind the
header the file was opened, and the `read` does not fail. -/
def Harmless (s : State) (fd : Int) (calls : Calls) : Prop :=
  if fd = s.servSock then 0 ≤ calls.accepted ∧ calls.accepted < maxUser
  else ∀ r ∈ s.recordAt fd,
    if r.flag then ¬Ended r calls ∧ calls.memory ≠ none ∧ StringEnds calls
    else calls.data ≠ none ∧ r.fp ≠ none

/-- What holds in every state that is reached: the records of descriptors that are not open are
zero, and no file name is freed twice. -/
structure Kept (s : State) : Prop where
  zero : ∀ k : Fin maxUser, (k : Int) ∉ s.openSocks → s.clntArray k = .zero
  intact : ∀ k : Fin maxUser, (s.clntArray k).filename ≠ .dangling
  nodup : s.ready.Nodup
  ready : ∀ fd ∈ s.ready, fd = s.servSock ∨ fd ∈ s.openSocks
  range : ∀ fd ∈ s.openSocks, ∃ k : Fin maxUser, (k : Int) = fd

inductive RoundStep (s : State) (fd : Int) (calls : Calls) (t : State) : Prop
  | accepted (k : Fin maxUser) (hfd : fd = s.servSock) (hk : (k : Int) = calls.accepted)
      (ht : t = { s.setRecord k { ClntFile.zero with flag := true } with
        openSocks := (k : Int) :: s.openSocks })
  | header (k : Fin maxUser) (memory name : List Byte) (hfd : fd ≠ s.servSock)
      (hk : (k : Int) = fd) (hflag : (s.clntArray k).flag = true)
      (hmemory : calls.memory = some memory)
      (hname : stringAt (readOver memory calls.nameRead) = .ok name)
      (ht : t = { s.setRecord k ⟨false, (s.clntArray k).readLen calls, .block,
          if calls.opened then some s.files.length else none⟩ with
        files := if calls.opened then s.files ++ [⟨name, [], true⟩] else s.files })
  | data (k : Fin maxUser) (f : Nat) (b : Byte) (buf : List Byte) (hfd : fd ≠ s.servSock)
      (hk : (k : Int) = fd) (hflag : (s.clntArray k).flag = false)
      (hfp : (s.clntArray k).fp = some f) (hdata : calls.data = some (b :: buf))
      (ht : t = { s with files := s.files.modify f fun file =>
        { file with content := file.content ++ b :: buf } })
  | closed (k : Fin maxUser) (f : Nat) (hfd : fd ≠ s.servSock) (hk : (k : Int) = fd)
      (hflag : (s.clntArray k).flag = false) (hfp : (s.clntArray k).fp = some f)
      (hdata : calls.data = some [])
      (ht : t = { s.setRecord k .zero with
        openSocks := s.openSocks.filter (· ≠ fd)
        files := s.files.modify f fun file => { file with isOpen := false } })

section Round
variable {s t : State} {fd : Int} {calls : Calls} {k : Fin maxUser} {rest : List Int}

theorem Kept.start (servSock : Int) : Kept (.start servSock) where
  zero _ _ := rfl
  intact _ := by simp [State.start, ClntFile.zero]
  nodup := .nil
  ready := by simp [State.start]
  range := by simp [State.start]

theorem stream_eq_ok {r : ClntFile} {f : Nat} : stream r = .ok f ↔ r.fp = some f := by
  unfold stream
  cases r.fp <;> simp

theorem Kept.free (h : Kept s) (k : Fin maxUser) : (s.clntArray k).filename.free = .ok () := by
  have hintact := h.intact k
  cases hname : (s.clntArray k).filename with
  | dangling => exact absurd hname hintact
  | null => rfl
  | block => rfl

theorem acceptClient_eq (h : Kept s) (hclosed : (k : Int) ∉ s.openSocks) :
    acceptClient s k (k : Int) = .ok { s.setRecord k { ClntFile.zero with flag := true } with
      openSocks := (k : Int) :: s.openSocks } := by
  have hzero := h.zero k hclosed
  have hne : (k : Int) ≠ -1 := by omega
  simp [acceptClient, hzero, ClntFile.zero, Pointer.free, Pointer.afterFree, bind, Except.bind, hne]

theorem accept_step (h : Kept s) (hclosed : calls.accepted ∉ s.openSocks)
    (hrun : serve byDescriptor s s.servSock calls = .ok t) : RoundStep s s.servSock calls t := by
  rw [serve, if_pos rfl, Fallible.bind_eq_ok] at hrun
  obtain ⟨k, hk, hrun⟩ := hrun
  obtain hk : calls.accepted = k := index_eq_ok.mp hk
  rw [hk] at hrun hclosed
  rw [acceptClient_eq h hclosed] at hrun
  exact .accepted k rfl hk.symm (Except.ok.inj hrun).symm

theorem header_step (hfd : (k : Int) ≠ s.servSock) (hflag : (s.clntArray k).flag = true)
    (hrun : serve byDescriptor s k calls = .ok t) : RoundStep s k calls t := by
  rw [serve_client byDescriptor hfd rfl, if_pos hflag, readHeader] at hrun
  cases hmemory : calls.memory with
  | none =>
    rw [hmemory] at hrun
    contradiction
  | some memory =>
    rw [hmemory] at hrun
    obtain ⟨name, hname, ht⟩ := Fallible.bind_eq_ok.mp hrun
    exact .header k memory name hfd rfl hflag hmemory hname (Except.ok.inj ht).symm

theorem data_step (h : Kept s) (hfd : (k : Int) ≠ s.servSock)
    (hflag : (s.clntArray k).flag = false) (hrun : serve byDescriptor s k calls = .ok t) :
    RoundStep s k calls t := by
  rw [serve_client byDescriptor hfd rfl, if_neg (by simp [hflag])] at hrun
  match hdata : calls.data with
  | none =>
    rw [hdata] at hrun
    contradiction
  | some [] =>
    rw [hdata] at hrun
    obtain ⟨f, hf, hrun⟩ := Fallible.bind_eq_ok.mp hrun
    rw [h.free k] at hrun
    exact .closed k f hfd rfl hflag (stream_eq_ok.mp hf) hdata (Except.ok.inj hrun).symm
  | some (b :: buf) =>
    rw [hdata] at hrun
    obtain ⟨f, hf, hrun⟩ := Fallible.bind_eq_ok.mp hrun
    exact .data k f b buf hfd rfl hflag (stream_eq_ok.mp hf) hdata (Except.ok.inj hrun).symm

theorem RoundStep.serve_eq (hstep : RoundStep s fd calls t) (h : Kept s)
    (hclosed : calls.accepted ∉ s.openSocks) : serve byDescriptor s fd calls = .ok t := by
  cases hstep with
  | accepted k hfd hk ht =>
    rw [hfd, serve_listening byDescriptor hk, ← hk, acceptClient_eq h (hk ▸ hclosed), ht]
  | header k memory name hfd hk hflag hmemory hname ht =>
    subst hk
    rw [serve_client byDescriptor hfd rfl, if_pos hflag, readHeader, hmemory, ht]
    exact Fallible.bind_eq_ok.mpr ⟨name, hname, rfl⟩
  | data k f b buf hfd hk hflag hfp hdata ht =>
    subst hk
    rw [serve_client byDescriptor hfd rfl, if_neg (by simp [hflag]), hdata, ht]
    exact Fallible.bind_eq_ok.mpr ⟨f, stream_eq_ok.mpr hfp, rfl⟩
  | closed k f hfd hk hflag hfp hdata ht =>
    subst hk
    rw [serve_client byDescriptor hfd rfl, if_neg (by simp [hflag]), hdata, ht]
    refine Fallible.bind_eq_ok.mpr ⟨f, stream_eq_ok.mpr hfp, ?_⟩
    rw [h.free k]
    rfl

theorem Kept.client (h : Kept s) (hready : s.ready = fd :: rest) (hfd : fd ≠ s.servSock) :
    fd ∈ s.openSocks ∧ ∃ k : Fin maxUser, (k : Int) = fd := by
  have hopen := (h.ready fd (by rw [hready]; exact List.mem_cons_self)).resolve_left hfd
  exact ⟨hopen, h.range fd hopen⟩

theorem Kept.accepted_closed (h : Kept s) (hocc : (Event.serve calls).canOccur byDescriptor s) :
    calls.accepted ∉ s.openSocks := by
  rcases hocc.2.1 with hfailed | hfresh
  · intro hmem
    obtain ⟨k, hk⟩ := h.range _ hmem
    omega
  · exact hfresh.2.2

theorem Kept.serve_ok (h : Kept s) (hready : s.ready = fd :: rest)
    (hocc : (Event.serve calls).canOccur byDescriptor s) :
    serve byDescriptor s fd calls = .ok t ↔ RoundStep s fd calls t := by
  have hclosed := h.accepted_closed hocc
  refine ⟨fun hrun => ?_, fun hstep => hstep.serve_eq h hclosed⟩
  by_cases hfd : fd = s.servSock
  · subst hfd
    exact accept_step h hclosed hrun
  · obtain ⟨-, k, rfl⟩ := h.client hready hfd
    cases hflag : (s.clntArray k).flag with
    | true => exact header_step hfd hflag hrun
    | false => exact data_step h hfd hflag hrun

theorem Kept.setRecord_intact (h : Kept s) {r : ClntFile} (hr : r.filename ≠ .dangling)
    (k k' : Fin maxUser) : ((s.setRecord k r).clntArray k').filename ≠ .dangling := by
  by_cases hne : k' = k
  · subst hne
    rwa [State.setRecord_self]
  · rw [s.setRecord_of_ne k r hne]
    exact h.intact k'

theorem Kept.round (h : Kept s) (hready : s.ready = fd :: rest) (hstep : RoundStep s fd calls t) :
    Kept { t with ready := rest, i := s.i + 1 } := by
  have hnodup := List.nodup_cons.mp (hready ▸ h.nodup)
  have hrest : ∀ fd' ∈ rest, fd' = s.servSock ∨ fd' ∈ s.openSocks := fun fd' hfd' =>
    h.ready fd' (by rw [hready]; exact List.mem_cons_of_mem _ hfd')
  cases hstep with
  | accepted k hfd hk ht =>
    subst ht
    refine ⟨fun k' hk' => ?_, h.setRecord_intact (by simp [ClntFile.zero]) k, hnodup.2,
      fun fd' hfd' => ?_, ?_⟩
    · have hne : k' ≠ k := fun heq => hk' (heq ▸ List.mem_cons_self)
      exact (s.setRecord_of_ne k _ hne).trans
        (h.zero k' fun hmem => hk' (List.mem_cons_of_mem _ hmem))
    · exact (hrest fd' hfd').imp_right (List.mem_cons_of_mem _)
    · exact List.forall_mem_cons.mpr ⟨⟨k, rfl⟩, h.range⟩
  | header k memory name hfd hk hflag hmemory hname ht =>
    subst ht
    have hopen := (h.client hready hfd).1
    refine ⟨fun k' hk' => ?_, h.setRecord_intact (by simp) k, hnodup.2, hrest, h.range⟩
    have hne : k' ≠ k := by
      rintro rfl
      exact hk' (hk ▸ hopen)
    exact (s.setRecord_of_ne k _ hne).trans (h.zero k' hk')
  | data k f b buf hfd hk hflag hfp hdata ht =>
    subst ht
    exact ⟨h.zero, h.intact, hnodup.2, hrest, h.range⟩
  | closed k f hfd hk hflag hfp hdata ht =>
    subst ht
    refine ⟨fun k' hk' => ?_, h.setRecord_intact (by simp [ClntFile.zero]) k, hnodup.2,
      fun fd' hfd' => ?_, fun fd' hfd' => h.range fd' (List.mem_of_mem_filter hfd')⟩
    · change (s.setRecord k .zero).clntArray k' = .zero
      by_cases hne : k' = k
      · subst hne
        simp
      · rw [s.setRecord_of_ne k _ hne]
        refine h.zero k' fun hmem => hk' (List.mem_filter.mpr ⟨hmem, ?_⟩)
        simp only [decide_eq_true_eq, ← hk]
        exact fun heq => hne (Fin.ext (by omega))
    · refine (hrest fd' hfd').imp_right fun hmem => List.mem_filter.mpr ⟨hmem, ?_⟩
      simp only [decide_eq_true_eq]
      rintro rfl
      exact hnodup.1 hfd'

theorem Reachable.kept (h : Reachable (system byDescriptor) s) : Kept s := by
  refine h.invariant ?_ ?_
  · rintro s ⟨servSock, rfl, -⟩
    exact .start servSock
  · rintro s e t - hs ⟨hocc, hrun⟩
    cases e with
    | wait ready =>
      obtain rfl := Except.ok.inj hrun
      exact ⟨hs.zero, hs.intact, hocc.2.1, hocc.2.2.2, hs.range⟩
    | serve calls =>
      obtain ⟨fd, rest, hready⟩ := List.exists_cons_of_ne_nil hocc.1
      simp only [handle, hready] at hrun
      obtain ⟨u, hu, ht⟩ := Fallible.bind_eq_ok.mp hrun
      obtain rfl := Except.ok.inj ht
      exact hs.round hready ((hs.serve_ok hready hocc).mp hu)

end Round

section Harmless
variable {s t : State} {fd : Int} {calls : Calls} {k : Fin maxUser} {rest : List Int}

theorem stringEnds_iff {memory : List Byte} (hmemory : calls.memory = some memory) :
    StringEnds calls ↔ ∃ name, stringAt (readOver memory calls.nameRead) = .ok name := by
  have hmem : StringEnds calls ↔ 0 ∈ readOver memory calls.nameRead := by
    simp [StringEnds, hmemory]
  rw [hmem, ← cString_isSome, Option.isSome_iff_exists, stringAt]
  cases cString (readOver memory calls.nameRead) <;> simp

theorem harmless_client (hfd : fd ≠ s.servSock) (hk : (k : Int) = fd) : Harmless s fd calls ↔
    if (s.clntArray k).flag then
      ¬Ended (s.clntArray k) calls ∧ calls.memory ≠ none ∧ StringEnds calls
    else calls.data ≠ none ∧ (s.clntArray k).fp ≠ none := by
  rw [Harmless, if_neg hfd, ← hk, State.recordAt_coe]
  simp only [Option.mem_some_iff, forall_eq']

/-- A round that withstands what its calls give is harmless: where the handler goes on after a
header that was cut off, it leaves the connection open. -/
theorem RoundStep.harmless (hstep : RoundStep s fd calls t)
    (hopen : fd ≠ s.servSock → fd ∈ s.openSocks)
    (hended : fd ≠ s.servSock → ∀ r ∈ s.recordAt fd, Ended r calls → fd ∉ t.openSocks) :
    Harmless s fd calls := by
  cases hstep with
  | accepted k hfd hk ht =>
    rw [Harmless, if_pos hfd]
    have := k.isLt
    omega
  | header k memory name hfd hk hflag hmemory hname ht =>
    rw [harmless_client hfd hk, if_pos hflag]
    refine ⟨fun hend => ?_, by simp [hmemory], (stringEnds_iff hmemory).mpr ⟨name, hname⟩⟩
    refine hended hfd (s.clntArray k) (by rw [← hk, State.recordAt_coe]; rfl) hend ?_
    rw [ht]
    exact hopen hfd
  | data k f b buf hfd hk hflag hfp hdata ht =>
    rw [harmless_client hfd hk, if_neg (by simp [hflag])]
    exact ⟨by simp [hdata], by simp [hfp]⟩
  | closed k f hfd hk hflag hfp hdata ht =>
    rw [harmless_client hfd hk, if_neg (by simp [hflag])]
    exact ⟨by simp [hdata], by simp [hfp]⟩

theorem Kept.harmless_step (h : Kept s) (hready : s.ready = fd :: rest)
    (hharmless : Harmless s fd calls) : ∃ t, RoundStep s fd calls t := by
  by_cases hfd : fd = s.servSock
  · rw [Harmless, if_pos hfd] at hharmless
    obtain ⟨k, hk⟩ : ∃ k : Fin maxUser, (k : Int) = calls.accepted :=
      ⟨⟨calls.accepted.toNat, by omega⟩, by simp [hharmless.1]⟩
    exact ⟨_, .accepted k hfd hk rfl⟩
  · obtain ⟨-, k, hk⟩ := h.client hready hfd
    rw [harmless_client hfd hk] at hharmless
    split at hharmless
    · rename_i hflag
      obtain ⟨-, hmemory, hends⟩ := hharmless
      obtain ⟨memory, hmemory⟩ := Option.ne_none_iff_exists'.mp hmemory
      obtain ⟨name, hname⟩ := (stringEnds_iff hmemory).mp hends
      exact ⟨_, .header k memory name hfd hk hflag hmemory hname rfl⟩
    · rename_i hflag
      rw [Bool.not_eq_true] at hflag
      obtain ⟨hdata, hfp⟩ := hharmless
      obtain ⟨f, hfp⟩ := Option.ne_none_iff_exists'.mp hfp
      match hgot : calls.data with
      | none => exact absurd hgot hdata
      | some [] => exact ⟨_, .closed k f hfd hk hflag hfp hgot rfl⟩
      | some (b :: buf) => exact ⟨_, .data k f b buf hfd hk hflag hfp hgot rfl⟩

theorem RoundStep.others (hstep : RoundStep s fd calls t) (k : Fin maxUser)
    (hk : (k : Int) ≠ served s fd calls) : t.clntArray k = s.clntArray k := by
  unfold served at hk
  cases hstep with
  | accepted k' hfd hk' ht =>
    rw [if_pos hfd, ← hk'] at hk
    rw [ht]
    exact s.setRecord_of_ne k' _ fun heq => hk (by rw [heq])
  | header k' memory name hfd hk' hflag hmemory hname ht =>
    rw [if_neg hfd, ← hk'] at hk
    rw [ht]
    exact s.setRecord_of_ne k' _ fun heq => hk (by rw [heq])
  | data k' f b buf hfd hk' hflag hfp hdata ht => rw [ht]
  | closed k' f hfd hk' hflag hfp hdata ht =>
    rw [if_neg hfd, ← hk'] at hk
    rw [ht]
    exact s.setRecord_of_ne k' _ fun heq => hk (by rw [heq])

theorem RoundStep.ended (hstep : RoundStep s fd calls t) (hharmless : Harmless s fd calls)
    (hfd : fd ≠ s.servSock) {r : ClntFile} (hr : s.recordAt fd = some r) (hend : Ended r calls) :
    fd ∉ t.openSocks ∧ t.recordAt fd = some .zero := by
  cases hstep with
  | accepted k hfd' hk ht => exact absurd hfd' hfd
  | header k memory name hfd' hk hflag hmemory hname ht =>
    rw [harmless_client hfd hk, if_pos hflag] at hharmless
    rw [← hk, State.recordAt_coe, Option.some.injEq] at hr
    exact absurd (hr ▸ hend) hharmless.1
  | data k f b buf hfd' hk hflag hfp hdata ht =>
    rw [← hk, State.recordAt_coe, Option.some.injEq] at hr
    rw [Ended, if_neg (by simp [← hr, hflag]), hdata] at hend
    contradiction
  | closed k f hfd' hk hflag hfp hdata ht =>
    subst ht
    refine ⟨fun hmem => by simpa using List.of_mem_filter hmem, ?_⟩
    rw [← hk]
    exact State.recordAt_eq_some.mpr ⟨k, rfl, s.setRecord_self k .zero⟩

end Harmless

/-- In every state that is reached, a round withstands exactly what is harmless. -/
theorem round_withstands_iff {s : State} {fd : Int} {rest : List Int} {calls : Calls}
    (h : Reachable (system byDescriptor) s) (hready : s.ready = fd :: rest)
    (hocc : (Event.serve calls).canOccur byDescriptor s) :
    Withstands s fd calls ↔ Harmless s fd calls := by
  have hkept := Reachable.kept h
  constructor
  · rintro ⟨t, hrun, hended, -⟩
    exact ((hkept.serve_ok hready hocc).mp hrun).harmless
      (fun hfd => (hkept.client hready hfd).1) fun hfd r hr hend => (hended hfd r hr hend).1
  · intro hharmless
    obtain ⟨t, hstep⟩ := hkept.harmless_step hready hharmless
    exact ⟨t, (hkept.serve_ok hready hocc).mpr hstep,
      fun hfd r hr hend => hstep.ended hharmless hfd hr hend, hstep.others⟩

instance (r : ClntFile) (calls : Calls) : Decidable (Ended r calls) := by
  unfold Ended
  infer_instance

instance (s : State) (fd : Int) (calls : Calls) : Decidable (Harmless s fd calls) := by
  unfold Harmless
  infer_instance

/-- A client has connected, and its header comes whole. -/
theorem round_withstands_demo : ∃ s, s.ready = [5] ∧ Withstands s 5 (header 97) := by
  obtain ⟨p, hp, htest⟩ := reachable_of_runsTo byDescriptor readsSucceed 3
    (fun p => decide (p.1.ready = [5]) &&
      (decide ((Event.serve (header 97)).canOccur byDescriptor p.1) &&
        decide (Harmless p.1 5 (header 97))))
    [.wait [3], .serve { accepted := 5 }, .wait [5]] (by decide) (by decide)
  simp only [Bool.and_eq_true, decide_eq_true_eq] at htest
  obtain ⟨hready, hocc, hharmless⟩ := htest
  exact ⟨p.1, hready,
    (round_withstands_iff hp.of_restrict.of_observe hready hocc).mpr hharmless⟩

def noHeader : Calls := { lenRead := some [], memory := some [0], nameRead := some [] }

/-- Such a connection stays open, and a failed `accept` is an index. -/
theorem early_close_kept : ∃ s, Reachable (system byDescriptor) s ∧ s.ready = [5] ∧
    (Event.serve noHeader).canOccur byDescriptor s ∧ ¬Withstands s 5 noHeader ∧
    serve byDescriptor s s.servSock { accepted := -1 } = .error .outOfBounds := by
  obtain ⟨p, hp, htest⟩ := reachable_of_runsTo byDescriptor readsSucceed 3
    (fun p => decide (p.1.ready = [5]) &&
      (decide ((Event.serve noHeader).canOccur byDescriptor p.1) &&
        !decide (Harmless p.1 5 noHeader)))
    [.wait [3], .serve { accepted := 5 }, .wait [5]] (by decide) (by decide)
  simp only [Bool.and_eq_true, Bool.not_eq_true', decide_eq_true_eq, decide_eq_false_iff_not]
    at htest
  obtain ⟨hready, hocc, hharmless⟩ := htest
  have hreach := hp.of_restrict.of_observe
  have hkept := Reachable.kept hreach
  refine ⟨p.1, hreach, hready, hocc, ?_,
    by simp [serve, clntAt, index, byDescriptor, bind, Except.bind]⟩
  rintro ⟨t, hrun, hended, -⟩
  exact hharmless (((hkept.serve_ok hready hocc).mp hrun).harmless
    (fun hfd => (hkept.client hready hfd).1) fun hfd r hr hend => (hended hfd r hr hend).1)

end FileUpload
