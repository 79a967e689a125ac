import IotLab.FileUpload.Main

set_option autoImplicit false

namespace FileUpload
open SlotTable HostMemory Transitions

def round (sock : Int) (calls : Calls) : List Event := [.wait [sock], .serve calls]

def dataRounds (fd : Int) (reads : List (List Byte)) : List Event :=
  reads.flatMap fun buf => round fd { data := some buf }

/-- The rounds of one connection: it is accepted, its header is read, then its data, and the
last `read` finds the connection closed. -/
def session (servSock fd : Int) (header : Calls) (reads : List (List Byte)) : List Event :=
  round servSock { accepted := fd } ++ (round fd header ++
    (dataRounds fd reads ++ round fd { data := some [] }))

structure Cut (bytes : List Byte) (header : Calls) (reads : List (List Byte)) : Prop where
  whole : header.lenRead.getD [] ++ (header.nameRead.getD [] ++ reads.flatten) = bytes
  canReturn : header.CanReturn .zero
  reads : ∀ buf ∈ reads, buf ≠ [] ∧ buf.length ≤ bufSize

/-- The first two `read`s stop where the length and the name do, the block and the stream are
there, and the byte behind the block is 0. -/
structure HeaderArrives (fd : Int) (filename : List Byte) (header : Calls) : Prop where
  inTable : 0 ≤ fd ∧ fd < maxUser
  lenRead : (header.lenRead.getD []).length = 4
  nameRead : (header.nameRead.getD []).length = filename.length
  behind : ∃ memory, header.memory = some memory ∧ memory[filename.length]? = some 0
  opened : header.opened = true

section Rounds
variable {s s' : State} {fd sock : Int} {calls : Calls} {k : Fin maxUser} {f : Nat}
  {reads : List (List Byte)} {events : List Event}

theorem handleAll_append (recordOf : Nat → Int → Int) (s : State) (es events : List Event) :
    handleAll recordOf s (es ++ events) =
      handleAll recordOf s es >>= fun s' => handleAll recordOf s' events := by
  simp [handleAll]

theorem handleAll_round (recordOf : Nat → Int → Int) (s : State) (sock : Int) (calls : Calls) :
    handleAll recordOf s (round sock calls) =
      serve recordOf { s with ready := [sock], i := 0 } sock calls >>=
        fun s' => .ok { s' with ready := [], i := 1 } := by
  simp only [handleAll, round, List.foldlM_cons, List.foldlM_nil, handle, bind, Except.bind,
    pure, Except.pure]
  cases serve recordOf { s with ready := [sock], i := 0 } sock calls <;> rfl

theorem handleAll_data (hsock : fd ≠ s.servSock) (hk : (k : Int) = fd)
    (hflag : (s.clntArray k).flag = false) :
    handleAll byDescriptor s (round fd calls) =
      readData { s with ready := [fd], i := 0 } fd k calls.data >>=
        fun s' => .ok { s' with ready := [], i := 1 } := by
  rw [handleAll_round, serve_client (s := { s with ready := [fd], i := 0 }) byDescriptor hsock hk]
  simp [hflag]

theorem dataRounds_nullStream (hsock : fd ≠ s.servSock) (hk : (k : Int) = fd)
    (hflag : (s.clntArray k).flag = false) (hfp : (s.clntArray k).fp = none) :
    handleAll byDescriptor s (dataRounds fd reads ++ round fd { data := some [] }) =
      .error .nullStream := by
  have hround (buf : List Byte) :
      handleAll byDescriptor s (round fd { data := some buf }) = .error .nullStream := by
    rw [handleAll_data hsock hk hflag]
    cases buf <;> simp [readData, stream, hfp, bind, Except.bind]
  cases reads with
  | nil => simp [dataRounds, hround]
  | cons buf rest => simp [dataRounds, handleAll_append, hround, bind, Except.bind]

theorem dataRounds_append {name content : List Byte} (hsock : fd ≠ s.servSock)
    (hk : (k : Int) = fd) (hflag : (s.clntArray k).flag = false)
    (hfp : (s.clntArray k).fp = some 0) (hfiles : s.files = [⟨name, content, true⟩])
    (hreads : ∀ buf ∈ reads, buf ≠ []) :
    ∃ s', handleAll byDescriptor s (dataRounds fd reads) = .ok s' ∧
      s'.servSock = s.servSock ∧ s'.clntArray = s.clntArray ∧
      s'.files = [⟨name, content ++ reads.flatten, true⟩] := by
  induction reads generalizing s content with
  | nil => exact ⟨s, rfl, rfl, rfl, by simp [hfiles]⟩
  | cons buf rest ih =>
    obtain ⟨b, bs, rfl⟩ := List.exists_cons_of_ne_nil (hreads buf (by simp))
    have hround : handleAll byDescriptor s (round fd { data := some (b :: bs) }) =
        .ok { s with ready := [], i := 1, files := [⟨name, content ++ b :: bs, true⟩] } := by
      rw [handleAll_data hsock hk hflag]
      simp [readData, stream, hfp, hfiles, bind, Except.bind]
    obtain ⟨s', hrun, hserv, harray, hfiles'⟩ := ih
      (s := { s with ready := [], i := 1, files := [⟨name, content ++ b :: bs, true⟩] })
      hsock hflag hfp rfl (fun buf hbuf => hreads buf (by simp [hbuf]))
    refine ⟨s', ?_, hserv, harray, ?_⟩
    · simp only [dataRounds, List.flatMap_cons] at hrun ⊢
      simp only [handleAll_append, hround, bind, Except.bind]
      exact hrun
    · simp [hfiles']

theorem close_round {name content : List Byte} (hsock : fd ≠ s.servSock) (hk : (k : Int) = fd)
    (hflag : (s.clntArray k).flag = false) (hfp : (s.clntArray k).fp = some 0)
    (hblock : (s.clntArray k).filename = .block) (hfiles : s.files = [⟨name, content, true⟩]) :
    ∃ s', handleAll byDescriptor s (round fd { data := some [] }) = .ok s' ∧
      s'.files = [⟨name, content, false⟩] := by
  rw [handleAll_data hsock hk hflag]
  simp [readData, stream, hfp, hblock, hfiles, Pointer.free, bind, Except.bind]

end Rounds

section Session
variable {servSock fd : Int} {filename content bytes : List Byte} {header : Calls}
  {reads : List (List Byte)}

theorem accept_round (servSock : Int) {fd : Int} {k : Fin maxUser} (hk : (k : Int) = fd) :
    ∃ s, handleAll byDescriptor (.start servSock) (round servSock { accepted := fd }) = .ok s ∧
      s.servSock = servSock ∧ s.clntArray k = { ClntFile.zero with flag := true } ∧
      s.files = [] := by
  rw [handleAll_round]
  simp [serve, State.start, byDescriptor, ← hk, clntAt_coe, acceptClient, Pointer.free,
    Pointer.afterFree, ClntFile.zero, bind, Except.bind]

theorem accept_round_outside (servSock : Int) {fd : Int} (hfd : ¬(0 ≤ fd ∧ fd < maxUser)) :
    handleAll byDescriptor (.start servSock) (round servSock { accepted := fd }) =
      .error .outOfBounds := by
  rw [handleAll_round]
  simp [serve, State.start, byDescriptor, clntAt, index, hfd, bind, Except.bind]

section Header
variable {s : State} {k : Fin maxUser}

theorem handleAll_header (hsock : fd ≠ s.servSock) (hk : (k : Int) = fd)
    (hflag : (s.clntArray k).flag = true) :
    handleAll byDescriptor s (round fd header) =
      readHeader { s with ready := [fd], i := 0 } k header >>=
        fun s' => .ok { s' with ready := [], i := 1 } := by
  rw [handleAll_round, serve_client (s := { s with ready := [fd], i := 0 }) byDescriptor hsock hk]
  simp [hflag]

theorem header_round {memory name : List Byte} (hsock : fd ≠ s.servSock) (hk : (k : Int) = fd)
    (hflag : (s.clntArray k).flag = true) (hmemory : header.memory = some memory)
    (hname : stringAt (readOver memory header.nameRead) = .ok name) :
    ∃ s', handleAll byDescriptor s (round fd header) = .ok s' ∧ s'.servSock = s.servSock ∧
      s'.clntArray k = ⟨false, (s.clntArray k).readLen header, .block,
        if header.opened then some s.files.length else none⟩ ∧
      s'.files = if header.opened then s.files ++ [⟨name, [], true⟩] else s.files := by
  rw [handleAll_header hsock hk hflag]
  simp [readHeader, hmemory, hname, bind, Except.bind]

theorem header_round_error (hsock : fd ≠ s.servSock) (hk : (k : Int) = fd)
    (hflag : (s.clntArray k).flag = true)
    (hno : ¬∃ memory name, header.memory = some memory ∧
      stringAt (readOver memory header.nameRead) = .ok name) :
    ∃ e, handleAll byDescriptor s (round fd header) = .error e := by
  rw [handleAll_header hsock hk hflag]
  cases hmemory : header.memory with
  | none => exact ⟨.nullName, by simp [readHeader, hmemory, bind, Except.bind]⟩
  | some memory =>
    cases hname : stringAt (readOver memory header.nameRead) with
    | error e => exact ⟨e, by simp [readHeader, hmemory, hname, bind, Except.bind]⟩
    | ok name => exact absurd ⟨memory, name, hmemory, hname⟩ hno

end Header

theorem session_ok (hsock : fd ≠ servSock) (hfd : 0 ≤ fd ∧ fd < maxUser)
    (hreads : ∀ buf ∈ reads, buf ≠ []) (hopened : header.opened = true) {memory name : List Byte}
    (hmemory : header.memory = some memory)
    (hname : stringAt (readOver memory header.nameRead) = .ok name) :
    ∃ s, handleAll byDescriptor (.start servSock) (session servSock fd header reads) = .ok s ∧
      s.files = [⟨name, reads.flatten, false⟩] := by
  obtain ⟨k, hk⟩ : ∃ k : Fin maxUser, (k : Int) = fd := ⟨⟨fd.toNat, by omega⟩, by simp [hfd.1]⟩
  obtain ⟨s₁, hrun₁, hserv₁, hrec₁, hfiles₁⟩ := accept_round servSock hk
  obtain ⟨s₂, hrun₂, hserv₂, hrec₂, hfiles₂⟩ := header_round (s := s₁) (by rw [hserv₁]; exact hsock)
    hk (by rw [hrec₁]) hmemory hname
  have hsock₂ : fd ≠ s₂.servSock := by rw [hserv₂, hserv₁]; exact hsock
  simp only [hopened, hfiles₁, if_true, List.length_nil, List.nil_append] at hrec₂ hfiles₂
  obtain ⟨s₃, hrun₃, hserv₃, harray₃, hfiles₃⟩ :=
    dataRounds_append hsock₂ hk (by rw [hrec₂]) (by rw [hrec₂]) hfiles₂ hreads
  obtain ⟨s₄, hrun₄, hfiles₄⟩ := close_round (s := s₃) (by rw [hserv₃]; exact hsock₂) hk
    (by rw [harray₃, hrec₂]) (by rw [harray₃, hrec₂]) (by rw [harray₃, hrec₂]) hfiles₃
  refine ⟨s₄, ?_, by simpa using hfiles₄⟩
  simp [session, handleAll_append, hrun₁, hrun₂, hrun₃, hrun₄, bind, Except.bind]

theorem session_error (hsock : fd ≠ servSock)
    (hno : ¬((0 ≤ fd ∧ fd < maxUser) ∧ header.opened = true ∧ ∃ memory name,
      header.memory = some memory ∧ stringAt (readOver memory header.nameRead) = .ok name)) :
    ∃ e, handleAll byDescriptor (.start servSock) (session servSock fd header reads) =
      .error e := by
  by_cases hfd : 0 ≤ fd ∧ fd < maxUser
  · obtain ⟨k, hk⟩ : ∃ k : Fin maxUser, (k : Int) = fd := ⟨⟨fd.toNat, by omega⟩, by simp [hfd.1]⟩
    obtain ⟨s₁, hrun₁, hserv₁, hrec₁, hfiles₁⟩ := accept_round servSock hk
    have hsock₁ : fd ≠ s₁.servSock := by rw [hserv₁]; exact hsock
    have hflag₁ : (s₁.clntArray k).flag = true := by rw [hrec₁]
    by_cases hstring : ∃ memory name, header.memory = some memory ∧
      stringAt (readOver memory header.nameRead) = .ok name
    · have hclosed : header.opened = false := by
        by_contra hopened
        exact hno ⟨hfd, by simpa using hopened, hstring⟩
      obtain ⟨memory, name, hmemory, hname⟩ := hstring
      obtain ⟨s₂, hrun₂, hserv₂, hrec₂, -⟩ := header_round hsock₁ hk hflag₁ hmemory hname
      have hend : handleAll byDescriptor s₂ (dataRounds fd reads ++
          round fd { data := some [] }) = .error .nullStream :=
        dataRounds_nullStream (by rw [hserv₂]; exact hsock₁) hk (by rw [hrec₂])
          (by simp [hrec₂, hclosed])
      refine ⟨.nullStream, ?_⟩
      rw [session, handleAll_append, hrun₁]
      simp only [bind, Except.bind]
      rw [handleAll_append, hrun₂]
      exact hend
    · obtain ⟨e, hrun₂⟩ := header_round_error hsock₁ hk hflag₁ hstring
      refine ⟨e, ?_⟩
      simp [session, handleAll_append, hrun₁, hrun₂, bind, Except.bind]
  · refine ⟨.outOfBounds, ?_⟩
    simp [session, handleAll_append, accept_round_outside servSock hfd, bind, Except.bind]

theorem session_files (hsock : fd ≠ servSock) (hreads : ∀ buf ∈ reads, buf ≠ []) (file : File) :
    (∃ s, handleAll byDescriptor (.start servSock) (session servSock fd header reads) = .ok s ∧
        s.files = [file]) ↔
      (0 ≤ fd ∧ fd < maxUser) ∧ header.opened = true ∧ ∃ memory name,
        header.memory = some memory ∧ stringAt (readOver memory header.nameRead) = .ok name ∧
        file = ⟨name, reads.flatten, false⟩ := by
  constructor
  · rintro ⟨s, hrun, hfiles⟩
    by_cases hgood : (0 ≤ fd ∧ fd < maxUser) ∧ header.opened = true ∧ ∃ memory name,
      header.memory = some memory ∧ stringAt (readOver memory header.nameRead) = .ok name
    · obtain ⟨hfd, hopened, memory, name, hmemory, hname⟩ := hgood
      obtain ⟨s', hrun', hfiles'⟩ := session_ok hsock hfd hreads hopened hmemory hname
      rw [hrun', Except.ok.injEq] at hrun
      subst hrun
      refine ⟨hfd, hopened, memory, name, hmemory, hname, ?_⟩
      rw [hfiles'] at hfiles
      simpa using hfiles.symm
    · have ⟨e, herr⟩ := @session_error servSock fd header reads hsock hgood
      rw [herr] at hrun
      contradiction
  · rintro ⟨hfd, hopened, memory, name, hmemory, hname, rfl⟩
    exact session_ok hsock hfd hreads hopened hmemory hname

theorem stringAt_eq_ok {memory name : List Byte} :
    stringAt memory = .ok name ↔ 0 ∉ name ∧ ∃ rest, memory = name ++ 0 :: rest := by
  rw [← cString_eq_some, stringAt]
  cases cString memory <;> simp

theorem readLen_take_le {n : Nat} (v : BitVec 32)
    (h : header.lenRead.getD [] = (bytes32 v).take n) :
    (ClntFile.zero.readLen header).toNat ≤ v.toNat := by
  have hbyte (i : Nat) : ((readOver (bytes32 0) header.lenRead).getD i 0).toNat ≤
      ((bytes32 v).getD i 0).toNat := by
    have hzero (j : Nat) : (bytes32 0)[j]?.getD 0 = 0 := by
      rcases j with _ | _ | _ | _ | j <;> rfl
    simp only [readOver, h, List.getD_eq_getElem?_getD, List.getElem?_append, List.getElem?_take,
      List.getElem?_drop, List.length_take, bytes32_length]
    split
    · rw [if_pos (by omega)]
    · rw [hzero]
      exact Nat.zero_le _
  have h0 := hbyte 0
  have h1 := hbyte 1
  have h2 := hbyte 2
  have h3 := hbyte 3
  have hv := word32_toNat (bytes32 v)
  rw [word32_bytes32] at hv
  rw [ClntFile.readLen, word32_toNat, hv]
  simp only [ClntFile.zero] at *
  omega

theorem header_boundaries (hcut : Cut (clientWrites filename content).flatten header reads)
    (hdata : reads.flatten = content) :
    header.lenRead.getD [] = bytes32 (BitVec.ofNat 32 filename.length) ∧
      header.nameRead.getD [] = filename := by
  have hwhole := hcut.whole
  rw [clientWrites_flatten, hdata, ← List.append_assoc, ← List.append_assoc] at hwhole
  have hheader := List.append_cancel_right hwhole
  generalize hv : BitVec.ofNat 32 filename.length = v at hheader ⊢
  have hlen : (header.lenRead.getD []).length ≤ 4 := by
    cases hr : header.lenRead with
    | none => simp
    | some b => simpa using hcut.canReturn.lenRead b (by simp [hr])
  have hname : (header.nameRead.getD []).length ≤ (ClntFile.zero.readLen header).toNat := by
    cases hr : header.nameRead with
    | none => simp
    | some b => simpa using hcut.canReturn.nameRead b (by simp [hr])
  have htake : header.lenRead.getD [] = (bytes32 v).take (header.lenRead.getD []).length := by
    have := congrArg (List.take (header.lenRead.getD []).length) hheader
    rw [List.take_left' rfl, List.take_append_of_le_length (by simpa using hlen)] at this
    exact this
  have hle := readLen_take_le v htake
  have hv' : v.toNat ≤ filename.length := by
    rw [← hv, BitVec.toNat_ofNat]
    exact Nat.mod_le _ _
  have htotal := congrArg List.length hheader
  simp only [List.length_append, bytes32_length] at htotal
  exact List.append_inj hheader (by simp; omega)

/-- The server opens the client's file name and writes the client's content, exactly when the
cuts fall behind the length and the name and a 0 lies behind the name's block. -/
theorem upload_delivered_iff (hsock : fd ≠ servSock) (hname : 0 ∉ filename)
    (hcut : Cut (clientWrites filename content).flatten header reads) :
    (∃ s, handleAll byDescriptor (.start servSock) (session servSock fd header reads) = .ok s ∧
        s.files = [⟨filename, content, false⟩]) ↔ HeaderArrives fd filename header := by
  rw [session_files hsock (fun buf hbuf => (hcut.reads buf hbuf).1)]
  constructor
  · rintro ⟨hfd, hopened, memory, name, hmemory, hstring, hfile⟩
    simp only [File.mk.injEq] at hfile
    obtain ⟨rfl, hdata, -⟩ := hfile
    obtain ⟨hlenRead, hnameRead⟩ := header_boundaries hcut hdata.symm
    obtain ⟨-, rest, hrest⟩ := stringAt_eq_ok.mp hstring
    rw [readOver, hnameRead] at hrest
    have hdrop := List.append_cancel_left hrest
    refine ⟨hfd, by simp [hlenRead], by rw [hnameRead], ⟨memory, hmemory, ?_⟩, hopened⟩
    simpa using congrArg List.head? hdrop
  · rintro ⟨hfd, hlenRead, hnameRead, ⟨memory, hmemory, hbehind⟩, hopened⟩
    have hwhole := hcut.whole
    rw [clientWrites_flatten] at hwhole
    obtain ⟨-, hrest⟩ := List.append_inj hwhole (by simp [hlenRead])
    obtain ⟨hnameEq, hdata⟩ := List.append_inj hrest hnameRead
    refine ⟨hfd, hopened, memory, filename, hmemory, ?_, by rw [hdata]⟩
    have hdrop : memory.drop filename.length = 0 :: memory.drop (filename.length + 1) := by
      obtain ⟨hlt, hget⟩ := List.getElem?_eq_some_iff.mp hbehind
      rw [List.drop_eq_getElem_cons hlt, hget]
    exact stringAt_eq_ok.mpr ⟨hname, memory.drop (filename.length + 1), by
      rw [readOver, hnameEq, hdrop]⟩

def plainHeader (name : List Byte) (behind : Byte) : Calls :=
  { lenRead := some (bytes32 (BitVec.ofNat 32 name.length))
    memory := some (List.replicate name.length 0 ++ [behind, 0])
    nameRead := some name
    opened := true }

theorem plainHeader_readLen (name : List Byte) (behind : Byte) :
    ClntFile.zero.readLen (plainHeader name behind) = BitVec.ofNat 32 name.length := by
  have hread : readOver (bytes32 0) (plainHeader name behind).lenRead =
      bytes32 (BitVec.ofNat 32 name.length) := by
    simp [readOver, plainHeader]
  rw [ClntFile.readLen, ClntFile.zero, hread, word32_bytes32]

theorem plainHeader_cut {name : List Byte} (behind : Byte) {reads : List (List Byte)}
    (hname : name.length < 2 ^ 31) (hreads : ∀ buf ∈ reads, buf ≠ [] ∧ buf.length ≤ bufSize) :
    Cut (clientWrites name reads.flatten).flatten (plainHeader name behind) reads where
  whole := by simp [plainHeader, clientWrites_flatten]
  canReturn := {
    lenRead := by simp [plainHeader]
    memory := by
      rintro _ ⟨⟩
      rw [plainHeader_readLen, BitVec.toInt_eq_toNat_of_lt (by rw [BitVec.toNat_ofNat]; omega),
        BitVec.toNat_ofNat, Nat.mod_eq_of_lt (by omega)]
      simp
    nameRead := by
      rintro _ ⟨⟩
      rw [plainHeader_readLen, BitVec.toNat_ofNat, Nat.mod_eq_of_lt (by omega)]
    data := by simp [plainHeader] }
  reads := hreads

def notesName : List Byte := [110, 111, 116, 101, 115, 46, 116, 120, 116]

def notesReads : List (List Byte) :=
  [List.replicate 40 1, [2], List.replicate 19 3, List.replicate 39 4, [5]]

theorem upload_delivered_demo :
    ∃ s, handleAll byDescriptor (.start 3) (session 3 5 (plainHeader notesName 0) notesReads) =
        .ok s ∧ s.files = [⟨notesName, notesReads.flatten, false⟩] :=
  (upload_delivered_iff (by decide) (by decide)
    (plainHeader_cut 0 (by decide) (by decide))).mpr
    ⟨by decide, by decide, by decide, ⟨List.replicate 9 0 ++ [0, 0], by decide⟩, by decide⟩

/-- The file is opened under a longer name when the byte behind the block is not 0. -/
theorem upload_renamed :
    Cut (clientWrites [97] [1]).flatten (plainHeader [97] 98) [[1]] ∧
      ¬∃ s, handleAll byDescriptor (.start 3) (session 3 5 (plainHeader [97] 98) [[1]]) = .ok s ∧
        s.files = [⟨[97], [1], false⟩] := by
  refine ⟨@plainHeader_cut [97] 98 [[1]] (by decide) (by decide), ?_⟩
  rw [session_files (by decide) (by decide)]
  rintro ⟨-, -, memory, name, hmemory, hstring, hfile⟩
  cases hmemory
  simp only [File.mk.injEq] at hfile
  obtain ⟨rfl, -⟩ := hfile
  exact absurd hstring (by decide)

end Session

end FileUpload
