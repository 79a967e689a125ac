import IotLab.Library.Fallible
import IotLab.Library.SlotTable
import IotLab.Library.HostMemory
import IotLab.Library.Transitions

/-!
The file upload: the send loop of the client, and the event loop of the two servers. The
servers differ in one thing, the record of `clnt_array` that an event uses: the one at the
event's position in the batch, or the one at the descriptor. What the system calls give is an
input of every round.
-/

set_option autoImplicit false

namespace FileUpload
open SlotTable HostMemory

def blockSize : Nat := 1024

def bufSize : Nat := 40
def epollSize : Nat := 50
def maxUser : Nat := 100

/-- The `write`s of the client's loop: blocks of `BUF_SIZE` bytes, and the one that `fread`
cuts short, which may be empty. -/
def fileBlocks (content : List Byte) : List (List Byte) :=
  if content.length < blockSize then [content]
  else content.take blockSize :: fileBlocks (content.drop blockSize)
termination_by content.length
decreasing_by simp only [List.length_drop, blockSize] at *; omega

def clientWrites (filename content : List Byte) : List (List Byte) :=
  bytes32 (BitVec.ofNat 32 filename.length) :: filename :: fileBlocks content

theorem fileBlocks_flatten (content : List Byte) : (fileBlocks content).flatten = content := by
  fun_induction fileBlocks content with
  | case1 content h => simp
  | case2 content h ih => simp [ih]

theorem clientWrites_flatten (filename content : List Byte) :
    (clientWrites filename content).flatten =
      bytes32 (BitVec.ofNat 32 filename.length) ++ (filename ++ content) := by
  simp [clientWrites, fileBlocks_flatten]

/-- What the code does that C leaves undefined: an access outside `clnt_array`, a `NULL` or
unterminated file name, a `NULL` stream, a block freed twice, a negative count. -/
inductive Fault where
  | outOfBounds | nullName | unterminated | nullStream | doubleFree | negativeCount
  deriving DecidableEq, Repr

abbrev Result := Except Fault

/-- `filename` points nowhere, to a block that is allocated, or to one that was freed. -/
inductive Pointer where
  | null | block | dangling
  deriving DecidableEq, Repr

structure ClntFile where
  flag : Bool
  filenameLen : BitVec 32
  filename : Pointer
  fp : Option Nat
  deriving DecidableEq, Repr

def ClntFile.zero : ClntFile := ⟨false, 0, .null, none⟩

/-- A file that `fopen` gave a stream for, and what was written through that stream. -/
structure File where
  name : List Byte
  content : List Byte
  isOpen : Bool
  deriving DecidableEq, Repr

/-- The locals of `main`: the table, the descriptors of the current batch that are still to
be served, and the loop counter. The kernel's side: the client sockets that are open, and
every file opened so far. -/
structure State where
  servSock : Int
  clntArray : Fin maxUser → ClntFile
  ready : List Int
  i : Nat
  openSocks : List Int
  files : List File

def State.start (servSock : Int) : State := ⟨servSock, fun _ => .zero, [], 0, [], []⟩

/-- What the system calls of one round give; a round makes only some of them. `none` is -1
for a `read`, and `NULL` for `malloc`. The memory that `malloc` returns is everything that can
be read from the block on: the block as it was, and what lies behind it. -/
structure Calls where
  accepted : Int := -1
  lenRead : Option (List Byte) := none
  memory : Option (List Byte) := none
  nameRead : Option (List Byte) := none
  opened : Bool := false
  data : Option (List Byte) := none
  deriving DecidableEq

inductive Event where
  | wait (ready : List Int)
  | serve (calls : Calls)
  deriving DecidableEq

def clntAt (i : Int) : Result (Fin maxUser) := index .outOfBounds maxUser i

theorem clntAt_coe (k : Fin maxUser) : clntAt (k : Int) = .ok k := index_coe k

def State.recordAt (s : State) (i : Int) : Option ClntFile :=
  (clntAt i).toOption.map s.clntArray

@[simp] theorem State.recordAt_coe (s : State) (k : Fin maxUser) :
    s.recordAt (k : Int) = some (s.clntArray k) := by
  simp [State.recordAt, clntAt_coe, Except.toOption]

theorem State.recordAt_eq_some {s : State} {i : Int} {r : ClntFile} :
    s.recordAt i = some r ↔ ∃ k : Fin maxUser, (k : Int) = i ∧ s.clntArray k = r := by
  unfold State.recordAt
  constructor
  · intro h
    obtain ⟨k, hk, hr⟩ := Option.map_eq_some_iff.mp h
    exact ⟨k, (index_eq_ok.mp (Fallible.toOption_eq_some.mp hk)).symm, hr⟩
  · rintro ⟨k, rfl, rfl⟩
    exact s.recordAt_coe k

def State.setRecord (s : State) (k : Fin maxUser) (r : ClntFile) : State :=
  { s with clntArray := Function.update s.clntArray k r }

section SetRecord
variable (s : State) (k : Fin maxUser) (r : ClntFile)

@[simp] theorem State.setRecord_servSock : (s.setRecord k r).servSock = s.servSock := rfl

@[simp] theorem State.setRecord_openSocks : (s.setRecord k r).openSocks = s.openSocks := rfl

@[simp] theorem State.setRecord_files : (s.setRecord k r).files = s.files := rfl

@[simp] theorem State.setRecord_self : (s.setRecord k r).clntArray k = r := by
  simp [State.setRecord]

theorem State.setRecord_of_ne {k' : Fin maxUser} (h : k' ≠ k) :
    (s.setRecord k r).clntArray k' = s.clntArray k' := by
  simp [State.setRecord, h]

theorem State.setRecord_recordAt {i : Int} (h : i ≠ k) :
    (s.setRecord k r).recordAt i = s.recordAt i := by
  refine Option.ext fun r' => ?_
  simp only [State.recordAt_eq_some]
  refine exists_congr fun k' => and_congr_right fun hk' => ?_
  rw [s.setRecord_of_ne k r (fun hkk => h (by rw [← hk', hkk]))]

end SetRecord

def Pointer.free : Pointer → Result Unit
  | .dangling => .error .doubleFree
  | _ => .ok ()

def Pointer.afterFree : Pointer → Pointer
  | .null => .null
  | _ => .dangling

def stream (r : ClntFile) : Result Nat :=
  match r.fp with
  | some f => .ok f
  | none => .error .nullStream

def stringAt (memory : List Byte) : Result (List Byte) :=
  match cString memory with
  | some str => .ok str
  | none => .error .unterminated

def readOver (old : List Byte) (got : Option (List Byte)) : List Byte :=
  got.getD [] ++ old.drop (got.getD []).length

def ClntFile.readLen (r : ClntFile) (calls : Calls) : BitVec 32 :=
  word32 (readOver (bytes32 r.filenameLen) calls.lenRead)

/-- The branch of the listening socket. `epoll_ctl` refuses a descriptor of -1. -/
def acceptClient (s : State) (k : Fin maxUser) (clntSock : Int) : Result State := do
  let r := s.clntArray k
  r.filename.free
  .ok { s.setRecord k { r with flag := true, filename := r.filename.afterFree } with
    openSocks := if clntSock = -1 then s.openSocks else clntSock :: s.openSocks }

def readHeader (s : State) (k : Fin maxUser) (calls : Calls) : Result State :=
  match calls.memory with
  | none => .error .nullName
  | some memory => do
    let name ← stringAt (readOver memory calls.nameRead)
    .ok { s.setRecord k ⟨false, (s.clntArray k).readLen calls, .block,
        if calls.opened then some s.files.length else none⟩ with
      files := if calls.opened then s.files ++ [⟨name, [], true⟩] else s.files }

/-- The branch of a record whose `flag` is not set: the close request, and data. -/
def readData (s : State) (fd : Int) (k : Fin maxUser) : Option (List Byte) → Result State
  | none => .error .negativeCount
  | some [] => do
    let f ← stream (s.clntArray k)
    (s.clntArray k).filename.free
    .ok { s.setRecord k .zero with
      openSocks := s.openSocks.filter (· ≠ fd)
      files := s.files.modify f fun file => { file with isOpen := false } }
  | some buf => do
    let f ← stream (s.clntArray k)
    .ok { s with
      files := s.files.modify f fun file => { file with content := file.content ++ buf } }

section Loop

-- The index of the record that an event uses, by its position in the batch and its descriptor.
variable (recordOf : Nat → Int → Int)

def serve (s : State) (fd : Int) (calls : Calls) : Result State :=
  if fd = s.servSock then do
    let k ← clntAt (recordOf s.i calls.accepted)
    acceptClient s k calls.accepted
  else do
    let k ← clntAt (recordOf s.i fd)
    if (s.clntArray k).flag then readHeader s k calls else readData s fd k calls.data

def handle (s : State) : Event → Result State
  | .wait ready => .ok { s with ready := ready, i := 0 }
  | .serve calls =>
    match s.ready with
    | [] => .ok s
    | fd :: rest => do
      let s' ← serve recordOf s fd calls
      .ok { s' with ready := rest, i := s.i + 1 }

section Serve
variable {s : State} {fd : Int} {calls : Calls} {k : Fin maxUser}

theorem serve_listening (hk : (k : Int) = recordOf s.i calls.accepted) :
    serve recordOf s s.servSock calls = acceptClient s k calls.accepted := by
  simp [serve, ← hk, clntAt_coe, bind, Except.bind]

theorem serve_client (hsock : fd ≠ s.servSock) (hk : (k : Int) = recordOf s.i fd) :
    serve recordOf s fd calls =
      if (s.clntArray k).flag then readHeader s k calls else readData s fd k calls.data := by
  simp [serve, hsock, ← hk, clntAt_coe, bind, Except.bind]

end Serve

def handleAll (s : State) (events : List Event) : Result State :=
  events.foldlM (handle recordOf) s

end Loop

/-- What the calls can give for a record: no `read` gives more than it is asked for, a block
has the length that `malloc` is asked for. -/
structure Calls.CanReturn (calls : Calls) (r : ClntFile) : Prop where
  lenRead : ∀ b ∈ calls.lenRead, b.length ≤ 4
  memory : ∀ m ∈ calls.memory, 0 ≤ (r.readLen calls).toInt ∧ (r.readLen calls).toNat ≤ m.length
  nameRead : ∀ b ∈ calls.nameRead, b.length ≤ (r.readLen calls).toNat
  data : ∀ b ∈ calls.data, b.length ≤ bufSize

/-- What can happen next: a batch lists sockets that are open, each one once; `accept` fails
or gives a descriptor that is not open. -/
def Event.canOccur (recordOf : Nat → Int → Int) (s : State) : Event → Prop
  | .wait ready => s.ready = [] ∧ ready.Nodup ∧ ready.length ≤ epollSize ∧
    ∀ fd ∈ ready, fd = s.servSock ∨ fd ∈ s.openSocks
  | .serve calls => s.ready ≠ [] ∧
    (calls.accepted = -1 ∨
      0 ≤ calls.accepted ∧ calls.accepted ≠ s.servSock ∧ calls.accepted ∉ s.openSocks) ∧
    ∀ fd ∈ s.ready.head?, ∀ r ∈ s.recordAt (recordOf s.i fd), calls.CanReturn r

def system (recordOf : Nat → Int → Int) : Transitions.System State Event where
  init s := ∃ servSock, s = State.start servSock ∧ 0 ≤ servSock
  step s e t := e.canOccur recordOf s ∧ handle recordOf s e = .ok t

/-- `lab05_src/fileup_serv.c`: `clnt_array[i]`. -/
def byPosition (i : Nat) (_fd : Int) : Int := i

/-- `fileup_serv_dir/fileup_serv.c`: `clnt_array[clnt_sock]` and `clnt_array[index]`. -/
def byDescriptor (_i : Nat) (fd : Int) : Int := fd

end FileUpload
