import IotLab.Library.Fallible
import IotLab.Library.SlotTable

set_option autoImplicit false

namespace EchoSelectServ
open SlotTable

/-- A socket object. It closes its descriptor only when it is destroyed, so no two objects have
the same one. -/
structure TCPSocket where
  mSocket : Int
  deriving DecidableEq, Repr

abbrev TCPSocketPtr := Option TCPSocket

inductive Fault where
  | nullPointer | outOfBounds
  deriving DecidableEq, Repr

abbrev Result := Except Fault

def deref : TCPSocketPtr → Result TCPSocket
  | some socket => .ok socket
  | none => .error .nullPointer

def invalidSocket : Int := -1

def acceptSocket (newSocket : Int) : TCPSocketPtr :=
  if newSocket ≠ invalidSocket then some ⟨newSocket⟩ else none

def fdSetSize : Nat := 1024

abbrev FdSet := Fin fdSetSize → Bool

def fdIndex (socket : TCPSocketPtr) : Result (Fin fdSetSize) := do
  let socket ← deref socket
  index .outOfBounds fdSetSize socket.mSocket

def setSockets : List TCPSocketPtr → FdSet → Int → Result (FdSet × Int)
  | [], outSet, nfds => .ok (outSet, nfds)
  | socket :: rest, outSet, nfds => do
    let k ← fdIndex socket
    setSockets rest (Function.update outSet k true) (max nfds k)

/-- `FillSetFromVector`. A vector is `none` where its pointer is null. -/
def fillSetFromVector (inSockets : Option (List TCPSocketPtr)) (ioNaxNfds : Int) :
    Result (Option FdSet × Int) :=
  match inSockets with
  | some sockets => do
    let (outSet, nfds) ← setSockets sockets (fun _ => false) ioNaxNfds
    .ok (some outSet, nfds)
  | none => .ok (none, ioNaxNfds)

def setMembers (inSet : FdSet) : List TCPSocketPtr → Result (List TCPSocketPtr)
  | [] => .ok []
  | socket :: rest => do
    let k ← fdIndex socket
    let members ← setMembers inSet rest
    .ok (if inSet k then socket :: members else members)

/-- `FillVectorFromSet`. A set is there when `FillSetFromVector` had a vector. -/
def fillVectorFromSet (outSockets inSockets : Option (List TCPSocketPtr)) (inSet : Option FdSet) :
    Result (Option (List TCPSocketPtr)) :=
  match inSockets, outSockets, inSet with
  | some sockets, some _, some set => do
    let members ← setMembers set sockets
    .ok (some members)
  | _, _, _ => .ok outSockets

@[simp] theorem fillSetFromVector_none (nfds : Int) :
    fillSetFromVector none nfds = .ok (none, nfds) := rfl

@[simp] theorem fillVectorFromSet_none (outSockets : Option (List TCPSocketPtr))
    (inSet : Option FdSet) : fillVectorFromSet outSockets none inSet = .ok outSockets := rfl

/-- The descriptors that `select` finds ready, in each of its three sets. -/
structure Ready where
  read : List Int
  write : List Int := []
  except : List Int := []
  deriving DecidableEq

def Ready.count (r : Ready) : Nat := r.read.length + r.write.length + r.except.length

/-- What `select` leaves of a set of descriptors below `nfds`. -/
def leave (nfds : Int) (fds : List Int) (set : Option FdSet) : Option FdSet :=
  set.map fun s k => s k && decide ((k : Int) < nfds ∧ (k : Int) ∈ fds)

structure Selected where
  toRet : Int
  outReadSet : Option (List TCPSocketPtr)
  outWriteSet : Option (List TCPSocketPtr)
  outExceptSet : Option (List TCPSocketPtr)

/-- `SocketUtil::Select`, given what `select` finds; it is `none` when it fails. -/
def socketSelect (inReadSet outReadSet inWriteSet outWriteSet inExceptSet outExceptSet :
    Option (List TCPSocketPtr)) (ready : Option Ready) : Result Selected := do
  let (read, nfds) ← fillSetFromVector inReadSet 0
  let (write, nfds) ← fillSetFromVector inWriteSet nfds
  let (except, nfds) ← fillSetFromVector inExceptSet nfds
  match ready with
  | none => .ok ⟨-1, outReadSet, outWriteSet, outExceptSet⟩
  | some fds =>
    if fds.count = 0 then .ok ⟨0, outReadSet, outWriteSet, outExceptSet⟩
    else
      let readOut ← fillVectorFromSet outReadSet inReadSet (leave (nfds + 1) fds.read read)
      let writeOut ← fillVectorFromSet outWriteSet inWriteSet (leave (nfds + 1) fds.write write)
      let exceptOut ←
        fillVectorFromSet outExceptSet inExceptSet (leave (nfds + 1) fds.except except)
      .ok ⟨fds.count, readOut, writeOut, exceptOut⟩

def Fits (socket : TCPSocketPtr) : Prop :=
  ∃ s ∈ socket, 0 ≤ s.mSocket ∧ s.mSocket < fdSetSize

def amongReady (fds : List Int) (sockets : List TCPSocketPtr) : List TCPSocketPtr :=
  sockets.filter fun socket => socket.any fun s => decide (s.mSocket ∈ fds)

section Sets
variable {sockets : List TCPSocketPtr} {outSet : FdSet} {nfds : Int}

theorem fdIndex_eq_ok {socket : TCPSocketPtr} {k : Fin fdSetSize} :
    fdIndex socket = .ok k ↔ socket = some ⟨k⟩ := by
  cases socket with
  | none => simp [fdIndex, deref, bind, Except.bind]
  | some s =>
    obtain ⟨fd⟩ := s
    simp only [fdIndex, deref, bind, Except.bind, index_eq_ok, Option.some.injEq,
      TCPSocket.mk.injEq]

theorem fits_iff {socket : TCPSocketPtr} : Fits socket ↔ ∃ k, fdIndex socket = .ok k := by
  constructor
  · rintro ⟨s, rfl, hnonneg, hlt⟩
    refine ⟨⟨s.mSocket.toNat, by omega⟩, fdIndex_eq_ok.mpr ?_⟩
    simp [hnonneg]
  · rintro ⟨k, hk⟩
    have hlt := k.isLt
    exact ⟨⟨k⟩, fdIndex_eq_ok.mp hk, by simp only; omega, by simp only; omega⟩

theorem setSockets_ok (h : ∀ socket ∈ sockets, Fits socket) : ∃ set max,
    setSockets sockets outSet nfds = .ok (set, max) ∧ nfds ≤ max ∧ (∀ k, outSet k → set k) ∧
    ∀ k : Fin fdSetSize, some ⟨k⟩ ∈ sockets → set k ∧ (k : Int) ≤ max := by
  induction sockets generalizing outSet nfds with
  | nil => exact ⟨outSet, nfds, rfl, le_refl _, fun k hk => hk, by simp⟩
  | cons socket rest ih =>
    obtain ⟨hsocket, hrest⟩ := List.forall_mem_cons.mp h
    obtain ⟨k, hk⟩ := fits_iff.mp hsocket
    obtain ⟨set, m, hrun, hle, hkeep, hput⟩ :=
      @ih (Function.update outSet k true) (max nfds k) hrest
    refine ⟨set, m, Fallible.bind_eq_ok.mpr ⟨k, hk, hrun⟩, by omega, fun j hj => hkeep j ?_,
      fun j hj => ?_⟩
    · by_cases hjk : j = k
      · simp [hjk]
      · simpa [Function.update_of_ne hjk] using hj
    · rcases List.mem_cons.mp hj with hhead | htail
      · obtain rfl : j = k := by
          rw [fdIndex_eq_ok.mp hk] at hhead
          simpa [Fin.ext_iff] using hhead
        exact ⟨hkeep j (by simp), by omega⟩
      · exact hput j htail

theorem setSockets_fits {r : FdSet × Int} (h : setSockets sockets outSet nfds = .ok r) :
    ∀ socket ∈ sockets, Fits socket := by
  induction sockets generalizing outSet nfds with
  | nil => simp
  | cons socket rest ih =>
    obtain ⟨k, hk, hrest⟩ := Fallible.bind_eq_ok.mp h
    exact List.forall_mem_cons.mpr ⟨fits_iff.mpr ⟨k, hk⟩, ih hrest⟩

theorem setMembers_eq {fds : List Int} (hfits : ∀ socket ∈ sockets, Fits socket)
    (hset : ∀ k : Fin fdSetSize, some ⟨k⟩ ∈ sockets → (outSet k ↔ (k : Int) ∈ fds)) :
    setMembers outSet sockets = .ok (amongReady fds sockets) := by
  induction sockets with
  | nil => rfl
  | cons socket rest ih =>
    obtain ⟨hsocket, hrest⟩ := List.forall_mem_cons.mp hfits
    obtain ⟨k, hk⟩ := fits_iff.mp hsocket
    have hrun := ih hrest fun j hj => hset j (List.mem_cons_of_mem _ hj)
    have hsome := fdIndex_eq_ok.mp hk
    have hhead := hset k (by rw [hsome]; exact List.mem_cons_self)
    rw [setMembers, hk, hrun]
    subst hsome
    by_cases hmem : (k : Int) ∈ fds
    · simp [amongReady, hhead.mpr hmem, hmem, bind, Except.bind]
    · have hout : outSet k = false := by simpa using mt hhead.mp hmem
      simp [amongReady, hout, hmem, bind, Except.bind]

end Sets

theorem socketSelect_eq {sockets out : List TCPSocketPtr} (h : ∀ socket ∈ sockets, Fits socket)
    (ready : Option Ready) :
    socketSelect (some sockets) (some out) none none none none ready = .ok
      (match ready with
        | none => ⟨-1, some out, none, none⟩
        | some fds =>
          if fds.count = 0 then ⟨0, some out, none, none⟩
          else ⟨fds.count, some (amongReady fds.read sockets), none, none⟩) := by
  obtain ⟨set, m, hrun, -, -, hput⟩ := @setSockets_ok sockets (fun _ => false) 0 h
  have hfill : fillSetFromVector (some sockets) 0 = .ok (some set, m) := by
    rw [fillSetFromVector, hrun]
    rfl
  cases ready with
  | none => simp only [socketSelect, hfill, fillSetFromVector_none, bind, Except.bind]
  | some fds =>
    have hmembers : fillVectorFromSet (some out) (some sockets)
        (leave (m + 1) fds.read (some set)) = .ok (some (amongReady fds.read sockets)) := by
      rw [leave, Option.map_some, fillVectorFromSet, setMembers_eq h fun k hk => ?_]
      · rfl
      · obtain ⟨hin, hmax⟩ := hput k hk
        simp only [hin, Bool.true_and, decide_eq_true_eq]
        exact ⟨And.right, fun hmem => ⟨by omega, hmem⟩⟩
    by_cases hcount : fds.count = 0
    · simp only [socketSelect, hfill, fillSetFromVector_none, bind, Except.bind, if_pos hcount]
    · simp only [socketSelect, hfill, fillSetFromVector_none, hmembers, fillVectorFromSet_none,
        bind, Except.bind, if_neg hcount]

theorem fits_of_socketSelect {sockets : List TCPSocketPtr}
    {outReadSet inWriteSet outWriteSet inExceptSet outExceptSet : Option (List TCPSocketPtr)}
    {ready : Option Ready} {r : Selected}
    (h : socketSelect (some sockets) outReadSet inWriteSet outWriteSet inExceptSet outExceptSet
      ready = .ok r) : ∀ socket ∈ sockets, Fits socket := by
  obtain ⟨_, hfill, -⟩ := Fallible.bind_eq_ok.mp h
  obtain ⟨_, hset, -⟩ := Fallible.bind_eq_ok.mp hfill
  exact setSockets_fits hset

end EchoSelectServ
