import IotLab.Library.Fallible
import IotLab.Library.SlotTable
import IotLab.EchoServers.Calls

set_option autoImplicit false

namespace EchoServers
open SlotTable

def fdSetSize : Nat := 1024

inductive Fault where
  | outOfBounds
  deriving DecidableEq, Repr

abbrev FdSet := Fin fdSetSize → Bool

def fdIndex (fd : Int) : Except Fault (Fin fdSetSize) := index .outOfBounds fdSetSize fd

def fdSet (fd : Int) (fds : FdSet) : Except Fault FdSet := do
  let k ← fdIndex fd
  .ok (Function.update fds k true)

def fdClr (fd : Int) (fds : FdSet) : Except Fault FdSet := do
  let k ← fdIndex fd
  .ok (Function.update fds k false)

/-- The listening socket, the sets, the loop variable, `buf` and `str_len` between `read` and
`write`, and whether the loop has ended. The `for` loop is over when `i` is above `fd_max`. -/
structure SelectState where
  servSock : Int
  reads : FdSet
  cpyReads : FdSet
  fdMax : Int
  i : Int
  buf : Buf
  ended : Bool

def SelectState.start (servSock : Int) : Except Fault SelectState := do
  let reads ← fdSet servSock fun _ => false
  .ok ⟨servSock, reads, reads, servSock, servSock + 1, none, false⟩

/-- The `for` loop, with `n` rounds to go, up to the next descriptor that is ready. -/
def seek : Nat → SelectState → Except Fault SelectState
  | 0, s => .ok s
  | n + 1, s => do
    let k ← fdIndex s.i
    if s.cpyReads k then .ok s else seek n { s with i := s.i + 1 }

def SelectState.scan (s : SelectState) (i : Int) : Except Fault SelectState :=
  seek (s.fdMax + 1 - i).toNat { s with i := i, buf := none }

def selectservStep (s : SelectState) : Event → Except Fault SelectState
  | .wait none => .ok { s with ended := true }
  | .wait (some []) => .ok { s with cpyReads := fun _ => false }
  | .wait (some (fd :: fds)) =>
    let cpyReads : FdSet := fun k => s.reads k && decide ((k : Int) ∈ fd :: fds)
    { s with cpyReads := cpyReads }.scan 0
  | .accept accepted => do
    let clntSock := accepted.getD (-1)
    let reads ← fdSet clntSock s.reads
    { s with reads := reads, fdMax := max s.fdMax clntSock }.scan (s.i + 1)
  | .read (.data []) => do
    let reads ← fdClr s.i s.reads
    { s with reads := reads }.scan (s.i + 1)
  | .read result => .ok { s with buf := some result }
  | .write _ => s.scan (s.i + 1)

def SelectState.makes (s : SelectState) : Event → Prop
  | .wait _ => s.buf = none ∧ s.ended = false ∧ s.fdMax < s.i
  | .accept _ => s.buf = none ∧ s.i ≤ s.fdMax ∧ s.i = s.servSock
  | .read result => s.buf = none ∧ s.i ≤ s.fdMax ∧ s.i ≠ s.servSock ∧ result.length ≤ 100
  | .write taken => s.buf ≠ none ∧ taken = s.buf.bytes.length

instance SelectState.decidableMakes (s : SelectState) (e : Event) : Decidable (s.makes e) :=
  match e with
  | .wait _ => inferInstanceAs (Decidable (s.buf = none ∧ s.ended = false ∧ s.fdMax < s.i))
  | .accept _ => inferInstanceAs (Decidable (s.buf = none ∧ s.i ≤ s.fdMax ∧ s.i = s.servSock))
  | .read result => inferInstanceAs (Decidable (s.buf = none ∧ s.i ≤ s.fdMax ∧
    s.i ≠ s.servSock ∧ result.length ≤ 100))
  | .write taken => inferInstanceAs (Decidable (s.buf ≠ none ∧ taken = s.buf.bytes.length))

/-- The sockets block, and `write` takes all bytes. -/
def selectserv : Transitions.System SelectState Event where
  init s := ∃ servSock, SelectState.start servSock = .ok s
  step s e t := s.makes e ∧ selectservStep s e = .ok t

def Fits (_ : SelectState) : Event → Prop
  | .accept accepted => accepted.isSome ∧ ∀ fd ∈ accepted, 0 ≤ fd ∧ fd < fdSetSize
  | .wait _ | .read _ | .write _ => True

instance Fits.decidable (s : SelectState) (e : Event) : Decidable (Fits s e) :=
  match e with
  | .accept accepted =>
    inferInstanceAs (Decidable (accepted.isSome ∧ ∀ fd ∈ accepted, 0 ≤ fd ∧ fd < fdSetSize))
  | .wait _ | .read _ | .write _ => inferInstanceAs (Decidable True)

def SelectState.look (g : Log) (s : SelectState) (e : Event) (_ : SelectState) : Log :=
  g.look s.i s.buf e

structure InSet (s : SelectState) : Prop where
  i_nonneg : 0 ≤ s.i
  max_nonneg : 0 ≤ s.fdMax
  max_lt : s.fdMax < fdSetSize
  writing : s.buf ≠ none → s.i ≤ s.fdMax

section Scan
variable {s t : SelectState} {i : Int} {n : Nat}

theorem fdIndex_ok (h : 0 ≤ i) (h' : i < fdSetSize) : ∃ k, fdIndex i = .ok k :=
  ⟨⟨i.toNat, by omega⟩, index_eq_ok.mpr (by simp [h])⟩

theorem seek_ok (h : 0 ≤ s.i) (h' : s.i + n ≤ fdSetSize) :
    ∃ j, s.i ≤ j ∧ seek n s = .ok { s with i := j } := by
  induction n generalizing s with
  | zero => exact ⟨s.i, le_refl _, rfl⟩
  | succ n ih =>
    obtain ⟨k, hk⟩ := fdIndex_ok h (by omega)
    by_cases hset : s.cpyReads k
    · exact ⟨s.i, le_refl _, by simp [seek, hk, hset, bind, Except.bind]⟩
    · obtain ⟨j, hj, hrun⟩ := @ih { s with i := s.i + 1 } (by simp only; omega)
        (by simp only; omega)
      refine ⟨j, by simp only at hj; omega, ?_⟩
      simpa [seek, hk, hset, bind, Except.bind] using hrun

theorem scan_ok (hi : 0 ≤ i) (hmax : s.fdMax < fdSetSize) (hle : i ≤ s.fdMax + 1) :
    ∃ j, i ≤ j ∧ s.scan i = .ok { s with i := j, buf := none } :=
  @seek_ok { s with i := i, buf := none } _ hi (by simp only; omega)

end Scan

section Preserved
variable {s t : SelectState} {g : Log} {e : Event}

theorem InSet.scan (h : InSet s) {i : Int} (hi : 0 ≤ i) (hle : i ≤ s.fdMax + 1) :
    ∃ t, s.scan i = .ok t ∧ InSet t ∧ t.buf = none := by
  obtain ⟨j, hj, hrun⟩ := scan_ok hi h.max_lt hle
  exact ⟨_, hrun, ⟨Int.le_trans hi hj, h.max_nonneg, h.max_lt, fun hne => absurd rfl hne⟩, rfl⟩

theorem InSet.start {servSock : Int} (h : SelectState.start servSock = .ok s) :
    InSet s ∧ s.buf = none := by
  obtain ⟨reads, hreads, hs⟩ := Fallible.bind_eq_ok.mp h
  obtain ⟨k, hk, -⟩ := Fallible.bind_eq_ok.mp hreads
  obtain rfl := index_eq_ok.mp hk
  cases hs
  have hlt := k.isLt
  exact ⟨⟨by simp only; omega, by simp only; omega, by simp only; omega,
    fun hne => absurd rfl hne⟩, rfl⟩

theorem selectserv_step (h : InSet s) (hlaw : EchoLaw s.i s.buf g) (hmakes : s.makes e)
    (hfits : Fits s e) : ∃ t, selectservStep s e = .ok t ∧ InSet t ∧
      EchoLaw t.i t.buf (g.look s.i s.buf e) := by
  have hi := h.i_nonneg
  have hmax := h.max_nonneg
  have hlt := h.max_lt
  cases e with
  | wait ready =>
    have hbuf := hmakes.1
    match ready with
    | none => exact ⟨_, rfl, ⟨hi, hmax, hlt, h.writing⟩, hlaw⟩
    | some [] => exact ⟨_, rfl, ⟨hi, hmax, hlt, h.writing⟩, hlaw⟩
    | some (fd :: fds) =>
      have hset : InSet { s with
          cpyReads := fun k => s.reads k && decide ((k : Int) ∈ fd :: fds) } :=
        ⟨hi, hmax, hlt, h.writing⟩
      obtain ⟨t, hrun, ht, htbuf⟩ := hset.scan (le_refl 0) (by simp only; omega)
      rw [hbuf] at hlaw
      exact ⟨t, hrun, ht, by rw [htbuf]; exact hlaw.idle⟩
  | accept accepted =>
    obtain ⟨hbuf, hle, -⟩ := hmakes
    obtain ⟨fd, rfl⟩ := Option.isSome_iff_exists.mp hfits.1
    obtain ⟨hpos, hroom⟩ := hfits.2 fd rfl
    obtain ⟨k, hk⟩ := fdIndex_ok hpos hroom
    have hset : InSet { s with
        reads := Function.update s.reads k true, fdMax := max s.fdMax fd } :=
      ⟨hi, by simp only; omega, by simp only; omega, fun hne => absurd hbuf hne⟩
    obtain ⟨t, hrun, ht, htbuf⟩ := hset.scan (i := s.i + 1) (by omega) (by simp only; omega)
    rw [hbuf] at hlaw ⊢
    refine ⟨t, ?_, ht, by rw [htbuf]; exact hlaw.accept _⟩
    simpa [selectservStep, fdSet, hk, bind, Except.bind] using hrun
  | read result =>
    obtain ⟨hbuf, hle, -, -⟩ := hmakes
    rw [hbuf] at hlaw ⊢
    match result with
    | .failed again => exact ⟨_, rfl, ⟨hi, hmax, hlt, fun _ => hle⟩, hlaw.read _⟩
    | .data (b :: bytes) => exact ⟨_, rfl, ⟨hi, hmax, hlt, fun _ => hle⟩, hlaw.read _⟩
    | .data [] =>
      obtain ⟨k, hk⟩ := fdIndex_ok hi (by omega)
      have hset : InSet { s with reads := Function.update s.reads k false } :=
        ⟨hi, hmax, hlt, h.writing⟩
      obtain ⟨t, hrun, ht, htbuf⟩ := hset.scan (i := s.i + 1) (by omega) (by simp only; omega)
      refine ⟨t, ?_, ht, by rw [htbuf]; exact hlaw.read_nothing rfl⟩
      simpa [selectservStep, fdClr, hk, bind, Except.bind] using hrun
  | write taken =>
    obtain ⟨hbuf, htaken⟩ := hmakes
    have hle := h.writing hbuf
    obtain ⟨t, hrun, ht, htbuf⟩ := h.scan (i := s.i + 1) (by omega) (by omega)
    exact ⟨t, hrun, ht, by rw [htbuf]; exact hlaw.write htaken⟩

end Preserved

end EchoServers
