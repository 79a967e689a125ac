import Mathlib.Data.List.Nodup
import Mathlib.Logic.Function.Basic

set_option autoImplicit false

namespace FileSystem

abbrev Disk (ν β : Type) := ν → Option (List β)

section Calls
variable {ν β : Type} [DecidableEq ν] (gap : β) (d : Disk ν β) {name other : ν} {pos : Nat}
  {bytes old : List β}

def Disk.create (name : ν) : Disk ν β := Function.update d name (some [])

/-- Bytes written at a position over what is there; a gap before it is filled. -/
def Disk.write (name : ν) (pos : Nat) (bytes : List β) : Disk ν β :=
  if bytes.isEmpty then d
  else
    Function.update d name (some ((((d name).getD []).take pos).rightpad pos gap ++ bytes ++
      ((d name).getD []).drop (pos + bytes.length)))

@[simp] theorem Disk.create_self : d.create name name = some [] := Function.update_self ..

theorem Disk.create_of_ne (h : other ≠ name) : d.create name other = d other :=
  Function.update_of_ne h ..

@[simp] theorem Disk.write_nil : d.write gap name pos [] = d := rfl

theorem Disk.write_end (h : d name = some old) :
    d.write gap name old.length bytes name = some (old ++ bytes) := by
  cases bytes with
  | nil => simp [h]
  | cons b bytes => simp [Disk.write, h, List.rightpad]

theorem Disk.write_of_ne (h : other ≠ name) : d.write gap name pos bytes other = d other := by
  cases bytes with
  | nil => rfl
  | cons b bytes => exact Function.update_of_ne h ..

end Calls

theorem names_modify {σ ν : Type} {name : σ → ν} {g : σ → σ} (hname : ∀ s, name (g s) = name s)
    (streams : List σ) (f : Nat) : (streams.modify f g).map name = streams.map name := by
  induction streams generalizing f with
  | nil => simp
  | cons s streams ih =>
    cases f with
    | zero => simp [hname]
    | succ f => simp [ih]

section Streams

-- A stream is known by the name it was opened under and by what was written through it.
variable {σ ν β : Type} [DecidableEq ν] (gap : β) (name : σ → ν) (written : σ → List β)

/-- The files after the `fopen`s and `fwrite`s that lead from some streams to others. A stream
writes at its own position, whatever the other streams of its file do. -/
def replay (d : Disk ν β) : List σ → List σ → Disk ν β
  | _, [] => d
  | [], s :: after =>
    replay ((d.create (name s)).write gap (name s) 0 (written s)) [] after
  | old :: before, s :: after =>
    replay (d.write gap (name s) (written old).length ((written s).drop (written old).length))
      before after

/-- The files are as the streams left them, and the other files as they were. -/
structure Holds (d₀ d : Disk ν β) (streams : List σ) : Prop where
  held : ∀ s ∈ streams, d (name s) = some (written s)
  other : ∀ n, (∀ s ∈ streams, name s ≠ n) → d n = d₀ n

variable {gap name written} {d₀ d : Disk ν β} {streams : List σ} {s : σ} {f : Nat} {g : σ → σ}
  {bytes : List β}

@[simp] theorem replay_self : replay gap name written d streams streams = d := by
  induction streams generalizing d with
  | nil => rfl
  | cons s streams ih => simp [replay, ih]

theorem replay_opened (hs : written s = []) :
    replay gap name written d streams (streams ++ [s]) = d.create (name s) := by
  induction streams generalizing d with
  | nil => simp [replay, hs]
  | cons t streams ih => simp [replay, ih]

theorem replay_modify (hname : ∀ s, name (g s) = name s)
    (hwritten : ∀ s, written (g s) = written s ++ bytes) (hs : streams[f]? = some s) :
    replay gap name written d streams (streams.modify f g) =
      d.write gap (name s) (written s).length bytes := by
  induction streams generalizing d f with
  | nil => simp at hs
  | cons t streams ih =>
    cases f with
    | zero =>
      obtain rfl : t = s := by simpa using hs
      simp [replay, hname, hwritten]
    | succ f =>
      have hs' : streams[f]? = some s := by simpa using hs
      simp [replay, ih hs']

theorem Holds.opened (h : Holds name written d₀ d streams) (hs : written s = [])
    (hnodup : ((streams ++ [s]).map name).Nodup) :
    Holds name written d₀ (replay gap name written d streams (streams ++ [s]))
      (streams ++ [s]) := by
  have hnew : ∀ t ∈ streams, name t ≠ name s := by
    intro t ht heq
    rw [List.map_append, List.nodup_append] at hnodup
    exact hnodup.2.2 (name t) (List.mem_map_of_mem ht) (name s) (by simp) heq
  rw [replay_opened hs]
  constructor
  · intro t ht
    rcases List.mem_append.mp ht with ht | ht
    · rw [Disk.create_of_ne d (hnew t ht)]
      exact h.held t ht
    · obtain rfl := List.mem_singleton.mp ht
      rw [Disk.create_self, hs]
  · intro n hn
    rw [Disk.create_of_ne d (Ne.symm (hn s (by simp)))]
    exact h.other n fun t ht => hn t (List.mem_append_left _ ht)

/-- What is written through one stream is at the end of its own file, as long as no two streams
have one name. -/
theorem Holds.grown (h : Holds name written d₀ d streams)
    (hname : ∀ s, name (g s) = name s) (hwritten : ∀ s, written (g s) = written s ++ bytes)
    (hs : streams[f]? = some s) (hnodup : (streams.map name).Nodup) :
    Holds name written d₀ (replay gap name written d streams (streams.modify f g))
      (streams.modify f g) := by
  have hmem := List.mem_of_getElem? hs
  rw [replay_modify hname hwritten hs]
  constructor
  · intro t ht
    obtain ⟨i, hi⟩ := List.mem_iff_getElem?.mp ht
    obtain ⟨u, hu, rfl⟩ : ∃ u, streams[i]? = some u ∧ (if f = i then g u else u) = t := by
      simpa [List.getElem?_modify, Option.map_eq_some_iff] using hi
    by_cases hfi : f = i
    · subst hfi
      obtain rfl := Option.some.inj (hs.symm.trans hu)
      rw [if_pos rfl, hname, hwritten]
      exact Disk.write_end gap d (h.held s hmem)
    · rw [if_neg hfi]
      have hne : name u ≠ name s := by
        intro heq
        have hlt : i < (streams.map name).length := by
          simpa using (List.getElem?_eq_some_iff.mp hu).1
        exact hfi ((List.getElem?_inj hlt hnodup).mp (by simp [hu, hs, heq])).symm
      rw [Disk.write_of_ne gap d hne]
      exact h.held u (List.mem_of_getElem? hu)
  · intro n hn
    have hall : ∀ u ∈ streams, name u ≠ n := by
      intro u hu
      have hin := List.mem_map_of_mem (f := name) hu
      rw [← names_modify hname] at hin
      obtain ⟨t, ht, hsame⟩ := List.mem_map.mp hin
      exact hsame ▸ hn t ht
    rw [Disk.write_of_ne gap d (Ne.symm (hall s hmem))]
    exact h.other n hall

end Streams

end FileSystem
