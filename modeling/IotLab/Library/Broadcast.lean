import IotLab.Library.Transitions
import Mathlib.Data.List.Nodup

/-!
Broadcast in a group whose members come and go: what is posted is delivered to every member
once. Stated over the deliveries themselves, for any members and messages.
-/

set_option autoImplicit false

namespace Broadcast
open Transitions

/-- A post carries what was delivered because of it, and to whom. -/
inductive Label (Member Message : Type) where
  | join (m : Member)
  | leave (m : Member)
  | post (sender : Member) (message : Message) (deliveries : List (Member × Message))
  deriving DecidableEq

variable {Member Message : Type}

def posted (ls : List (Label Member Message)) : List (Member × Message) :=
  ls.filterMap fun
    | .post m message _ => some (m, message)
    | .join _ => none
    | .leave _ => none

theorem posted_cons (l : Label Member Message) (ls : List (Label Member Message)) :
    posted (l :: ls) = posted [l] ++ posted ls := by
  cases l <;> simp [posted]

variable [DecidableEq Member]

inductive Step : List Member → Label Member Message → List Member → Prop where
  | join {ms : List Member} {m : Member} (h : m ∉ ms) : Step ms (.join m) (ms ++ [m])
  | leave {ms : List Member} {m : Member} (h : m ∈ ms) : Step ms (.leave m) (ms.erase m)
  | post {ms : List Member} {m : Member} {message : Message}
      {deliveries : List (Member × Message)} (hsender : m ∈ ms)
      (h : deliveries.Perm (ms.map fun k => (k, message))) :
      Step ms (.post m message deliveries) ms

def group : System (List Member) (Label Member Message) where
  init ms := ms = []
  step := Step

/-- What one step delivers to a member. -/
def Label.deliveredTo (m : Member) : Label Member Message → List Message
  | .post _ _ deliveries => (deliveries.filter fun d => d.1 = m).map (·.2)
  | .join _ => []
  | .leave _ => []

def received (m : Member) (ls : List (Label Member Message)) : List Message :=
  ls.flatMap (Label.deliveredTo m)

section Group
variable {ms ms' : List Member} {m k : Member} {l : Label Member Message}
  {ls xs ys : List (Label Member Message)}

theorem Step.nodup (h : Step ms l ms') (hms : ms.Nodup) : ms'.Nodup := by
  cases h with
  | join hm => exact List.nodup_append.mpr ⟨hms, List.nodup_singleton _, by
      rintro a ha b hb rfl
      exact hm (List.mem_singleton.mp hb ▸ ha)⟩
  | leave _ => exact hms.erase _
  | post => exact hms

theorem run_nodup (h : Run group ms ls ms') (hms : ms.Nodup) : ms'.Nodup := by
  induction h with
  | nil => exact hms
  | cons hstep _ ih => exact ih (Step.nodup hstep hms)

theorem Step.mem_iff (h : Step ms l ms') (hms : ms.Nodup) :
    k ∈ ms' ↔ l = .join k ∨ (k ∈ ms ∧ l ≠ .leave k) := by
  cases h with
  | join => simp [or_comm, eq_comm]
  | leave => simp [hms.mem_erase_iff, and_comm, eq_comm]
  | post => simp

theorem member_run (h : Run group ms ls ms') (hms : ms.Nodup) (hk : k ∈ ms)
    (hls : ∀ l ∈ ls, l ≠ .leave k) : k ∈ ms' := by
  induction h with
  | nil => exact hk
  | cons hstep _ ih =>
    have hstay := (Step.mem_iff hstep hms).mpr (.inr ⟨hk, hls _ List.mem_cons_self⟩)
    exact ih (Step.nodup hstep hms) hstay (fun l hl => hls l (List.mem_cons_of_mem _ hl))

theorem Step.delivered (h : Step ms l ms') (hms : ms.Nodup) :
    l.deliveredTo k = if k ∈ ms then (posted [l]).map (·.2) else [] := by
  cases h with
  | join => simp [Label.deliveredTo, posted]
  | leave => simp [Label.deliveredTo, posted]
  | @post m message deliveries _ h =>
    have hfilter := (h.filter fun d => d.1 = k).map (·.2)
    have hmap : ((ms.map fun k => (k, message)).filter fun d => d.1 = k).map (·.2) =
        (ms.filter (· = k)).map fun _ => message := by
      rw [List.filter_map, List.map_map]
      rfl
    rw [hmap, List.filter_eq] at hfilter
    split
    · rename_i hk
      rw [List.count_eq_one_of_mem hms hk] at hfilter
      simpa [Label.deliveredTo, posted] using hfilter
    · rename_i hk
      rw [List.count_eq_zero_of_not_mem hk] at hfilter
      simpa [Label.deliveredTo, posted] using hfilter

/-- From a member's joining until it leaves, it is delivered what was posted, in order. -/
theorem received_member (h : Run group ms ls ms') (hms : ms.Nodup) (hk : k ∈ ms)
    (hls : ∀ l ∈ ls, l ≠ .leave k) : received k ls = (posted ls).map (·.2) := by
  induction h with
  | nil => rfl
  | @cons _ _ _ l ls hstep _ ih =>
    have hstay := ((Step.mem_iff hstep hms).mpr (.inr ⟨hk, hls l List.mem_cons_self⟩))
    have hrest := ih (Step.nodup hstep hms) hstay (fun m hm => hls m (List.mem_cons_of_mem _ hm))
    rw [received, List.flatMap_cons, posted_cons, List.map_append, ← hrest,
      Step.delivered hstep hms, if_pos hk]
    rfl

theorem received_outsider (h : Run group ms ls ms') (hms : ms.Nodup) (hk : k ∉ ms)
    (hls : ∀ l ∈ ls, l ≠ .join k) : received k ls = [] := by
  induction h with
  | nil => rfl
  | @cons _ _ _ l ls hstep _ ih =>
    have hout := mt (Step.mem_iff hstep hms).mp
      (not_or.mpr ⟨hls l List.mem_cons_self, fun hm => hk hm.1⟩)
    have hrest := ih (Step.nodup hstep hms) hout (fun m hm => hls m (List.mem_cons_of_mem _ hm))
    rw [received, List.flatMap_cons, Step.delivered hstep hms, if_neg hk]
    exact hrest

theorem joined_mem (h : Run group ms (.join k :: ls) ms') :
    ∃ ms₁, k ∈ ms₁ ∧ (ms.Nodup → ms₁.Nodup) ∧ Run group ms₁ ls ms' := by
  cases h with
  | cons hstep hrest =>
    refine ⟨_, ?_, fun hms => Step.nodup hstep hms, hrest⟩
    cases hstep with
    | join => exact List.mem_append_right _ (List.mem_singleton_self _)

theorem left_not_mem (h : Run group ms (.leave k :: ls) ms') (hms : ms.Nodup) :
    ∃ ms₁, k ∉ ms₁ ∧ ms₁.Nodup ∧ Run group ms₁ ls ms' := by
  cases h with
  | cons hstep hrest =>
    refine ⟨_, ?_, Step.nodup hstep hms, hrest⟩
    cases hstep with
    | leave => exact hms.not_mem_erase

/-- Who has joined and not left has been delivered all that was posted since, in one order. -/
theorem joined_received (h : Run group [] (xs ++ .join k :: ys) ms)
    (hys : ∀ l ∈ ys, l ≠ .leave k) : received k ys = (posted ys).map (·.2) := by
  obtain ⟨ms₁, hbefore, h⟩ := h.split
  obtain ⟨ms₂, hk, hnodup, h⟩ := joined_mem h
  exact received_member h (hnodup (run_nodup hbefore List.nodup_nil)) hk hys

theorem joined_agree {k' : Member} {zs : List (Label Member Message)}
    (h : Run group [] (xs ++ .join k :: (ys ++ .join k' :: zs)) ms)
    (hys : ∀ l ∈ ys, l ≠ .leave k) (hzs : ∀ l ∈ zs, l ≠ .leave k ∧ l ≠ .leave k') :
    received k zs = received k' zs := by
  obtain ⟨ms₁, hbefore, h⟩ := h.split
  have hnodup := run_nodup hbefore List.nodup_nil
  obtain ⟨ms₂, hk, hms₂, h⟩ := joined_mem h
  obtain ⟨ms₃, hmid, h⟩ := h.split
  have hk₃ := member_run hmid (hms₂ hnodup) hk hys
  have hnodup₃ := run_nodup hmid (hms₂ hnodup)
  cases h with
  | cons hstep hrest =>
    have hk₄ := (Step.mem_iff hstep hnodup₃).mpr (.inr ⟨hk₃, by simp⟩)
    have hk' := (Step.mem_iff hstep hnodup₃).mpr (.inl rfl)
    have hnodup₄ := Step.nodup hstep hnodup₃
    rw [received_member hrest hnodup₄ hk₄ (fun l hl => (hzs l hl).1),
      received_member hrest hnodup₄ hk' (fun l hl => (hzs l hl).2)]

theorem left_received (h : Run group [] (xs ++ .leave k :: ys) ms)
    (hys : ∀ l ∈ ys, l ≠ .join k) : received k ys = [] := by
  obtain ⟨ms₁, hbefore, h⟩ := h.split
  obtain ⟨ms₂, hk, hnodup, h⟩ := left_not_mem h (run_nodup hbefore List.nodup_nil)
  exact received_outsider h hnodup hk hys

theorem sender_joined {m : Member} {message : Message} {deliveries : List (Member × Message)}
    {zs : List (Label Member Message)}
    (h : Run group [] (xs ++ .post m message deliveries :: zs) ms) :
    ∃ ys ys', xs = ys ++ .join m :: ys' ∧ ∀ l ∈ ys', l ≠ .leave m := by
  obtain ⟨ms₁, hbefore, h⟩ := h.split
  have hmem : m ∈ ms₁ := by
    cases h with
    | cons hstep _ =>
      cases hstep with
      | post hsender _ => exact hsender
  have hkeep (t : List Member) (l : Label Member Message) (t' : List Member)
      (hstep : Step t l t') (ht : m ∈ t ∧ t.Nodup) (ht' : m ∈ t' ∧ t'.Nodup) : l ≠ .leave m := by
    rcases (hstep.mem_iff ht.2).mp ht'.1 with rfl | ⟨_, hl⟩
    · simp
    · exact hl
  obtain ⟨ys, l, ys', t, t', rfl, hrun, ht, hstep, ht', hys⟩ := hbefore.origin hkeep
    (fun h => List.not_mem_nil h.1) ⟨hmem, run_nodup hbefore List.nodup_nil⟩
  have hnodup := run_nodup hrun List.nodup_nil
  rcases (Step.mem_iff hstep hnodup).mp ht'.1 with rfl | ⟨hold, _⟩
  · exact ⟨ys, ys', rfl, hys⟩
  · exact absurd ⟨hold, hnodup⟩ ht

end Group

end Broadcast
