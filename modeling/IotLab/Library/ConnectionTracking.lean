import IotLab.Library.Transitions
import Mathlib.Logic.Function.Basic

/-!
Connection tracking: servers come and go, a client is admitted to a server under a port of its
own, and traffic is passed on both ways. This is what an address-translating balancer is for,
over any types of clients, servers, addresses and ports.
-/

set_option autoImplicit false

namespace ConnectionTracking
open Transitions

/-- The address of every server that is up, and the server and the port of every
connection. -/
@[ext]
structure Tracker (Client Server Addr Port : Type) where
  server : Server → Option Addr
  conn : Client → Option (Server × Port)

inductive Label (Client Server Addr Port : Type) where
  | join (v : Server) (a : Addr)
  | leave (v : Server)
  | accept (c : Client) (v : Server) (p : Port)
  | forward (c : Client) (v : Server) (a : Addr) (p : Port)
  | reply (p : Port) (c : Client)
  | close (c : Client)
  deriving DecidableEq

variable {Client Server Addr Port : Type}

def Label.Ends (c : Client) (v : Server) : Label Client Server Addr Port → Prop
  | .close c' => c' = c
  | .leave v' => v' = v
  | .join _ _ => False
  | .accept _ _ _ => False
  | .forward _ _ _ _ => False
  | .reply _ _ => False

def Tracker.start : Tracker Client Server Addr Port := ⟨fun _ => none, fun _ => none⟩

variable (t : Tracker Client Server Addr Port)

section Servers
variable [DecidableEq Server]

def Tracker.join (v : Server) (a : Addr) : Tracker Client Server Addr Port :=
  { t with server := Function.update t.server v (some a) }

def Tracker.leave (v : Server) : Tracker Client Server Addr Port where
  server := Function.update t.server v none
  conn c := (t.conn c).filter fun x => x.1 ≠ v

end Servers

section Clients
variable [DecidableEq Client]

def Tracker.accept (c : Client) (v : Server) (p : Port) : Tracker Client Server Addr Port :=
  { t with conn := Function.update t.conn c (some (v, p)) }

def Tracker.close (c : Client) : Tracker Client Server Addr Port :=
  { t with conn := Function.update t.conn c none }

end Clients

variable {t} {u : Tracker Client Server Addr Port} {c c' : Client} {v v' : Server}
  {a a' : Addr} {p p' : Port}

@[simp] theorem join_conn [DecidableEq Server] : (t.join v a).conn = t.conn := rfl

@[simp] theorem accept_server [DecidableEq Client] :
    (t.accept c v p).server = t.server := rfl

@[simp] theorem close_server [DecidableEq Client] : (t.close c).server = t.server := rfl

theorem join_server [DecidableEq Server] : (t.join v' a').server v = some a ↔
    (v = v' ∧ a = a') ∨ (v ≠ v' ∧ t.server v = some a) := by
  by_cases h : v = v'
  · subst h
    simp [Tracker.join, eq_comm]
  · simp [Tracker.join, h]

theorem leave_server [DecidableEq Server] :
    (t.leave v').server v = some a ↔ v ≠ v' ∧ t.server v = some a := by
  by_cases h : v = v'
  · subst h
    simp [Tracker.leave]
  · simp [Tracker.leave, h]

theorem leave_conn [DecidableEq Server] :
    (t.leave v').conn c = some (v, p) ↔ v ≠ v' ∧ t.conn c = some (v, p) := by
  simp only [Tracker.leave, Option.filter_eq_some_iff, decide_eq_true_eq, and_comm]

theorem accept_conn [DecidableEq Client] : (t.accept c' v' p').conn c = some (v, p) ↔
    (c = c' ∧ v = v' ∧ p = p') ∨ (c ≠ c' ∧ t.conn c = some (v, p)) := by
  by_cases h : c = c'
  · subst h
    simp [Tracker.accept, eq_comm]
  · simp [Tracker.accept, h]

theorem close_conn [DecidableEq Client] :
    (t.close c').conn c = some (v, p) ↔ c ≠ c' ∧ t.conn c = some (v, p) := by
  by_cases h : c = c'
  · subst h
    simp [Tracker.close]
  · simp [Tracker.close, h]

/-- Connections lead to servers that are up, and no two of them share a port. -/
structure Tracker.Kept (t : Tracker Client Server Addr Port) : Prop where
  up : ∀ c v p, t.conn c = some (v, p) → ∃ a, t.server v = some a
  inj : ∀ c c' v v' p, t.conn c = some (v, p) → t.conn c' = some (v', p) → c = c'

theorem Tracker.Kept.port_iff (h : t.Kept) (hc : t.conn c = some (v, p))
    (hc' : t.conn c' = some (v', p')) : p' = p ↔ c' = c := by
  constructor
  · rintro rfl
    exact h.inj c' c v' v p' hc' hc
  · rintro rfl
    rw [hc] at hc'
    cases hc'
    rfl

theorem start_kept : (Tracker.start : Tracker Client Server Addr Port).Kept :=
  ⟨fun _ _ _ hc => by contradiction, fun _ _ _ _ _ hc => by contradiction⟩

theorem Tracker.Kept.fewer (h : t.Kept)
    (hconn : ∀ c v p, u.conn c = some (v, p) → t.conn c = some (v, p))
    (hup : ∀ c v p a, u.conn c = some (v, p) → t.server v = some a → u.server v = some a) :
    u.Kept := by
  constructor
  · intro c v p hc
    obtain ⟨a, ha⟩ := h.up c v p (hconn c v p hc)
    exact ⟨a, hup c v p a hc ha⟩
  · intro c c' v v' p hc hc'
    exact h.inj c c' v v' p (hconn c v p hc) (hconn c' v' p hc')

section Tracking
variable [DecidableEq Client] [DecidableEq Server]

inductive Step : Tracker Client Server Addr Port → Label Client Server Addr Port →
    Tracker Client Server Addr Port → Prop where
  | join {t : Tracker Client Server Addr Port} {v : Server} {a : Addr}
      (hdown : t.server v = none) : Step t (.join v a) (t.join v a)
  | leave {t : Tracker Client Server Addr Port} {v : Server} {a : Addr}
      (hup : t.server v = some a) : Step t (.leave v) (t.leave v)
  | accept {t : Tracker Client Server Addr Port} {c : Client} {v : Server} {a : Addr}
      {p : Port} (hnew : t.conn c = none) (hup : t.server v = some a)
      (hfree : ∀ c' v', t.conn c' ≠ some (v', p)) : Step t (.accept c v p) (t.accept c v p)
  | forward {t : Tracker Client Server Addr Port} {c : Client} {v : Server} {a : Addr}
      {p : Port} (hconn : t.conn c = some (v, p)) (hup : t.server v = some a) :
      Step t (.forward c v a p) t
  | reply {t : Tracker Client Server Addr Port} {c : Client} {v : Server} {p : Port}
      (hconn : t.conn c = some (v, p)) : Step t (.reply p c) t
  | close {t : Tracker Client Server Addr Port} {c : Client} {v : Server} {p : Port}
      (hconn : t.conn c = some (v, p)) : Step t (.close c) (t.close c)

def tracking : System (Tracker Client Server Addr Port) (Label Client Server Addr Port) where
  init t := t = .start
  step := Step

variable {l : Label Client Server Addr Port} {ls : List (Label Client Server Addr Port)}

/-- What a step does to a connection: it opens it, or it was there before, and then it stays
unless the step ends it. -/
theorem Step.conn_iff (h : Step t l u) :
    u.conn c = some (v, p) ↔
      l = .accept c v p ∨ (t.conn c = some (v, p) ∧ ¬l.Ends c v) := by
  cases h with
  | join => simp [Label.Ends]
  | leave => rw [leave_conn, and_comm, ne_comm]; simp [Label.Ends]
  | @accept c₀ v₀ a₀ p₀ hnew _ _ =>
    rw [accept_conn]
    by_cases hc : c = c₀
    · subst hc
      simp [Label.Ends, hnew, eq_comm]
    · simp [Label.Ends, hc, Ne.symm hc]
  | forward => simp [Label.Ends]
  | reply => simp [Label.Ends]
  | close => rw [close_conn, and_comm, ne_comm]; simp [Label.Ends]

theorem Step.server_iff (h : Step t l u) :
    u.server v = some a ↔ l = .join v a ∨ (t.server v = some a ∧ l ≠ .leave v) := by
  cases h with
  | @join v₀ a₀ hdown =>
    rw [join_server]
    by_cases hv : v = v₀
    · subst hv
      simp [hdown, eq_comm]
    · simp [hv, Ne.symm hv]
  | leave => rw [leave_server, and_comm, ne_comm]; simp
  | accept => simp
  | forward => simp
  | reply => simp
  | close => simp

theorem Step.kept (h : Step t l u) (ht : t.Kept) : u.Kept := by
  cases h with
  | @join v₀ a₀ hdown =>
    refine ht.fewer (fun _ _ _ hc => hc) (fun c v p a _ ha => join_server.mpr (.inr ⟨?_, ha⟩))
    rintro rfl
    rw [hdown] at ha
    contradiction
  | leave =>
    refine ht.fewer (fun _ _ _ hc => (leave_conn.mp hc).2) (fun _ _ _ _ hc ha => ?_)
    exact leave_server.mpr ⟨(leave_conn.mp hc).1, ha⟩
  | @accept c₀ v₀ a₀ p₀ _ hup hfree =>
    constructor
    · intro c v p hc
      rcases accept_conn.mp hc with ⟨_, rfl, _⟩ | ⟨_, hold⟩
      · exact ⟨a₀, hup⟩
      · exact ht.up c v p hold
    · intro c c' v v' p hc hc'
      rcases accept_conn.mp hc with ⟨rfl, _, rfl⟩ | ⟨_, hold⟩
      · rcases accept_conn.mp hc' with ⟨rfl, _, _⟩ | ⟨_, hold'⟩
        · rfl
        · exact absurd hold' (hfree c' v')
      · rcases accept_conn.mp hc' with ⟨rfl, _, rfl⟩ | ⟨_, hold'⟩
        · exact absurd hold (hfree c v)
        · exact ht.inj c c' v v' p hold hold'
  | forward => exact ht
  | reply => exact ht
  | close => exact ht.fewer (fun _ _ _ hc => (close_conn.mp hc).2) (fun _ _ _ _ _ ha => ha)

theorem run_kept (h : Run tracking t ls u) (ht : t.Kept) : u.Kept := by
  induction h with
  | nil => exact ht
  | cons hstep _ ih => exact ih (Step.kept hstep ht)

theorem reachable_kept (h : Reachable tracking t) : t.Kept := by
  refine h.invariant (I := Tracker.Kept) ?_ (fun _ _ _ _ hk hstep => Step.kept hstep hk)
  rintro _ rfl
  exact start_kept

theorem conn_run (h : Run tracking t ls u) (hc : t.conn c = some (v, p))
    (hls : ∀ l ∈ ls, ¬l.Ends c v) : u.conn c = some (v, p) := by
  induction h with
  | nil => exact hc
  | cons hstep _ ih =>
    have hkept := (Step.conn_iff hstep).mpr (.inr ⟨hc, hls _ List.mem_cons_self⟩)
    exact ih hkept (fun l hl => hls l (List.mem_cons_of_mem _ hl))

theorem server_run (h : Run tracking t ls u) (hv : t.server v = some a)
    (hls : ∀ l ∈ ls, l ≠ .leave v) : u.server v = some a := by
  induction h with
  | nil => exact hv
  | cons hstep _ ih =>
    have hkept := (Step.server_iff hstep).mpr (.inr ⟨hv, hls _ List.mem_cons_self⟩)
    exact ih hkept (fun l hl => hls l (List.mem_cons_of_mem _ hl))

/-- A connection that stands goes back to its admission, and was not ended since. -/
theorem conn_origin (h : Run tracking .start ls u) (hc : u.conn c = some (v, p)) :
    ∃ xs ys, ls = xs ++ .accept c v p :: ys ∧ ∀ l ∈ ys, ¬l.Ends c v := by
  have hkeep (t : Tracker Client Server Addr Port) (l : Label Client Server Addr Port)
      (t' : Tracker Client Server Addr Port) (hstep : Step t l t')
      (_ : t.conn c = some (v, p)) (ht' : t'.conn c = some (v, p)) : ¬l.Ends c v := by
    rcases hstep.conn_iff.mp ht' with rfl | ⟨_, hl⟩
    · exact id
    · exact hl
  obtain ⟨xs, l, ys, t, t', rfl, _, ht, hstep, ht', hys⟩ :=
    h.origin hkeep (by rintro ⟨⟩) hc
  rcases (Step.conn_iff hstep).mp ht' with rfl | ⟨hold, _⟩
  · exact ⟨xs, ys, rfl, hys⟩
  · exact absurd hold ht

theorem server_origin (h : Run tracking .start ls u) (hv : u.server v = some a) :
    ∃ xs ys, ls = xs ++ .join v a :: ys ∧ ∀ l ∈ ys, l ≠ .leave v := by
  have hkeep (t : Tracker Client Server Addr Port) (l : Label Client Server Addr Port)
      (t' : Tracker Client Server Addr Port) (hstep : Step t l t')
      (_ : t.server v = some a) (ht' : t'.server v = some a) : l ≠ .leave v := by
    rcases hstep.server_iff.mp ht' with rfl | ⟨_, hl⟩
    · simp
    · exact hl
  obtain ⟨xs, l, ys, t, t', rfl, _, ht, hstep, ht', hys⟩ :=
    h.origin hkeep (by rintro ⟨⟩) hv
  rcases (Step.server_iff hstep).mp ht' with rfl | ⟨hold, _⟩
  · exact ⟨xs, ys, rfl, hys⟩
  · exact absurd hold ht

variable {xs ys zs : List (Label Client Server Addr Port)}

theorem forward_known (h : Run tracking t (.forward c v a p :: ls) u) :
    t.conn c = some (v, p) ∧ t.server v = some a ∧ Run tracking t ls u := by
  cases h with
  | cons hstep hrest =>
    cases hstep with
    | forward hconn hup => exact ⟨hconn, hup, hrest⟩

theorem opened (h : Run tracking t [.accept c v p, .forward c v a p] u) :
    u.conn c = some (v, p) ∧ u.server v = some a := by
  cases h with
  | cons _ hrest =>
    obtain ⟨hconn, hup, hnil⟩ := forward_known hrest
    cases hnil
    exact ⟨hconn, hup⟩

theorem reply_known (h : Run tracking t (.reply p c :: ls) u) :
    ∃ v, t.conn c = some (v, p) := by
  cases h with
  | cons hstep _ =>
    cases hstep with
    | reply hconn => exact ⟨_, hconn⟩

/-- While a connection is not ended, everything forwarded for its client goes to one server
at one address, under one port. -/
theorem forwards_agree
    (h : Run tracking t (xs ++ .forward c v a p :: (ys ++ .forward c v' a' p' :: zs)) u)
    (hys : ∀ l ∈ ys, ¬l.Ends c v) : v' = v ∧ a' = a ∧ p' = p := by
  obtain ⟨t₁, _, h⟩ := h.split
  obtain ⟨hconn, hup, h⟩ := forward_known h
  obtain ⟨t₂, hmid, h⟩ := h.split
  obtain ⟨hconn', hup', _⟩ := forward_known h
  have hsame := conn_run hmid hconn hys
  have hstay : t₂.server v = some a := by
    refine server_run hmid hup (fun l hl heq => hys l hl ?_)
    rw [heq]
    rfl
  rw [hsame] at hconn'
  cases hconn'
  rw [hstay] at hup'
  cases hup'
  exact ⟨rfl, rfl, rfl⟩

theorem reply_routed
    (h : Run tracking .start (xs ++ .forward c v a p :: (ys ++ .reply p c' :: zs)) u)
    (hys : ∀ l ∈ ys, ¬l.Ends c v) : c' = c := by
  obtain ⟨t₁, hbefore, h⟩ := h.split
  obtain ⟨hconn, _, h⟩ := forward_known h
  obtain ⟨t₂, hmid, h⟩ := h.split
  obtain ⟨v', hconn'⟩ := reply_known h
  have hkept := run_kept hmid (run_kept hbefore start_kept)
  exact hkept.inj c' c v' v p hconn' (conn_run hmid hconn hys)

theorem forward_origin (h : Run tracking .start (xs ++ .forward c v a p :: zs) u) :
    (∃ ys ys', xs = ys ++ .accept c v p :: ys' ∧ ∀ l ∈ ys', ¬l.Ends c v) ∧
      ∃ ys ys', xs = ys ++ .join v a :: ys' ∧ ∀ l ∈ ys', l ≠ .leave v := by
  obtain ⟨t₁, hbefore, h⟩ := h.split
  obtain ⟨hconn, hup, _⟩ := forward_known h
  exact ⟨conn_origin hbefore hconn, server_origin hbefore hup⟩

theorem reply_origin (h : Run tracking .start (xs ++ .reply p c :: zs) u) :
    ∃ v ys ys', xs = ys ++ .accept c v p :: ys' ∧ ∀ l ∈ ys', ¬l.Ends c v := by
  obtain ⟨t₁, hbefore, h⟩ := h.split
  obtain ⟨v, hconn⟩ := reply_known h
  exact ⟨v, conn_origin hbefore hconn⟩

end Tracking

end ConnectionTracking
