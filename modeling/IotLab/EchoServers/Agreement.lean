import IotLab.EchoServers.Epoll
import IotLab.EchoServers.Select

set_option autoImplicit false

namespace EchoServers
open HostMemory

def selectEcho : Transitions.System (SelectState × Log) Event :=
  selectserv.observe .empty SelectState.look

def epltEcho : Transitions.System (EpollState × Log) Event :=
  epltserv.observe .empty EpollState.look

def epetEcho : Transitions.System (EpollState × Log) Event :=
  epetserv.observe .empty EpollState.look

abbrev SelectReaches (p : SelectState × Log) : Prop :=
  Transitions.Reachable (selectEcho.restrict fun p e => Fits p.1 e) p

abbrev EpltReaches (p : EpollState × Log) : Prop := Transitions.Reachable epltEcho p

abbrev EpetReaches (p : EpollState × Log) : Prop :=
  Transitions.Reachable (epetEcho.restrict fun p e => TakesAll p.1 e) p

section Servers
variable {p : SelectState × Log} {q : EpollState × Log}

theorem selectEcho_law (h : SelectReaches p) : InSet p.1 ∧ EchoLaw p.1.i p.1.buf p.2 := by
  refine h.invariant (I := fun p => InSet p.1 ∧ EchoLaw p.1.i p.1.buf p.2) ?_ ?_
  · rintro ⟨s, g⟩ ⟨⟨servSock, hs⟩, hg⟩
    obtain ⟨hset, hbuf⟩ := InSet.start hs
    refine ⟨hset, ?_⟩
    simp only at hg ⊢
    rw [hg, hbuf]
    exact .empty
  · rintro ⟨s, g⟩ e ⟨t, g'⟩ _ ⟨hset, hlaw⟩ ⟨hfits, ⟨hmakes, hrun⟩, hg⟩
    obtain ⟨t', hrun', hset', hlaw'⟩ := selectserv_step hset hlaw hmakes hfits
    obtain rfl : t' = t := Except.ok.inj (hrun'.symm.trans hrun)
    exact ⟨hset', hg ▸ hlaw'⟩

theorem epltEcho_law (h : EpltReaches q) : EchoLaw q.1.fd q.1.buf q.2 := by
  refine h.invariant (I := fun q => EchoLaw q.1.fd q.1.buf q.2) ?_ ?_
  · rintro ⟨s, g⟩ ⟨⟨servSock, rfl⟩, rfl⟩
    exact .empty
  · rintro ⟨s, g⟩ e ⟨t, g'⟩ _ hlaw ⟨hstep, hg⟩
    exact hg ▸ epltserv_step hlaw hstep

theorem epetEcho_law (h : EpetReaches q) : EchoLaw q.1.fd q.1.buf q.2 := by
  refine h.invariant (I := fun q => EchoLaw q.1.fd q.1.buf q.2) ?_ ?_
  · rintro ⟨s, g⟩ ⟨⟨servSock, rfl⟩, rfl⟩
    exact .empty
  · rintro ⟨s, g⟩ e ⟨t, g'⟩ _ hlaw ⟨htakes, hstep, hg⟩
    exact hg ▸ epetserv_step hlaw htakes hstep

end Servers

theorem EchoLaw.agree {fd fd' x x' : Int} {g g' : Log} (h : EchoLaw fd none g)
    (h' : EchoLaw fd' none g') (hread : g.read x = g'.read x') : g.written x = g'.written x' := by
  have hx := h x
  have hx' := h' x'
  simp only [Buf.bytes, ite_self, List.append_nil] at hx hx'
  rw [← hx, ← hx', hread]

/-- Each server writes back what it read; none of its accesses is outside a set; and the three
agree on what they have read alike. -/
structure EchoServersLaw (s : SelectState × Log) (l e : EpollState × Log) : Prop where
  select : EchoLaw s.1.i s.1.buf s.2
  level : EchoLaw l.1.fd l.1.buf l.2
  edge : EchoLaw e.1.fd e.1.buf e.2
  inSet : ∀ call, s.1.makes call → Fits s.1 call → ∃ t, selectservStep s.1 call = .ok t
  agree : s.1.buf = none → l.1.buf = none → e.1.buf = none → ∀ x y z,
    s.2.read x = l.2.read y → l.2.read y = e.2.read z →
    s.2.written x = l.2.written y ∧ l.2.written y = e.2.written z

theorem echo_servers_law {s : SelectState × Log} {l e : EpollState × Log} (hs : SelectReaches s)
    (hl : EpltReaches l) (he : EpetReaches e) : EchoServersLaw s l e := by
  obtain ⟨hset, hslaw⟩ := selectEcho_law hs
  have hllaw := epltEcho_law hl
  have helaw := epetEcho_law he
  refine ⟨hslaw, hllaw, helaw, fun call hmakes hfits => ?_, fun hsb hlb heb x y z hxy hyz => ?_⟩
  · obtain ⟨t, hrun, -⟩ := selectserv_step hset hslaw hmakes hfits
    exact ⟨t, hrun⟩
  · rw [hsb] at hslaw
    rw [hlb] at hllaw
    rw [heb] at helaw
    exact ⟨hslaw.agree hllaw hxy, hllaw.agree helaw hyz⟩

def nextCall {σ : Type} (makes : σ → Event → Prop) [∀ s e, Decidable (makes s e)]
    (step : σ → Event → Option σ) (s : σ) (e : Event) : Option (Event × σ) :=
  if makes s e then (step s e).map fun t => (e, t) else none

theorem nextCall_step {σ : Type} {S : Transitions.System σ Event} {makes ok : σ → Event → Prop}
    [∀ s e, Decidable (makes s e)] {step : σ → Event → Option σ}
    (hS : ∀ s e t, makes s e → step s e = some t → ok s e ∧ S.step s e t) (s : σ) (e l : Event)
    (t : σ) (h : nextCall makes step s e = some (l, t)) : id l = e ∧ ok s e ∧ S.step s l t := by
  unfold nextCall at h
  split at h
  · rename_i hmakes
    obtain ⟨t', ht', heq⟩ := Option.map_eq_some_iff.mp h
    cases heq
    exact ⟨rfl, hS s e t hmakes ht'⟩
  · contradiction

theorem reaches_of_runsTo {σ : Type} {S : Transitions.System σ Event}
    {makes ok : σ → Event → Prop} [∀ s e, Decidable (makes s e)] {step : σ → Event → Option σ}
    {look : Log → σ → Event → σ → Log} {test : σ × Log → Bool} {events : List Event} {s : σ}
    (hS : ∀ s e t, makes s e → step s e = some t → ok s e ∧ S.step s e t) (hs : S.init s)
    (h : Transitions.runsTo (Transitions.observeNext (nextCall makes step) look) test (s, .empty)
      events = true) :
    ∃ p, Transitions.Reachable ((S.observe .empty look).restrict fun p e => ok p.1 e) p ∧
      test p = true := by
  obtain ⟨p, ls, -, hrun, htest⟩ :=
    Transitions.run_of_runsTo (Transitions.observeNext_step (nextCall_step hS)) h
  exact ⟨p, hrun.reachable (.init ⟨hs, rfl⟩), htest⟩

theorem selectserv_next (s : SelectState) (e : Event) (t : SelectState)
    (h : s.makes e ∧ Fits s e) (hrun : (selectservStep s e).toOption = some t) :
    Fits s e ∧ selectserv.step s e t :=
  ⟨h.2, h.1, Fallible.toOption_eq_some.mp hrun⟩

theorem epltserv_next (s : EpollState) (e : Event) (t : EpollState)
    (h : s.makes 40 e ∧ TakesAll s e) (hrun : some (epltservStep s e) = some t) :
    True ∧ epltserv.step s e t :=
  ⟨trivial, h.1, h.2, (Option.some.inj hrun).symm⟩

theorem epetserv_next {ok : EpollState → Event → Prop} (s : EpollState) (e : Event)
    (t : EpollState) (h : s.makes 4 e ∧ ok s e) (hrun : some (epetservStep s e) = some t) :
    ok s e ∧ epetserv.step s e t :=
  ⟨h.2, h.1, (Option.some.inj hrun).symm⟩

def greeting : List Event :=
  [.wait (some [3]), .accept (some 5), .wait (some [5]), .read (.data [104, 105]), .write 2]

theorem echo_servers_greeting : ∃ s l e, EchoServersLaw s l e ∧ s.2.written 5 = [104, 105] ∧
    l.2.written 5 = [104, 105] ∧ e.2.written 5 = [104, 105] := by
  obtain ⟨s, hs, hs5⟩ := @reaches_of_runsTo _ _ _ _ _ _ SelectState.look
    (fun p => p.2.written 5 = [104, 105]) greeting _ selectserv_next ⟨3, rfl⟩ (by decide +kernel)
  obtain ⟨l, hl, hl5⟩ := @reaches_of_runsTo _ _ _ _ _ _ EpollState.look
    (fun p => p.2.written 5 = [104, 105]) greeting _ epltserv_next ⟨3, rfl⟩ (by decide +kernel)
  obtain ⟨e, he, he5⟩ := @reaches_of_runsTo _ _ _ _ _ _ EpollState.look
    (fun p => p.2.written 5 = [104, 105]) (greeting ++ [.read (.failed true)]) _
    (@epetserv_next TakesAll) ⟨3, rfl⟩ (by decide +kernel)
  exact ⟨s, l, e, echo_servers_law hs hl.of_restrict he, of_decide_eq_true hs5,
    of_decide_eq_true hl5, of_decide_eq_true he5⟩

/-- The client is slow to read: `write` takes two bytes of four, and the other two are lost. -/
theorem epetserv_loses_bytes : ∃ e, Transitions.Reachable epetEcho e ∧
    e.2.read 5 = [97, 98, 99, 100] ∧ e.2.written 5 = [97, 98] ∧ e.1.buf = none ∧
    ¬EchoLaw e.1.fd e.1.buf e.2 := by
  obtain ⟨e, he, htest⟩ := @reaches_of_runsTo _ _ _ _ _ _ EpollState.look
    (fun p => p.2.read 5 = [97, 98, 99, 100] ∧ p.2.written 5 = [97, 98] ∧ p.1.buf = none)
    [.wait (some [3]), .accept (some 5), .wait (some [5]), .read (.data [97, 98, 99, 100]),
      .write 2, .read (.failed true)] _
    (@epetserv_next fun _ _ => True) ⟨3, rfl⟩ (by decide +kernel)
  obtain ⟨hread, hwritten, hbuf⟩ := of_decide_eq_true htest
  refine ⟨e, he.of_restrict, hread, hwritten, hbuf, fun hlaw => ?_⟩
  have h5 := hlaw 5
  rw [hread, hwritten, hbuf] at h5
  simp [Buf.bytes] at h5

end EchoServers
