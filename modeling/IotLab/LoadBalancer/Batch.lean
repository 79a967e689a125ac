import IotLab.LoadBalancer.Execution

set_option autoImplicit false

namespace LoadBalancer
open SlotTable HostMemory Fallible

def isReply (cfg : Config) (s : State) : Event → Prop
  | .packet received _ _ => fromServer cfg s.tables (recvInto s.buf received)
  | .join _ _ _ => False
  | .server _ _ _ _ => False

/-- No event but the last of the batch is a reply in the state it meets. -/
def NoEarlyReply (cfg : Config) : State → List Event → Prop
  | _, [] => True
  | s, e :: rest => (rest ≠ [] → ¬isReply cfg s e) ∧
    ∀ s' out x, handle cfg s e = .ok (s', out, x) → NoEarlyReply cfg s' rest

/-- Every hang-up in the batch makes `delete_server_node` close the server of its socket. -/
def HangUpsClosed (events : List Event) (done : List (Event × List Output)) : Prop :=
  ∀ fd reads stack, .server fd reads .eof stack ∈ events →
    ∃ out i, (.server fd reads .eof stack, out) ∈ done ∧ .serverClosed i fd ∈ out

theorem handle_leave_iff {cfg : Config} {s s' : State} {e : Event} {out : List Output}
    {x : LoopExit} (h : handle cfg s e = .ok (s', out, x)) : x = .leave ↔ isReply cfg s e := by
  cases e with
  | join accepted port stack => simp [(handle_join h).2, isReply]
  | server fd reads ending stack => simp [(handle_server h).2, isReply]
  | packet received now minIndex =>
    have hstep := (packet_ok h).1
    generalize s'.tables = u at hstep
    generalize s'.buf = b' at hstep
    simp only [isReply]
    cases hstep with
    | ignored hno =>
      rcases hno with hno | hno
      · simp [hno]
      · simp [hno]
    | unknown hdir => simp [hdir]
    | admitted _ _ _ _ hdir => simp [hdir]
    | forwarded _ _ _ hdir => simp [hdir]
    | released _ _ _ hdir => simp [hdir]
    | relayed _ _ hdir hserv => exact iff_of_true rfl ⟨hdir, hserv⟩
    | relayReleased _ _ _ hdir hserv => exact iff_of_true rfl ⟨hdir, hserv⟩

section Batch
variable {cfg : Config} {s s' : State} {events : List Event}
  {done : List (Event × List Output)}

theorem runBatch_cons {e : Event} (h : runBatch cfg s (e :: events) = .ok (s', done)) :
    ∃ s₁ out x, handle cfg s e = .ok (s₁, out, x) ∧
      ((x = .next ∧ ∃ done', runBatch cfg s₁ events = .ok (s', done') ∧
          done = (e, out) :: done') ∨
        (x = .leave ∧ s' = s₁ ∧ done = [(e, out)])) := by
  obtain ⟨⟨s₁, out, x⟩, hrun, h⟩ := bind_eq_ok.mp h
  refine ⟨s₁, out, x, hrun, ?_⟩
  cases x with
  | next =>
    obtain ⟨⟨s₂, done'⟩, hrest, h⟩ := bind_eq_ok.mp h
    cases h
    exact .inl ⟨rfl, done', hrest, rfl⟩
  | leave =>
    cases h
    exact .inr ⟨rfl, rfl, rfl⟩

/-- The loop handles the events of the batch in order, up to the first reply. -/
theorem runBatch_all_iff (h : runBatch cfg s events = .ok (s', done)) :
    done.map Prod.fst = events ↔ NoEarlyReply cfg s events := by
  induction events generalizing s done with
  | nil =>
    cases h
    simp [NoEarlyReply]
  | cons e rest ih =>
    obtain ⟨s₁, out, x, hrun, hcase⟩ := runBatch_cons h
    have hleave := handle_leave_iff hrun
    have hnext : (∀ s' out x, handle cfg s e = .ok (s', out, x) → NoEarlyReply cfg s' rest) ↔
        NoEarlyReply cfg s₁ rest := by
      constructor
      · intro hall
        exact hall s₁ out x hrun
      · intro hrest s' out' x' hrun'
        rw [hrun] at hrun'
        cases hrun'
        exact hrest
    rw [NoEarlyReply, hnext]
    rcases hcase with ⟨hx, done', hrest, rfl⟩ | ⟨hx, rfl, rfl⟩
    · have hnot : ¬isReply cfg s e := fun hr => by simp [hx] at hleave; exact hleave hr
      simp [ih hrest, hnot]
    · have hreply := hleave.mp hx
      cases rest with
      | nil => simp [NoEarlyReply]
      | cons e' rest => simp [hreply]

theorem runBatch_handled (h : runBatch cfg s events = .ok (s', done)) {e : Event}
    {out : List Output} (hmem : (e, out) ∈ done) :
    ∃ s₁ s₂ x, handle cfg s₁ e = .ok (s₂, out, x) := by
  induction events generalizing s done with
  | nil =>
    cases h
    simp at hmem
  | cons e' rest ih =>
    obtain ⟨s₁, out', x, hrun, hcase⟩ := runBatch_cons h
    rcases hcase with ⟨_, done', hrest, rfl⟩ | ⟨_, _, rfl⟩
    · rcases List.mem_cons.mp hmem with heq | hmem
      · cases heq
        exact ⟨s, s₁, x, hrun⟩
      · exact ih hrest hmem
    · have heq := List.mem_singleton.mp hmem
      cases heq
      exact ⟨s, s₁, x, hrun⟩

theorem hangUp_closes {fd : Int} {reads : List ReadResult} {stack : Mem} {out : List Output}
    {x : LoopExit} (h : handle cfg s (.server fd reads .eof stack) = .ok (s', out, x)) :
    ∃ i, .serverClosed i fd ∈ out := by
  obtain ⟨t, ht, hcase⟩ := serverEvent_ok (handle_server h).1
  rcases hcase with ⟨hend, _⟩ | ⟨_, i, hi, _, hout⟩
  · contradiction
  · have hsock : (t.servList i).sock = fd := by
      rw [ht.servList]
      exact findServer_some hi
    refine ⟨i, ?_⟩
    rw [hout, ← hsock]
    simp [closeServer]

def Occurs (cfg : Config) : State → List Event → Prop
  | _, [] => True
  | s, e :: rest => e.canOccur s ∧
    ∀ s' out x, handle cfg s e = .ok (s', out, x) → Occurs cfg s' rest

theorem runBatch_executes (hocc : Occurs cfg s events)
    (h : runBatch cfg s events = .ok (s', done)) :
    Executes cfg anyStep s (done.map Prod.fst) s' := by
  induction events generalizing s done with
  | nil =>
    cases h
    exact .nil cfg anyStep _
  | cons e rest ih =>
    obtain ⟨hpos, hrest⟩ := hocc
    obtain ⟨s₁, out, x, hrun, hcase⟩ := runBatch_cons h
    rcases hcase with ⟨_, done', hbatch, rfl⟩ | ⟨_, rfl, rfl⟩
    · exact (ih (hrest _ _ _ hrun) hbatch).cons trivial hpos hrun
    · exact .cons trivial hpos hrun (.nil _ _ _)

theorem runBatch_reachable (hs : Reachable cfg s) (hocc : Occurs cfg s events)
    (h : runBatch cfg s events = .ok (s', done)) : Reachable cfg s' :=
  hs.executes (runBatch_executes hocc h)

end Batch

theorem runBatch_next {cfg : Config} {s s₁ s' : State} {e : Event} {out : List Output}
    {rest : List Event} {done : List (Event × List Output)}
    (h : handle cfg s e = .ok (s₁, out, .next)) (hrest : runBatch cfg s₁ rest = .ok (s', done)) :
    runBatch cfg s (e :: rest) = .ok (s', (e, out) :: done) := by
  simp only [runBatch, h, hrest, bind, Except.bind]

end LoadBalancer
