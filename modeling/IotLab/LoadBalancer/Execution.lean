import IotLab.LoadBalancer.Sound

set_option autoImplicit false

namespace LoadBalancer
open SlotTable HostMemory

def Executes (cfg : Config) (ok : State → Event → Prop) (s : State) (events : List Event)
    (s' : State) : Prop :=
  ∃ ls : List Step, ls.map (·.event) = events ∧
    Transitions.Run ((system cfg).restrict fun s l => ok s l.event) s ls s'

def anyStep : State → Event → Prop := fun _ _ => True

abbrev ReachableWhen (cfg : Config) (ok : State → Event → Prop) (s : State) : Prop :=
  Transitions.Reachable ((system cfg).restrict fun s l => ok s l.event) s

theorem ReachableWhen.reachable {cfg : Config} {ok : State → Event → Prop} {s : State}
    (h : ReachableWhen cfg ok s) : Reachable cfg s := Transitions.Reachable.of_restrict h

theorem ReachableWhen.tables_invariant {cfg : Config} {ok : State → Event → Prop}
    {I : Tables → Prop} (hstart : I .start)
    (hstep : ∀ s l u, s.Sound → ok s l.event → TablesStep cfg s l u → I s.tables → I u)
    {s : State} (h : ReachableWhen cfg ok s) : I s.tables := by
  refine @Transitions.Reachable.invariant _ _ _ (fun s => I s.tables) ?_ ?_ s h
  · rintro s ⟨buf, servAdr, rfl⟩
    exact hstart
  · intro s l s' hs hI hst
    have hsound := (ReachableWhen.reachable hs).sound
    exact hstep s l s'.tables hsound hst.1 (hsound.tablesStep hst.2) hI

theorem Executes.reachableWhen {cfg : Config} {ok : State → Event → Prop} {s s' : State}
    {events : List Event} (h : Executes cfg ok s events s') (hs : ReachableWhen cfg ok s) :
    ReachableWhen cfg ok s' := by
  obtain ⟨ls, _, hrun⟩ := h
  exact hrun.reachable hs

theorem Reachable.executes {cfg : Config} {ok : State → Event → Prop} {s s' : State}
    {events : List Event} (hs : Reachable cfg s) (h : Executes cfg ok s events s') :
    Reachable cfg s' := by
  obtain ⟨ls, _, hrun⟩ := h
  exact hrun.of_restrict.reachable hs

theorem start_reachableWhen (cfg : Config) (ok : State → Event → Prop) (buf : Mem)
    (servAdr : BitVec 32) : ReachableWhen cfg ok (State.start buf servAdr) :=
  .init ⟨buf, servAdr, rfl⟩

theorem Executes.reachable {cfg : Config} {ok : State → Event → Prop} {buf : Mem}
    {servAdr : BitVec 32} {s : State} {events : List Event}
    (h : Executes cfg ok (.start buf servAdr) events s) : ReachableWhen cfg ok s :=
  h.reachableWhen (start_reachableWhen cfg ok buf servAdr)

theorem Executes.nil (cfg : Config) (ok : State → Event → Prop) (s : State) :
    Executes cfg ok s [] s := ⟨[], rfl, .nil s⟩

theorem Executes.cons {cfg : Config} {ok : State → Event → Prop} {s s₁ s' : State} {e : Event}
    {out : List Output} {x : LoopExit} {events : List Event} (hok : ok s e)
    (hpos : e.canOccur s) (hrun : handle cfg s e = .ok (s₁, out, x))
    (h : Executes cfg ok s₁ events s') : Executes cfg ok s (e :: events) s' := by
  obtain ⟨ls, hls, hrest⟩ := h
  exact ⟨⟨e, out, x⟩ :: ls, by simp [hls], .cons ⟨hok, hpos, hrun⟩ hrest⟩

theorem Executes.append {cfg : Config} {ok : State → Event → Prop} {s s₁ s₂ : State}
    {events more : List Event} (h : Executes cfg ok s events s₁)
    (k : Executes cfg ok s₁ more s₂) : Executes cfg ok s (events ++ more) s₂ := by
  obtain ⟨ls, hls, hrun⟩ := h
  obtain ⟨ms, hms, hrun'⟩ := k
  exact ⟨ls ++ ms, by simp [hls, hms], hrun.append hrun'⟩

instance (s : State) (e : Event) : Decidable (e.canOccur s) :=
  match e with
  | .join (some (fd, _)) _ _ => inferInstanceAs (Decidable (0 < fd ∧ fd ∉ s.watched))
  | .join none _ _ => inferInstanceAs (Decidable True)
  | .packet _ _ _ => inferInstanceAs (Decidable True)
  | .server fd _ _ _ => inferInstanceAs (Decidable (fd ∈ s.watched))

instance (s : State) (e : Event) : Decidable (anyStep s e) := inferInstanceAs (Decidable True)

def closedTables (t : Tables) (i : Fin maxServCnt) : Tables where
  recentServId := t.recentServId
  servCnt := t.servCnt - 1
  servList := Function.update t.servList i .zero
  clntList := fun j => if t.assigned i j then .zero else t.clntList j
  clntCnt := t.clntCnt - count (t.assigned i)
  forwardingTable := fun j => if t.assigned i j then (-1, -1) else t.forwardingTable j

theorem closeServer_tables (t : Tables) (i : Fin maxServCnt) :
    (closeServer t i).1 = closedTables t i := by
  obtain ⟨hrecent, hserv, hservers, hclients, hclnt, hpairs⟩ := closeServer_closed t i
  replace hclients := funext hclients
  replace hpairs := funext hpairs
  generalize (closeServer t i).1 = u at *
  obtain ⟨_, _, _, _, _, _⟩ := u
  subst hrecent hserv hservers hclients hclnt hpairs
  rfl

/-- The handlers, with the sweep of a closed server in one step. -/
def execute (cfg : Config) (s : State) : Event → Result (State × List Output × LoopExit)
  | .server fd reads .eof stack => do
    let serverId := findServer s.tables fd
    let t ← healthChecks serverId s.tables stack reads
    let i ← serverId.elim (.error .unset) .ok
    .ok ({ s with tables := closedTables t i, watched := s.watched.filter (· ≠ fd) },
      (closeServer t i).2, .next)
  | e => handle cfg s e

theorem execute_eq (cfg : Config) (s : State) (e : Event) :
    execute cfg s e = handle cfg s e := by
  cases e with
  | join => rfl
  | packet => rfl
  | server fd reads ending stack =>
    cases ending with
    | again => rfl
    | eof =>
      simp only [execute, handle, serverEvent, ← closeServer_tables]
      cases healthChecks (findServer s.tables fd) s.tables stack reads with
      | error => rfl
      | ok t =>
        cases findServer s.tables fd with
        | none => rfl
        | some i => rfl

def nextStep (cfg : Config) (ok : State → Event → Prop) [∀ s e, Decidable (ok s e)]
    (s : State) (e : Event) : Option (Step × State) :=
  if ok s e ∧ e.canOccur s then
    match execute cfg s e with
    | .ok (s', out, x) => some (⟨e, out, x⟩, s')
    | .error _ => none
  else none

theorem nextStep_step {cfg : Config} {ok : State → Event → Prop} [∀ s e, Decidable (ok s e)]
    {s s' : State} {e : Event} {l : Step} (h : nextStep cfg ok s e = some (l, s')) :
    l.event = e ∧ ok s e ∧ (system cfg).step s l s' := by
  unfold nextStep at h
  rw [execute_eq] at h
  split at h
  · rename_i hok
    cases hrun : handle cfg s e with
    | error f => simp [hrun] at h
    | ok r =>
      obtain ⟨s₁, out, x⟩ := r
      simp only [hrun, Option.some.injEq, Prod.mk.injEq] at h
      obtain ⟨rfl, rfl⟩ := h
      exact ⟨rfl, hok.1, hok.2, hrun⟩
  · contradiction

theorem nextStep_any {cfg : Config} {ok : State → Event → Prop} [∀ s e, Decidable (ok s e)]
    {s : State} {e : Event} {test : Step × State → Bool}
    (h : (nextStep cfg ok s e).any test = true) :
    ∃ l s', l.event = e ∧ (system cfg).step s l s' ∧ test (l, s') = true := by
  obtain ⟨⟨l, s'⟩, hnext, htest⟩ := (Option.any_eq_true _ _).mp h
  obtain ⟨hl, _, hstep⟩ := nextStep_step hnext
  exact ⟨l, s', hl, hstep, htest⟩

def endsIn (cfg : Config) (ok : State → Event → Prop) [∀ s e, Decidable (ok s e)]
    (test : State → Bool) (s : State) (events : List Event) : Bool :=
  Transitions.runsTo (nextStep cfg ok) test s events

theorem executes_of_endsIn {cfg : Config} {ok : State → Event → Prop}
    [∀ s e, Decidable (ok s e)] {test : State → Bool} {s : State} {events : List Event}
    (h : endsIn cfg ok test s events = true) :
    ∃ s', Executes cfg ok s events s' ∧ test s' = true := by
  obtain ⟨s', ls, hls, hrun, htest⟩ := @Transitions.run_of_runsTo _ _ _
    ((system cfg).restrict fun s l => ok s l.event) (·.event) (nextStep cfg ok) test
    (fun s e l t hn => by
      obtain ⟨hl, hok, hstep⟩ := nextStep_step hn
      exact ⟨hl, by simpa only [hl] using hok, hstep⟩) s events h
  exact ⟨s', ⟨ls, hls, hrun⟩, htest⟩

def faults {α : Type} (e : Fault) : Result α → Bool
  | .error e' => e' = e
  | .ok _ => false

theorem faults_iff {α : Type} {e : Fault} {r : Result α} :
    faults e r = true ↔ r = .error e := by
  cases r <;> simp [faults]

/-- A hang-up without a health report before it closes the server that holds the
descriptor. -/
theorem handle_hangUp {cfg : Config} {s : State} {fd : Int} {stack : Mem}
    {i : Fin maxServCnt} (h : findServer s.tables fd = some i) :
    handle cfg s (.server fd [] .eof stack) =
      .ok ({ s with
        tables := (closeServer s.tables i).1
        watched := s.watched.filter (· ≠ fd) }, (closeServer s.tables i).2, .next) := by
  simp only [handle, serverEvent, healthChecks, h, bind, Except.bind, Option.elim]

def synFlag : Byte := 0x02
def ackFlag : Byte := 0x10
def finFlag : Byte := 0x11

def tcpBytes (saddr daddr : BitVec 32) (source dest : BitVec 16) (flags : Byte) :
    List Byte :=
  [0x45, 0, 0, 40, 0, 0, 0, 0, 64, 6, 0, 0] ++ bytes32 saddr ++ bytes32 daddr ++
    bytes16 source ++ bytes16 dest ++
    [0, 0, 0, 0, 0, 0, 0, 0, 0x50, flags, 0, 0, 0, 0, 0, 0]

def tcpPacket (saddr daddr : BitVec 32) (source dest : BitVec 16) (flags : Byte) :
    Received bufSize :=
  ⟨tcpBytes saddr daddr source dest flags, show 40 ≤ bufSize by decide⟩

theorem tcpDest_tcpPacket (b : Mem) (saddr daddr : BitVec 32) (source dest : BitVec 16)
    (flags : Byte) :
    tcpDest (recvInto b (some (tcpPacket saddr daddr source dest flags))) = dest :=
  bytes16_append dest

section Demo

/-- The first value of glibc's `rand` after `srand` for the seeds used below. -/
def demoRand (seed : BitVec 32) : Nat :=
  if seed = 814 then 1514181101 else if seed = 2 then 1505335290 else 1804289383

/-- LB address 10.0.0.1, port 80, Round Robin. -/
def demoConfig : Config where
  lbaddr := ⟨afInet, 0x5000, 0x0100000a⟩
  selectedAlgo := .rr
  rand := demoRand
  rand_le seed := by unfold demoRand randMax; split <;> (try split) <;> decide

def demoStart : State := .start (fun _ => 0) 0

def demoJoin : Event := .join (some (7, 0x0200000a)) ⟨[0x90, 0x1f], by decide⟩ (fun _ => 0)

def demoSecondJoin : Event := .join (some (8, 0x0300000a)) ⟨[0x90, 0x1f], by decide⟩ (fun _ => 0)

def demoThirdJoin : Event := .join (some (9, 0x0400000a)) ⟨[0x90, 0x1f], by decide⟩ (fun _ => 0)

def demoHangUp : Event := .server 7 [] .eof (fun _ => 0)

def demoSegment (saddr : BitVec 32) (source dest : BitVec 16) (flags : Byte)
    (now : BitVec 32) : Event :=
  .packet (some (tcpPacket saddr 0x0100000a source dest flags)) now 0

def demoClient (flags : Byte) : Event := demoSegment 0x0900000a 0x409c 0x5000 flags 0

/-- A segment from the server to the pseudo port of the first client, whose slot was drawn
with the clock at 0. -/
def demoReply (flags : Byte) : Event := demoSegment 0x0200000a 0x901f 59689 flags 0

def demoOther (flags : Byte) : Event := demoSegment 0x0800000a 0x419c 0x5000 flags 2

def demoOtherReply (flags : Byte) : Event := demoSegment 0x0200000a 0x901f 51780 flags 0

def demoSecondReply (flags : Byte) : Event := demoSegment 0x0300000a 0x901f 59689 flags 0

end Demo

end LoadBalancer
