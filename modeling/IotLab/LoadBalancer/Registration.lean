import IotLab.LoadBalancer.Execution

set_option autoImplicit false

namespace LoadBalancer
open SlotTable HostMemory

structure Registration where
  accepted : Option (Int × BitVec 32)
  port : List Byte
  deriving DecidableEq

/-- For every server slot, the registration entered in it last. -/
abbrev Registrations := Fin maxServCnt → Option Registration

def Registrations.look (m : Registrations) (_ : State) (l : Step) (_ : State) :
    Registrations :=
  match l.event, l.out with
  | .join accepted port _, [.newServer i _ _] =>
    Function.update m i (some ⟨accepted, port.bytes⟩)
  | _, _ => m

/-- A server that is not denied is accepted with a descriptor, and its whole port is read. -/
def JoinWhole (s : State) : Event → Prop
  | .join accepted port _ =>
    s.tables.servCnt ≠ maxServCnt → accepted.isSome ∧ port.bytes.length = 2
  | .packet _ _ _ => True
  | .server _ _ _ _ => True

def Event.joinFailed : Event → Prop
  | .join accepted port _ => accepted = none ∨ port.bytes.length < 2
  | .packet _ _ _ => False
  | .server _ _ _ _ => False

/-- The slot holds the descriptor, the address and the port of its registration. -/
def FromRegistration (node : ServListNode) (r : Option Registration) : Prop :=
  ∃ v, r = some ⟨some (node.sock, node.ip), bytes16 v⟩ ∧ node.port = swap16 v

structure RegistrationLaw (s : State) (m : Registrations) : Prop where
  servCnt_eq : s.tables.servCnt = s.tables.liveCount
  servCnt_nonneg : 0 ≤ s.tables.servCnt
  servCnt_le : s.tables.servCnt ≤ maxServCnt
  sock_watched : ∀ i, s.tables.live i → (s.tables.servList i).sock ∈ s.watched
  sock_distinct : ∀ i k, s.tables.live i → s.tables.live k →
    (s.tables.servList i).sock = (s.tables.servList k).sock → i = k
  registered : ∀ i, s.tables.live i → FromRegistration (s.tables.servList i) (m i)
  served : ∀ fd ∈ s.watched, ∃ i, findServer s.tables fd = some i ∧
    (∀ k, (s.tables.servList k).sock = fd ↔ k = i) ∧
    ∀ reads ending stack, ∃ r, serverEvent s fd reads ending stack = .ok r

def registering (cfg : Config) : Transitions.System (State × Registrations) Step :=
  (system cfg).observe (fun _ => none) Registrations.look

section Join
variable {s s' : State} {accepted : Option (Int × BitVec 32)} {port : Received 2}
  {stack : Mem} {out : List Output}

theorem join_denied (hmax : s.tables.servCnt = maxServCnt)
    (h : join s accepted port stack = (s', out)) : s'.tables = s.tables ∧ out = [] := by
  unfold join at h
  simp only [if_pos hmax] at h
  cases h
  exact ⟨rfl, rfl⟩

theorem join_enters {i : Fin maxServCnt} (hmax : s.tables.servCnt ≠ maxServCnt)
    (hfree : firstSlot (fun i => (s.tables.servList i).sock = 0) = some i)
    (h : join s accepted port stack = (s', out)) :
    s'.tables.servList i = { s.tables.servList i with
      sock := (accepted.getD (-1, s.servAdr)).1
      ip := (accepted.getD (-1, s.servAdr)).2
      port := swap16 (read16 (store stack 0 port.bytes) 0)
      clntCnt := 0 } := by
  unfold join at h
  generalize accepted.getD (-1, s.servAdr) = a at h ⊢
  obtain ⟨sock, adr⟩ := a
  simp only [if_neg hmax, addServerInfo, hfree] at h
  cases h
  exact Function.update_self ..

theorem join_registers {i : Fin maxServCnt} {fd : Int} {ip : BitVec 32}
    (hmax : s.tables.servCnt ≠ maxServCnt)
    (hfree : firstSlot (fun i => (s.tables.servList i).sock = 0) = some i)
    (hport : port.bytes.length = 2)
    (h : join s (some (fd, ip)) port stack = (s', out)) :
    FromRegistration (s'.tables.servList i) (some ⟨some (fd, ip), port.bytes⟩) := by
  obtain ⟨v, hv⟩ := bytes16_of_length hport
  have hread : read16 (store stack 0 port.bytes) 0 = v := by
    rw [hv]
    exact read16_write16 stack 0 v
  rw [join_enters hmax hfree h, hread]
  exact ⟨v, by rw [hv]; rfl, rfl⟩

end Join

theorem healthChecks_total (i : Fin maxServCnt) (t : Tables) (usage : Mem)
    (reads : List ReadResult) : ∃ u, healthChecks (some i) t usage reads = .ok u := by
  induction reads generalizing t usage with
  | nil => exact ⟨t, rfl⟩
  | cons r rest ih =>
    cases r with
    | failed => exact ih t usage
    | data r _ => exact ih _ _

theorem serverEvent_total {s : State} {fd : Int} {i : Fin maxServCnt}
    (h : findServer s.tables fd = some i) (reads : List ReadResult) (ending : ReadEnd)
    (stack : Mem) : ∃ r, serverEvent s fd reads ending stack = .ok r := by
  obtain ⟨u, hu⟩ := healthChecks_total i s.tables stack reads
  simp only [serverEvent, h, hu, bind, Except.bind]
  cases ending with
  | eof => exact ⟨_, rfl⟩
  | again => exact ⟨_, rfl⟩

def Registered (s : State) (m : Registrations) : Prop :=
  ∀ i, s.tables.live i → FromRegistration (s.tables.servList i) (m i) ∧
    (s.tables.servList i).sock ≠ -1

section Preserved
variable {s s' : State} {m : Registrations}

theorem Registered.keep (h : Registered s m)
    (hnode : ∀ i, s'.tables.live i → s.tables.live i ∧
      (s'.tables.servList i).sock = (s.tables.servList i).sock ∧
      (s'.tables.servList i).ip = (s.tables.servList i).ip ∧
      (s'.tables.servList i).port = (s.tables.servList i).port) : Registered s' m := by
  intro i hi
  obtain ⟨hlive, hsock, hip, hport⟩ := hnode i hi
  have hi := h i hlive
  rw [FromRegistration, hsock, hip, hport]
  exact hi

theorem Registered.join {accepted : Option (Int × BitVec 32)} {port : Received 2}
    {stack : Mem} {out : List Output} {x : LoopExit} (h : Registered s m) (hs : s.Sound)
    (hpos : Event.canOccur s (.join accepted port stack))
    (hwhole : JoinWhole s (.join accepted port stack))
    (hjoin : LoadBalancer.join s accepted port stack = (s', out)) :
    Registered s' (m.look s ⟨.join accepted port stack, out, x⟩ s') := by
  by_cases hmax : s.tables.servCnt = maxServCnt
  · obtain ⟨ht, rfl⟩ := join_denied hmax hjoin
    rw [Registered, ht]
    exact h
  rcases join_cases hjoin with ⟨hmax', _⟩ | ⟨_, hnone, _⟩ | ⟨i, node, hfree, hsock, _, hu, _, hout⟩
  · exact absurd hmax' hmax
  · obtain ⟨i, hi⟩ := exists_dead hs.tables hmax
    rw [hnone] at hi
    contradiction
  · subst hout
    obtain ⟨hacc, hport⟩ := hwhole hmax
    obtain ⟨⟨fd, ip⟩, rfl⟩ := Option.isSome_iff_exists.mp hacc
    intro k hk
    by_cases hki : k = i
    · subst hki
      have hreg := join_registers hmax hfree hport hjoin
      have hfd : (s'.tables.servList k).sock = fd := by
        rw [hu.servList, Function.update_self, hsock]
        rfl
      simp only [Registrations.look, Function.update_self]
      exact ⟨hreg, by have := hpos.1; omega⟩
    · rw [Tables.live, hu.servList, Function.update_of_ne hki] at hk
      rw [hu.servList, Function.update_of_ne hki]
      simp only [Registrations.look, Function.update_of_ne hki]
      exact h k hk

theorem Registered.step {cfg : Config} {l : Step} (h : Registered s m) (hs : s.Sound)
    (hwhole : JoinWhole s l.event) (hstep : (system cfg).step s l s') :
    Registered s' (m.look s l s') := by
  have htables := hs.tablesStep hstep
  obtain ⟨hpos, hrun⟩ := hstep
  obtain ⟨event, out, x⟩ := l
  cases event with
  | join accepted port stack => exact h.join hs hpos hwhole (handle_join hrun).1
  | packet received now minIndex =>
    have hpkt := (packet_ok hrun).1
    refine h.keep (fun i hi => ?_)
    rw [Tables.live, hpkt.servList i] at hi
    rw [hpkt.servList i]
    exact ⟨hi, rfl, rfl, rfl⟩
  | server fd reads ending stack =>
    obtain ⟨t, ht, hcase⟩ := serverEvent_ok (handle_server hrun).1
    have hlook : m.look s ⟨.server fd reads ending stack, out, x⟩ s' = m := rfl
    rw [hlook]
    rcases hcase with ⟨_, rfl, _⟩ | ⟨_, i, _, rfl, _⟩
    · refine h.keep (fun k hk => ?_)
      rw [Tables.live] at hk
      dsimp only at hk ⊢
      rw [ht.servList k] at hk ⊢
      exact ⟨hk, rfl, rfl, rfl⟩
    · have hc := closeServer_closed t i
      refine h.keep (fun k hk => ?_)
      have hki := hc.ne_of_live hk
      rw [Tables.live] at hk
      dsimp only at hk ⊢
      rw [hc.servList, Function.update_of_ne hki, ht.servList k] at hk ⊢
      exact ⟨hk, rfl, rfl, rfl⟩

end Preserved

abbrev RegisteringWhole (cfg : Config) (p : State × Registrations) : Prop :=
  Transitions.Reachable ((registering cfg).restrict fun p l => JoinWhole p.1 l.event) p

theorem RegisteringWhole.reachable {cfg : Config} {p : State × Registrations}
    (h : RegisteringWhole cfg p) : Reachable cfg p.1 :=
  Transitions.Reachable.of_observe (Transitions.Reachable.of_restrict h)

theorem RegisteringWhole.registered {cfg : Config} {p : State × Registrations}
    (h : RegisteringWhole cfg p) : Registered p.1 p.2 := by
  refine Transitions.Reachable.invariant (I := fun p => Registered p.1 p.2) ?_ ?_ h
  · rintro ⟨s, m⟩ ⟨⟨buf, servAdr, rfl⟩, _⟩ i hi
    exact absurd rfl hi
  · rintro p l q hp hreg ⟨hwhole, hstep, hq⟩
    rw [hq]
    exact hreg.step (RegisteringWhole.reachable hp).sound hwhole hstep

theorem State.Sound.served {s : State} (hs : s.Sound) {fd : Int} (hfd : fd ∈ s.watched) :
    ∃ i, findServer s.tables fd = some i ∧
      (∀ k, (s.tables.servList k).sock = fd ↔ k = i) ∧
      ∀ reads ending stack, ∃ r, LoadBalancer.serverEvent s fd reads ending stack = .ok r := by
  obtain ⟨i, hi⟩ := hs.watched_live fd hfd
  have hpos := hs.watched_pos fd hfd
  have honly (k : Fin maxServCnt) (hk : (s.tables.servList k).sock = fd) : k = i :=
    hs.sock_inj k i (hk.trans hi.symm) (by omega)
  have hfind : findServer s.tables fd = some i :=
    firstSlot_of_unique (by simpa using hi) (fun k hk => honly k (by simpa using hk))
  refine ⟨i, hfind, fun k => ⟨honly k, fun hk => hk ▸ hi⟩, serverEvent_total hfind⟩

theorem Registered.law {s : State} {m : Registrations} (h : Registered s m) (hs : s.Sound) :
    RegistrationLaw s m := by
  have hle : s.tables.liveCount ≤ maxServCnt := count_le
  have hcnt := hs.tables.servCnt_eq
  have hwatched (i : Fin maxServCnt) (hi : s.tables.live i) :
      (s.tables.servList i).sock ∈ s.watched :=
    (hs.sock_watched i hi).resolve_left (h i hi).2
  constructor
  case servCnt_eq => exact hcnt
  case servCnt_nonneg => omega
  case servCnt_le => omega
  case sock_watched => exact hwatched
  case sock_distinct =>
    intro i k hi _ hik
    exact hs.sock_inj i k hik (hs.watched_pos _ (hwatched i hi))
  case registered => exact fun i hi => (h i hi).1
  case served => exact fun fd hfd => hs.served hfd

/-- In a run whose joins are whole, the law of the server list holds; a join that fails is
one that is denied, and changes nothing. -/
theorem server_registration {cfg : Config} {s : State} {m : Registrations}
    (h : RegisteringWhole cfg (s, m)) :
    RegistrationLaw s m ∧ ∀ l s', (system cfg).step s l s' → JoinWhole s l.event →
      l.event.joinFailed → s'.tables = s.tables := by
  refine ⟨h.registered.law h.reachable.sound, fun l s' hstep hwhole hfailed => ?_⟩
  obtain ⟨_, hrun⟩ := hstep
  obtain ⟨event, out, x⟩ := l
  cases event with
  | join accepted port stack =>
    by_cases hmax : s.tables.servCnt = maxServCnt
    · exact (join_denied hmax (handle_join hrun).1).1
    · obtain ⟨hacc, hport⟩ := hwhole hmax
      rcases hfailed with hfailed | hfailed
      · simp [hfailed] at hacc
      · omega
  | packet received now minIndex => exact hfailed.elim
  | server fd reads ending stack => exact hfailed.elim

theorem server_registration_demo : ∃ s m, RegisteringWhole demoConfig (s, m) ∧
    s.tables.live 0 ∧ RegistrationLaw s m := by
  have hstart : RegisteringWhole demoConfig (demoStart, fun _ => none) :=
    .init ⟨⟨_, _, rfl⟩, rfl⟩
  have hwhole : JoinWhole demoStart demoJoin := fun _ => ⟨rfl, rfl⟩
  obtain ⟨s, hrun, hlive⟩ : ∃ s, handle demoConfig demoStart demoJoin =
      .ok (s, [.newServer 0 7 0x901f], .next) ∧ s.tables.live 0 := ⟨_, rfl, by decide⟩
  have hreach : RegisteringWhole demoConfig (s, _) :=
    .step hstart ⟨hwhole, (⟨by decide, hrun⟩ : (system demoConfig).step _ ⟨_, _, _⟩ _), rfl⟩
  exact ⟨s, _, hreach, hlive, (server_registration hreach).1⟩

def demoFailedJoin : Event := .join none ⟨[], by decide⟩ (fun _ => 0)

/-- The failed `accept` enters a server with the descriptor -1, which epoll never reports. -/
theorem failed_accept_enters : ∃ s, Executes demoConfig anyStep demoStart [demoFailedJoin] s ∧
    demoStart.tables.servCnt = 0 ∧ s.tables.servCnt = 1 ∧ (s.tables.servList 0).sock = -1 ∧
    s.watched = [] := by
  obtain ⟨s, hrun, htest⟩ := @executes_of_endsIn demoConfig anyStep _
    (fun s => s.tables.servCnt = 1 ∧ (s.tables.servList 0).sock = -1 ∧ s.watched = [])
    demoStart [demoFailedJoin] (by decide +kernel)
  exact ⟨s, hrun, rfl, of_decide_eq_true htest⟩

end LoadBalancer
