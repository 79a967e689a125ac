import IotLab.LoadBalancer.Execution

set_option autoImplicit false

namespace LoadBalancer
open SlotTable HostMemory

abbrev Client := BitVec 32 × BitVec 16

def clientOf (b : Mem) : Client := (ipSaddr b, tcpSource b)

def ClntListNode.isOf (node : ClntListNode) (c : Client) : Prop :=
  node.ip = c.1 ∧ node.port = c.2.toNat

instance (node : ClntListNode) (c : Client) : Decidable (node.isOf c) :=
  inferInstanceAs (Decidable (_ ∧ _))

structure Instance where
  serial : Nat
  id : Fin maxServCnt
  sock : Int
  ip : BitVec 32
  port : BitVec 16
  deriving DecidableEq

/-- An admission of a client: its number, the endpoint of the SYN, the clock, and the server
if the one selected was live. -/
structure Session where
  serial : Nat
  client : Client
  clock : BitVec 32
  server : Option Instance
  deriving DecidableEq

/-- A client packet that was forwarded: the admission that its slot was occupied by, the entry
of the slot that was used, and the endpoint that the packet came from. -/
structure Forwarded where
  serial : Option Nat
  entry : ClntListNode
  client : Client
  deriving DecidableEq

/-- `clntFin` and `servFin` are about the two sides of a slot's connection since the client's
last SYN, `finSeen` about any FIN handled since the admission. -/
structure History where
  joins : Nat
  registered : Fin maxServCnt → Nat
  admissions : Nat
  admitted : Nat → Client
  session : Fin maxClntCnt → Option Session
  clntFin : Fin maxClntCnt → Bool
  servFin : Fin maxClntCnt → Bool
  finSeen : Fin maxClntCnt → Bool
  log : List Forwarded

def History.start : History :=
  ⟨0, fun _ => 0, 0, fun _ => (0, 0), fun _ => none, fun _ => false, fun _ => false,
    fun _ => false, []⟩

def History.register (h : History) (i : Fin maxServCnt) : History :=
  { h with joins := h.joins + 1, registered := Function.update h.registered i h.joins }

def History.instanceAt (h : History) (t : Tables) (id : Int) : Option Instance :=
  match servAt id with
  | .error _ => none
  | .ok i =>
    let node := t.servList i
    if t.live i then some ⟨h.registered i, i, node.sock, node.ip, node.port⟩ else none

def History.admission (h : History) (t : Tables) (b : Mem) (now : BitVec 32)
    (j : Fin maxClntCnt) (id : Int) : History :=
  { h with
    admissions := h.admissions + 1
    admitted := Function.update h.admitted h.admissions (clientOf b)
    session := Function.update h.session j
      (some ⟨h.admissions, clientOf b, now, h.instanceAt t id⟩)
    clntFin := Function.update h.clntFin j false
    servFin := Function.update h.servFin j false
    finSeen := Function.update h.finSeen j false }

def History.fromItsClient (h : History) (b : Mem) (j : Fin maxClntCnt) : Bool :=
  (h.session j).any fun c => c.client = clientOf b

def usedEntry (t u : Tables) (j : Fin maxClntCnt) : ClntListNode :=
  if t.occupied j then t.clntList j else u.clntList j

/-- A segment forwarded from slot `j`. A SYN of its client opens a new connection. -/
def History.clientSegment (h : History) (t u : Tables) (b : Mem) (j : Fin maxClntCnt) :
    History :=
  let opens := h.fromItsClient b j && checkType b = .syn
  let closes := h.fromItsClient b j && checkType b = .fin
  let entry := usedEntry t u j
  { h with
    clntFin := Function.update h.clntFin j (!opens && (closes || h.clntFin j))
    servFin := Function.update h.servFin j (!opens && h.servFin j)
    finSeen := Function.update h.finSeen j (checkType b = .fin || h.finSeen j)
    log := ⟨if entry.port = 0 then none else (h.session j).map (·.serial), entry, clientOf b⟩
      :: h.log }

def fromItsServer (t : Tables) (b : Mem) (j : Fin maxClntCnt) : Prop :=
  ∃ i, t.assigned i j ∧ (t.servList i).ip = ipSaddr b ∧ (t.servList i).port = tcpSource b

instance (t : Tables) (b : Mem) (j : Fin maxClntCnt) : Decidable (fromItsServer t b j) :=
  inferInstanceAs (Decidable (∃ i, t.assigned i j ∧ (t.servList i).ip = ipSaddr b ∧
    (t.servList i).port = tcpSource b))

def History.serverSegment (h : History) (t : Tables) (b : Mem) (j : Fin maxClntCnt) :
    History :=
  if checkType b = .fin then { h with
    servFin := Function.update h.servFin j (fromItsServer t b j || h.servFin j)
    finSeen := Function.update h.finSeen j true }
  else h

/-- The sweep of a closed server ends the sessions assigned to it. -/
def History.close (h : History) (t : Tables) (i : Fin maxServCnt) : History :=
  { h with
    session := fun j => if t.assigned i j then none else h.session j
    finSeen := fun j => if t.assigned i j then false else h.finSeen j }

def History.see (t u : Tables) (b : Mem) (now : BitVec 32) (h : History) : Output → History
  | .newClient j id => h.admission t b now j id
  | .sent ⟨.clnt2serv, sourceId, _, _, _, _⟩ =>
    match clntAt sourceId with
    | .ok j => h.clientSegment t u b j
    | .error _ => h
  | .sent ⟨.serv2clnt, _, destId, _, _, _⟩ =>
    match clntAt destId with
    | .ok j => h.serverSegment t b j
    | .error _ => h
  | .newServer _ _ _ => h
  | .clntDisconnected _ _ => h
  | .serverClosed _ _ => h

def History.look (h : History) (s : State) (l : Step) (u : Tables) : History :=
  match l.event with
  | .join _ _ _ =>
    match l.out with
    | .newServer i _ _ :: _ => h.register i
    | _ => h
  | .packet received now _ =>
    l.out.foldl (History.see s.tables u (recvInto s.buf received) now) h
  | .server fd _ ending _ =>
    match ending, findServer s.tables fd with
    | .eof, some i => h.close s.tables i
    | _, _ => h

def observed (cfg : Config) : Transitions.System (State × History) Step :=
  (system cfg).observe .start fun h s l s' => h.look s l s'.tables

abbrev ObservedWhen (cfg : Config) (ok : State → History → Event → Prop)
    (p : State × History) : Prop :=
  Transitions.Reachable ((observed cfg).restrict fun p l => ok p.1 p.2 l.event) p

abbrev Observed (cfg : Config) (p : State × History) : Prop :=
  Transitions.Reachable (observed cfg) p

theorem ObservedWhen.observed {cfg : Config} {ok : State → History → Event → Prop}
    {p : State × History} (h : ObservedWhen cfg ok p) : Observed cfg p :=
  Transitions.Reachable.of_restrict h

theorem Observed.reachable {cfg : Config} {p : State × History} (h : Observed cfg p) :
    Reachable cfg p.1 := Transitions.Reachable.of_observe h

theorem Reachable.observed {cfg : Config} {s : State} (h : Reachable cfg s) :
    ∃ hist, Observed cfg (s, hist) := Transitions.Reachable.observed h

theorem ObservedWhen.invariant {cfg : Config} {ok : State → History → Event → Prop}
    {I : Tables → History → Prop} (hstart : I .start .start)
    (hstep : ∀ s h l u, Observed cfg (s, h) → ok s h l.event → TablesStep cfg s l u →
      I s.tables h → I u (h.look s l u)) {p : State × History}
    (hp : ObservedWhen cfg ok p) : I p.1.tables p.2 := by
  refine @Transitions.Reachable.invariant _ _ _ (fun p => I p.1.tables p.2) ?_ ?_ p hp
  · rintro ⟨s, h⟩ ⟨⟨buf, servAdr, rfl⟩, rfl⟩
    exact hstart
  · rintro ⟨s, h⟩ l ⟨s', h'⟩ hs hI ⟨hok, hst, hlook⟩
    have hobs : Observed cfg (s, h) := ObservedWhen.observed hs
    rw [show h' = h.look s l s'.tables from hlook]
    exact hstep s h l s'.tables hobs hok (hobs.reachable.sound.tablesStep hst) hI

theorem Observed.invariant {cfg : Config} {I : Tables → History → Prop}
    (hstart : I .start .start)
    (hstep : ∀ s h l u, Observed cfg (s, h) → TablesStep cfg s l u → I s.tables h →
      I u (h.look s l u)) {p : State × History} (hp : Observed cfg p) : I p.1.tables p.2 := by
  have hall : ObservedWhen cfg (fun _ _ _ => True) p :=
    Transitions.Reachable.to_restrict (fun _ _ => trivial) hp
  exact hall.invariant hstart (fun s h l u hs _ hst hI => hstep s h l u hs hst hI)

def ObservedRun (cfg : Config) (ok : State → History → Event → Prop) (p : State × History)
    (events : List Event) (q : State × History) : Prop :=
  ∃ ls : List Step, ls.map (·.event) = events ∧
    Transitions.Run ((observed cfg).restrict fun p l => ok p.1 p.2 l.event) p ls q

def anyObserved : State → History → Event → Prop := fun _ _ _ => True

instance (s : State) (h : History) (e : Event) : Decidable (anyObserved s h e) :=
  inferInstanceAs (Decidable True)

theorem ObservedRun.observedWhen {cfg : Config} {ok : State → History → Event → Prop}
    {buf : Mem} {servAdr : BitVec 32} {events : List Event} {q : State × History}
    (h : ObservedRun cfg ok (.start buf servAdr, .start) events q) : ObservedWhen cfg ok q := by
  obtain ⟨ls, _, hrun⟩ := h
  exact hrun.reachable (.init ⟨⟨buf, servAdr, rfl⟩, rfl⟩)

def nextObserved (cfg : Config) (ok : State → History → Event → Prop)
    [∀ s h e, Decidable (ok s h e)] (p : State × History) (e : Event) :
    Option (Step × (State × History)) :=
  (nextStep cfg (fun s e => ok s p.2 e) p.1 e).map fun r =>
    (r.1, (r.2, p.2.look p.1 r.1 r.2.tables))

def observedEndsIn (cfg : Config) (ok : State → History → Event → Prop)
    [∀ s h e, Decidable (ok s h e)] (test : State × History → Bool) (p : State × History)
    (events : List Event) : Bool :=
  Transitions.runsTo (nextObserved cfg ok) test p events

theorem observedRun_of_endsIn {cfg : Config} {ok : State → History → Event → Prop}
    [∀ s h e, Decidable (ok s h e)] {test : State × History → Bool} {p : State × History}
    {events : List Event} (h : observedEndsIn cfg ok test p events = true) :
    ∃ q, ObservedRun cfg ok p events q ∧ test q = true := by
  obtain ⟨q, ls, hls, hrun, htest⟩ := @Transitions.run_of_runsTo _ _ _
    ((observed cfg).restrict fun p l => ok p.1 p.2 l.event) (·.event) (nextObserved cfg ok) test
    (fun p e l q hn => by
      obtain ⟨⟨l', s'⟩, hnext, hr⟩ := Option.map_eq_some_iff.mp hn
      cases hr
      obtain ⟨hl, hok, hstep⟩ := nextStep_step hnext
      exact ⟨hl, by simpa only [hl] using hok, hstep, rfl⟩) p events h
  exact ⟨q, ⟨ls, hls, hrun⟩, htest⟩

section Look
variable (h : History) (s : State) (t u : Tables) (b : Mem) (now : BitVec 32)

@[simp] theorem see_newClient (j : Fin maxClntCnt) (id : Int) :
    h.see t u b now (.newClient j id) = h.admission t b now j id := rfl

@[simp] theorem see_clnt2serv (j : Fin maxClntCnt) (destId : Int) (p : Mem) (length : Int)
    (addr : SockaddrIn) :
    h.see t u b now (.sent ⟨.clnt2serv, j, destId, p, length, addr⟩) =
      h.clientSegment t u b j := by
  simp [History.see]

@[simp] theorem see_serv2clnt (j : Fin maxClntCnt) (sourceId : Int) (p : Mem) (length : Int)
    (addr : SockaddrIn) :
    h.see t u b now (.sent ⟨.serv2clnt, sourceId, j, p, length, addr⟩) =
      h.serverSegment t b j := by
  simp [History.see]

@[simp] theorem see_clntDisconnected (j : Fin maxClntCnt) (id : Int) :
    h.see t u b now (.clntDisconnected j id) = h := rfl

@[simp] theorem instanceAt_coe (i : Fin maxServCnt) :
    h.instanceAt t i = if t.live i then
      some ⟨h.registered i, i, (t.servList i).sock, (t.servList i).ip, (t.servList i).port⟩
      else none := by
  simp [History.instanceAt]

theorem look_closed {fd : Int} {reads : List ReadResult} {stack : Mem} {out : List Output}
    {x : LoopExit} {i : Fin maxServCnt} (hfind : findServer s.tables fd = some i) :
    h.look s ⟨.server fd reads .eof stack, out, x⟩ u = h.close s.tables i := by
  simp only [History.look, hfind]

variable {received : Option (Received bufSize)} {minIndex : Int} (j : Fin maxClntCnt)
  {id length : Int} {b' : Mem} {addr : SockaddrIn} {x : LoopExit}

theorem look_admitted :
    h.look s ⟨.packet received now minIndex, [.newClient j id,
        .sent ⟨.clnt2serv, j, id, b', length, addr⟩], x⟩ u =
      (h.admission s.tables (recvInto s.buf received) now j id).clientSegment s.tables u
        (recvInto s.buf received) j := by
  simp only [History.look, List.foldl, see_newClient, see_clnt2serv]

theorem look_forwarded :
    h.look s ⟨.packet received now minIndex, [.sent ⟨.clnt2serv, j, id, b', length, addr⟩],
        x⟩ u = h.clientSegment s.tables u (recvInto s.buf received) j := by
  simp only [History.look, List.foldl, see_clnt2serv]

theorem look_released :
    h.look s ⟨.packet received now minIndex, [.sent ⟨.clnt2serv, j, id, b', length, addr⟩,
        .clntDisconnected j id], x⟩ u =
      h.clientSegment s.tables u (recvInto s.buf received) j := by
  simp only [History.look, List.foldl, see_clnt2serv, see_clntDisconnected]

theorem look_relayed :
    h.look s ⟨.packet received now minIndex, [.sent ⟨.serv2clnt, id, j, b', length, addr⟩],
        x⟩ u = h.serverSegment s.tables (recvInto s.buf received) j := by
  simp only [History.look, List.foldl, see_serv2clnt]

theorem serverSegment_same :
    (h.serverSegment t b j).session = h.session ∧
      (h.serverSegment t b j).admissions = h.admissions ∧
      (h.serverSegment t b j).admitted = h.admitted ∧
      (h.serverSegment t b j).registered = h.registered ∧
      (h.serverSegment t b j).joins = h.joins ∧
      (h.serverSegment t b j).log = h.log := by
  unfold History.serverSegment
  split <;> exact ⟨rfl, rfl, rfl, rfl, rfl, rfl⟩

end Look

def sessionNode (cfg : Config) (c : Session) : ClntListNode :=
  ⟨c.client.1, c.client.2.toNat, (cfg.rand c.clock % 16386 + 49152 : Nat)⟩

/-- An occupied slot has the session that was admitted to it. -/
structure SessionsMatch (cfg : Config) (t : Tables) (h : History) : Prop where
  occupied : ∀ j, t.occupied j → ∃ c, h.session j = some c ∧ t.clntList j = sessionNode cfg c
  admitted : ∀ j c, h.session j = some c →
    c.client.2 ≠ 0 ∧ c.serial < h.admissions ∧ h.admitted c.serial = c.client

theorem SessionsMatch.same {cfg : Config} {t u : Tables} {h h' : History}
    (hm : SessionsMatch cfg t h) (hc : ∀ j, u.occupied j → u.clntList j = t.clntList j)
    (hs : h'.session = h.session) (hn : h'.admissions = h.admissions)
    (ha : h'.admitted = h.admitted) : SessionsMatch cfg u h' := by
  refine ⟨fun j hj => ?_, fun j c hj => ?_⟩
  · have ht : t.occupied j := by rw [Tables.occupied, ← hc j hj]; exact hj
    rw [hs, hc j hj]
    exact hm.occupied j ht
  · rw [hs] at hj
    rw [hn, ha]
    exact hm.admitted j c hj

theorem SessionsMatch.admission {cfg : Config} {t : Tables} {h : History} {b : Mem}
    {now : BitVec 32} {j : Fin maxClntCnt} {i : Fin maxServCnt} {recent : Int}
    (hm : SessionsMatch cfg t h) (hsrc : (tcpSource b).toNat ≠ 0) :
    SessionsMatch cfg (admitTables cfg t b now j i recent) (h.admission t b now j i) := by
  refine ⟨fun k hk => ?_, fun k c hk => ?_⟩
  · by_cases hkj : k = j
    · subst hkj
      exact ⟨_, Function.update_self .., by simp [sessionNode, newClntNode, clientOf]⟩
    · simp only [admitTables_clntList, Tables.occupied, Function.update_of_ne hkj] at hk ⊢
      obtain ⟨c, hc, hnode⟩ := hm.occupied k hk
      exact ⟨c, by simp [History.admission, hkj, hc], hnode⟩
  · simp only [History.admission] at hk ⊢
    by_cases hkj : k = j
    · subst hkj
      rw [Function.update_self] at hk
      cases hk
      refine ⟨fun h0 => hsrc ?_, Nat.lt_succ_self _, Function.update_self ..⟩
      have h0 : tcpSource b = 0 := h0
      rw [h0]
      rfl
    · rw [Function.update_of_ne hkj] at hk
      obtain ⟨hport, hlt, hadm⟩ := hm.admitted k c hk
      exact ⟨hport, Nat.lt_succ_of_lt hlt, by rw [Function.update_of_ne (by omega), hadm]⟩

theorem SessionsMatch.close {cfg : Config} {t v u : Tables} {h : History}
    {i : Fin maxServCnt} (hm : SessionsMatch cfg t h) (ht : SameButUsage t v)
    (hu : Closed v i u) : SessionsMatch cfg u (h.close t i) := by
  refine ⟨fun k hk => ?_, fun k c hk => ?_⟩
  · obtain ⟨ho, ha⟩ := (closed_occupied hu k).mp hk
    have ha' : ¬t.assigned i k := by rw [Tables.assigned, ← ht.forwardingTable]; exact ha
    rw [Tables.occupied, ht.clntList] at ho
    rw [hu.clntList, if_neg ha, ht.clntList]
    simp only [History.close, if_neg ha']
    exact hm.occupied k ho
  · simp only [History.close] at hk ⊢
    split at hk
    · contradiction
    · exact hm.admitted k c hk

theorem sessionsMatch_step {cfg : Config} {s : State} {h : History} {l : Step} {u : Tables}
    (hs : s.Sound) (hstep : TablesStep cfg s l u) (hm : SessionsMatch cfg s.tables h) :
    SessionsMatch cfg u (h.look s l u) := by
  cases hstep with
  | denied => exact hm
  | joined i node _ _ _ hu => exact hm.same (fun j _ => by rw [hu.clntList]) rfl rfl rfl
  | health hu => exact hm.same (fun j _ => by rw [hu.clntList]) rfl rfl rfl
  | closed t i hfind _ ht hu =>
    rw [look_closed h s u hfind]
    exact hm.close ht hu
  | packet hpkt =>
    cases hpkt with
    | ignored => exact hm
    | unknown => exact hm
    | admitted j i recent _ _ _ hport _ _ hfree _ _ =>
      rw [look_admitted]
      exact (hm.admission (admitted_port_ne hport hfree)).same (fun _ _ => rfl) rfl rfl rfl
    | forwarded j i _ _ _ _ _ _ _ =>
      rw [look_forwarded]
      exact hm.same (fun _ _ => by split <;> rfl) rfl rfl rfl
    | released j i _ _ _ _ _ _ _ _ =>
      rw [look_released]
      refine hm.same (fun k hk => ?_) rfl rfl rfl
      rw [releaseClnt_clntList, Function.update_of_ne ((occupied_release j k).mp hk).1]
    | relayed j _ _ _ _ _ _ =>
      rw [look_relayed]
      obtain ⟨hsession, hcnt, hadm, _⟩ := serverSegment_same h s.tables _ j
      exact hm.same (fun _ _ => by split <;> rfl) hsession hcnt hadm
    | relayReleased j i _ _ _ _ hassigned _ hflag _ =>
      exact absurd hflag (hs.tables.flag_ne_of_assigned hassigned)

theorem Observed.sessionsMatch {cfg : Config} {p : State × History} (hp : Observed cfg p) :
    SessionsMatch cfg p.1.tables p.2 :=
  hp.invariant ⟨fun _ hj => absurd rfl hj, fun _ _ hj => by contradiction⟩
    (fun _ _ _ _ hs hstep hm => sessionsMatch_step hs.reachable.sound hstep hm)

end LoadBalancer
