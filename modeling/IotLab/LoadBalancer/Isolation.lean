import IotLab.LoadBalancer.Sessions

set_option autoImplicit false

namespace LoadBalancer
open SlotTable HostMemory

/-- The slot that a client packet finds by its source port has its source address. -/
abbrev PortPrivate (cfg : Config) (t : Tables) (b : Mem) : Prop :=
  fromClient cfg t b → ∀ j ∈ findPort t.clntList b, (t.clntList j).ip = ipSaddr b

def PortsPrivate (cfg : Config) (s : State) (_ : History) : Event → Prop
  | .packet received _ _ => PortPrivate cfg s.tables (recvInto s.buf received)
  | .join _ _ _ => True
  | .server _ _ _ _ => True

instance (cfg : Config) (s : State) (h : History) : DecidablePred (PortsPrivate cfg s h)
  | .packet received _ _ => inferInstanceAs
    (Decidable (PortPrivate cfg s.tables (recvInto s.buf received)))
  | .join _ _ _ => inferInstanceAs (Decidable True)
  | .server _ _ _ _ => inferInstanceAs (Decidable True)

/-- A client packet leaves the entry and the pair of every other client as they are. -/
def OthersKept (cfg : Config) (s : State) (b : Mem) (u : Tables) : Prop :=
  fromClient cfg s.tables b → ∀ k, s.tables.occupied k →
    ¬(s.tables.clntList k).isOf (clientOf b) →
    u.clntList k = s.tables.clntList k ∧ u.forwardingTable k = s.tables.forwardingTable k

/-- The forwarded packets so far: each under an entry of its own client, and those of one
admission all of the client that was admitted. -/
structure LogKept (h : History) : Prop where
  entry : ∀ f ∈ h.log, f.entry.isOf f.client
  admitted : ∀ f ∈ h.log, ∀ n, f.serial = some n →
    n < h.admissions ∧ h.admitted n = f.client

section Log
variable {cfg : Config} {t u : Tables} {h : History} {b : Mem} {j : Fin maxClntCnt}

theorem LogKept.admission {now : BitVec 32} {id : Int} (hl : LogKept h) :
    LogKept (h.admission t b now j id) := by
  refine ⟨hl.entry, fun f hf n hn => ?_⟩
  obtain ⟨hlt, hadm⟩ := hl.admitted f hf n hn
  simp only [History.admission]
  exact ⟨Nat.lt_succ_of_lt hlt, by rw [Function.update_of_ne (by omega), hadm]⟩

theorem LogKept.clientSegment (hl : LogKept h) (hentry : (usedEntry t u j).isOf (clientOf b))
    (hsession : (usedEntry t u j).port ≠ 0 → ∀ c, h.session j = some c →
      c.client = clientOf b ∧ c.serial < h.admissions ∧ h.admitted c.serial = c.client) :
    LogKept (h.clientSegment t u b j) := by
  constructor
  · intro f hf
    rcases List.mem_cons.mp hf with rfl | hf
    · exact hentry
    · exact hl.entry f hf
  · intro f hf n hn
    rcases List.mem_cons.mp hf with rfl | hf
    · dsimp only at hn
      split at hn
      · contradiction
      · rename_i hport
        obtain ⟨c, hc, rfl⟩ := Option.map_eq_some_iff.mp hn
        obtain ⟨hclient, hlt, hadm⟩ := hsession hport c hc
        exact ⟨hlt, hadm.trans hclient⟩
    · exact hl.admitted f hf n hn

theorem LogKept.same {h' : History} (hl : LogKept h) (hlog : h'.log = h.log)
    (hn : h'.admissions = h.admissions) (ha : h'.admitted = h.admitted) : LogKept h' := by
  constructor
  · rw [hlog]
    exact hl.entry
  · rw [hlog, hn, ha]
    exact hl.admitted

theorem usedEntry_found (hs : t.Sound)
    (hu : u.clntList j = t.clntList j ∨ u.clntList j = .zero) :
    usedEntry t u j = t.clntList j := by
  unfold usedEntry
  split
  · rfl
  · rename_i hj
    rcases hu with hu | hu
    · exact hu
    · rw [hu, hs.free_zero j hj]

theorem LogKept.found (hs : t.Sound) (hm : SessionsMatch cfg t h) (hl : LogKept h)
    (hport : findPort t.clntList b = some j) (hip : (t.clntList j).ip = ipSaddr b)
    (hu : u.clntList j = t.clntList j ∨ u.clntList j = .zero) :
    LogKept (h.clientSegment t u b j) := by
  have hentry := usedEntry_found hs hu
  refine hl.clientSegment ?_ (fun hocc c hc => ?_)
  · rw [hentry]
    exact ⟨hip, findPort_some hport⟩
  · rw [hentry] at hocc
    obtain ⟨c', hc', hnode⟩ := hm.occupied j hocc
    have hcc : c' = c := Option.some.inj (hc'.symm.trans hc)
    subst hcc
    obtain ⟨_, hlt, hadm⟩ := hm.admitted j c' hc
    refine ⟨Prod.ext ?_ (BitVec.eq_of_toNat_eq ?_), hlt, hadm⟩
    · rw [hnode] at hip
      exact hip
    · have hp := findPort_some hport
      rw [hnode] at hp
      exact Int.ofNat.inj hp

end Log

theorem logKept_step {cfg : Config} {s : State} {h : History} {l : Step} {u : Tables}
    (hp : Observed cfg (s, h)) (hok : PortsPrivate cfg s h l.event)
    (hstep : TablesStep cfg s l u) (hl : LogKept h) : LogKept (h.look s l u) := by
  have hs := hp.reachable.sound.tables
  have hm : SessionsMatch cfg s.tables h := hp.sessionsMatch
  cases hstep with
  | denied => exact hl
  | joined => exact hl.same rfl rfl rfl
  | health => exact hl
  | closed t i hfind _ _ _ =>
    rw [look_closed h s u hfind]
    exact hl.same rfl rfl rfl
  | packet hpkt =>
    cases hpkt with
    | ignored => exact hl
    | unknown => exact hl
    | admitted j i recent _ _ _ hport _ _ hfree _ _ =>
      rw [look_admitted]
      have hj : ¬s.tables.occupied j := firstFree_free hfree
      refine hl.admission.clientSegment ?_ (fun _ c hc => ?_)
      · rw [usedEntry, if_neg hj, admitTables_clntList, Function.update_self]
        exact ⟨rfl, rfl⟩
      · simp only [History.admission, Function.update_self] at hc ⊢
        cases hc
        exact ⟨rfl, Nat.lt_succ_self _, Function.update_self ..⟩
    | forwarded j i _ hdir hserv hport _ _ _ =>
      rw [look_forwarded]
      exact hl.found hs hm hport (hok ⟨hdir, hserv⟩ j hport) (.inl (by split <;> rfl))
    | released j i _ hdir hserv hport _ _ _ _ =>
      rw [look_released]
      exact hl.found hs hm hport (hok ⟨hdir, hserv⟩ j hport)
        (.inr (by rw [releaseClnt_clntList, Function.update_self]))
    | relayed j _ _ _ _ _ _ =>
      rw [look_relayed]
      obtain ⟨_, hn, ha, _, _, hlog⟩ := serverSegment_same h s.tables _ j
      exact hl.same hlog hn ha
    | relayReleased j i _ _ _ _ hassigned _ hflag _ =>
      exact absurd hflag (hs.flag_ne_of_assigned hassigned)

theorem othersKept_step {cfg : Config} {s : State} {b b' : Mem} {length : Int}
    {now : BitVec 32} {minIndex : Int} {u : Tables} {out : List Output} {x : LoopExit}
    (hok : PortPrivate cfg s.tables b)
    (hstep : PacketStep cfg s.tables b length now minIndex u b' out x) :
    OthersKept cfg s b u := by
  intro hdir k hk hother
  -- The slot found is one of the packet's own client.
  have hne {j : Fin maxClntCnt} (hport : findPort s.tables.clntList b = some j) : k ≠ j := by
    intro hkj
    subst hkj
    exact hother ⟨hok hdir k hport, findPort_some hport⟩
  cases hstep with
  | ignored => exact ⟨rfl, rfl⟩
  | unknown => exact ⟨rfl, rfl⟩
  | admitted j i recent _ _ _ _ _ _ hfree _ _ =>
    have hkj : k ≠ j := by
      intro hkj
      subst hkj
      exact firstFree_free hfree hk
    rw [admitTables_clntList, admitTables_forwarding, Function.update_of_ne hkj,
      Function.update_of_ne hkj]
    exact ⟨rfl, rfl⟩
  | forwarded j i _ _ _ hport _ _ _ =>
    split
    · exact ⟨rfl, Function.update_of_ne (hne hport) ..⟩
    · exact ⟨rfl, rfl⟩
  | released j i _ _ _ hport _ _ _ _ =>
    rw [releaseClnt_clntList, Function.update_of_ne (hne hport)]
    exact ⟨rfl, rfl⟩
  | relayed j _ hc _ _ _ _ => cases hc.symm.trans hdir.1
  | relayReleased j i _ hc _ _ _ _ _ _ => cases hc.symm.trans hdir.1

theorem ObservedWhen.logKept {cfg : Config} {p : State × History}
    (hp : ObservedWhen cfg (PortsPrivate cfg) p) : LogKept p.2 :=
  @ObservedWhen.invariant cfg _ (fun _ h => LogKept h)
    ⟨fun _ hf => absurd hf List.not_mem_nil, fun _ hf => absurd hf List.not_mem_nil⟩
    (fun _ _ _ _ hobs hok hstep hl => logKept_step hobs hok hstep hl) p hp

/-- In a run in which no packet finds the slot of another address by its port: every forwarded
packet used an entry of its own client, packets under one admission come from one client, and
the next such packet changes no entry of another client. -/
theorem endpoints_isolated {cfg : Config} {s : State} {h : History}
    (hp : ObservedWhen cfg (PortsPrivate cfg) (s, h)) :
    (∀ f ∈ h.log, f.entry.isOf f.client) ∧
    (∀ f ∈ h.log, ∀ g ∈ h.log, f.serial.isSome → f.serial = g.serial →
      f.client = g.client) ∧
    ∀ received now minIndex out x s',
      PortPrivate cfg s.tables (recvInto s.buf received) →
      (system cfg).step s ⟨.packet received now minIndex, out, x⟩ s' →
      OthersKept cfg s (recvInto s.buf received) s'.tables := by
  have hl : LogKept h := hp.logKept
  refine ⟨hl.entry, fun f hf g hg hsome heq => ?_, fun received now minIndex out x s' hok hst =>
    othersKept_step hok (packet_ok hst.2).1⟩
  obtain ⟨n, hn⟩ := Option.isSome_iff_exists.mp hsome
  exact (hl.admitted f hf n hn).2.symm.trans (hl.admitted g hg n (heq ▸ hn)).2

theorem endpoints_isolated_demo : ∃ s h,
    ObservedWhen demoConfig (PortsPrivate demoConfig) (s, h) ∧
    h.log.map (·.client) = [(0x0800000a, 0x419c), (0x0900000a, 0x409c), (0x0800000a, 0x419c),
      (0x0900000a, 0x409c)] ∧
    ∀ f ∈ h.log, f.entry.isOf f.client := by
  obtain ⟨⟨s, h⟩, hrun, htest⟩ := @observedRun_of_endsIn demoConfig (PortsPrivate demoConfig) _
    (fun q => q.2.log.map (·.client) = [(0x0800000a, 0x419c), (0x0900000a, 0x409c),
      (0x0800000a, 0x419c), (0x0900000a, 0x409c)]) (demoStart, .start)
    [demoJoin, demoClient synFlag, demoOther synFlag, demoClient ackFlag, demoOther ackFlag]
    (by decide +kernel)
  have hobs := hrun.observedWhen
  exact ⟨s, h, hobs, of_decide_eq_true htest, (endpoints_isolated hobs).1⟩

/-- A second host that uses the port of an admitted client is forwarded under the entry of
that client. -/
theorem shared_port_mixes : ∃ q, ObservedRun demoConfig anyObserved (demoStart, .start)
    [demoJoin, demoClient synFlag, demoSegment 0x0800000a 0x409c 0x5000 ackFlag 0] q ∧
    ∃ f ∈ q.2.log, ∃ g ∈ q.2.log, f.serial = some 0 ∧ g.serial = some 0 ∧
      f.client ≠ g.client ∧ ¬f.entry.isOf f.client := by
  obtain ⟨q, hrun, htest⟩ := @observedRun_of_endsIn demoConfig anyObserved _
    (fun q => ∃ f ∈ q.2.log, ∃ g ∈ q.2.log, f.serial = some 0 ∧ g.serial = some 0 ∧
      f.client ≠ g.client ∧ ¬f.entry.isOf f.client) (demoStart, .start)
    [demoJoin, demoClient synFlag, demoSegment 0x0800000a 0x409c 0x5000 ackFlag 0]
    (by decide +kernel)
  exact ⟨q, hrun, of_decide_eq_true htest⟩

end LoadBalancer
