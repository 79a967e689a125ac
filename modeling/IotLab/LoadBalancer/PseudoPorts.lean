import IotLab.LoadBalancer.Sessions
import IotLab.LoadBalancer.RoundTrip

set_option autoImplicit false

namespace LoadBalancer
open SlotTable HostMemory

/-- The residue drawn with the clock at `now`; the pseudo port is 49152 above it. -/
def drawn (cfg : Config) (now : BitVec 32) : Nat := cfg.rand now % 16386

/-- The pseudo port of slot `j` fits the 16-bit source field, and no other occupied slot and
not the LB itself has it. -/
structure PseudoPortGood (cfg : Config) (t : Tables) (j : Fin maxClntCnt) : Prop where
  range : 1 ≤ (t.clntList j).pseudoPort ∧ (t.clntList j).pseudoPort ≤ 65535
  survives : ((BitVec.ofInt 16 (t.clntList j).pseudoPort).toNat : Int) =
    (t.clntList j).pseudoPort
  distinct : ∀ k, k ≠ j → t.occupied k →
    (t.clntList k).pseudoPort ≠ (t.clntList j).pseudoPort
  ne_lb : (t.clntList j).pseudoPort ≠ cfg.lbaddr.port.toNat

/-- A draw that is neither 16384 nor 16385, differs from the draw of every session that still
has its slot, and misses the port of the LB. -/
structure DrawGood (cfg : Config) (t : Tables) (h : History) (now : BitVec 32) : Prop where
  range : drawn cfg now < 16384
  fresh : ∀ k c, t.occupied k → h.session k = some c → drawn cfg c.clock ≠ drawn cfg now
  ne_lb : drawn cfg now + 49152 ≠ cfg.lbaddr.port.toNat

theorem newClntNode_pseudoPort (cfg : Config) (b : Mem) (now : BitVec 32) :
    (newClntNode cfg b now).pseudoPort = (drawn cfg now : Int) + 49152 := by
  simp [newClntNode, drawn]

section Admission
variable {cfg : Config} {t : Tables} {h : History} {b : Mem} {now : BitVec 32}
  {j : Fin maxClntCnt} {i : Fin maxServCnt} {recent : Int}

theorem SessionsMatch.pseudoPort (hm : SessionsMatch cfg t h) {k : Fin maxClntCnt}
    (hk : t.occupied k) : ∃ c, h.session k = some c ∧
      (t.clntList k).pseudoPort = (drawn cfg c.clock : Int) + 49152 := by
  obtain ⟨c, hc, hnode⟩ := hm.occupied k hk
  exact ⟨c, hc, by simp [hnode, sessionNode, drawn]⟩

theorem admitted_port_good (hm : SessionsMatch cfg t h) (hj : ¬t.occupied j)
    (hsrc : (tcpSource b).toNat ≠ 0) :
    PseudoPortGood cfg (admitTables cfg t b now j i recent) j ↔ DrawGood cfg t h now := by
  have hself : ((admitTables cfg t b now j i recent).clntList j).pseudoPort =
      (drawn cfg now : Int) + 49152 := by
    rw [admitTables_clntList, Function.update_self, newClntNode_pseudoPort]
  constructor
  · rintro ⟨⟨_, hle⟩, _, hdistinct, hlb⟩
    rw [hself] at hle hdistinct hlb
    refine ⟨by omega, fun k c hk hc heq => ?_, by omega⟩
    have hkj : k ≠ j := fun hkj => hj (hkj ▸ hk)
    obtain ⟨c', hc', hport⟩ := hm.pseudoPort hk
    have hcc : c' = c := Option.some.inj (hc'.symm.trans hc)
    refine hdistinct k hkj ((occupied_admitted hsrc k).mpr (.inr hk)) ?_
    rw [admitTables_clntList, Function.update_of_ne hkj, hport, hcc, heq]
  · rintro ⟨hrange, hfresh, hlb⟩
    refine ⟨by omega, ?_, fun k hkj hk => ?_, by omega⟩
    · rw [hself]
      exact ofInt_toNat (by omega) (by omega)
    · have hocc := ((occupied_admitted hsrc k).mp hk).resolve_left hkj
      obtain ⟨c, hc, hport⟩ := hm.pseudoPort hocc
      have hne := hfresh k c hocc hc
      rw [hself, admitTables_clntList, Function.update_of_ne hkj, hport]
      omega

end Admission

/-- Of every admission in every run: the pseudo port is good exactly when the draw is. -/
theorem pseudo_port_good_iff {cfg : Config} {s s' : State} {h : History}
    {received : Option (Received bufSize)} {now : BitVec 32} {minIndex : Int}
    {out : List Output} {x : LoopExit} {j : Fin maxClntCnt} {id : Int}
    (hp : Observed cfg (s, h))
    (hstep : (system cfg).step s ⟨.packet received now minIndex, out, x⟩ s')
    (hadm : .newClient j id ∈ out) :
    PseudoPortGood cfg s'.tables j ↔ DrawGood cfg s.tables h now := by
  have hm : SessionsMatch cfg s.tables h := hp.sessionsMatch
  have hpkt := (packet_ok hstep.2).1
  generalize s'.tables = u at hpkt
  generalize s'.buf = b' at hpkt
  cases hpkt with
  | ignored => simp at hadm
  | unknown => simp at hadm
  | admitted k i recent _ _ _ hport _ _ hfree _ _ =>
    obtain ⟨rfl, _⟩ : j = k ∧ id = i.val := by simpa using hadm
    have hj : ¬s.tables.occupied j := firstFree_free hfree
    exact admitted_port_good hm hj (admitted_port_ne hport hfree)
  | forwarded => simp at hadm
  | released => simp at hadm
  | relayed => simp at hadm
  | relayReleased => simp at hadm

/-- A second client is admitted beside the first. -/
theorem pseudo_port_good_demo : ∃ s h s' l, Observed demoConfig (s, h) ∧
    (system demoConfig).step s l s' ∧ s.tables.occupied 0 ∧
    PseudoPortGood demoConfig s'.tables 1 := by
  obtain ⟨⟨s, h⟩, hrun, htest⟩ := @observedRun_of_endsIn demoConfig anyObserved _
    (fun q => (nextStep demoConfig anyStep q.1 (demoOther synFlag)).any fun (r : Step × State) =>
      decide ((1, 0) ∈ admissions r.1.out ∧ q.1.tables.occupied 0 ∧
        ∀ k, q.1.tables.occupied k → (q.2.session k).map (·.clock) = some 0))
    (demoStart, .start) [demoJoin, demoClient synFlag] (by decide +kernel)
  obtain ⟨⟨e, out, x⟩, s', rfl, hstep, htest⟩ := nextStep_any htest
  obtain ⟨hmem, hocc, hclock⟩ := of_decide_eq_true htest
  have hobs := hrun.observedWhen.observed
  refine ⟨s, h, s', _, hobs, hstep, hocc, ?_⟩
  refine (pseudo_port_good_iff hobs hstep (mem_admissions.mp hmem)).mpr ?_
  refine ⟨by decide, fun k c hk hc => ?_, by decide⟩
  have hzero : c.clock = 0 := by simpa [hc] using hclock k hk
  rw [hzero]
  decide

/-- Two clients admitted in the same second are given the same pseudo port. -/
theorem same_second_same_port : ∃ s, Executes demoConfig anyStep demoStart
    [demoJoin, demoClient synFlag, demoSegment 0x0800000a 0x419c 0x5000 synFlag 0] s ∧
    s.tables.occupied 0 ∧ s.tables.occupied 1 ∧
    (s.tables.clntList 0).pseudoPort = (s.tables.clntList 1).pseudoPort ∧
    ¬PseudoPortGood demoConfig s.tables 1 := by
  obtain ⟨s, hrun, htest⟩ := @executes_of_endsIn demoConfig anyStep _
    (fun s => s.tables.occupied 0 ∧ s.tables.occupied 1 ∧
      (s.tables.clntList 0).pseudoPort = (s.tables.clntList 1).pseudoPort) demoStart
    [demoJoin, demoClient synFlag, demoSegment 0x0800000a 0x419c 0x5000 synFlag 0]
    (by decide +kernel)
  obtain ⟨h0, h1, heq⟩ := of_decide_eq_true htest
  exact ⟨s, hrun, h0, h1, heq, fun hgood => hgood.distinct 0 (by decide) h0 heq⟩

def DrawsGood (cfg : Config) (s : State) (h : History) : Event → Prop
  | .packet received now _ =>
    let b := recvInto s.buf received
    fromClient cfg s.tables b → findPort s.tables.clntList b = none → checkType b = .syn →
      s.tables.clntCnt ≠ maxClntCnt → DrawGood cfg s.tables h now
  | .join _ _ _ => True
  | .server _ _ _ _ => True

def PortsGood (cfg : Config) (t : Tables) : Prop := ∀ j, t.occupied j → PseudoPortGood cfg t j

section Run
variable {cfg : Config} {t u : Tables} {h : History}

theorem PortsGood.same (hg : PortsGood cfg t)
    (hc : ∀ j, u.occupied j → u.clntList j = t.clntList j) : PortsGood cfg u := by
  have hocc {k : Fin maxClntCnt} (hk : u.occupied k) : t.occupied k := by
    rw [Tables.occupied, ← hc k hk]
    exact hk
  intro j hj
  obtain ⟨hrange, hsurvives, hdistinct, hlb⟩ := hg j (hocc hj)
  rw [← hc j hj] at hrange hsurvives hlb
  refine ⟨hrange, hsurvives, fun k hkj hk => ?_, hlb⟩
  rw [hc k hk, hc j hj]
  exact hdistinct k hkj (hocc hk)

theorem PortsGood.admission {b : Mem} {now : BitVec 32} {j : Fin maxClntCnt}
    {i : Fin maxServCnt} {recent : Int} (hg : PortsGood cfg t) (hm : SessionsMatch cfg t h)
    (hj : ¬t.occupied j) (hsrc : (tcpSource b).toNat ≠ 0) (hdraw : DrawGood cfg t h now) :
    PortsGood cfg (admitTables cfg t b now j i recent) := by
  have hnew : PseudoPortGood cfg (admitTables cfg t b now j i recent) j :=
    (admitted_port_good hm hj hsrc).mpr hdraw
  intro k hk
  by_cases hkj : k = j
  · subst hkj
    exact hnew
  · have hold : (admitTables cfg t b now j i recent).clntList k = t.clntList k :=
      Function.update_of_ne hkj ..
    obtain ⟨hrange, hsurvives, hdistinct, hlb⟩ :=
      hg k (((occupied_admitted hsrc k).mp hk).resolve_left hkj)
    rw [← hold] at hrange hsurvives hdistinct hlb
    refine ⟨hrange, hsurvives, fun m hmk hm' => ?_, hlb⟩
    by_cases hmj : m = j
    · subst hmj
      exact fun heq => hnew.distinct k hkj hk heq.symm
    · have hocc := ((occupied_admitted hsrc m).mp hm').resolve_left hmj
      rw [admitTables_clntList, Function.update_of_ne hmj]
      exact hdistinct m hmk hocc

theorem portsGood_step {s : State} {l : Step} (hp : Observed cfg (s, h))
    (hok : DrawsGood cfg s h l.event) (hstep : TablesStep cfg s l u)
    (hg : PortsGood cfg s.tables) : PortsGood cfg u := by
  cases hstep with
  | denied => exact hg
  | joined i node _ _ _ hu => exact hg.same (fun j _ => by rw [hu.clntList])
  | health hu => exact hg.same (fun j _ => by rw [hu.clntList])
  | closed t i _ _ ht hu =>
    refine hg.same (fun j hj => ?_)
    rw [hu.clntList, if_neg ((closed_occupied hu j).mp hj).2, ht.clntList]
  | packet hpkt =>
    cases hpkt with
    | ignored => exact hg
    | unknown => exact hg
    | admitted j i recent _ hdir hserv hport htype hcnt hfree _ _ =>
      have hj : ¬s.tables.occupied j := firstFree_free hfree
      exact hg.admission hp.sessionsMatch hj (admitted_port_ne hport hfree)
        (hok ⟨hdir, hserv⟩ hport htype hcnt)
    | forwarded => exact hg.same (fun j _ => by split <;> rfl)
    | released j i _ _ _ _ _ _ _ _ =>
      refine hg.same (fun k hk => ?_)
      rw [releaseClnt_clntList, Function.update_of_ne ((occupied_release j k).mp hk).1]
    | relayed => exact hg.same (fun j _ => by split <;> rfl)
    | relayReleased j i _ _ _ _ hassigned _ hflag _ =>
      exact absurd hflag (hp.reachable.sound.tables.flag_ne_of_assigned hassigned)

theorem ObservedWhen.pseudoPortsTell {p : State × History}
    (hp : ObservedWhen cfg (DrawsGood cfg) p) : PseudoPortsTell p.1.tables cfg.lbaddr := by
  have hs := hp.observed.reachable.sound.tables
  have hg : PortsGood cfg p.1.tables :=
    @ObservedWhen.invariant cfg _ (fun t _ => PortsGood cfg t) (fun j hj => absurd rfl hj)
      (fun _ _ _ _ hobs hok hstep hg => portsGood_step hobs hok hstep hg) p hp
  refine ⟨hs.free_zero, fun j _ => ⟨hs.port_nonneg j, hs.port_lt j⟩,
    fun j hj => (hg j hj).range, fun j k hj hk heq => ?_, fun j hj => (hg j hj).ne_lb⟩
  by_contra hjk
  exact (hg k hk).distinct j hjk hj heq

end Run

end LoadBalancer
