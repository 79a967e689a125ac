import IotLab.Library.Balance
import IotLab.LoadBalancer.Counters
import IotLab.LoadBalancer.Execution

set_option autoImplicit false

namespace LoadBalancer
open SlotTable HostMemory Balance

/-- The packet in `b` makes the handler admit a new client, into slot `j`. -/
structure Admits (cfg : Config) (t : Tables) (b : Mem) (j : Fin maxClntCnt) : Prop where
  dir : fromClient cfg t b
  unknown : findPort t.clntList b = none
  syn : checkType b = .syn
  room : t.clntCnt ≠ maxClntCnt
  free : firstSlot (fun j => (t.clntList j).port = 0) = some j

theorem scanServ_first {key : ServListNode → Int} {t : Tables} {start minIndex : Int}
    (hcnt : t.servCnt = t.liveCount) (hpos : t.servCnt ≠ 0)
    (hlt : ∃ i, t.live i ∧ key (t.servList i) < start) :
    ∃ k : Fin maxServCnt,
      scanServ key t.servList maxClntCnt 0 t.servCnt start minIndex = .ok (k : Int) ∧
        FirstLeast key t.servList 0 k := by
  obtain ⟨id, hrun, hres⟩ := @scanServ_result key t start minIndex hcnt hpos
  rcases hres with ⟨_, hmin⟩ | ⟨k, rfl, _, hk⟩
  · obtain ⟨i, hi, hlt⟩ := hlt
    have hle := hmin i ⟨Nat.zero_le _, hi⟩
    omega
  · exact ⟨k, hrun, hk⟩

theorem FirstLeast.eq {key : ServListNode → Int} {servList : Fin maxServCnt → ServListNode}
    {n : Nat} {i k : Fin maxServCnt} (hi : FirstLeast key servList n i)
    (hk : FirstLeast key servList n k) : i = k := by
  rcases lt_trichotomy i k with hlt | heq | hlt
  · have hle := (hi.2 k hk.1).1
    have hgt := (hk.2 i hi.1).2 hlt
    omega
  · exact heq
  · have hle := (hk.2 i hi.1).1
    have hgt := (hi.2 k hk.1).2 hlt
    omega

section LeastConn
variable {cfg : Config} {t : Tables} {b : Mem} {j : Fin maxClntCnt}

theorem Tables.Sound.clntCnt_lt (h : t.Sound) (hj : ¬t.occupied j) (i : Fin maxServCnt) :
    (t.servList i).clntCnt < maxClntCnt := by
  have hle := h.clntCnt_le i
  have hload := load_le_occupied t i
  have hlt : t.occupiedCount < maxClntCnt := count_lt_of_not hj
  omega

theorem leastConn_selects (h : t.Sound) (hserv : t.servCnt ≠ 0) (hj : ¬t.occupied j)
    (now : BitVec 32) :
    ∃ k : Fin maxServCnt, FirstLeast (·.clntCnt) t.servList 0 k ∧
      ∀ minIndex, selectServ .leastConn (addNewClnt cfg t j b now) minIndex =
        .ok ((k : Int), t.recentServId) := by
  obtain ⟨i, hi⟩ := exists_live h hserv
  have hcnt : (addNewClnt cfg t j b now).servCnt = (addNewClnt cfg t j b now).liveCount :=
    h.servCnt_eq
  have hlt : ∃ i, (addNewClnt cfg t j b now).live i ∧
      ((addNewClnt cfg t j b now).servList i).clntCnt < maxClntCnt :=
    ⟨i, hi, h.clntCnt_lt hj i⟩
  obtain ⟨k, _, hk⟩ := @scanServ_first (·.clntCnt) _ maxClntCnt 0 hcnt hserv hlt
  refine ⟨k, hk, fun minIndex => ?_⟩
  obtain ⟨k', hrun, hk'⟩ := @scanServ_first (·.clntCnt) _ maxClntCnt minIndex hcnt hserv hlt
  rw [hk'.eq hk] at hrun
  simp [selectServ, hrun, bind, Except.bind]
  rfl

end LeastConn

def clntCounts (t : Tables) (i : Fin maxServCnt) : Int := (t.servList i).clntCnt

def liveSet (t : Tables) : Set (Fin maxServCnt) := {i | t.live i}

def Output.keeps : Output → Bool
  | .newClient _ _ | .sent _ => true
  | .newServer _ _ _ | .clntDisconnected _ _ | .serverClosed _ _ => false

def Step.OnlyAdmits (l : Step) : Prop := ∀ o ∈ l.out, o.keeps

theorem FirstLeast.least {t : Tables} {k : Fin maxServCnt}
    (h : FirstLeast (·.clntCnt) t.servList 0 k) : Least (liveSet t) (clntCounts t) k :=
  ⟨h.1.2, fun m hm => (h.2 m ⟨Nat.zero_le _, hm⟩).1⟩

theorem clntCounts_admitted (cfg : Config) (t : Tables) (b : Mem) (now : BitVec 32)
    (j : Fin maxClntCnt) (i : Fin maxServCnt) (recent : Int) :
    clntCounts (admitTables cfg t b now j i recent) =
      Function.update (clntCounts t) i (clntCounts t i + 1) := by
  funext k
  rw [clntCounts, admitTables_servList]
  by_cases hk : k = i
  · subst hk
    simp [clntCounts]
  · simp [clntCounts, hk]

theorem liveSet_congr {t u : Tables}
    (h : ∀ i, (u.servList i).sock = (t.servList i).sock) : liveSet u = liveSet t := by
  ext i
  simp [liveSet, h i]

theorem SameButUsage.clntCounts {t u : Tables} (h : SameButUsage t u) :
    clntCounts u = clntCounts t := by
  funext i
  rw [LoadBalancer.clntCounts, h.servList]
  rfl

section Run
variable {cfg : Config} {s s' : State} {l : Step} {ls : List Step} {u : Tables}

theorem PacketStep.kept_or_given {t : Tables} {b b' : Mem} {length : Int} {now : BitVec 32}
    {minIndex : Int} {out : List Output} {x : LoopExit}
    (h : PacketStep cfg t b length now minIndex u b' out x) (hs : t.Sound)
    (halgo : cfg.selectedAlgo = .leastConn) (hout : ∀ o ∈ out, o.keeps) :
    clntCounts u = clntCounts t ∨ ∃ i, Least (liveSet t) (clntCounts t) i ∧
      clntCounts u = Function.update (clntCounts t) i (clntCounts t i + 1) := by
  cases h with
  | ignored | unknown => exact .inl rfl
  | admitted j i recent _ hdir hserv _ _ _ hfree hsel =>
    obtain ⟨k, hk, hall⟩ := @leastConn_selects cfg t b j hs hserv
      (firstFree_free hfree) now
    rw [halgo, hall] at hsel
    have hki : k = i := by
      simp only [Except.ok.injEq, Prod.mk.injEq] at hsel
      exact Fin.ext (by omega)
    exact .inr ⟨i, hki ▸ hk.least, clntCounts_admitted cfg t b now j i recent⟩
  | forwarded | relayed =>
    refine .inl ?_
    split <;> rfl
  | released | relayReleased => simp [Output.keeps] at hout

theorem TablesStep.kept_or_given (h : TablesStep cfg s l u) (hs : s.Sound)
    (halgo : cfg.selectedAlgo = .leastConn) (hl : l.OnlyAdmits) :
    liveSet u = liveSet s.tables ∧
      (clntCounts u = clntCounts s.tables ∨
        ∃ i, Least (liveSet s.tables) (clntCounts s.tables) i ∧
          clntCounts u =
            Function.update (clntCounts s.tables) i (clntCounts s.tables i + 1)) := by
  unfold Step.OnlyAdmits at hl
  cases h with
  | denied => exact ⟨rfl, .inl rfl⟩
  | joined => simp [Output.keeps] at hl
  | packet hstep =>
    exact ⟨liveSet_congr fun i => by rw [hstep.servList], hstep.kept_or_given hs.tables halgo hl⟩
  | health hu => exact ⟨liveSet_congr fun i => by rw [hu.servList], .inl hu.clntCounts⟩
  | closed => simp [closeServer, Output.keeps, or_imp, forall_and] at hl

theorem spread_run (hs : Reachable cfg s) (halgo : cfg.selectedAlgo = .leastConn)
    (hrun : Transitions.Run ((system cfg).restrict fun _ l => l.OnlyAdmits) s ls s')
    (h : Spread (liveSet s.tables) 1 (clntCounts s.tables)) :
    Spread (liveSet s'.tables) 1 (clntCounts s'.tables) := by
  induction hrun with
  | nil => exact h
  | cons hst _ ih =>
    obtain ⟨hl, hstep⟩ := hst
    obtain ⟨hlive, hcounts⟩ :=
      (hs.sound.tablesStep hstep).kept_or_given hs.sound halgo hl
    refine ih (.step hs hstep) ?_
    rw [hlive]
    rcases hcounts with heq | ⟨i, hi, heq⟩
    · rw [heq]
      exact h
    · rw [heq]
      exact h.give (by decide) hi

end Run

/-- A new client goes to the first server with the fewest clients, and the counts of two
servers stay within one of each other while nothing but admissions happens. -/
theorem least_connections_balanced {cfg : Config} {s : State} (hs : Reachable cfg s)
    (halgo : cfg.selectedAlgo = .leastConn) :
    (∀ b j now, Admits cfg s.tables b j →
      ∃ k : Fin maxServCnt, FirstLeast (·.clntCnt) s.tables.servList 0 k ∧
        ∀ minIndex, selectServ .leastConn (addNewClnt cfg s.tables j b now) minIndex =
          .ok ((k : Int), s.tables.recentServId)) ∧
    ((∀ i k, s.tables.live i → s.tables.live k →
        (s.tables.servList i).clntCnt = (s.tables.servList k).clntCnt) →
      ∀ ls s', Transitions.Run ((system cfg).restrict fun _ l => l.OnlyAdmits) s ls s' →
        ∀ i k, s'.tables.live i → s'.tables.live k →
          (s'.tables.servList i).clntCnt ≤ (s'.tables.servList k).clntCnt + 1) := by
  constructor
  · intro b j now h
    exact leastConn_selects hs.sound.tables h.dir.2 (firstFree_free h.free) now
  · intro heq ls s' hrun i k hi hk
    have hstart : Spread (liveSet s.tables) 1 (clntCounts s.tables) :=
      .of_equal (by decide) fun i hi k hk => heq i k hi hk
    exact spread_run hs halgo hrun hstart i hi k hk

def leastConfig : Config := { demoConfig with selectedAlgo := .leastConn }

def secondJoin : Event := .join (some (8, 0x0300000a)) ⟨[0x91, 0x1f], by decide⟩ (fun _ => 0)

theorem least_connections_two : ∃ s b j, Reachable leastConfig s ∧
    s.tables.live 0 ∧ s.tables.live 1 ∧ Admits leastConfig s.tables b j ∧
    (∃ k : Fin maxServCnt, FirstLeast (·.clntCnt) s.tables.servList 0 k ∧
      ∀ minIndex, selectServ .leastConn (addNewClnt leastConfig s.tables j b 0) minIndex =
        .ok ((k : Int), s.tables.recentServId)) ∧
    ∀ ls s', Transitions.Run ((system leastConfig).restrict fun _ l => l.OnlyAdmits) s ls s' →
      ∀ i k, s'.tables.live i → s'.tables.live k →
        (s'.tables.servList i).clntCnt ≤ (s'.tables.servList k).clntCnt + 1 := by
  let received := some (tcpPacket 0x0900000a 0x0100000a 0x409c 0x5000 synFlag)
  obtain ⟨s, hrun, htest⟩ := @executes_of_endsIn leastConfig anyStep _
    (fun s =>
      let b := recvInto s.buf received
      (s.tables.live 0 ∧ s.tables.live 1 ∧
        ∀ i k, s.tables.live i → s.tables.live k →
          (s.tables.servList i).clntCnt = (s.tables.servList k).clntCnt) ∧
      fromClient leastConfig s.tables b ∧ findPort s.tables.clntList b = none ∧
      checkType b = .syn ∧ s.tables.clntCnt ≠ maxClntCnt ∧
      firstSlot (fun j => (s.tables.clntList j).port = 0) = some 0) demoStart
    [demoJoin, secondJoin] (by decide +kernel)
  obtain ⟨⟨h0, h1, heq⟩, hdir, hport, hsyn, hroom, hfree⟩ := of_decide_eq_true htest
  have hadmits : Admits leastConfig s.tables (recvInto s.buf received) 0 :=
    ⟨hdir, hport, hsyn, hroom, hfree⟩
  have hs : Reachable leastConfig s := hrun.reachable.reachable
  have h := least_connections_balanced hs rfl
  exact ⟨s, _, 0, hs, h0, h1, hadmits, h.1 _ 0 0 hadmits, h.2 heq⟩

/-- The selection stays inside the array and ends at a live server with the least usage. -/
def SelectsLeastUsage (t : Tables) (minIndex : Int) : Prop :=
  ∃ k : Fin maxServCnt, selectServ .resourceBased t minIndex = .ok ((k : Int), t.recentServId) ∧
    t.live k ∧ ∀ m, t.live m → (t.servList k).resourceUsage ≤ (t.servList m).resourceUsage

/-- A server whose usage is INT_MAX is selected only by what `min_index` happens to hold. -/
theorem selects_least_usage_iff {t : Tables} {minIndex : Int} (hcnt : t.servCnt = t.liveCount)
    (hpos : 1 ≤ t.servCnt) (hint : ∀ i, (t.servList i).resourceUsage ≤ intMax) :
    SelectsLeastUsage t minIndex ↔
      (∃ i, t.live i ∧ (t.servList i).resourceUsage < intMax) ∨ t.namesLive minIndex := by
  have hne : t.servCnt ≠ 0 := by omega
  by_cases hlt : ∃ i, t.live i ∧ (t.servList i).resourceUsage < intMax
  · obtain ⟨k, hrun, hk⟩ := @scanServ_first (·.resourceUsage) t intMax minIndex hcnt hne hlt
    refine iff_of_true ⟨k, ?_, hk.1.2, fun m hm => (hk.2 m ⟨Nat.zero_le _, hm⟩).1⟩ (.inl hlt)
    simp [selectServ, hrun, bind, Except.bind]
  · have hmax (i : Fin maxServCnt) (hi : t.live i) : (t.servList i).resourceUsage = intMax :=
      le_antisymm (hint i) (not_lt.mp fun h => hlt ⟨i, hi, h⟩)
    obtain ⟨id, hrun, hres⟩ := @scanServ_result (·.resourceUsage) t intMax minIndex hcnt hne
    have hid : id = minIndex := by
      rcases hres with ⟨hid, _⟩ | ⟨k, _, hk, hfirst⟩
      · exact hid
      · exact absurd ⟨k, hfirst.1.2, hk⟩ hlt
    subst hid
    have hsel : selectServ .resourceBased t id = .ok (id, t.recentServId) := by
      simp [selectServ, hrun, bind, Except.bind]
    constructor
    · rintro ⟨k, hk, hlive, _⟩
      rw [hsel] at hk
      simp only [Except.ok.injEq, Prod.mk.injEq, and_true] at hk
      exact .inr ⟨k, hk, hlive⟩
    · rintro (h | ⟨k, rfl, hlive⟩)
      · exact absurd h hlt
      · exact ⟨k, hsel, hlive, fun m hm => by rw [hmax k hlive, hmax m hm]⟩

def oneServer (usage : Int) : Tables := { Tables.start with
  servCnt := 1
  servList := Function.update (fun _ => .zero) 2
    ⟨7, 0x0200000a, 0x901f, 0, ⟨0, 0, 0⟩, usage⟩ }

def threeServers : Tables := { Tables.start with
  servCnt := 3
  servList := fun i =>
    if i = 0 then ⟨7, 0x0200000a, 0x901f, 0, ⟨0, 0, 0⟩, 90⟩
    else if i = 4 then ⟨8, 0x0300000a, 0x901f, 0, ⟨0, 0, 0⟩, 35⟩
    else if i = 2 then ⟨9, 0x0400000a, 0x901f, 0, ⟨0, 0, 0⟩, intMax⟩
    else .zero }

theorem selects_least_usage_three : SelectsLeastUsage threeServers (-7) :=
  (selects_least_usage_iff (by decide) (by decide) (by decide)).mpr (.inl ⟨4, by decide⟩)

/-- The only server reports INT_MAX, and an index outside the array is returned. -/
theorem full_usage_selects_unset : (oneServer intMax).servCnt = (oneServer intMax).liveCount ∧
    selectServ .resourceBased (oneServer intMax) (-7) = .ok (-7, 0) ∧
    ¬SelectsLeastUsage (oneServer intMax) (-7) := by
  have hsel : selectServ .resourceBased (oneServer intMax) (-7) = .ok (-7, 0) := rfl
  refine ⟨by decide, hsel, ?_⟩
  rintro ⟨k, hk, _⟩
  rw [hsel] at hk
  simp only [Except.ok.injEq, Prod.mk.injEq] at hk
  omega

end LoadBalancer
