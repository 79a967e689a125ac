import IotLab.ControlPlane.Main

set_option autoImplicit false

namespace ControlPlane
open SlotTable HostMemory LoadBalancer

/-- Where server `n` is in its life, with the descriptor of its connection. -/
inductive Stage where
  | absent | queued | refused
  | greeted (fd : Int)
  | answered (fd : Int)
  | enrolled (fd : Int)
  | dropped
  deriving DecidableEq

/-- What the parties do not read: the stage of every server, the reports that it has made, each
with its time, and the values that the load balancer has read of it. -/
structure Books where
  stage : Nat → Stage
  sent : Nat → List (Int × BitVec 32)
  got : Nat → List (BitVec 32)

def Books.empty : Books := ⟨fun _ => .absent, fun _ => [], fun _ => []⟩

def Books.set (b : Books) (n : Nat) (stage : Stage) : Books :=
  { b with stage := Function.update b.stage n stage }

def Stage.connect : Stage → Stage
  | .greeted fd => .answered fd
  | stage => stage

def Books.look (b : Books) (p : Plane) (m : Move) (_ : Plane) : Books :=
  match m with
  | .launch n _ _ => b.set n .queued
  | .connect n k _ => if k = 0 then b else b.set n (b.stage n).connect
  | .tick n now cpuUsage ramUsage =>
    if ∀ s ∈ p.server n, s.Due now then
      { b with sent := Function.update b.sent n (b.sent n ++ [(now, cpuUsage + ramUsage)]) }
    else b
  | .readLb _ _ | .die _ | .packet _ _ _ => b
  | .accept fd =>
    p.waiting.head?.elim b fun n =>
      b.set n (if p.lb.tables.servCnt = maxServCnt then .refused else .greeted fd)
  | .port _ _ => p.registering.elim b fun (fd, n) => b.set n (.enrolled fd)
  | .report fd reads ending _ =>
    (p.peer fd).elim b fun n =>
      let b := { b with
        got := Function.update b.got n (b.got n ++ (chunks reads).map word32) }
      if ending = .eof then b.set n .dropped else b

/-- Every `recv` of the algorithm, of the port and of a report gets it whole. So no server that
was accepted ends before its port has come. -/
def Whole : Move → Prop
  | .connect _ k _ => k = 0 ∨ k = 4
  | .port k _ => k = 2
  | .report _ reads _ _ => ∀ c ∈ chunks reads, c.length = 4
  | .launch _ _ _ | .tick _ _ _ _ | .readLb _ _ | .die _ | .accept _ | .packet _ _ _ => True

instance : DecidablePred Whole
  | .connect _ k _ => inferInstanceAs (Decidable (k = 0 ∨ k = 4))
  | .port k _ => inferInstanceAs (Decidable (k = 2))
  | .report _ reads _ _ => inferInstanceAs (Decidable (∀ c ∈ chunks reads, c.length = 4))
  | .launch _ _ _ | .tick _ _ _ _ | .readLb _ _ | .die _ | .accept _ | .packet _ _ _ =>
    inferInstanceAs (Decidable True)

def observed (cfg : Config) : Transitions.System (Plane × Books) Move :=
  (system cfg).observe .empty Books.look

abbrev WholeRun (cfg : Config) (p : Plane × Books) : Prop :=
  Transitions.Reachable ((observed cfg).restrict fun _ m => Whole m) p

def reportBytes (reports : List (Int × BitVec 32)) : List Byte :=
  (reports.map (·.2)).flatMap bytes32

/-- A slot of the load balancer holds what server `s` was started with, and the last of the values
that were read of it. -/
structure Holds (node : ServListNode) (s : Process) (got : List (BitVec 32)) : Prop where
  ip : node.ip = s.addr
  port : node.port = swap16 s.portForClient
  usage : node.resourceUsage = (got.map BitVec.toInt).getLastD 0

structure Silent (p : Plane) (b : Books) (n : Nat) (s : Process) : Prop where
  server : p.server n = some s
  algorithm : s.lbAlgorithm = none
  up : p.up n = []
  sent : b.sent n = []
  got : b.got n = []

structure Told (cfg : Config) (p : Plane) (n : Nat) (s : Process) : Prop where
  server : p.server n = some s
  algorithm : s.lbAlgorithm = some (code cfg.selectedAlgo)
  down : p.down n = []

def Stage.Means (cfg : Config) (p : Plane) (b : Books) (n : Nat) : Stage → Prop
  | .absent => p.server n = none ∧ p.up n = [] ∧ p.down n = [] ∧ b.sent n = [] ∧ b.got n = []
  | .queued => ∃ s, Silent p b n s ∧ p.down n = [] ∧ n ∈ p.waiting
  | .refused => ∃ s, Silent p b n s ∧ p.down n = []
  | .greeted fd => ∃ s, Silent p b n s ∧ p.down n = bytes32 (code cfg.selectedAlgo) ∧
    p.registering = some (fd, n)
  | .answered fd => ∃ s, Told cfg p n s ∧ b.got n = [] ∧
    p.up n = bytes16 s.portForClient ++ reportBytes (b.sent n) ∧ p.registering = some (fd, n)
  | .enrolled fd => ∃ s, Told cfg p n s ∧
    (∃ rest, (b.sent n).map (·.2) = b.got n ++ rest ∧ p.up n = rest.flatMap bytes32) ∧
    ∃ i, p.lb.tables.live i ∧ (p.lb.tables.servList i).sock = fd ∧
      Holds (p.lb.tables.servList i) s (b.got n)
  | .dropped => ∃ s, Told cfg p n s ∧ s.running = false ∧ p.up n = [] ∧
    (b.sent n).map (·.2) = b.got n

def Stage.fd? : Stage → Option Int
  | .greeted fd | .answered fd | .enrolled fd => some fd
  | .absent | .queued | .refused | .dropped => none

/-- The reports of a server that has reported last at `prevTime` lie ten seconds apart. -/
structure Spaced (s : Process) (reports : List (Int × BitVec 32)) : Prop where
  apart : (0 :: reports.map (·.1)).IsChain fun t t' => t + 10 ≤ t'
  last : (reports.map (·.1)).getLastD 0 = s.prevTime

structure Kept (cfg : Config) (p : Plane) (b : Books) : Prop where
  sound : p.lb.Sound
  means : ∀ n, (b.stage n).Means cfg p b n
  queue : p.waiting.Nodup
  queued : ∀ n ∈ p.waiting, b.stage n = .queued
  registering : ∀ fd n, p.registering = some (fd, n) →
    (b.stage n = .greeted fd ∨ b.stage n = .answered fd) ∧ 0 < fd ∧ fd ∉ p.lb.watched ∧
      p.lb.tables.servCnt ≠ maxServCnt
  peer : ∀ n, ∀ fd ∈ (b.stage n).fd?, p.peer fd = some n
  slots : ∀ i, p.lb.tables.live i → 0 < (p.lb.tables.servList i).sock ∧
    ∃ n, b.stage n = .enrolled (p.lb.tables.servList i).sock
  unused : ∀ i, ¬p.lb.tables.live i → (p.lb.tables.servList i).resourceUsage = 0
  hungUp : ∀ n, p.hungUp n = true → b.stage n = .refused ∨ b.stage n = .dropped
  spaced : ∀ n s, p.server n = some s → Spaced s (b.sent n)
  quiet : cfg.selectedAlgo ≠ .resourceBased → ∀ n, b.sent n = []

section Entries
variable {cfg : Config} {s s' : LoadBalancer.State} {e : Event} {fd : Int}

theorem serve_step (h : serve cfg s e = some s') :
    ∃ out x, (LoadBalancer.system cfg).step s ⟨e, out, x⟩ s' := by
  rw [serve] at h
  split at h
  · rename_i hcan
    obtain ⟨⟨s₁, out, x⟩, hrun, rfl⟩ := Option.map_eq_some_iff.mp h
    exact ⟨out, x, hcan, Fallible.toOption_eq_some.mp hrun⟩
  · contradiction

structure SameEntry (node node' : ServListNode) : Prop where
  sock : node'.sock = node.sock
  ip : node'.ip = node.ip
  port : node'.port = node.port
  usage : node'.resourceUsage = node.resourceUsage

theorem SameEntry.of_eq {node node' : ServListNode} (h : node' = node) : SameEntry node node' :=
  h ▸ ⟨rfl, rfl, rfl, rfl⟩

theorem packet_entries {received : Option (Received LoadBalancer.bufSize)} {now : BitVec 32}
    {minIndex : Int} (h : serve cfg s (.packet received now minIndex) = some s')
    (i : Fin maxServCnt) : SameEntry (s.tables.servList i) (s'.tables.servList i) := by
  obtain ⟨out, x, hstep⟩ := serve_step h
  rw [(packet_ok hstep.2).1.servList i]
  exact ⟨rfl, rfl, rfl, rfl⟩

theorem denied_entries {accepted : Option (Int × BitVec 32)} {port : Received 2} {stack : Mem}
    (hmax : s.tables.servCnt = maxServCnt)
    (h : serve cfg s (.join accepted port stack) = some s') : s'.tables = s.tables := by
  obtain ⟨out, x, hstep⟩ := serve_step h
  exact (join_denied hmax (handle_join hstep.2).1).1

theorem port_entered {addr : BitVec 32} {port : Received 2} {stack : Mem} (hs : s.Sound)
    (hmax : s.tables.servCnt ≠ maxServCnt)
    (h : serve cfg s (.join (some (fd, addr)) port stack) = some s') :
    ∃ i, ¬s.tables.live i ∧ s'.tables.servList = Function.update s.tables.servList i
      { s.tables.servList i with
        sock := fd
        ip := addr
        port := swap16 (read16 (store stack 0 port.bytes) 0)
        clntCnt := 0 } := by
  obtain ⟨out, x, hstep⟩ := serve_step h
  have hjoin := (handle_join hstep.2).1
  rcases join_cases hjoin with ⟨hmax', _⟩ | ⟨_, hnone, _⟩ | ⟨i, node, hfree, _, _, hu, _⟩
  · exact absurd hmax' hmax
  · obtain ⟨i, hi⟩ := exists_dead hs.tables hmax
    rw [hnone] at hi
    contradiction
  · refine ⟨i, by simpa [Tables.live] using (firstSlot_eq_some.mp hfree).1, ?_⟩
    have hentry := join_enters hmax hfree hjoin
    rw [hu.servList, Function.update_self] at hentry
    rw [hu.servList, hentry]
    rfl

section Report
variable {reads : List ReadResult} {ending : ReadEnd} {stack : Mem} {i k : Fin maxServCnt}

theorem report_other (hs : s.Sound) (hsock : (s.tables.servList i).sock = fd) (hne : k ≠ i)
    (h : serve cfg s (.server fd reads ending stack) = some s') :
    SameEntry (s.tables.servList k) (s'.tables.servList k) := by
  obtain ⟨out, x, hstep⟩ := serve_step h
  have hpos := hs.watched_pos fd hstep.1
  refine .of_eq (serverEvent_other rfl (fun heq => hne ?_) (handle_server hstep.2).1)
  exact (hs.sock_inj i k (hsock.trans heq) (hsock ▸ hpos)).symm

theorem report_usage (hs : s.Sound) (hsock : (s.tables.servList i).sock = fd)
    (hwhole : ∀ c ∈ chunks reads, c.length = 4)
    (h : serve cfg s (.server fd reads .again stack) = some s') :
    s'.tables.servList i = { s.tables.servList i with
      resourceUsage := (((chunks reads).map word32).map BitVec.toInt).getLastD
        (s.tables.servList i).resourceUsage } := by
  obtain ⟨out, x, hstep⟩ := serve_step h
  have hfind := findServer_eq hs (hs.watched_pos fd hstep.1) hsock
  rw [serverEvent_usage hfind (handle_server hstep.2).1, reported_whole hwhole, List.map_map]
  rfl

theorem report_closes (hs : s.Sound) (hsock : (s.tables.servList i).sock = fd)
    (h : serve cfg s (.server fd reads .eof stack) = some s') : s'.tables.servList i = .zero := by
  obtain ⟨out, x, hstep⟩ := serve_step h
  have hfind := findServer_eq hs (hs.watched_pos fd hstep.1) hsock
  obtain ⟨t, _, ⟨hagain, _⟩ | ⟨_, k, hk, rfl, _⟩⟩ := serverEvent_ok (handle_server hstep.2).1
  · contradiction
  · obtain rfl : i = k := Option.some.inj (hfind.symm.trans hk)
    simp only [(closeServer_closed t i).servList, Function.update_self]

end Report

end Entries

end ControlPlane
