import IotLab.LoadBalancer.Health
import IotLab.LoadBalancer.Registration

/-!
The control plane: the load balancer together with the echo servers behind it. A server connects,
is told the algorithm, answers with the port it serves its clients on, and from then on may report
its use of resources; all this goes over one connection for each server, a stream of bytes in
either direction.
-/

set_option autoImplicit false

namespace ControlPlane
open HostMemory LoadBalancer

def code : Algorithm → BitVec 32
  | .rr => 0
  | .leastConn => 1
  | .resourceBased => 2

def bufSize : Nat := 40

/-- An echo server: the address of its host, the port from its command line, `lb_algorithm`, which
is not set before the first `recv`, the two clocks, and whether it has not exited. -/
structure Process where
  addr : BitVec 32
  portForClient : BitVec 16
  lbAlgorithm : Option (BitVec 32)
  prevTime : Int
  curTime : Int
  running : Bool

def Process.start (addr : BitVec 32) (port : BitVec 16) : Process := ⟨addr, port, none, 0, 0, true⟩

/-- The `recv` of `lb_algorithm`, with what it leaves in the variable `stack`, and the `send` of
the port; at the end of the stream the server exits. -/
def connected (s : Process) (stack : Mem) (received : List Byte) : Process × List Byte :=
  if received = [] then ({ s with running := false }, [])
  else
    ({ s with lbAlgorithm := some (read32 (store stack 0 received) 0) }, bytes16 s.portForClient)

def sendResourceInfo (s : Process) (cpuUsage ramUsage : BitVec 32) : Process × List Byte :=
  ({ s with prevTime := s.curTime }, bytes32 (cpuUsage + ramUsage))

def Process.Due (s : Process) (now : Int) : Prop :=
  s.lbAlgorithm = some (code .resourceBased) ∧ 10 ≤ now - s.prevTime

instance (s : Process) (now : Int) : Decidable (s.Due now) :=
  inferInstanceAs (Decidable (_ ∧ _))

def tick (s : Process) (now : Int) (cpuUsage ramUsage : BitVec 32) : Process × List Byte :=
  if s.Due now then sendResourceInfo { s with curTime := now } cpuUsage ramUsage
  else ({ s with curTime := now }, [])

/-- A `read` of `lb_sock` in the main loop, which echoes what it gets there as well; at the end of
the stream the server exits. -/
def readLb (s : Process) (received : List Byte) : Process × List Byte :=
  if received = [] then ({ s with running := false }, []) else (s, received)

/-- The load balancer, the connection it has accepted while it waits in the `recv` of the port, the
servers by number, and the kernel's side: who waits to be accepted, who is at the other end of a
descriptor, the bytes on their way up to the load balancer and down to the servers, and which
connections the load balancer has closed. -/
structure Plane where
  lb : LoadBalancer.State
  registering : Option (Int × Nat)
  server : Nat → Option Process
  waiting : List Nat
  peer : Int → Option Nat
  up : Nat → List Byte
  down : Nat → List Byte
  hungUp : Nat → Bool

def Plane.start (buf : Mem) (servAdr : BitVec 32) : Plane where
  lb := .start buf servAdr
  registering := none
  server := fun _ => none
  waiting := []
  peer := fun _ => none
  up := fun _ => []
  down := fun _ => []
  hungUp := fun _ => false

/-- Server `n` starts and connects; its `recv` of the algorithm returns `k` bytes; a round of its
main loop; a `read` of `k` bytes in that loop; its end for another reason. The load balancer
accepts a connection; its `recv` of the port returns `k` bytes; a packet; an event of the
connection `fd`. -/
inductive Move where
  | launch (n : Nat) (addr : BitVec 32) (port : BitVec 16)
  | connect (n k : Nat) (stack : Mem)
  | tick (n : Nat) (now : Int) (cpuUsage ramUsage : BitVec 32)
  | readLb (n k : Nat)
  | die (n : Nat)
  | accept (fd : Int)
  | port (k : Nat) (stack : Mem)
  | packet (received : Option (Received LoadBalancer.bufSize)) (now : BitVec 32) (minIndex : Int)
  | report (fd : Int) (reads : List ReadResult) (ending : ReadEnd) (stack : Mem)

/-- The end of the stream comes when the load balancer has closed it and nothing is left of it;
otherwise a read returns what has come. -/
def Plane.Readable (p : Plane) (n k cap : Nat) : Prop :=
  (k = 0 ∧ p.down n = [] ∧ p.hungUp n = true) ∨ (0 < k ∧ k ≤ cap ∧ k ≤ (p.down n).length)

instance (p : Plane) (n k cap : Nat) : Decidable (p.Readable n k cap) :=
  inferInstanceAs (Decidable (_ ∨ _))

def Plane.addr (p : Plane) (n : Nat) : BitVec 32 := (p.server n).elim 0 (·.addr)

def Plane.stopped (p : Plane) (n : Nat) : Prop := ∀ s ∈ p.server n, s.running = false

instance (p : Plane) (n : Nat) : Decidable (p.stopped n) :=
  inferInstanceAs (Decidable (∀ s ∈ p.server n, s.running = false))

def Plane.reads (p : Plane) (n k : Nat) (f : List Byte → Process × List Byte) : Plane :=
  let (s, text) := f ((p.down n).take k)
  { p with
    server := Function.update p.server n (some s)
    down := Function.update p.down n ((p.down n).drop k)
    up := Function.update p.up n (p.up n ++ text) }

def serve (cfg : Config) (s : LoadBalancer.State) (e : Event) : Option LoadBalancer.State :=
  if e.canOccur s then (handle cfg s e).toOption.map (·.1) else none

def portOf (k : Nat) (text : List Byte) : Received 2 :=
  ⟨(text.take k).take 2, List.length_take_le ..⟩

/-- The load balancer accepts server `n`: it closes the connection when it has no room, and sends
the algorithm otherwise. -/
def Plane.accept (cfg : Config) (p : Plane) (fd : Int) (n : Nat) : Option Plane :=
  if p.lb.tables.servCnt = maxServCnt then
    (serve cfg p.lb (.join (some (fd, p.addr n)) (portOf 0 []) p.lb.buf)).map fun lb =>
      { p with lb := lb, hungUp := Function.update p.hungUp n true }
  else if 0 < fd ∧ fd ∉ p.lb.watched then
    some { p with
      registering := some (fd, n)
      peer := Function.update p.peer fd (some n)
      down := Function.update p.down n (p.down n ++ bytes32 (code cfg.selectedAlgo)) }
  else none

def Plane.next (cfg : Config) (p : Plane) : Move → Option Plane
  | .launch n addr port =>
    if (p.server n).isNone then
      some { p with
        server := Function.update p.server n (some (.start addr port))
        waiting := p.waiting ++ [n] }
    else none
  | .connect n k stack =>
    (p.server n).bind fun s =>
      if s.running = true ∧ s.lbAlgorithm = none ∧ p.Readable n k 4 then
        some (p.reads n k (connected s stack))
      else none
  | .tick n now cpuUsage ramUsage =>
    (p.server n).bind fun s =>
      if s.running = true ∧ s.lbAlgorithm.isSome then
        some { p with
          server := Function.update p.server n (some (tick s now cpuUsage ramUsage).1)
          up := Function.update p.up n (p.up n ++ (tick s now cpuUsage ramUsage).2) }
      else none
  | .readLb n k =>
    (p.server n).bind fun s =>
      if s.running = true ∧ s.lbAlgorithm.isSome ∧ p.Readable n k bufSize then
        some (p.reads n k (readLb s))
      else none
  | .die n =>
    (p.server n).map fun s =>
      { p with server := Function.update p.server n (some { s with running := false }) }
  | .accept fd =>
    if p.registering = none then
      p.waiting.head?.bind fun n => Plane.accept cfg { p with waiting := p.waiting.tail } fd n
    else none
  | .port k stack =>
    p.registering.bind fun (fd, n) =>
      if (k = 0 ∧ p.up n = [] ∧ p.stopped n) ∨ (0 < k ∧ k ≤ 2 ∧ k ≤ (p.up n).length) then
        (serve cfg p.lb (.join (some (fd, p.addr n)) (portOf k (p.up n)) stack)).map fun lb =>
          { p with
            lb := lb
            registering := none
            up := Function.update p.up n ((p.up n).drop k) }
      else none
  | .packet received now minIndex =>
    if p.registering = none then
      (serve cfg p.lb (.packet received now minIndex)).map fun lb => { p with lb := lb }
    else none
  | .report fd reads ending stack =>
    (p.peer fd).bind fun n =>
      let text := (chunks reads).flatten
      if p.registering = none ∧ text <+: p.up n ∧
          (ending = .eof → p.up n = text ∧ p.stopped n) then
        (serve cfg p.lb (.server fd reads ending stack)).map fun lb =>
          { p with
            lb := lb
            up := Function.update p.up n ((p.up n).drop text.length)
            hungUp := if ending = .eof then Function.update p.hungUp n true else p.hungUp }
      else none

def system (cfg : Config) : Transitions.System Plane Move where
  init p := ∃ buf servAdr, p = .start buf servAdr
  step p m p' := p.next cfg m = some p'

end ControlPlane
