import IotLab.Library.Fallible
import IotLab.Library.SlotTable
import IotLab.Library.HostMemory

/-!
The load balancer's data: its two server and client tables, the forwarding table between
them, the counters, and the packet buffer of `main`.
-/

set_option autoImplicit false

namespace LoadBalancer
open SlotTable HostMemory

def bufSize : Nat := 65536
def maxServCnt : Nat := 5
def maxClntCnt : Nat := 1000
def intMax : Int := 2147483647
def randMax : Nat := 2147483647

instance : NeZero maxServCnt := ⟨by decide⟩
instance : NeZero maxClntCnt := ⟨by decide⟩

inductive Algorithm where
  | rr | leastConn | resourceBased
  deriving DecidableEq, Repr

inductive Direction where
  | clnt2serv | serv2clnt
  deriving DecidableEq, Repr

inductive TcpType where
  | syn | ack | synAck | fin | data
  deriving DecidableEq, Repr

structure SockaddrIn where
  family : BitVec 16
  port : BitVec 16
  addr : BitVec 32
  deriving DecidableEq, Repr

def afInet : BitVec 16 := 2

structure ServListNode where
  sock : Int
  ip : BitVec 32
  port : BitVec 16
  clntCnt : Int
  sockAdr : SockaddrIn
  resourceUsage : Int
  deriving DecidableEq, Repr

def ServListNode.zero : ServListNode := ⟨0, 0, 0, 0, ⟨0, 0, 0⟩, 0⟩

structure ClntListNode where
  ip : BitVec 32
  port : Int
  pseudoPort : Int
  deriving DecidableEq, Repr

def ClntListNode.zero : ClntListNode := ⟨0, 0, 0⟩

/-- The global variables. `forwardingTable j` is the pair `forwarding_table[j][0..1]`. -/
structure Tables where
  recentServId : Int
  servCnt : Int
  servList : Fin maxServCnt → ServListNode
  clntList : Fin maxClntCnt → ClntListNode
  clntCnt : Int
  forwardingTable : Fin maxClntCnt → Int × Int

/-- The globals together with what outlives an event among the locals of `main`: the packet
buffer and the address left by the last `accept`. `watched` is the kernel's side: the
server descriptors that are open and in the epoll set. -/
structure State where
  tables : Tables
  buf : Mem
  servAdr : BitVec 32
  watched : List Int

def Tables.start : Tables where
  recentServId := 0
  servCnt := 0
  servList := fun _ => .zero
  clntList := fun _ => .zero
  clntCnt := 0
  forwardingTable := fun _ => (-1, -1)

/-- The state in which the loop of `main` begins; the buffer and the address are
uninitialised. -/
def State.start (buf : Mem) (servAdr : BitVec 32) : State := ⟨.start, buf, servAdr, []⟩

/-- What is fixed for a run: the address the clients use, the selected algorithm, and the
first value that `rand` gives after `srand(seed)`. -/
structure Config where
  lbaddr : SockaddrIn
  selectedAlgo : Algorithm
  rand : BitVec 32 → Nat
  rand_le : ∀ seed, rand seed ≤ randMax

/-- An access outside an array, the use of a variable before it is assigned, a segment
length with which `nat` overruns its buffers, a loop that never ends. -/
inductive Fault where
  | outOfBounds | unset | badCopy | hang
  deriving DecidableEq, Repr

abbrev Result := Except Fault

def servAt (i : Int) : Result (Fin maxServCnt) := index .outOfBounds maxServCnt i
def clntAt (i : Int) : Result (Fin maxClntCnt) := index .outOfBounds maxClntCnt i

section Occupancy
variable (t : Tables)

abbrev Tables.live (i : Fin maxServCnt) : Prop := (t.servList i).sock ≠ 0

abbrev Tables.occupied (j : Fin maxClntCnt) : Prop := (t.clntList j).port ≠ 0

abbrev Tables.assigned (i : Fin maxServCnt) (j : Fin maxClntCnt) : Prop :=
  (t.forwardingTable j).1 = i.val

abbrev Tables.namesLive (k : Int) : Prop := ∃ i : Fin maxServCnt, k = i.val ∧ t.live i

def Tables.liveCount : Nat := count t.live

def Tables.occupiedCount : Nat := count t.occupied

def Tables.load (i : Fin maxServCnt) : Nat := count fun j => t.occupied j ∧ t.assigned i j

end Occupancy

end LoadBalancer
