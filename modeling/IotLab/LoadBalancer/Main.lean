import IotLab.LoadBalancer.Select
import IotLab.LoadBalancer.Packet
import IotLab.Library.Transitions

/-!
The event loop of `main`. An event is what `epoll_wait` reports, together with the results
of the system calls its handler makes and the contents of the uninitialised variables it
may read. Handlers return the new state and what they print and send.
-/

set_option autoImplicit false

namespace LoadBalancer
open SlotTable HostMemory

structure Received (cap : Nat) where
  bytes : List Byte
  fits : bytes.length ≤ cap

/-- One `read` of the health-check loop that does not end it: data, or an error other than
EAGAIN, after which the loop reads again. -/
inductive ReadResult where
  | data (usage : Received 4) (some_bytes : usage.bytes ≠ [])
  | failed

inductive ReadEnd where
  | eof | again
  deriving DecidableEq

/-- A join carries the result of `accept`, the bytes of the port that `recv` stores (none if
it fails) and the stack under `server_port`; a packet the result of `recv`, the clock and
`min_index`; a server event the results of `read` and the stack under `received_usage`. -/
inductive Event where
  | join (accepted : Option (Int × BitVec 32)) (port : Received 2) (stack : Mem)
  | packet (received : Option (Received bufSize)) (now : BitVec 32) (minIndex : Int)
  | server (fd : Int) (reads : List ReadResult) (ending : ReadEnd) (stack : Mem)

structure Sent where
  dir : Direction
  sourceId : Int
  destId : Int
  packet : Mem
  length : Int
  addr : SockaddrIn

inductive Output where
  | newServer (id : Fin maxServCnt) (sock : Int) (port : BitVec 16)
  | newClient (clnt : Fin maxClntCnt) (serv : Int)
  | sent (call : Sent)
  | clntDisconnected (clnt : Fin maxClntCnt) (serv : Int)
  | serverClosed (id : Fin maxServCnt) (sock : Int)

/-- Whether the handler goes on to the next event of the batch or leaves the `for` loop. -/
inductive LoopExit where
  | next | leave
  deriving DecidableEq

def addServerInfo (t : Tables) (sock : Int) (ip : BitVec 32) (port : BitVec 16) :
    Tables × List Output :=
  match firstSlot fun i => (t.servList i).sock = 0 with
  | some i =>
    let node := { t.servList i with sock := sock, ip := ip, port := port, clntCnt := 0 }
    ({ t with servList := Function.update t.servList i node, servCnt := t.servCnt + 1 },
      [.newServer i sock port])
  | none => ({ t with servCnt := t.servCnt + 1 }, [])

def deleteServerNode (t : Tables) (id : Fin maxServCnt) : Tables :=
  { t with
    servCnt := t.servCnt - 1
    servList := Function.update t.servList id .zero }

def join (s : State) (accepted : Option (Int × BitVec 32)) (port : Received 2)
    (stack : Mem) : State × List Output :=
  let (servSock, servAdr) := accepted.getD (-1, s.servAdr)
  if s.tables.servCnt = maxServCnt then ({ s with servAdr := servAdr }, [])
  else
    let serverPort := read16 (store stack 0 port.bytes) 0
    let (tables, out) := addServerInfo s.tables servSock servAdr (swap16 serverPort)
    let watched := if servSock = -1 then s.watched else servSock :: s.watched
    ({ s with tables := tables, servAdr := servAdr, watched := watched }, out)

def recvInto (b : Mem) : Option (Received bufSize) → Mem
  | none => b
  | some r => store b 0 r.bytes

def recvLength : Option (Received bufSize) → Int
  | none => -1
  | some r => r.bytes.length

def addNewClnt (cfg : Config) (t : Tables) (j : Fin maxClntCnt) (b : Mem)
    (now : BitVec 32) : Tables :=
  { t with
    clntList := Function.update t.clntList j
      ⟨ipSaddr b, (tcpSource b).toNat, (cfg.rand now % 16386 + 49152 : Nat)⟩
    clntCnt := t.clntCnt + 1 }

def addClntCnt (t : Tables) (i : Fin maxServCnt) (d : Int) : Tables :=
  let node := { t.servList i with clntCnt := (t.servList i).clntCnt + d }
  { t with servList := Function.update t.servList i node }

/-- The search for a free slot and the admission into it; also the resulting `source_id`,
which stays -1 when no slot is free. -/
def admitClnt (cfg : Config) (t : Tables) (b : Mem) (now : BitVec 32) (minIndex : Int) :
    Result (Tables × Int × List Output) :=
  match firstSlot fun j => (t.clntList j).port = 0 with
  | none => .ok (t, -1, [])
  | some j => do
    let t := addNewClnt cfg t j b now
    let (serv, recent) ← selectServ cfg.selectedAlgo t minIndex
    let t := { t with
      recentServId := recent
      forwardingTable := Function.update t.forwardingTable j (serv, 2) }
    let i ← servAt serv
    .ok (addClntCnt t i 1, j, [.newClient j serv])

def markFin (t : Tables) (j : Fin maxClntCnt) : Tables :=
  { t with
    forwardingTable := Function.update t.forwardingTable j ((t.forwardingTable j).1, 1) }

/-- Both release branches. The two statements on `forwarding_table` are comparisons, so the
pair of the slot stays as it was. -/
def releaseClnt (t : Tables) (i : Fin maxServCnt) (j : Fin maxClntCnt) : Tables :=
  let t := addClntCnt t i (-1)
  { t with
    clntList := Function.update t.clntList j .zero
    clntCnt := t.clntCnt - 1 }

def forward (cfg : Config) (t : Tables) (b : Mem) (length : Int) (type : TcpType)
    (sourceId : Int) : Result (Tables × Mem × List Output) := do
  let j ← clntAt sourceId
  let destId := (t.forwardingTable j).1
  let b ← nat t b sourceId destId cfg.lbaddr .clnt2serv
  let i ← servAt destId
  let sent := .sent ⟨.clnt2serv, sourceId, destId, b, length, (t.servList i).sockAdr⟩
  if type = .ack ∧ (t.forwardingTable j).2 = 1 then
    .ok (releaseClnt t i j, b, [sent, .clntDisconnected j destId])
  else .ok (t, b, [sent])

def clnt2serv (cfg : Config) (t : Tables) (b : Mem) (length : Int) (now : BitVec 32)
    (minIndex : Int) : Result (Tables × Mem × List Output) :=
  let type := checkType b
  match findPort t.clntList b with
  | none =>
    if type ≠ .syn ∨ t.clntCnt = maxClntCnt then .ok (t, b, [])
    else do
      let (t, sourceId, out) ← admitClnt cfg t b now minIndex
      let (t, b, out') ← forward cfg t b length type sourceId
      .ok (t, b, out ++ out')
  | some j => forward cfg (if type = .fin then markFin t j else t) b length type j

def serv2clnt (cfg : Config) (t : Tables) (b : Mem) (length : Int) :
    Result (Tables × Mem × List Output) :=
  let type := checkType b
  match findPseudoPort t.clntList b with
  | none => .error .unset
  | some j => do
    let sourceId := (t.forwardingTable j).1
    let t := if type = .fin then markFin t j else t
    let b ← nat t b sourceId j cfg.lbaddr .serv2clnt
    let sent := .sent ⟨.serv2clnt, sourceId, j, b, length, ⟨afInet, tcpDest b, ipDaddr b⟩⟩
    if type = .ack ∧ (t.forwardingTable j).2 = -1 then do
      let i ← servAt sourceId
      .ok (releaseClnt t i j, b, [sent, .clntDisconnected j sourceId])
    else .ok (t, b, [sent])

/-- A packet on the raw socket. The SERV2CLNT branch ends with `break`, all others with
`continue` or the end of the loop body. -/
def packet (cfg : Config) (s : State) (received : Option (Received bufSize))
    (now : BitVec 32) (minIndex : Int) : Result (State × List Output × LoopExit) :=
  let b := recvInto s.buf received
  match checkIpAndPort s.tables.clntList b cfg.lbaddr with
  | none => .ok ({ s with buf := b }, [], .next)
  | some dir =>
    if s.tables.servCnt = 0 then .ok ({ s with buf := b }, [], .next)
    else match dir with
    | .clnt2serv => do
      let (t, b, out) ← clnt2serv cfg s.tables b (recvLength received) now minIndex
      .ok ({ s with tables := t, buf := b }, out, .next)
    | .serv2clnt => do
      let (t, b, out) ← serv2clnt cfg s.tables b (recvLength received)
      .ok ({ s with tables := t, buf := b }, out, .leave)

def setUsage (t : Tables) (i : Fin maxServCnt) (usage : Int) : Tables :=
  let node := { t.servList i with resourceUsage := usage }
  { t with servList := Function.update t.servList i node }

/-- The reads of a server event before the last one. `serverId` is `none` when no slot
holds the descriptor and the variable is never assigned. -/
def healthChecks (serverId : Option (Fin maxServCnt)) :
    Tables → Mem → List ReadResult → Result Tables
  | t, _, [] => .ok t
  | t, usage, .failed :: rest => healthChecks serverId t usage rest
  | t, usage, .data r _ :: rest => do
    let usage := store usage 0 r.bytes
    let i ← serverId.elim (.error .unset) .ok
    healthChecks serverId (setUsage t i (read32 usage 0).toInt) usage rest

def sweepSlot (i : Fin maxServCnt) (t : Tables) (j : Fin maxClntCnt) : Tables :=
  if (t.forwardingTable j).1 = i.val then
    { t with
      clntList := Function.update t.clntList j .zero
      clntCnt := t.clntCnt - 1
      forwardingTable := Function.update t.forwardingTable j (-1, -1) }
  else t

@[irreducible] def sweepServer (t : Tables) (i : Fin maxServCnt) : Tables :=
  forSlots (sweepSlot i) t

def closeServer (t : Tables) (i : Fin maxServCnt) : Tables × List Output :=
  let gone := (List.finRange maxClntCnt).filter fun j => (t.forwardingTable j).1 = i.val
  (deleteServerNode (sweepServer t i) i,
    gone.map (fun j => .clntDisconnected j i.val) ++ [.serverClosed i (t.servList i).sock])

def findServer (t : Tables) (fd : Int) : Option (Fin maxServCnt) :=
  firstSlot fun i => (t.servList i).sock = fd

def serverEvent (s : State) (fd : Int) (reads : List ReadResult) (ending : ReadEnd)
    (stack : Mem) : Result (State × List Output) := do
  let serverId := findServer s.tables fd
  let t ← healthChecks serverId s.tables stack reads
  match ending with
  | .again => .ok ({ s with tables := t }, [])
  | .eof => do
    let i ← serverId.elim (.error .unset) .ok
    let closed := closeServer t i
    .ok ({ s with tables := closed.1, watched := s.watched.filter (· ≠ fd) }, closed.2)

def handle (cfg : Config) (s : State) : Event → Result (State × List Output × LoopExit)
  | .join accepted port stack =>
    let (s, out) := join s accepted port stack
    .ok (s, out, .next)
  | .packet received now minIndex => packet cfg s received now minIndex
  | .server fd reads ending stack => do
    let (s, out) ← serverEvent s fd reads ending stack
    .ok (s, out, .next)

/-- The `for` loop over the events of one `epoll_wait`; also which handlers it ran, with
what they gave out. -/
def runBatch (cfg : Config) : State → List Event → Result (State × List (Event × List Output))
  | s, [] => .ok (s, [])
  | s, e :: rest => do
    let (s, out, loopExit) ← handle cfg s e
    match loopExit with
    | .next => do
      let (s, done) ← runBatch cfg s rest
      .ok (s, (e, out) :: done)
    | .leave => .ok (s, [(e, out)])

/-- What the kernel can report: `accept` gives a descriptor that is not open (0 is in use
since before the loop), and epoll reports registered descriptors only. -/
def Event.canOccur (s : State) : Event → Prop
  | .join (some (fd, _)) _ _ => 0 < fd ∧ fd ∉ s.watched
  | .join none _ _ => True
  | .packet _ _ _ => True
  | .server fd _ _ _ => fd ∈ s.watched

structure Step where
  event : Event
  out : List Output
  loopExit : LoopExit

def system (cfg : Config) : Transitions.System State Step where
  init s := ∃ buf servAdr, s = State.start buf servAdr
  step s l t := l.event.canOccur s ∧ handle cfg s l.event = .ok (t, l.out, l.loopExit)

abbrev Reachable (cfg : Config) (s : State) : Prop := Transitions.Reachable (system cfg) s

end LoadBalancer
