import IotLab.LoadBalancer.State

set_option autoImplicit false

namespace LoadBalancer
open SlotTable HostMemory

def ipHeaderSize : Nat := 20

def ihl (b : Mem) : Nat := (b 0).toNat % 16
def totLen (b : Mem) : Nat := (swap16 (read16 b 2)).toNat
def ipSaddr (b : Mem) : BitVec 32 := read32 b 12
def ipDaddr (b : Mem) : BitVec 32 := read32 b 16
def tcpSource (b : Mem) : BitVec 16 := read16 b 20
def tcpDest (b : Mem) : BitVec 16 := read16 b 22
def tcpFin (b : Mem) : Bool := (b 33).getLsbD 0
def tcpSyn (b : Mem) : Bool := (b 33).getLsbD 1
def tcpAck (b : Mem) : Bool := (b 33).getLsbD 4

/-- The loop of `checksum`; an odd last byte is the low byte of a zero word. -/
def checksumSum : List Byte → BitVec 32 → BitVec 32
  | a :: b :: rest, sum => checksumSum rest (sum + (b ++ a : BitVec 16).setWidth 32)
  | [a], sum => sum + a.setWidth 32
  | [], sum => sum

def checksum (bytes : List Byte) : BitVec 16 :=
  let sum := checksumSum bytes 0
  let sum := (sum &&& 0xffff) + (sum >>> 16)
  (~~~sum).setWidth 16

def makePseudoHeader (saddr daddr : BitVec 32) (protocol : Byte) (tcpLen : Nat) : List Byte :=
  bytes32 saddr ++ bytes32 daddr ++ [0, protocol] ++
    bytes16 (swap16 (BitVec.ofNat 16 tcpLen))

def findPseudoPort (clntList : Fin maxClntCnt → ClntListNode) (b : Mem) :
    Option (Fin maxClntCnt) :=
  firstSlot fun i => (clntList i).pseudoPort = (tcpDest b).toNat

def findPort (clntList : Fin maxClntCnt → ClntListNode) (b : Mem) :
    Option (Fin maxClntCnt) :=
  firstSlot fun j => (clntList j).port = (tcpSource b).toNat

/-- `none` is the value -1 of the source. -/
def checkIpAndPort (clntList : Fin maxClntCnt → ClntListNode) (b : Mem)
    (lbaddr : SockaddrIn) : Option Direction :=
  if ipDaddr b = lbaddr.addr ∧ tcpDest b = lbaddr.port then some .clnt2serv
  else if ipDaddr b = lbaddr.addr then
    match findPseudoPort clntList b with
    | some _ => some .serv2clnt
    | none => none
  else none

def checkType (b : Mem) : TcpType :=
  if tcpSyn b = true ∧ tcpAck b = false then .syn
  else if tcpSyn b = true ∧ tcpAck b = true then .synAck
  else if tcpFin b = true then .fin
  else if tcpAck b = true then .ack
  else .data

def natRewrite (t : Tables) (b : Mem) (sourceId destId : Int) (lbaddr : SockaddrIn) :
    Direction → Result Mem
  | .clnt2serv => do
    let b := write32 b 12 lbaddr.addr
    let i ← servAt destId
    let b := write32 b 16 (t.servList i).ip
    let b := write16 b 22 (t.servList i).port
    let j ← clntAt sourceId
    pure (write16 b 20 (BitVec.ofInt 16 (t.clntList j).pseudoPort))
  | .serv2clnt => do
    let b := write32 b 12 lbaddr.addr
    let j ← clntAt destId
    let b := write32 b 16 (t.clntList j).ip
    let b := write16 b 22 (BitVec.ofInt 16 (t.clntList j).port)
    pure (write16 b 20 lbaddr.port)

/-- The checksums of `nat`. With a negative `tcpLen` the allocation is too small and `memcpy`
takes the length as a huge `size_t`; with a long one it reads past the buffer. -/
def natChecksums (b : Mem) (lbaddr : SockaddrIn) (tcpLen : Int) : Result Mem :=
  if tcpLen < 0 ∨ (ipHeaderSize : Int) + tcpLen > bufSize then .error .badCopy
  else
    let b := write16 b 10 0
    let b := write16 b 36 0
    let temp := makePseudoHeader lbaddr.addr (ipDaddr b) 6 tcpLen.toNat ++
      load b ipHeaderSize tcpLen.toNat
    let b := write16 b 36 (checksum temp)
    .ok (write16 b 10 (checksum (load b 0 ipHeaderSize)))

def nat (t : Tables) (b : Mem) (sourceId destId : Int) (lbaddr : SockaddrIn)
    (dir : Direction) : Result Mem := do
  let tcpLen : Int := totLen b - ihl b * 4
  let b ← natRewrite t b sourceId destId lbaddr dir
  natChecksums b lbaddr tcpLen

/-- The lengths of a packet that passed the kernel's IP header check, and the shortest
TCP header: `nat` stays inside its buffers on it. -/
def TcpPacket (b : Mem) : Prop := 5 ≤ ihl b ∧ ihl b * 4 + 20 ≤ totLen b

instance (b : Mem) : Decidable (TcpPacket b) :=
  inferInstanceAs (Decidable (5 ≤ ihl b ∧ ihl b * 4 + 20 ≤ totLen b))

end LoadBalancer
