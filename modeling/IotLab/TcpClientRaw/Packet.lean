import IotLab.LoadBalancer.ChecksumValue

set_option autoImplicit false

namespace TcpClientRaw
open HostMemory InternetChecksum LoadBalancer

/-- The word `checksum` of this program is, to the letter, the one of the load balancer. -/
def checksum (bytes : List Byte) : BitVec 16 := LoadBalancer.checksum bytes

def makePseudoHeader (saddr daddr : BitVec 32) (protocol : Byte) (tcpLen : Nat) : List Byte :=
  LoadBalancer.makePseudoHeader saddr daddr protocol tcpLen

def swap32 (v : BitVec 32) : BitVec 32 :=
  v.extractLsb' 0 8 ++ v.extractLsb' 8 8 ++ v.extractLsb' 16 8 ++ v.extractLsb' 24 8

inductive TcpType where
  | syn | ack | data
  deriving DecidableEq, Repr

/-- The byte of the flags FIN, SYN, RST, PSH, ACK and URG, from the lowest bit on. -/
def TcpType.flags : TcpType → Byte
  | .syn => 0x02
  | .ack => 0x10
  | .data => 0x18

def tcpFields (type : TcpType) (saddr daddr : SockaddrIn) (seqNum ackNum : BitVec 32) :
    List Byte :=
  bytes16 saddr.port ++ bytes16 daddr.port ++ bytes32 (swap32 seqNum) ++
    bytes32 (swap32 ackNum) ++ [0x50, type.flags] ++ bytes16 (swap16 16384) ++ bytes16 0 ++
    bytes16 0

def tcpChecksumBlock (saddr daddr : SockaddrIn) (header data : List Byte) : List Byte :=
  makePseudoHeader saddr.addr daddr.addr 6 (20 + data.length) ++ header ++ data

def makeTcpHeader (type : TcpType) (saddr daddr : SockaddrIn) (seqNum ackNum : BitVec 32)
    (data : List Byte) : List Byte :=
  let header := tcpFields type saddr daddr seqNum ackNum
  setWord header 16 (checksum (tcpChecksumBlock saddr daddr header data))

def ipFields (saddr daddr : SockaddrIn) (length : BitVec 16) (rand : Nat) : List Byte :=
  let head : List Byte := [0x45, 0]
  let middle : List Byte := [60, 6]
  head ++ bytes16 (swap16 length) ++ bytes16 (swap16 (BitVec.ofNat 16 (rand % 65535))) ++
    bytes16 (swap16 (1 <<< 14)) ++ middle ++ bytes16 0 ++ bytes32 saddr.addr ++
    bytes32 daddr.addr

def makeIpHeader (saddr daddr : SockaddrIn) (length : BitVec 16) (rand : Nat) : List Byte :=
  let header := ipFields saddr daddr length rand
  setWord header 10 (checksum header)

def makePacket (type : TcpType) (saddr daddr : SockaddrIn) (seqNum ackNum : BitVec 32)
    (data : List Byte) (rand : Nat) : List Byte :=
  makeIpHeader saddr daddr (BitVec.ofNat 16 (40 + data.length)) rand ++
    makeTcpHeader type saddr daddr seqNum ackNum data ++ data

/-- What either program's `checksum` returns is the RFC 1071 value exactly if the halves of the
sum add up without a carry; then, and only then, a block filled in with it passes the check. -/
theorem checksum_rfc_iff {sum : List Byte → BitVec 16}
    (hsum : sum = LoadBalancer.checksum ∨ sum = TcpClientRaw.checksum) {bytes : List Byte}
    (h : bytes.length ≤ maxChecksumLength) :
    (sum bytes = rfcChecksum bytes ↔ FoldsOnce bytes) ∧
      ∀ off, off % 2 = 0 → off + 2 ≤ bytes.length →
        (Verifies (setWord bytes off (sum (setWord bytes off 0))) ↔
          FoldsOnce (setWord bytes off 0)) := by
  have hsame : sum = LoadBalancer.checksum := by
    rcases hsum with rfl | rfl
    · rfl
    · rfl
  subst hsame
  exact ⟨checksum_eq_rfc h, fun off heven hin => verifies_filled heven hin h⟩

def homeSaddr : SockaddrIn := ⟨afInet, 0x409c, 0x0900a8c0⟩
def homeDaddr : SockaddrIn := ⟨afInet, 0x5000, 0x0100a8c0⟩

theorem checksum_rfc_ipHeader :
    checksum (ipFields homeSaddr homeDaddr 40 0) = rfcChecksum (ipFields homeSaddr homeDaddr 40 0) ∧
      Verifies (makeIpHeader homeSaddr homeDaddr 40 0) := by
  obtain ⟨hvalue, hfilled⟩ := @checksum_rfc_iff checksum (.inr rfl)
    (ipFields homeSaddr homeDaddr 40 0) (by decide)
  exact ⟨hvalue.mpr (by decide), (hfilled 10 rfl (by decide)).mpr (by decide)⟩

/-- With the identification 48757 the words of this header sum to 0x1FFFF. -/
theorem checksum_drops_carry :
    checksum (ipFields homeSaddr homeDaddr 40 48757) ≠
        rfcChecksum (ipFields homeSaddr homeDaddr 40 48757) ∧
      ¬Verifies (makeIpHeader homeSaddr homeDaddr 40 48757) := by
  decide

end TcpClientRaw
