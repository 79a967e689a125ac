import IotLab.LoadBalancer.Rewrite
import IotLab.LoadBalancer.Sound
import IotLab.LoadBalancer.Execution

set_option autoImplicit false

namespace LoadBalancer
open SlotTable HostMemory

structure PlainTcp (b : Mem) : Prop where
  ihl_eq : ihl b = 5
  len_le : 40 ≤ totLen b

theorem PlainTcp.tcpPacket {b : Mem} (h : PlainTcp b) : TcpPacket b := by
  have hihl := h.ihl_eq
  have hlen := h.len_le
  exact ⟨by omega, by omega⟩

/-- Pseudo ports that name their client: occupied slots have distinct ones, which are 16-bit,
not 0, and not the port of the LB. -/
structure PseudoPortsTell (t : Tables) (lbaddr : SockaddrIn) : Prop where
  free_zero : ∀ j, ¬t.occupied j → t.clntList j = .zero
  port_range : ∀ j, t.occupied j → 0 ≤ (t.clntList j).port ∧ (t.clntList j).port < 65536
  pseudo_range : ∀ j, t.occupied j →
    1 ≤ (t.clntList j).pseudoPort ∧ (t.clntList j).pseudoPort ≤ 65535
  pseudo_inj : ∀ j k, t.occupied j → t.occupied k →
    (t.clntList j).pseudoPort = (t.clntList k).pseudoPort → j = k
  pseudo_ne : ∀ j, t.occupied j → (t.clntList j).pseudoPort ≠ lbaddr.port.toNat

theorem ofInt_toNat {v : Int} (h : 0 ≤ v) (hlt : v < 65536) :
    ((BitVec.ofInt 16 v).toNat : Int) = v := by
  rw [BitVec.toNat_ofInt]
  omega

section RoundTrip
variable {t : Tables} {lbaddr : SockaddrIn} {j : Fin maxClntCnt} {p q : Mem}

theorem PseudoPortsTell.find (h : PseudoPortsTell t lbaddr) (hj : t.occupied j)
    (hq : ((tcpDest q).toNat : Int) = (t.clntList j).pseudoPort) :
    findPseudoPort t.clntList q = some j := by
  refine firstSlot_of_unique (by simpa using hq.symm) (fun k hk => ?_)
  have hk : (t.clntList k).pseudoPort = (tcpDest q).toNat := by simpa using hk
  have hpos := (h.pseudo_range j hj).1
  have hocc : t.occupied k := by
    intro h0
    rw [h.free_zero k (fun ho => ho h0)] at hk
    have hzero : (0 : Int) = (tcpDest q).toNat := hk
    omega
  exact h.pseudo_inj k j hocc hj (hk.trans hq)

theorem PseudoPortsTell.reply (h : PseudoPortsTell t lbaddr) (hj : t.occupied j)
    (hdaddr : ipDaddr q = lbaddr.addr)
    (hq : ((tcpDest q).toNat : Int) = (t.clntList j).pseudoPort) :
    checkIpAndPort t.clntList q lbaddr = some .serv2clnt := by
  have hne : tcpDest q ≠ lbaddr.port := by
    intro heq
    rw [heq] at hq
    exact h.pseudo_ne j hj hq.symm
  simp only [checkIpAndPort, hdaddr, hne, and_false, if_false, if_true, h.find hj hq]

/-- Out with the pseudo port, and any packet back to where the packet came from. -/
theorem nat_round_trip (h : PseudoPortsTell t lbaddr) {i : Fin maxServCnt}
    (hj : t.occupied j) (hassigned : t.assigned i j) (hp : PlainTcp p)
    (hsaddr : ipSaddr p = (t.clntList j).ip)
    (hsource : ((tcpSource p).toNat : Int) = (t.clntList j).port)
    (hdaddr : ipDaddr p = lbaddr.addr) (hdest : tcpDest p = lbaddr.port) :
    checkIpAndPort t.clntList p lbaddr = some .clnt2serv ∧
    ∃ p', nat t p j (t.forwardingTable j).1 lbaddr .clnt2serv = .ok p' ∧
      ipSaddr p' = lbaddr.addr ∧ ((tcpSource p').toNat : Int) = (t.clntList j).pseudoPort ∧
      ipDaddr p' = (t.servList i).ip ∧ tcpDest p' = (t.servList i).port ∧
      ∀ q, PlainTcp q → endpoints q = (endpoints p').swap →
        checkIpAndPort t.clntList q lbaddr = some .serv2clnt ∧
        findPseudoPort t.clntList q = some j ∧
        ∃ q', nat t q (t.forwardingTable j).1 j lbaddr .serv2clnt = .ok q' ∧
          endpoints q' = (endpoints p).swap := by
  obtain ⟨hpos, hle⟩ := h.pseudo_range j hj
  obtain ⟨p', hnat⟩ := @nat_clnt2serv_total t p lbaddr j hp.tcpPacket.fits i
  have hend := nat_clnt2serv_endpoints hnat
  rw [show (t.forwardingTable j).1 = i.val from hassigned]
  have hpseudo : ((tcpSource p').toNat : Int) = (t.clntList j).pseudoPort := by
    rw [show tcpSource p' = (endpoints p').source from rfl, hend]
    exact ofInt_toNat (by omega) (by omega)
  refine ⟨by simp [checkIpAndPort, hdaddr, hdest], p', hnat, congrArg Endpoints.saddr hend,
    hpseudo, congrArg Endpoints.daddr hend, congrArg Endpoints.dest hend,
    fun q hq hswap => ?_⟩
  have hqdest : ((tcpDest q).toNat : Int) = (t.clntList j).pseudoPort := by
    rw [show tcpDest q = tcpSource p' from congrArg Endpoints.dest hswap, hpseudo]
  have hqdaddr : ipDaddr q = lbaddr.addr :=
    (congrArg Endpoints.daddr hswap).trans (congrArg Endpoints.saddr hend)
  obtain ⟨q', hback⟩ :=
    @nat_serv2clnt_total t q lbaddr j hq.tcpPacket.fits i
  refine ⟨h.reply hj hqdaddr hqdest, h.find hj hqdest, q', hback, ?_⟩
  have hport : BitVec.ofInt 16 (t.clntList j).port = tcpSource p := by
    rw [← hsource]
    simp
  rw [nat_serv2clnt_endpoints hback, hport, ← hsaddr, ← hdaddr, ← hdest]
  rfl

end RoundTrip

theorem nat_round_trip_demo : ∃ s p p', Reachable demoConfig s ∧ PlainTcp p ∧
    nat s.tables p 0 (s.tables.forwardingTable 0).1 demoConfig.lbaddr .clnt2serv = .ok p' ∧
    ((tcpSource p').toNat : Int) = 59689 ∧
    ∀ q, PlainTcp q → endpoints q = (endpoints p').swap →
      ∃ q', nat s.tables q (s.tables.forwardingTable 0).1 0 demoConfig.lbaddr .serv2clnt =
        .ok q' ∧ endpoints q' = (endpoints p).swap := by
  let p : Mem := store (fun _ => 0) 0 (tcpBytes 0x0900000a 0x0100000a 0x409c 0x5000 ackFlag)
  obtain ⟨s, hrun, htest⟩ := @executes_of_endsIn demoConfig anyStep _
    (fun s => (∀ j, s.tables.occupied j → j = 0) ∧
      s.tables.clntList 0 = ⟨0x0900000a, 0x409c, 59689⟩ ∧ s.tables.assigned 0 0)
    demoStart [demoJoin, demoClient synFlag] (by decide +kernel)
  obtain ⟨honly, hslot, hassigned⟩ := of_decide_eq_true htest
  have hs := hrun.reachable.reachable.sound.tables
  have htell : PseudoPortsTell s.tables demoConfig.lbaddr := by
    refine ⟨hs.free_zero, fun j _ => ⟨hs.port_nonneg j, hs.port_lt j⟩, fun j hj => ?_,
      fun j k hj hk _ => (honly j hj).trans (honly k hk).symm, fun j hj => ?_⟩
    · rw [honly j hj, hslot]
      decide
    · rw [honly j hj, hslot]
      decide
  have hp : PlainTcp p := ⟨by decide, by decide⟩
  have hocc : s.tables.occupied 0 := by
    rw [Tables.occupied, hslot]
    decide
  obtain ⟨_, p', hnat, _, hpseudo, _, _, hback⟩ := nat_round_trip htell hocc hassigned hp
    (by rw [hslot]; decide) (by rw [hslot]; decide) (by decide) (by decide)
  rw [hslot] at hpseudo
  exact ⟨s, p, p', hrun.reachable.reachable, hp, hnat, hpseudo,
    fun q hq hend => (hback q hq hend).2.2⟩

end LoadBalancer
