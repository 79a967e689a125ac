import IotLab.LoadBalancer.Duplicates

set_option autoImplicit false

namespace LoadBalancer
open SlotTable HostMemory

/-- Occupied slots do not share ports, and each is served by a live server. -/
structure ClientsApart (cfg : Config) (t : Tables) : Prop where
  free_zero : ∀ j, ¬t.occupied j → t.clntList j = .zero
  ports : PortsDistinct t
  pseudo_inj : ∀ j k, t.occupied j → t.occupied k →
    (t.clntList j).pseudoPort = (t.clntList k).pseudoPort → j = k
  pseudo_range : ∀ j, t.occupied j →
    1 ≤ (t.clntList j).pseudoPort ∧ (t.clntList j).pseudoPort ≤ 65535
  pseudo_ne : ∀ j, t.occupied j → (t.clntList j).pseudoPort ≠ cfg.lbaddr.port.toNat
  pair : ∀ j, t.occupied j → (∃ i, t.assigned i j ∧ t.live i) ∧
    ((t.forwardingTable j).2 = 1 ∨ (t.forwardingTable j).2 = 2)

/-- A packet with a plain IP header, received to its end and with its TCP flags. -/
structure Complete (r : Received bufSize) : Prop where
  ihl_eq : ihl (recvInto (fun _ => 0) (some r)) = 5
  flags : 34 ≤ totLen (recvInto (fun _ => 0) (some r))
  received : totLen (recvInto (fun _ => 0) (some r)) ≤ r.bytes.length

/-- The packet in `b` comes from the client in slot `j`, or is a reply to it. -/
structure BelongsTo (cfg : Config) (t : Tables) (b : Mem) (j : Fin maxClntCnt) : Prop where
  occupied : t.occupied j
  daddr : ipDaddr b = cfg.lbaddr.addr
  ports : (tcpDest b = cfg.lbaddr.port ∧ (t.clntList j).port = (tcpSource b).toNat) ∨
    (t.clntList j).pseudoPort = (tcpDest b).toNat

structure Arrival where
  received : Received bufSize
  now : BitVec 32
  minIndex : Int

def datagrams (out : List Output) : List (List Byte × SockaddrIn) :=
  (sentCalls out).filterMap Sent.datagram

def inOrder (cfg : Config) (s : State) (p q : Arrival) :
    Result (Tables × List (List Byte × SockaddrIn) × List (List Byte × SockaddrIn)) := do
  let (s, sentP, _) ← packet cfg s (some p.received) p.now p.minIndex
  let (s, sentQ, _) ← packet cfg s (some q.received) q.now q.minIndex
  .ok (s.tables, datagrams sentP, datagrams sentQ)

section Apart
variable {cfg : Config} {t u : Tables} {b b' : Mem} {i : Fin maxServCnt} {j k : Fin maxClntCnt}

theorem Change.flag_cases (c : Change) :
    ((c.apply t j).forwardingTable k).2 = 1 ∨
      ((c.apply t j).forwardingTable k).2 = (t.forwardingTable k).2 := by
  cases c with
  | keep => exact .inr rfl
  | mark =>
    rw [Change.apply, markFin_flag]
    split
    · exact .inl rfl
    · exact .inr rfl
  | release i => exact .inr rfl

theorem ClientsApart.change (h : ClientsApart cfg t) (c : Change) (j : Fin maxClntCnt) :
    ClientsApart cfg (c.apply t j) := by
  have hentry {k : Fin maxClntCnt} (hk : (c.apply t j).occupied k) :
      (c.apply t j).clntList k = t.clntList k ∧ t.occupied k := by
    have hsame := c.entry_of_occupied hk
    refine ⟨hsame, ?_⟩
    rw [Tables.occupied, hsame] at hk
    exact hk
  constructor
  case free_zero =>
    intro k hk
    rcases c.entry_cases with hsame | hzero
    · rw [Tables.occupied, hsame] at hk
      rw [hsame]
      exact h.free_zero k hk
    · by_cases hkj : k = j
      · subst hkj
        rw [hzero, Function.update_self]
      · rw [Tables.occupied, hzero, Function.update_of_ne hkj] at hk
        rw [hzero, Function.update_of_ne hkj]
        exact h.free_zero k hk
  case ports => exact h.ports.emptied (fun k hk => (hentry hk).1)
  case pseudo_inj =>
    intro k l hk hl heq
    obtain ⟨hsamek, hocck⟩ := hentry hk
    obtain ⟨hsamel, hoccl⟩ := hentry hl
    rw [hsamek, hsamel] at heq
    exact h.pseudo_inj k l hocck hoccl heq
  case pseudo_range =>
    intro k hk
    obtain ⟨hsame, hocc⟩ := hentry hk
    rw [hsame]
    exact h.pseudo_range k hocc
  case pseudo_ne =>
    intro k hk
    obtain ⟨hsame, hocc⟩ := hentry hk
    rw [hsame]
    exact h.pseudo_ne k hocc
  case pair =>
    intro k hk
    obtain ⟨⟨i, hi, hlive⟩, hflag⟩ := h.pair k (hentry hk).2
    refine ⟨⟨i, ?_, c.live_iff.mpr hlive⟩, ?_⟩
    · rw [Tables.assigned, c.pair_serv]
      exact hi
    · rcases @Change.flag_cases t j k c with h1 | hsame
      · exact .inl h1
      · rw [hsame]
        exact hflag

theorem BelongsTo.kept (h : BelongsTo cfg t b j) (hu : KeptFor j t u)
    (hends : endpoints b = endpoints b') : BelongsTo cfg u b' j := by
  refine ⟨?_, ?_, ?_⟩
  · rw [Tables.occupied, hu.entry]
    exact h.occupied
  · rw [← ipDaddr_congr hends]
    exact h.daddr
  · rw [hu.entry, ← tcpDest_congr hends, ← tcpSource_congr hends]
    exact h.ports

def directionOf (cfg : Config) (b : Mem) : Direction :=
  if tcpDest b = cfg.lbaddr.port then .clnt2serv else .serv2clnt

theorem ClientsApart.segment (h : ClientsApart cfg t) (hb : BelongsTo cfg t b j)
    (hserv : t.servCnt ≠ 0) (hassigned : t.assigned i j) :
    SegmentOf cfg t b (directionOf cfg b) i j := by
  have hflag : (t.forwardingTable j).2 ≠ -1 := by
    have := (h.pair j hb.occupied).2
    omega
  have hpseudo (hdest : tcpDest b = cfg.lbaddr.port) :
      (t.clntList j).pseudoPort ≠ (tcpDest b).toNat := by
    rw [hdest]
    exact h.pseudo_ne j hb.occupied
  unfold directionOf
  split
  · rename_i hdest
    have hport := (hb.ports.resolve_right (hpseudo hdest)).2
    refine ⟨checkIpAndPort_client.mpr ⟨hb.daddr, hdest⟩, hserv, ?_, hassigned, hflag⟩
    refine firstSlot_of_unique (decide_eq_true hport) (fun k hk => ?_)
    have hk := of_decide_eq_true hk
    have hocc : t.occupied k := by
      rw [Tables.occupied, hk, ← hport]
      exact hb.occupied
    exact h.ports k j hocc hb.occupied (hk.trans hport.symm)
  · rename_i hdest
    have hport := hb.ports.resolve_left (fun hclient => hdest hclient.1)
    have hfound : findPseudoPort t.clntList b = some j := by
      refine firstSlot_of_unique (decide_eq_true hport) (fun k hk => ?_)
      have hk := of_decide_eq_true hk
      have hpos := (h.pseudo_range j hb.occupied).1
      have hocc : t.occupied k := by
        by_contra hfree
        rw [h.free_zero k (not_not.mpr hfree)] at hk
        have hzero : ClntListNode.zero.pseudoPort = 0 := rfl
        omega
      exact h.pseudo_inj k j hocc hb.occupied (hk.trans hport.symm)
    refine ⟨?_, hserv, hfound, hassigned, hflag⟩
    rw [checkIpAndPort, if_neg (fun hclient => hdest hclient.2), if_pos hb.daddr, hfound]

theorem nat_kept {lbaddr : SockaddrIn} (hu : KeptFor j t u) (dir : Direction) :
    nat u b (segmentEnds i j dir).1 (segmentEnds i j dir).2 lbaddr dir =
      nat t b (segmentEnds i j dir).1 (segmentEnds i j dir).2 lbaddr dir := by
  cases dir with
  | clnt2serv =>
    simp only [nat, natRewrite, segmentEnds, servAt_coe, clntAt_coe, bind, Except.bind, hu.entry]
    rw [hu.servList i]
  | serv2clnt =>
    simp only [nat, natRewrite, segmentEnds, clntAt_coe, bind, Except.bind, hu.entry]

end Apart

section Complete
variable {r : Received bufSize} {buf buf' : Mem} (h : Complete r)
include h

theorem Complete.flags_received : 34 ≤ r.bytes.length := by
  have hlo := h.flags
  have hhi := h.received
  omega

theorem Complete.endpoints_eq :
    endpoints (recvInto buf (some r)) = endpoints (recvInto buf' (some r)) := by
  have hn := h.flags_received
  exact endpoints_agree recv_agree (fun k hk => show k < r.bytes.length by omega)

theorem Complete.checkType_eq :
    checkType (recvInto buf (some r)) = checkType (recvInto buf' (some r)) :=
  checkType_congr (recv_agree 33 h.flags_received)

theorem Complete.tcpLen_eq :
    tcpLen (recvInto buf (some r)) = tcpLen (recvInto (fun _ => 0) (some r)) := by
  have hn := h.flags_received
  exact tcpLen_agree recv_agree (fun k hk => show k < r.bytes.length by omega)

theorem Complete.tcpLen_range : 14 ≤ tcpLen (recvInto buf (some r)) ∧
    (ipHeaderSize : Int) + tcpLen (recvInto buf (some r)) ≤ r.bytes.length := by
  have hihl := h.ihl_eq
  have hlo := h.flags
  have hhi := h.received
  rw [h.tcpLen_eq, tcpLen, hihl]
  have h20 : ipHeaderSize = 20 := rfl
  omega

theorem Complete.fits : SegmentFits (recvInto buf (some r)) := by
  obtain ⟨hlo, hhi⟩ := @Complete.tcpLen_range r buf h
  have hfits := r.fits
  exact ⟨by omega, by omega⟩

theorem Complete.checksumRead : ChecksumRead r.bytes.length (recvInto buf (some r)) := by
  obtain ⟨_, hhi⟩ := @Complete.tcpLen_range r buf h
  exact .inr (by omega)

end Complete

section Orders
variable {cfg : Config} {s : State} {r : Received bufSize} {j k : Fin maxClntCnt}

/-- What is sent on of a segment does not depend on what the buffer held before, or on the
entries of other clients. -/
theorem segment_datagrams {t u : Tables} {buf buf' c c' : Mem} {dir : Direction}
    {i : Fin maxServCnt} (hr : Complete r) (hu : KeptFor j t u)
    (hnat : nat t (recvInto buf (some r)) (segmentEnds i j dir).1 (segmentEnds i j dir).2
      cfg.lbaddr dir = .ok c)
    (hnat' : nat u (recvInto buf' (some r)) (segmentEnds i j dir).1 (segmentEnds i j dir).2
      cfg.lbaddr dir = .ok c') :
    Sent.datagram ⟨dir, (segmentEnds i j dir).1, (segmentEnds i j dir).2, c,
        recvLength (some r), segmentAddr t i c dir⟩ =
      Sent.datagram ⟨dir, (segmentEnds i j dir).1, (segmentEnds i j dir).2, c',
        recvLength (some r), segmentAddr u i c' dir⟩ := by
  have hn := hr.flags_received
  rw [nat_kept hu] at hnat'
  have hagree : AgreeOn (· < r.bytes.length) (recvInto buf (some r)) (recvInto buf' (some r)) :=
    @recv_agree (some r) buf buf'
  obtain ⟨c₂, hnat₂, hc⟩ := nat_agree (by omega) hr.checksumRead hagree hnat
  obtain rfl := Except.ok.inj (hnat'.symm.trans hnat₂)
  have hends := endpoints_agree hc (fun k hk => show k < r.bytes.length by omega)
  have haddr : segmentAddr t i c dir = segmentAddr u i c' dir := by
    cases dir with
    | clnt2serv =>
      rw [segmentAddr, segmentAddr, hu.servList i]
    | serv2clnt =>
      rw [segmentAddr, segmentAddr, tcpDest_congr hends, ipDaddr_congr hends]
  rw [haddr]
  exact @datagram_agree (some r) _ _ _ _ _ _ hc

/-- A segment makes one change and emits one thing, also after a segment of another client. -/
theorem ClientsApart.handled (h : ClientsApart cfg s.tables) (hserv : s.tables.servCnt ≠ 0)
    (hr : Complete r) (hb : BelongsTo cfg s.tables (recvInto s.buf (some r)) j) :
    ∃ (c : Change) (sent : List (List Byte × SockaddrIn)),
      ∀ (s' : State) (d : Change) (k : Fin maxClntCnt) (now : BitVec 32) (minIndex : Int),
        k ≠ j → s'.tables = d.apply s.tables k →
          ∃ s'' out x, packet cfg s' (some r) now minIndex = .ok (s'', out, x) ∧
            s''.tables = c.apply s'.tables j ∧ datagrams out = sent := by
  obtain ⟨⟨i, hassigned, _⟩, _⟩ := h.pair j hb.occupied
  have hseg := h.segment hb hserv hassigned
  obtain ⟨s₀, out₀, x₀, _, _, hnat₀, hsent₀⟩ := @SegmentOf.handled _ _ _ 0 0 _ _ _ hseg hr.fits
  refine ⟨segmentChange (directionOf cfg (recvInto s.buf (some r)))
    (checkType (recvInto s.buf (some r))) (s.tables.forwardingTable j).2 i, datagrams out₀, ?_⟩
  intro s' d k now minIndex hkj hs'
  have hkept : KeptFor j s.tables s'.tables := hs' ▸ d.keptFor hkj.symm
  have hends := @Complete.endpoints_eq r s.buf s'.buf hr
  have hapart : ClientsApart cfg s'.tables := hs' ▸ h.change d k
  have hserv' : s'.tables.servCnt ≠ 0 := by
    rw [hkept.servCnt]
    exact hserv
  have hassigned' : s'.tables.assigned i j := by
    rw [Tables.assigned, hkept.pair]
    exact hassigned
  have hdir : directionOf cfg (recvInto s'.buf (some r)) =
      directionOf cfg (recvInto s.buf (some r)) := by
    rw [directionOf, directionOf, tcpDest_congr hends]
  have hseg' := hapart.segment (hb.kept hkept hends) hserv' hassigned'
  rw [hdir] at hseg'
  obtain ⟨s'', out, x, hrun, ht, hnat, hsent⟩ :=
    @SegmentOf.handled _ _ _ now minIndex _ _ _ hseg' hr.fits
  refine ⟨s'', out, x, hrun, ?_, ?_⟩
  · rw [ht, hkept.pair, @Complete.checkType_eq r s'.buf s.buf hr]
  · rw [datagrams, datagrams, hsent, hsent₀, List.filterMap_cons, List.filterMap_cons,
      segment_datagrams hr hkept hnat₀ hnat]

theorem inOrder_idle (hserv : s.tables.servCnt = 0) (p q : Arrival) :
    inOrder cfg s p q = .ok (s.tables, [], []) := by
  have hdropped (s' : State) (hs' : s'.tables = s.tables) (a : Arrival) : ∃ s'',
      packet cfg s' (some a.received) a.now a.minIndex = .ok (s'', [], .next) ∧
        s''.tables = s.tables := by
    have hserv' : s'.tables.servCnt = 0 := hs' ▸ hserv
    exact ⟨_, packet_dropped ⟨fun h => h.2 hserv', fun h => absurd hserv' h.2⟩, hs'⟩
  obtain ⟨s₁, hrun₁, ht₁⟩ := hdropped s rfl p
  obtain ⟨s₂, hrun₂, ht₂⟩ := hdropped s₁ ht₁ q
  simp only [inOrder, hrun₁, hrun₂, ht₂, bind, Except.bind]
  rfl

end Orders

section Demo

def twoClients : Tables where
  recentServId := 0
  servCnt := 1
  servList i := if i = 0 then ⟨7, 0x0200000a, 0x901f, 2, ⟨afInet, 0x901f, 0x0200000a⟩, 0⟩ else .zero
  clntList j :=
    if j = 0 then ⟨0x0900000a, 0x409c, 50000⟩
    else if j = 1 then ⟨0x0a00000a, 0x419c, 50001⟩
    else .zero
  clntCnt := 2
  forwardingTable j := if j = 0 then (0, 1) else if j = 1 then (0, 2) else (-1, -1)

theorem twoClients_occupied {j : Fin maxClntCnt} (h : twoClients.occupied j) : j = 0 ∨ j = 1 := by
  by_contra hj
  obtain ⟨h0, h1⟩ := not_or.mp hj
  simp only [Tables.occupied, twoClients, if_neg h0, if_neg h1] at h
  exact h rfl

theorem twoClients_apart : ClientsApart demoConfig twoClients := by
  constructor
  case free_zero =>
    intro j hj
    have h0 : j ≠ 0 := by
      rintro rfl
      exact hj (by decide)
    have h1 : j ≠ 1 := by
      rintro rfl
      exact hj (by decide)
    simp only [twoClients, if_neg h0, if_neg h1]
  case ports =>
    intro j k hj hk heq
    rcases twoClients_occupied hj with rfl | rfl <;> rcases twoClients_occupied hk with rfl | rfl
    · rfl
    · exact absurd heq (by decide)
    · exact absurd heq (by decide)
    · rfl
  case pseudo_inj =>
    intro j k hj hk heq
    rcases twoClients_occupied hj with rfl | rfl <;> rcases twoClients_occupied hk with rfl | rfl
    · rfl
    · exact absurd heq (by decide)
    · exact absurd heq (by decide)
    · rfl
  case pseudo_range =>
    intro j hj
    rcases twoClients_occupied hj with rfl | rfl <;> decide
  case pseudo_ne =>
    intro j hj
    rcases twoClients_occupied hj with rfl | rfl <;> decide
  case pair =>
    intro j hj
    rcases twoClients_occupied hj with rfl | rfl <;>
      exact ⟨⟨0, by decide, by decide⟩, by decide⟩

def lastAck : Arrival := ⟨tcpPacket 0x0900000a 0x0100000a 0x409c 0x5000 ackFlag, 0, 0⟩

def serverFin : Arrival := ⟨tcpPacket 0x0200000a 0x0100000a 0x901f 50001 finFlag, 0, 0⟩

end Demo

theorem independent_clients_commute {cfg : Config} {s : State} {p q : Arrival}
    {j k : Fin maxClntCnt} (h : ClientsApart cfg s.tables) (hp : Complete p.received)
    (hq : Complete q.received) (hjk : j ≠ k)
    (hpj : BelongsTo cfg s.tables (recvInto s.buf (some p.received)) j)
    (hqk : BelongsTo cfg s.tables (recvInto s.buf (some q.received)) k) :
    ∃ t sentP sentQ, inOrder cfg s p q = .ok (t, sentP, sentQ) ∧
      inOrder cfg s q p = .ok (t, sentQ, sentP) := by
  by_cases hserv : s.tables.servCnt = 0
  · exact ⟨s.tables, [], [], inOrder_idle hserv p q, inOrder_idle hserv q p⟩
  · obtain ⟨c, sentP, hp⟩ := h.handled hserv hp hpj
    obtain ⟨d, sentQ, hq⟩ := h.handled hserv hq hqk
    obtain ⟨s₁, out₁, x₁, hrun₁, ht₁, rfl⟩ := hp s .keep k p.now p.minIndex hjk.symm rfl
    obtain ⟨s₁₂, out₁₂, x₁₂, hrun₁₂, ht₁₂, rfl⟩ := hq s₁ c j q.now q.minIndex hjk ht₁
    obtain ⟨s₂, out₂, x₂, hrun₂, ht₂, hsent₂⟩ := hq s .keep j q.now q.minIndex hjk rfl
    obtain ⟨s₂₁, out₂₁, x₂₁, hrun₂₁, ht₂₁, hsent₂₁⟩ := hp s₂ d k p.now p.minIndex hjk.symm ht₂
    refine ⟨s₁₂.tables, datagrams out₁, datagrams out₁₂, ?_, ?_⟩
    · simp only [inOrder, hrun₁, hrun₁₂, bind, Except.bind]
    · have hsame : s₂₁.tables = s₁₂.tables := by
        rw [ht₂₁, ht₁₂, ht₁, ht₂]
        exact Change.comm c d hjk
      simp only [inOrder, hrun₂, hrun₂₁, hsame, hsent₂, hsent₂₁, bind, Except.bind]

theorem lastAck_serverFin_commute : ∃ t sentP sentQ,
    inOrder demoConfig ⟨twoClients, fun _ => 0, 0, []⟩ lastAck serverFin =
        .ok (t, sentP, sentQ) ∧
      inOrder demoConfig ⟨twoClients, fun _ => 0, 0, []⟩ serverFin lastAck =
        .ok (t, sentQ, sentP) :=
  independent_clients_commute (j := 0) (k := 1) twoClients_apart
    ⟨by decide, by decide, by decide⟩ ⟨by decide, by decide, by decide⟩ (by decide)
    ⟨by decide, by decide, .inl ⟨by decide, by decide⟩⟩ ⟨by decide, by decide, .inr (by decide)⟩

end LoadBalancer
