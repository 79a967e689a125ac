import IotLab.LoadBalancer.Execution

set_option autoImplicit false

namespace LoadBalancer
open SlotTable HostMemory

abbrev SourceByte (k : Nat) : Prop := (12 ≤ k ∧ k < 16) ∨ (20 ≤ k ∧ k < 22)

def SameButSource (b c : Mem) : Prop := ∀ k, ¬SourceByte k → b k = c k

section Source
variable {cfg : Config} {t : Tables} {b c : Mem}

theorem SameButSource.tcpDest (h : SameButSource b c) : tcpDest b = tcpDest c := by
  simp [LoadBalancer.tcpDest, read16, h 22 (by omega), h 23 (by omega)]

theorem SameButSource.ipDaddr (h : SameButSource b c) : ipDaddr b = ipDaddr c := by
  simp [LoadBalancer.ipDaddr, read32, h 16 (by omega), h 17 (by omega), h 18 (by omega),
    h 19 (by omega)]

theorem SameButSource.checkType (h : SameButSource b c) : checkType b = checkType c := by
  simp [LoadBalancer.checkType, tcpSyn, tcpAck, tcpFin, h 33 (by omega)]

theorem SameButSource.checkIpAndPort (h : SameButSource b c) (lbaddr : SockaddrIn) :
    checkIpAndPort t.clntList b lbaddr = checkIpAndPort t.clntList c lbaddr := by
  simp only [LoadBalancer.checkIpAndPort, findPseudoPort, h.ipDaddr, h.tcpDest]

theorem SameButSource.nat (h : SameButSource b c) (sourceId destId : Int)
    (lbaddr : SockaddrIn) : nat t b sourceId destId lbaddr .serv2clnt =
      nat t c sourceId destId lbaddr .serv2clnt := by
  have hihl : ihl b = ihl c := by simp [ihl, h 0 (by omega)]
  have hlen : totLen b = totLen c := by
    simp [totLen, read16, h 2 (by omega), h 3 (by omega)]
  have hrewrite : natRewrite t b sourceId destId lbaddr .serv2clnt =
      natRewrite t c sourceId destId lbaddr .serv2clnt := by
    simp only [natRewrite]
    cases clntAt destId with
    | error e => rfl
    | ok j =>
      refine congrArg Except.ok (funext fun k => store_at fun h20 => store_at fun _ =>
        store_at fun _ => store_at fun h12 => h k ?_)
      simp only [bytes16_length, bytes32_length] at h20 h12
      omega
  simp only [LoadBalancer.nat, hihl, hlen, hrewrite]

theorem SameButSource.serv2clnt (h : SameButSource b c) (length : Int) :
    serv2clnt cfg t b length = serv2clnt cfg t c length := by
  have hfind : findPseudoPort t.clntList b = findPseudoPort t.clntList c := by
    simp only [findPseudoPort, h.tcpDest]
  unfold LoadBalancer.serv2clnt
  rw [hfind, h.checkType]
  cases findPseudoPort t.clntList c with
  | none => rfl
  | some j => simp only [h.nat]

end Source

theorem packet_same_but_source {cfg : Config} {s : State}
    {received other : Option (Received bufSize)} {now : BitVec 32} {minIndex : Int}
    (h : SameButSource (recvInto s.buf received) (recvInto s.buf other))
    (hlen : recvLength received = recvLength other)
    (hdir : fromServer cfg s.tables (recvInto s.buf received)) :
    packet cfg s received now minIndex = packet cfg s other now minIndex := by
  have hother := h.checkIpAndPort cfg.lbaddr ▸ hdir.1
  simp only [packet, hdir.1, hother, if_neg hdir.2, h.serv2clnt, hlen]

/-- A packet relayed to a client was found by its pseudo port. -/
theorem PacketStep.sent_reply {cfg : Config} {t t' : Tables} {b b' : Mem} {length : Int}
    {now : BitVec 32} {minIndex : Int} {out : List Output} {x : LoopExit}
    (hstep : PacketStep cfg t b length now minIndex t' b' out x) {call : Sent}
    (hcall : .sent call ∈ out) (hdir : call.dir = .serv2clnt) :
    fromServer cfg t b ∧ ∃ j : Fin maxClntCnt, call.destId = j.val ∧
      findPseudoPort t.clntList b = some j := by
  cases hstep with
  | ignored => simp at hcall
  | unknown => simp at hcall
  | admitted =>
    obtain rfl := List.mem_singleton.mp (mem_sentCalls.mpr hcall)
    cases hdir
  | forwarded =>
    obtain rfl := List.mem_singleton.mp (mem_sentCalls.mpr hcall)
    cases hdir
  | released =>
    obtain rfl := List.mem_singleton.mp (mem_sentCalls.mpr hcall)
    cases hdir
  | relayed j _ hc hserv hport _ _ =>
    obtain rfl := List.mem_singleton.mp (mem_sentCalls.mpr hcall)
    exact ⟨⟨hc, hserv⟩, j, rfl, hport⟩
  | relayReleased j _ _ hc hserv hport _ _ _ _ =>
    obtain rfl := List.mem_singleton.mp (mem_sentCalls.mpr hcall)
    exact ⟨⟨hc, hserv⟩, j, rfl, hport⟩

/-- Of every reachable state and every packet to a non-zero port: what is relayed to a client
goes to the occupied slot with that pseudo port, whatever its source; and what is addressed to
the LB at a port that is neither its own nor a pseudo port of an occupied slot is dropped. -/
theorem replies_by_destination {cfg : Config} {s s' : State}
    {received : Option (Received bufSize)} {now : BitVec 32} {minIndex : Int}
    {out : List Output} {x : LoopExit} (h : Reachable cfg s)
    (hstep : (system cfg).step s ⟨.packet received now minIndex, out, x⟩ s')
    (hdst : tcpDest (recvInto s.buf received) ≠ 0) :
    (∀ call : Sent, .sent call ∈ out → call.dir = .serv2clnt →
      (∃ j : Fin maxClntCnt, call.destId = j.val ∧ s.tables.occupied j ∧
        (s.tables.clntList j).pseudoPort = (tcpDest (recvInto s.buf received)).toNat) ∧
      ∀ other, SameButSource (recvInto s.buf received) (recvInto s.buf other) →
        recvLength received = recvLength other →
        packet cfg s other now minIndex = .ok (s', out, x)) ∧
    (ipDaddr (recvInto s.buf received) = cfg.lbaddr.addr →
      tcpDest (recvInto s.buf received) ≠ cfg.lbaddr.port →
      (∀ j, s.tables.occupied j →
        (s.tables.clntList j).pseudoPort ≠ (tcpDest (recvInto s.buf received)).toNat) →
      out = [] ∧ s'.tables = s.tables) := by
  have hs := h.sound.tables
  have hrun : packet cfg s received now minIndex = .ok (s', out, x) := hstep.2
  have hpkt := (packet_ok hrun).1
  constructor
  · intro call hcall hdir
    obtain ⟨hfrom, j, hj, hport⟩ := hpkt.sent_reply hcall hdir
    refine ⟨⟨j, hj, hs.findPseudoPort_occupied hport hdst, findPseudoPort_some hport⟩,
      fun other hsame hlen => ?_⟩
    rw [← packet_same_but_source hsame hlen hfrom, hrun]
  · intro haddr hport hnone
    -- No slot is found: a free one has the pseudo port 0.
    have hfind : findPseudoPort s.tables.clntList (recvInto s.buf received) = none := by
      cases hf : findPseudoPort s.tables.clntList (recvInto s.buf received) with
      | none => rfl
      | some j =>
        exact absurd (findPseudoPort_some hf) (hnone j (hs.findPseudoPort_occupied hf hdst))
    have hdrop : checkIpAndPort s.tables.clntList (recvInto s.buf received) cfg.lbaddr =
        none := by
      simp only [checkIpAndPort, haddr, hport, and_false, if_false, if_true, hfind]
    simp only [packet, hdrop, Except.ok.injEq, Prod.mk.injEq] at hrun
    obtain ⟨rfl, rfl, _⟩ := hrun
    exact ⟨rfl, rfl⟩

theorem replies_by_destination_demo : ∃ s l s', ∃ call : Sent,
    Executes demoConfig anyStep demoStart [demoJoin, demoClient synFlag] s ∧
    (system demoConfig).step s l s' ∧ .sent call ∈ l.out ∧
    ∃ j : Fin maxClntCnt, call.destId = j.val ∧ s.tables.occupied j ∧
      (s.tables.clntList j).pseudoPort = 59689 := by
  obtain ⟨s, hrun, htest⟩ := @executes_of_endsIn demoConfig anyStep _
    (fun s => (nextStep demoConfig anyStep s (demoReply ackFlag)).any fun (r : Step × State) =>
      decide (∃ call ∈ sentCalls r.1.out, call.dir = .serv2clnt)) demoStart
    [demoJoin, demoClient synFlag] (by decide +kernel)
  obtain ⟨⟨e, out, x⟩, s', rfl, hstep, htest⟩ := nextStep_any htest
  obtain ⟨call, hcall, hdir⟩ := of_decide_eq_true htest
  have hmem : .sent call ∈ out := mem_sentCalls.mp hcall
  have hport : tcpDest (recvInto s.buf (some (tcpPacket 0x0200000a 0x0100000a 0x901f 59689
      ackFlag))) = 59689 := tcpDest_tcpPacket ..
  obtain ⟨⟨j, hj, hocc, hpseudo⟩, _⟩ :=
    (replies_by_destination hrun.reachable.reachable hstep (by rw [hport]; decide)).1 call
      hmem hdir
  rw [hport] at hpseudo
  exact ⟨s, _, s', call, hrun, hstep, hmem, j, hj, hocc, hpseudo⟩

/-- A packet from a host that is no server, to the pseudo port of a client, is relayed to the
client. -/
theorem foreign_reply_relayed : ∃ s l s' call, Executes demoConfig anyStep demoStart
    [demoJoin, demoClient synFlag] s ∧ l.event = demoSegment 0x4200000a 0x1111 59689 ackFlag 0 ∧
    (system demoConfig).step s l s' ∧ .sent call ∈ l.out ∧ call.dir = .serv2clnt ∧
    call.destId = 0 ∧ s.tables.assigned 0 0 ∧
    (s.tables.servList 0).ip ≠ 0x4200000a ∧ (s.tables.servList 0).port ≠ 0x1111 := by
  obtain ⟨s, hrun, htest⟩ := @executes_of_endsIn demoConfig anyStep _
    (fun s => (nextStep demoConfig anyStep s
      (demoSegment 0x4200000a 0x1111 59689 ackFlag 0)).any fun (r : Step × State) =>
      decide (∃ call ∈ sentCalls r.1.out, call.dir = .serv2clnt ∧ call.destId = 0 ∧
        s.tables.assigned 0 0 ∧ (s.tables.servList 0).ip ≠ 0x4200000a ∧
        (s.tables.servList 0).port ≠ 0x1111)) demoStart
    [demoJoin, demoClient synFlag] (by decide +kernel)
  obtain ⟨l, s', hl, hstep, htest⟩ := nextStep_any htest
  obtain ⟨call, hcall, hrest⟩ := of_decide_eq_true htest
  exact ⟨s, l, s', call, hrun, hl, hstep, mem_sentCalls.mp hcall, hrest⟩

end LoadBalancer
