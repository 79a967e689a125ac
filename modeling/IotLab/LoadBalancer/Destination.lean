import IotLab.LoadBalancer.Execution

set_option autoImplicit false

namespace LoadBalancer
open SlotTable HostMemory

/-- `sendto` is given the destination in the header of the packet. -/
def Sent.Agrees (call : Sent) : Prop :=
  call.addr = ⟨afInet, tcpDest call.packet, ipDaddr call.packet⟩

def ServListNode.OwnAddress (node : ServListNode) : Prop :=
  node.sockAdr = ⟨afInet, node.port, node.ip⟩

def Event.IsReply (cfg : Config) (s : State) : Event → Prop
  | .packet received _ _ =>
    checkIpAndPort s.tables.clntList (recvInto s.buf received) cfg.lbaddr = some .serv2clnt
  | .join _ _ _ | .server _ _ _ _ => False

theorem join_sockAdr {s s' : State} {accepted : Option (Int × BitVec 32)} {port : Received 2}
    {stack : Mem} {out : List Output} (h : join s accepted port stack = (s', out))
    (i : Fin maxServCnt) : (s'.tables.servList i).sockAdr = (s.tables.servList i).sockAdr := by
  unfold join at h
  generalize accepted.getD (-1, s.servAdr) = a at h
  obtain ⟨sock, adr⟩ := a
  dsimp only at h
  split at h
  · cases h
    rfl
  · unfold addServerInfo at h
    split at h
    · rename_i k _
      cases h
      by_cases hk : i = k
      · subst hk
        simp
      · simp [hk]
    · cases h
      rfl

section Step
variable {cfg : Config} {s s' : State} {l : Step}

theorem sockAdr_step (h : (system cfg).step s l s') (i : Fin maxServCnt) :
    (s'.tables.servList i).sockAdr = (s.tables.servList i).sockAdr ∨
      (s'.tables.servList i).sockAdr = ⟨0, 0, 0⟩ := by
  obtain ⟨event, out, x⟩ := l
  cases event with
  | join accepted port stack => exact .inl (join_sockAdr (handle_join h.2).1 i)
  | packet received now minIndex =>
    have hpkt := (packet_ok h.2).1
    rw [hpkt.servList]
    exact .inl rfl
  | server fd reads ending stack =>
    obtain ⟨t, ht, hcase⟩ := serverEvent_ok (handle_server h.2).1
    have hkeep : (t.servList i).sockAdr = (s.tables.servList i).sockAdr := by rw [ht.servList]
    rcases hcase with ⟨_, rfl, _⟩ | ⟨_, k, _, rfl, _⟩
    · exact .inl hkeep
    · dsimp only
      rw [(closeServer_closed t k).servList]
      by_cases hk : i = k
      · subst hk
        rw [Function.update_self]
        exact .inr rfl
      · rw [Function.update_of_ne hk]
        exact .inl hkeep

theorem sockAdr_unset (hs : Reachable cfg s) (i : Fin maxServCnt) :
    (s.tables.servList i).sockAdr = ⟨0, 0, 0⟩ := by
  refine @Transitions.Reachable.invariant _ _ (system cfg)
    (fun s => (s.tables.servList i).sockAdr = ⟨0, 0, 0⟩) ?_ ?_ s hs
  · rintro s ⟨buf, servAdr, rfl⟩
    rfl
  · intro s l s' _ hunset hstep
    rcases sockAdr_step hstep i with hkeep | hclear
    · exact hkeep.trans hunset
    · exact hclear

theorem PacketStep.sent_addr {t t' : Tables} {b b' : Mem} {length : Int} {now : BitVec 32}
    {minIndex : Int} {out : List Output} {x : LoopExit} {call : Sent}
    (h : PacketStep cfg t b length now minIndex t' b' out x) (hcall : .sent call ∈ out) :
    (fromClient cfg t b ∧ ∃ i, call.addr = (t.servList i).sockAdr) ∨
      (fromServer cfg t b ∧ call.Agrees) := by
  cases h with
  | ignored | unknown => simp at hcall
  | admitted j i _ _ hdir hserv =>
    obtain rfl := List.mem_singleton.mp (mem_sentCalls.mpr hcall)
    exact .inl ⟨⟨hdir, hserv⟩, i, rfl⟩
  | forwarded j i _ hdir hserv | released j i _ hdir hserv =>
    obtain rfl := List.mem_singleton.mp (mem_sentCalls.mpr hcall)
    exact .inl ⟨⟨hdir, hserv⟩, i, rfl⟩
  | relayed _ _ hdir hserv | relayReleased _ _ _ hdir hserv =>
    obtain rfl := List.mem_singleton.mp (mem_sentCalls.mpr hcall)
    exact .inr ⟨⟨hdir, hserv⟩, rfl⟩

/-- Packets to clients go where their header says and packets to servers never do; no live
server's `sock_adr` is its own address. -/
theorem destination_agrees_iff (hs : Reachable cfg s) :
    (∀ l s' call, (system cfg).step s l s' → .sent call ∈ l.out →
      (call.Agrees ↔ l.event.IsReply cfg s)) ∧
    ∀ i, s.tables.live i → ¬(s.tables.servList i).OwnAddress := by
  constructor
  · intro l s' call hstep hcall
    have htables := hs.sound.tablesStep hstep
    generalize s'.tables = u at htables
    cases htables with
    | denied | joined | health => simp at hcall
    | closed => simp [closeServer] at hcall
    | packet hpkt =>
      rcases hpkt.sent_addr hcall with ⟨hdir, i, haddr⟩ | ⟨hdir, hagrees⟩
      · refine iff_of_false ?_ ?_
        · rw [Sent.Agrees, haddr, sockAdr_unset hs i]
          simp [afInet]
        · simp [Event.IsReply, hdir.1]
      · exact iff_of_true hagrees hdir.1
  · intro i _ hown
    rw [ServListNode.OwnAddress, sockAdr_unset hs i] at hown
    simp [afInet] at hown

end Step

theorem destination_agrees_demo : ∃ s, Reachable demoConfig s ∧ s.tables.live 0 ∧
    (∃ l s' call, (system demoConfig).step s l s' ∧ .sent call ∈ l.out ∧ call.Agrees) ∧
    ¬(s.tables.servList 0).OwnAddress := by
  obtain ⟨s, hrun, htest⟩ := @executes_of_endsIn demoConfig anyStep _
    (fun s => decide (s.tables.live 0) &&
      (nextStep demoConfig anyStep s (demoReply ackFlag)).any fun (r : Step × State) =>
        decide (∃ call ∈ sentCalls r.1.out, checkIpAndPort s.tables.clntList
          (recvInto s.buf (some (tcpPacket 0x0200000a 0x0100000a 0x901f 59689 ackFlag)))
          demoConfig.lbaddr = some .serv2clnt)) demoStart
    [demoJoin, demoClient synFlag] (by decide +kernel)
  rw [Bool.and_eq_true] at htest
  obtain ⟨⟨e, out, x⟩, s', rfl, hstep, hsent⟩ := nextStep_any htest.2
  obtain ⟨call, hcall, hreply⟩ := of_decide_eq_true hsent
  have hmem : .sent call ∈ out := mem_sentCalls.mp hcall
  have hs : Reachable demoConfig s := hrun.reachable.reachable
  obtain ⟨hagrees, hown⟩ := destination_agrees_iff hs
  have hlive : s.tables.live 0 := of_decide_eq_true htest.1
  exact ⟨s, hs, hlive, ⟨_, s', call, hstep, hmem, (hagrees _ s' call hstep hmem).mpr hreply⟩,
    hown 0 hlive⟩

/-- The first packet of a client is sent to the address 0.0.0.0:0 of no family, under a header
for 10.0.0.2:8080. -/
theorem first_packet_misdirected : ∃ s l s' call, Executes demoConfig anyStep demoStart
    [demoJoin] s ∧ l.event = demoClient synFlag ∧ (system demoConfig).step s l s' ∧
    .sent call ∈ l.out ∧ call.addr = ⟨0, 0, 0⟩ ∧ ipDaddr call.packet = 0x0200000a ∧
    tcpDest call.packet = 0x901f ∧ ¬call.Agrees := by
  obtain ⟨s, hrun, htest⟩ := @executes_of_endsIn demoConfig anyStep _
    (fun s => (nextStep demoConfig anyStep s (demoClient synFlag)).any fun (r : Step × State) =>
      decide (∃ call ∈ sentCalls r.1.out, call.addr = ⟨0, 0, 0⟩ ∧
        ipDaddr call.packet = 0x0200000a ∧ tcpDest call.packet = 0x901f)) demoStart
    [demoJoin] (by decide +kernel)
  obtain ⟨l, s', hl, hstep, htest⟩ := nextStep_any htest
  obtain ⟨call, hcall, haddr, hdaddr, hdest⟩ := of_decide_eq_true htest
  refine ⟨s, l, s', call, hrun, hl, hstep, mem_sentCalls.mp hcall, haddr, hdaddr, hdest, ?_⟩
  rw [Sent.Agrees, haddr, hdest]
  simp [afInet]

end LoadBalancer
