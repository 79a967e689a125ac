import IotLab.LoadBalancer.Checksum
import IotLab.LoadBalancer.Safety

set_option autoImplicit false

namespace LoadBalancer
open SlotTable HostMemory

/-- What a call of `sendto` emits, and where to; a length of -1 is refused. -/
def Sent.datagram (call : Sent) : Option (List Byte × SockaddrIn) :=
  if 0 ≤ call.length then some (load call.packet 0 call.length.toNat, call.addr) else none

/-- The tables and counters that a packet leaves, and what it makes the load balancer emit. -/
def effect (r : Result (State × List Output × LoopExit)) :
    Result (Tables × List (List Byte × SockaddrIn)) :=
  r.map fun p => (p.1.tables, (sentCalls p.2.1).filterMap Sent.datagram)

def recvCount (received : Option (Received bufSize)) : Nat :=
  (received.map fun r => r.bytes.length).getD 0

/-- Whatever the buffer held before, the packet has one effect; a failed `recv` has none. -/
def StaleFree (cfg : Config) (s : State) (received : Option (Received bufSize))
    (now : BitVec 32) (minIndex : Int) : Prop :=
  ∃ o, (∀ buf, effect (packet cfg { s with buf := buf } received now minIndex) = .ok o) ∧
    (received = none → o = (s.tables, []))

/-- The packet in `b` is dropped: it is not addressed to the load balancer, no server has
joined, or it comes from an unknown client that is not admitted. -/
def Dropped (cfg : Config) (t : Tables) (b : Mem) : Prop :=
  ¬fromServer cfg t b ∧ (fromClient cfg t b → findPort t.clntList b = none ∧
    (checkType b ≠ .syn ∨ t.clntCnt = maxClntCnt))

/-- The flags were received, or do not matter because the slot that the reply is for is
marked already. -/
def FlagsRead (cfg : Config) (t : Tables) (n : Nat) (b : Mem) : Prop :=
  34 ≤ n ∨ (fromServer cfg t b ∧
    ∀ j ∈ findPseudoPort t.clntList b, (t.forwardingTable j).2 = 1)

/-- Both header parts that the handler reads were received, it stays inside its arrays, and
the TCP checksum covers received bytes only or is not sent. -/
structure ReadsReceived (cfg : Config) (t : Tables) (n : Nat) (b : Mem) (minIndex : Int) :
    Prop where
  ports : 24 ≤ n
  flags : FlagsRead cfg t n b
  indexes : IndexesInBounds cfg t b minIndex
  fits : SegmentFits b
  checksum : ChecksumRead n b

def StaleSafe (cfg : Config) (s : State) (received : Option (Received bufSize))
    (minIndex : Int) : Prop :=
  (∀ buf, Dropped cfg s.tables (recvInto buf received)) ∨
    ReadsReceived cfg s.tables (recvCount received) (recvInto s.buf received) minIndex

section Headers
variable {cfg : Config} {t : Tables} {b b' : Mem}

theorem endpoints_agree {P : Nat → Prop} (h : AgreeOn P b b') (hP : ∀ k, k < 24 → P k) :
    endpoints b = endpoints b' := by
  simp only [endpoints, ipSaddr, ipDaddr, tcpSource, tcpDest]
  rw [h.read32 (fun k _ hk => hP k (by omega)), h.read32 (fun k _ hk => hP k (by omega)),
    h.read16 (fun k _ hk => hP k (by omega)), h.read16 (fun k _ hk => hP k (by omega))]

variable (h : endpoints b = endpoints b')
include h

theorem ipSaddr_congr : ipSaddr b = ipSaddr b' := congrArg Endpoints.saddr h

theorem ipDaddr_congr : ipDaddr b = ipDaddr b' := congrArg Endpoints.daddr h

theorem tcpSource_congr : tcpSource b = tcpSource b' := congrArg Endpoints.source h

theorem tcpDest_congr : tcpDest b = tcpDest b' := congrArg Endpoints.dest h

theorem findPort_congr : findPort t.clntList b = findPort t.clntList b' := by
  rw [findPort, findPort, tcpSource_congr h]

theorem findPseudoPort_congr : findPseudoPort t.clntList b = findPseudoPort t.clntList b' := by
  rw [findPseudoPort, findPseudoPort, tcpDest_congr h]

theorem checkIpAndPort_congr :
    checkIpAndPort t.clntList b cfg.lbaddr = checkIpAndPort t.clntList b' cfg.lbaddr := by
  rw [checkIpAndPort, checkIpAndPort, ipDaddr_congr h, tcpDest_congr h, findPseudoPort_congr h]

theorem fromClient_congr : fromClient cfg t b ↔ fromClient cfg t b' := by
  rw [fromClient, fromClient, checkIpAndPort_congr h]

theorem fromServer_congr : fromServer cfg t b ↔ fromServer cfg t b' := by
  rw [fromServer, fromServer, checkIpAndPort_congr h]

theorem admitTables_congr (now : BitVec 32) (j : Fin maxClntCnt) (i : Fin maxServCnt)
    (recent : Int) : admitTables cfg t b now j i recent = admitTables cfg t b' now j i recent := by
  rw [admitTables, admitTables, addNewClnt, addNewClnt, ipSaddr_congr h, tcpSource_congr h]

end Headers

theorem checkType_congr {b b' : Mem} (h : b 33 = b' 33) : checkType b = checkType b' := by
  unfold checkType tcpSyn tcpAck tcpFin
  rw [h]

section Inversion
variable {cfg : Config} {t t' : Tables} {b b' : Mem} {length : Int} {now : BitVec 32}
  {minIndex : Int} {out : List Output} {x : LoopExit} {j : Fin maxClntCnt}

def afterSegment (t : Tables) (type : TcpType) (i : Fin maxServCnt) (j : Fin maxClntCnt) :
    Tables :=
  if type = .fin then markFin t j
  else if type = .ack ∧ (t.forwardingTable j).2 = 1 then releaseClnt t i j
  else t

theorem PacketStep.dropped (hstep : PacketStep cfg t b length now minIndex t' b' out x)
    (hdrop : Dropped cfg t b) : t' = t ∧ sentCalls out = [] := by
  obtain ⟨hserver, hclient⟩ := hdrop
  cases hstep with
  | ignored => exact ⟨rfl, rfl⟩
  | unknown => exact ⟨rfl, rfl⟩
  | admitted j i recent _ hdir hserv _ htype hcnt _ _ _ =>
    rcases (hclient ⟨hdir, hserv⟩).2 with h | h
    · exact absurd htype h
    · exact absurd h hcnt
  | forwarded k _ _ hdir hserv hport _ _ _ =>
    cases hport.symm.trans (hclient ⟨hdir, hserv⟩).1
  | released k _ _ hdir hserv hport _ _ _ _ =>
    cases hport.symm.trans (hclient ⟨hdir, hserv⟩).1
  | relayed _ _ hdir hserv _ _ _ => exact absurd ⟨hdir, hserv⟩ hserver
  | relayReleased _ _ _ hdir hserv _ _ _ _ _ => exact absurd ⟨hdir, hserv⟩ hserver

theorem PacketStep.known (hstep : PacketStep cfg t b length now minIndex t' b' out x)
    (hclient : fromClient cfg t b) (hport : findPort t.clntList b = some j) :
    ∃ i, t.assigned i j ∧ nat t b j i.val cfg.lbaddr .clnt2serv = .ok b' ∧
      t' = afterSegment t (checkType b) i j ∧
      sentCalls out = [⟨.clnt2serv, j, i, b', length, (t.servList i).sockAdr⟩] := by
  cases hstep with
  | ignored hno =>
    rcases hno with hno | hno
    · cases hno.symm.trans hclient.1
    · exact absurd hno hclient.2
  | unknown _ _ hnone => cases hnone.symm.trans hport
  | admitted _ _ _ _ _ _ hnone => cases hnone.symm.trans hport
  | forwarded k i _ _ _ hk hassigned hno hnat =>
    obtain rfl : k = j := Option.some.inj (hk.symm.trans hport)
    refine ⟨i, hassigned, hnat, ?_, rfl⟩
    by_cases hfin : checkType b = .fin
    · rw [if_pos hfin, afterSegment, if_pos hfin]
    · rw [if_neg hfin, afterSegment, if_neg hfin, if_neg hno]
  | released k i _ _ _ hk hassigned htype hflag hnat =>
    obtain rfl : k = j := Option.some.inj (hk.symm.trans hport)
    refine ⟨i, hassigned, hnat, ?_, rfl⟩
    simp [afterSegment, htype, hflag]
  | relayed _ _ hdir => cases hdir.symm.trans hclient.1
  | relayReleased _ _ _ hdir => cases hdir.symm.trans hclient.1

theorem PacketStep.admission (hstep : PacketStep cfg t b length now minIndex t' b' out x)
    (hclient : fromClient cfg t b) (hport : findPort t.clntList b = none)
    (htype : checkType b = .syn) (hcnt : t.clntCnt ≠ maxClntCnt) :
    ∃ (j : Fin maxClntCnt) (i : Fin maxServCnt) (recent : Int),
      firstSlot (fun j => (t.clntList j).port = 0) = some j ∧
      selectServ cfg.selectedAlgo (addNewClnt cfg t j b now) minIndex = .ok (i.val, recent) ∧
      nat (admitTables cfg t b now j i recent) b j i cfg.lbaddr .clnt2serv = .ok b' ∧
      t' = admitTables cfg t b now j i recent ∧
      sentCalls out = [⟨.clnt2serv, j, i, b', length, (t.servList i).sockAdr⟩] := by
  cases hstep with
  | ignored hno =>
    rcases hno with hno | hno
    · cases hno.symm.trans hclient.1
    · exact absurd hno hclient.2
  | unknown _ _ _ hdrop =>
    rcases hdrop with h | h
    · exact absurd htype h
    · exact absurd h hcnt
  | admitted j i recent _ _ _ _ _ _ hfree hsel hnat =>
    exact ⟨j, i, recent, hfree, hsel, hnat, rfl, rfl⟩
  | forwarded _ _ _ _ _ hk => cases hk.symm.trans hport
  | released _ _ _ _ _ hk => cases hk.symm.trans hport
  | relayed _ _ hdir => cases hdir.symm.trans hclient.1
  | relayReleased _ _ _ hdir => cases hdir.symm.trans hclient.1

theorem PacketStep.replied (hflag : ∀ i, t.assigned i j → (t.forwardingTable j).2 ≠ -1)
    (hstep : PacketStep cfg t b length now minIndex t' b' out x)
    (hserver : fromServer cfg t b) (hport : findPseudoPort t.clntList b = some j) :
    ¬(checkType b = .ack ∧ (t.forwardingTable j).2 = -1) ∧
      nat t b (t.forwardingTable j).1 j cfg.lbaddr .serv2clnt = .ok b' ∧
      t' = (if checkType b = .fin then markFin t j else t) ∧
      sentCalls out = [⟨.serv2clnt, (t.forwardingTable j).1, j, b', length,
        ⟨afInet, tcpDest b', ipDaddr b'⟩⟩] := by
  cases hstep with
  | ignored hno =>
    rcases hno with hno | hno
    · cases hno.symm.trans hserver.1
    · exact absurd hno hserver.2
  | unknown hdir => cases hdir.symm.trans hserver.1
  | admitted _ _ _ _ hdir => cases hdir.symm.trans hserver.1
  | forwarded _ _ _ hdir => cases hdir.symm.trans hserver.1
  | released _ _ _ hdir => cases hdir.symm.trans hserver.1
  | relayed k _ _ _ hk hno hnat =>
    obtain rfl : k = j := Option.some.inj (hk.symm.trans hport)
    exact ⟨hno, hnat, rfl, rfl⟩
  | relayReleased k i _ _ _ hk hassigned _ hk' _ =>
    obtain rfl : k = j := Option.some.inj (hk.symm.trans hport)
    exact absurd hk' (hflag i hassigned)

theorem PacketStep.reply (hs : t.Sound)
    (hstep : PacketStep cfg t b length now minIndex t' b' out x)
    (hserver : fromServer cfg t b) (hport : findPseudoPort t.clntList b = some j) :
    ¬(checkType b = .ack ∧ (t.forwardingTable j).2 = -1) ∧
      nat t b (t.forwardingTable j).1 j cfg.lbaddr .serv2clnt = .ok b' ∧
      t' = (if checkType b = .fin then markFin t j else t) ∧
      sentCalls out = [⟨.serv2clnt, (t.forwardingTable j).1, j, b', length,
        ⟨afInet, tcpDest b', ipDaddr b'⟩⟩] :=
  hstep.replied (fun _ hassigned => hs.flag_ne_of_assigned hassigned) hserver hport

end Inversion

theorem fromServer.port {cfg : Config} {t : Tables} {b : Mem} (h : fromServer cfg t b) :
    ∃ j, findPseudoPort t.clntList b = some j := by
  have hdir := h.1
  unfold checkIpAndPort at hdir
  split at hdir
  · cases hdir
  · split at hdir
    · split at hdir
      · rename_i j hj
        exact ⟨j, hj⟩
      · cases hdir
    · cases hdir

theorem not_dropped {cfg : Config} {t : Tables} {b : Mem} (h : ¬Dropped cfg t b) :
    (fromServer cfg t b ∧ ∃ j, findPseudoPort t.clntList b = some j) ∨
      (fromClient cfg t b ∧ ∃ j, findPort t.clntList b = some j) ∨
      (fromClient cfg t b ∧ findPort t.clntList b = none ∧ checkType b = .syn ∧
        t.clntCnt ≠ maxClntCnt) := by
  by_cases hserver : fromServer cfg t b
  · exact .inl ⟨hserver, hserver.port⟩
  · rw [Dropped, not_and_or, not_not] at h
    obtain ⟨hclient, hadm⟩ := Classical.not_imp.mp (h.resolve_left hserver)
    cases hport : findPort t.clntList b with
    | some j => exact .inr (.inl ⟨hclient, j, rfl⟩)
    | none =>
      simp only [hport, true_and, not_or, not_not] at hadm
      exact .inr (.inr ⟨hclient, rfl, hadm⟩)

theorem Dropped.congr {cfg : Config} {t : Tables} {b b' : Mem} (h : Dropped cfg t b)
    (hends : endpoints b = endpoints b')
    (htype : fromClient cfg t b → checkType b = checkType b') : Dropped cfg t b' := by
  obtain ⟨hserver, hclient⟩ := h
  refine ⟨fun h => hserver ((fromServer_congr hends).mpr h), fun h => ?_⟩
  have hclient₁ := (fromClient_congr hends).mpr h
  rw [← findPort_congr hends, ← htype hclient₁]
  exact hclient hclient₁

theorem fromServer.not_client {cfg : Config} {t : Tables} {b : Mem} (h : fromServer cfg t b) :
    ¬fromClient cfg t b := by
  intro hclient
  cases h.1.symm.trans hclient.1

theorem PacketStep.sends {cfg : Config} {t t' : Tables} {b b' : Mem} {length : Int}
    {now : BitVec 32} {minIndex : Int} {out : List Output} {x : LoopExit} (hs : t.Sound)
    (hstep : PacketStep cfg t b length now minIndex t' b' out x) (hnot : ¬Dropped cfg t b) :
    (∃ call, sentCalls out = [call] ∧ call.length = length) ∧ SegmentFits b ∧
      IndexesInBounds cfg t b minIndex := by
  rcases not_dropped hnot with ⟨hserver, j, hj⟩ | ⟨hclient, j, hj⟩ | ⟨hclient, hport, htype, hcnt⟩
  · obtain ⟨hno, hnat, _, hsent⟩ := hstep.reply hs hserver hj
    refine ⟨⟨_, hsent, rfl⟩, nat_fits hnat, fun hdir => absurd hdir hserver.not_client,
      fun hdir => absurd hdir hserver.not_client, fun _ k hk => ?_⟩
    obtain rfl : k = j := Option.some.inj (hk.symm.trans hj)
    exact hno
  · obtain ⟨i, hassigned, hnat, _, hsent⟩ := hstep.known hclient hj
    refine ⟨⟨_, hsent, rfl⟩, nat_fits hnat, fun _ k hk => ?_, fun _ hnone => ?_,
      fun hdir => absurd hclient hdir.not_client⟩
    · obtain rfl : k = j := Option.some.inj (hk.symm.trans hj)
      exact ⟨i, hassigned⟩
    · cases hnone.symm.trans hj
  · obtain ⟨j, i, recent, hfree, hsel, hnat, _, hsent⟩ :=
      hstep.admission hclient hport htype hcnt
    refine ⟨⟨_, hsent, rfl⟩, nat_fits hnat, fun _ k hk => ?_, fun _ _ _ _ => ⟨?_, fun hmax => ?_⟩,
      fun hdir => absurd hclient hdir.not_client⟩
    · cases hport.symm.trans hk
    · exact ⟨j, firstFree_free hfree⟩
    · have hid := @selectServ_unset cfg.selectedAlgo (addNewClnt cfg t j b now) minIndex i
        recent hs.servCnt_eq hclient.2 (by rw [hmax.1]; exact hmax.2) hsel
      exact ⟨i, hid.symm⟩

theorem markFin_marked {t : Tables} {j : Fin maxClntCnt} (h : (t.forwardingTable j).2 = 1) :
    markFin t j = t := by
  unfold markFin
  rw [← h]
  exact congrArg (fun f => { t with forwardingTable := f }) (Function.update_eq_self j _)

section Twin
variable {cfg : Config} {t t₁ t₂ : Tables} {b₁ b₂ c₁ c₂ : Mem} {length : Int}
  {now : BitVec 32} {minIndex : Int} {out₁ out₂ : List Output} {x₁ x₂ : LoopExit}

def SentTwice (cfg : Config) (length : Int) (b₁ b₂ c₁ c₂ : Mem) (out₁ out₂ : List Output) : Prop :=
  ∃ u dir sourceId destId addr₁ addr₂,
    nat u b₁ sourceId destId cfg.lbaddr dir = .ok c₁ ∧
    nat u b₂ sourceId destId cfg.lbaddr dir = .ok c₂ ∧
    sentCalls out₁ = [⟨dir, sourceId, destId, c₁, length, addr₁⟩] ∧
    sentCalls out₂ = [⟨dir, sourceId, destId, c₂, length, addr₂⟩] ∧
    (endpoints c₁ = endpoints c₂ → addr₁ = addr₂)

theorem PacketStep.twin_reply {j : Fin maxClntCnt} (hs : t.Sound)
    (hends : endpoints b₁ = endpoints b₂) (hserver : fromServer cfg t b₁)
    (hj : findPseudoPort t.clntList b₁ = some j)
    (hflags : checkType b₁ = checkType b₂ ∨ (t.forwardingTable j).2 = 1)
    (h₁ : PacketStep cfg t b₁ length now minIndex t₁ c₁ out₁ x₁)
    (h₂ : PacketStep cfg t b₂ length now minIndex t₂ c₂ out₂ x₂) :
    t₁ = t₂ ∧ SentTwice cfg length b₁ b₂ c₁ c₂ out₁ out₂ := by
  obtain ⟨_, hnat₁, ht₁, hsent₁⟩ := h₁.reply hs hserver hj
  obtain ⟨_, hnat₂, ht₂, hsent₂⟩ := h₂.reply hs ((fromServer_congr hends).mp hserver)
    ((findPseudoPort_congr hends).symm.trans hj)
  refine ⟨?_, _, _, _, _, _, _, hnat₁, hnat₂, hsent₁, hsent₂, fun hc => ?_⟩
  · rw [ht₁, ht₂]
    rcases hflags with htype | hmarked
    · rw [htype]
    · rw [markFin_marked hmarked, ite_self, ite_self]
  · rw [tcpDest_congr hc, ipDaddr_congr hc]

theorem PacketStep.twin_known {j : Fin maxClntCnt} (hends : endpoints b₁ = endpoints b₂)
    (htype : checkType b₁ = checkType b₂) (hclient : fromClient cfg t b₁)
    (hj : findPort t.clntList b₁ = some j)
    (h₁ : PacketStep cfg t b₁ length now minIndex t₁ c₁ out₁ x₁)
    (h₂ : PacketStep cfg t b₂ length now minIndex t₂ c₂ out₂ x₂) :
    t₁ = t₂ ∧ SentTwice cfg length b₁ b₂ c₁ c₂ out₁ out₂ := by
  obtain ⟨i₁, hi₁, hnat₁, ht₁, hsent₁⟩ := h₁.known hclient hj
  obtain ⟨i₂, hi₂, hnat₂, ht₂, hsent₂⟩ := h₂.known ((fromClient_congr hends).mp hclient)
    ((findPort_congr hends).symm.trans hj)
  obtain rfl : i₁ = i₂ := Fin.ext (by omega)
  refine ⟨?_, _, _, _, _, _, _, hnat₁, hnat₂, hsent₁, hsent₂, fun _ => rfl⟩
  rw [ht₁, ht₂, htype]

theorem PacketStep.twin_admission (hends : endpoints b₁ = endpoints b₂)
    (htype : checkType b₁ = checkType b₂) (hclient : fromClient cfg t b₁)
    (hport : findPort t.clntList b₁ = none) (hsyn : checkType b₁ = .syn)
    (hcnt : t.clntCnt ≠ maxClntCnt)
    (h₁ : PacketStep cfg t b₁ length now minIndex t₁ c₁ out₁ x₁)
    (h₂ : PacketStep cfg t b₂ length now minIndex t₂ c₂ out₂ x₂) :
    t₁ = t₂ ∧ SentTwice cfg length b₁ b₂ c₁ c₂ out₁ out₂ := by
  obtain ⟨j₁, i₁, recent₁, hfree₁, hsel₁, hnat₁, ht₁, hsent₁⟩ :=
    h₁.admission hclient hport hsyn hcnt
  obtain ⟨j₂, i₂, recent₂, hfree₂, hsel₂, hnat₂, ht₂, hsent₂⟩ :=
    h₂.admission ((fromClient_congr hends).mp hclient) ((findPort_congr hends).symm.trans hport)
      (htype.symm.trans hsyn) hcnt
  obtain rfl : j₁ = j₂ := Option.some.inj (hfree₁.symm.trans hfree₂)
  rw [addNewClnt, ipSaddr_congr hends, tcpSource_congr hends, ← addNewClnt, hsel₂] at hsel₁
  obtain ⟨hi, rfl⟩ := Prod.mk.inj (Except.ok.inj hsel₁)
  obtain rfl : i₂ = i₁ := Fin.ext (by omega)
  rw [admitTables_congr hends] at hnat₁ ht₁
  exact ⟨ht₁.trans ht₂.symm, _, _, _, _, _, _, hnat₁, hnat₂, hsent₁, hsent₂, fun _ => rfl⟩

/-- One packet handled with two contents of the buffer that agree on the headers and on the
flags, if these matter: the tables end up the same, and the packet is sent on twice or never. -/
theorem PacketStep.twin {P : Nat → Prop} (hs : t.Sound) (hagree : AgreeOn P b₁ b₂)
    (hP : ∀ k, k < 24 → P k)
    (hflags : P 33 ∨ (fromServer cfg t b₁ ∧
      ∀ j ∈ findPseudoPort t.clntList b₁, (t.forwardingTable j).2 = 1))
    (h₁ : PacketStep cfg t b₁ length now minIndex t₁ c₁ out₁ x₁)
    (h₂ : PacketStep cfg t b₂ length now minIndex t₂ c₂ out₂ x₂) :
    t₁ = t₂ ∧ ((sentCalls out₁ = [] ∧ sentCalls out₂ = []) ∨
      SentTwice cfg length b₁ b₂ c₁ c₂ out₁ out₂) := by
  have hends := endpoints_agree hagree hP
  have htype (hclient : fromClient cfg t b₁) : checkType b₁ = checkType b₂ := by
    rcases hflags with h33 | ⟨hserver, _⟩
    · exact checkType_congr (hagree 33 h33)
    · exact absurd hclient hserver.not_client
  by_cases hdrop : Dropped cfg t b₁
  · obtain ⟨ht₁, hsent₁⟩ := h₁.dropped hdrop
    obtain ⟨ht₂, hsent₂⟩ := h₂.dropped (hdrop.congr hends htype)
    exact ⟨ht₁.trans ht₂.symm, .inl ⟨hsent₁, hsent₂⟩⟩
  rcases not_dropped hdrop with ⟨hserver, j, hj⟩ | ⟨hclient, j, hj⟩ |
    ⟨hclient, hport, hsyn, hcnt⟩
  · have hread : checkType b₁ = checkType b₂ ∨ (t.forwardingTable j).2 = 1 :=
      hflags.imp (fun h33 => checkType_congr (hagree 33 h33)) (fun h => h.2 j hj)
    exact (h₁.twin_reply hs hends hserver hj hread h₂).imp_right .inr
  · exact (h₁.twin_known hends (htype hclient) hclient hj h₂).imp_right .inr
  · exact (h₁.twin_admission hends (htype hclient) hclient hport hsyn hcnt h₂).imp_right .inr

end Twin

section Received
variable {received : Option (Received bufSize)} {buf buf' : Mem}

theorem recv_agree :
    AgreeOn (· < recvCount received) (recvInto buf received) (recvInto buf' received) := by
  cases received with
  | none => exact fun k hk => absurd hk (Nat.not_lt_zero k)
  | some r =>
    intro k hk
    refine store_at (fun hout => absurd ⟨Nat.zero_le k, ?_⟩ hout)
    rw [Nat.zero_add]
    exact hk

theorem recv_update {k : Nat} {v : Byte} (hk : recvCount received ≤ k) :
    recvInto (Function.update buf k v) received =
      Function.update (recvInto buf received) k v := by
  cases received with
  | none => rfl
  | some r => exact store_update (.inr (by rw [Nat.zero_add]; exact hk))

end Received

section Effect
variable {cfg : Config} {s : State} {received : Option (Received bufSize)} {now : BitVec 32}
  {minIndex : Int} {o : Tables × List (List Byte × SockaddrIn)}

theorem effect_eq_ok : effect (packet cfg s received now minIndex) = .ok o ↔
    ∃ s' out x, packet cfg s received now minIndex = .ok (s', out, x) ∧
      o = (s'.tables, (sentCalls out).filterMap Sent.datagram) := by
  unfold effect
  cases packet cfg s received now minIndex with
  | error e => simp [Except.map]
  | ok r =>
    obtain ⟨s', out, x⟩ := r
    simp only [Except.map, Except.ok.injEq, Prod.mk.injEq]
    constructor
    · intro h
      exact ⟨s', out, x, ⟨rfl, rfl, rfl⟩, h.symm⟩
    · rintro ⟨_, _, _, ⟨rfl, rfl, rfl⟩, h⟩
      exact h.symm

theorem effect_step (h : effect (packet cfg s received now minIndex) = .ok o) :
    ∃ t' b' out x, PacketStep cfg s.tables (recvInto s.buf received) (recvLength received) now
        minIndex t' b' out x ∧ o = (t', (sentCalls out).filterMap Sent.datagram) := by
  obtain ⟨s', out, x, hrun, ho⟩ := effect_eq_ok.mp h
  exact ⟨_, _, out, x, (packet_ok hrun).1, ho⟩

end Effect

section Enough
variable {cfg : Config} {t : Tables} {n : Nat} {b b' : Mem} {minIndex : Int}

theorem FlagsRead.flag (h : FlagsRead cfg t n b) : 33 < n ∨ (fromServer cfg t b ∧
    ∀ j ∈ findPseudoPort t.clntList b, (t.forwardingTable j).2 = 1) :=
  h.imp_left (fun hn => by omega)

theorem ReadsReceived.congr (h : ReadsReceived cfg t n b minIndex)
    (hagree : AgreeOn (· < n) b b') : ReadsReceived cfg t n b' minIndex := by
  have hn := h.ports
  have hends := endpoints_agree hagree (fun k hk => show k < n by omega)
  have hlen : tcpLen b = tcpLen b' := tcpLen_agree hagree (fun k hk => show k < n by omega)
  have htype (hclient : fromClient cfg t b) : checkType b = checkType b' := by
    rcases h.flags.flag with h33 | ⟨hserver, _⟩
    · exact checkType_congr (hagree 33 h33)
    · exact absurd hclient hserver.not_client
  have hclient := @fromClient_congr cfg t b b' hends
  have hserver := @fromServer_congr cfg t b b' hends
  have hport := @findPort_congr t b b' hends
  have hpseudo := @findPseudoPort_congr t b b' hends
  refine ⟨hn, ?flags, ⟨fun hdir => ?known, fun hdir => ?admission, fun hdir j hj => ?reply⟩,
    ?fits, ?checksum⟩
  case flags =>
    exact h.flags.imp_right (fun hmarked => ⟨hserver.mp hmarked.1, hpseudo ▸ hmarked.2⟩)
  case known =>
    rw [← hport]
    exact h.indexes.known (hclient.mpr hdir)
  case admission =>
    rw [← hport, ← htype (hclient.mpr hdir)]
    exact h.indexes.admission (hclient.mpr hdir)
  case reply =>
    rw [← hpseudo] at hj
    rcases h.flags.flag with h33 | ⟨_, hmarked⟩
    · rw [← checkType_congr (hagree 33 h33)]
      exact h.indexes.reply (hserver.mpr hdir) j hj
    · have := hmarked j hj
      omega
  case fits =>
    unfold SegmentFits
    rw [← hlen]
    exact h.fits
  case checksum =>
    unfold ChecksumRead
    rw [← hlen]
    exact h.checksum

end Enough

section Free
variable {cfg : Config} {s : State} {received : Option (Received bufSize)} {now : BitVec 32}
  {minIndex : Int}

theorem clnt2serv_dropped {t : Tables} {b : Mem} {length : Int}
    (hport : findPort t.clntList b = none) (hdrop : checkType b ≠ .syn ∨ t.clntCnt = maxClntCnt) :
    clnt2serv cfg t b length now minIndex = .ok (t, b, []) := by
  unfold clnt2serv
  rw [hport]
  exact if_pos hdrop

theorem packet_dropped (h : Dropped cfg s.tables (recvInto s.buf received)) :
    packet cfg s received now minIndex =
      .ok ({ s with buf := recvInto s.buf received }, [], .next) := by
  obtain ⟨hserver, hclient⟩ := h
  unfold packet
  cases hdir : checkIpAndPort s.tables.clntList (recvInto s.buf received) cfg.lbaddr with
  | none => simp only [hdir]
  | some dir =>
    simp only [hdir]
    split
    · rfl
    · rename_i hserv
      cases dir with
      | serv2clnt => exact absurd ⟨hdir, hserv⟩ hserver
      | clnt2serv =>
        obtain ⟨hport, hdrop⟩ := hclient ⟨hdir, hserv⟩
        rw [clnt2serv_dropped hport hdrop]
        rfl

theorem datagram_agree {dir : Direction} {sourceId destId : Int} {c₁ c₂ : Mem}
    {addr : SockaddrIn} (h : AgreeOn (· < recvCount received) c₁ c₂) :
    Sent.datagram ⟨dir, sourceId, destId, c₁, recvLength received, addr⟩ =
      Sent.datagram ⟨dir, sourceId, destId, c₂, recvLength received, addr⟩ := by
  cases received with
  | none => rfl
  | some r =>
    have hload : load c₁ 0 r.bytes.length = load c₂ 0 r.bytes.length :=
      h.load (fun k _ hk => by rw [Nat.zero_add] at hk; exact hk)
    unfold Sent.datagram recvLength
    dsimp only
    rw [Int.toNat_natCast, hload]

/-- Whatever the buffer held, a packet that reads received bytes only has one effect. -/
theorem ReadsReceived.free (hs : s.tables.Sound)
    (h : ReadsReceived cfg s.tables (recvCount received) (recvInto s.buf received) minIndex) :
    StaleFree cfg s received now minIndex := by
  have htotal (buf : Mem) : ∃ s' out x,
      packet cfg { s with buf := buf } received now minIndex = .ok (s', out, x) := by
    have hbuf := h.congr (@recv_agree received s.buf buf)
    exact @packet_total cfg { s with buf := buf } received now minIndex hs hbuf.fits hbuf.indexes
  obtain ⟨s₁, out₁, x₁, hrun₁⟩ := htotal s.buf
  refine ⟨(s₁.tables, (sentCalls out₁).filterMap Sent.datagram), fun buf => ?_, fun hnone => ?_⟩
  · obtain ⟨s₂, out₂, x₂, hrun₂⟩ := htotal buf
    refine effect_eq_ok.mpr ⟨s₂, out₂, x₂, hrun₂, ?_⟩
    have hagree := @recv_agree received s.buf buf
    have hn := h.ports
    obtain ⟨ht, hsent⟩ := (packet_ok hrun₁).1.twin hs hagree (fun k hk => show k < _ by omega)
      h.flags.flag (packet_ok hrun₂).1
    rw [ht]
    rcases hsent with ⟨hsent₁, hsent₂⟩ |
      ⟨u, dir, sourceId, destId, addr₁, addr₂, hnat₁, hnat₂, hsent₁, hsent₂, haddr⟩
    · rw [hsent₁, hsent₂]
    · obtain ⟨c, hnat, hc⟩ := nat_agree hn h.checksum hagree hnat₁
      obtain rfl := Except.ok.inj (hnat₂.symm.trans hnat)
      rw [hsent₁, hsent₂, ← haddr (endpoints_agree hc (fun k hk => show k < _ by omega))]
      simp only [List.filterMap_cons, datagram_agree hc]
  · have hn := h.ports
    simp [hnone, recvCount] at hn

end Free

section Necessary
variable {cfg : Config} {s : State} {received : Option (Received bufSize)} {now : BitVec 32}
  {minIndex : Int} {o : Tables × List (List Byte × SockaddrIn)}

theorem exists_dropped {t : Tables} (hs : t.Sound) (b : Mem) :
    ∃ v, Dropped cfg t (Function.update b 23 v) := by
  obtain ⟨v, hv, hne⟩ : ∃ v : Byte, (v.toNat = 1 ∨ v.toNat = 2) ∧
      cfg.lbaddr.port.toNat / 256 ≠ v.toNat := by
    by_cases h : cfg.lbaddr.port.toNat / 256 = 1
    · exact ⟨2, .inr rfl, by rw [h]; decide⟩
    · exact ⟨1, .inl rfl, h⟩
  have hdest : (tcpDest (Function.update b 23 v)).toNat = v.toNat * 256 + (b 22).toNat := by
    rw [tcpDest, read16, word_toNat, Function.update_self, Function.update_of_ne (by decide)]
  have hlo := (b 22).isLt
  have hport : tcpDest (Function.update b 23 v) ≠ cfg.lbaddr.port := by
    intro h
    rw [h] at hdest
    omega
  have hpseudo : findPseudoPort t.clntList (Function.update b 23 v) = none := by
    refine firstSlot_eq_none.mpr (fun j => decide_eq_false (fun hj => ?_))
    rw [hdest] at hj
    by_cases hocc : t.occupied j
    · have := hs.pseudo_ge j hocc
      omega
    · have hzero : (t.clntList j).pseudoPort = 0 := by rw [hs.free_zero j hocc]; rfl
      omega
  refine ⟨v, fun hserver => ?_, fun hclient => ?_⟩
  · obtain ⟨j, hj⟩ := hserver.port
    cases hpseudo.symm.trans hj
  · have hdir := hclient.1
    simp only [checkIpAndPort, hport, hpseudo, and_false, if_false] at hdir
    split at hdir <;> cases hdir

theorem checkType_flags (b : Mem) (f : Byte) :
    checkType (Function.update b 33 f) = checkType (fun _ => f) :=
  checkType_congr (Function.update_self ..)

theorem exists_flags (t : Tables) (j : Fin maxClntCnt) :
    ∃ f, ∀ i, afterSegment t (checkType fun _ => f) i j ≠ t := by
  by_cases hflag : (t.forwardingTable j).2 = 1
  · refine ⟨ackFlag, fun i h => ?_⟩
    have hack : checkType (fun _ => ackFlag) = .ack := by decide
    have hcnt := congrArg Tables.clntCnt h
    rw [hack, afterSegment, if_neg (by decide), if_pos ⟨rfl, hflag⟩, releaseClnt_clntCnt] at hcnt
    omega
  · refine ⟨finFlag, fun i h => hflag ?_⟩
    have hfin : checkType (fun _ => finFlag) = .fin := by decide
    have hpair := congrArg (fun u : Tables => (u.forwardingTable j).2) h
    simp only [hfin, afterSegment, if_true, markFin_flag] at hpair
    exact hpair.symm

theorem checkType_data : checkType (fun _ => 0) = .data := by decide

def toLoadBalancer (cfg : Config) (t : Tables) : Mem :=
  write16 (write16 (write32 (fun _ => 0) 16 cfg.lbaddr.addr) 22 cfg.lbaddr.port) 20
    (BitVec.ofInt 16 (t.clntList 0).port)

theorem toLoadBalancer_endpoints (cfg : Config) (t : Tables) (f : Byte) :
    endpoints (Function.update (toLoadBalancer cfg t) 33 f) =
      ⟨0, BitVec.ofInt 16 (t.clntList 0).port, cfg.lbaddr.addr, cfg.lbaddr.port⟩ := by
  have hagree : AgreeOn (· ≠ 33) (Function.update (toLoadBalancer cfg t) 33 f)
      (toLoadBalancer cfg t) := fun k hk => Function.update_of_ne hk ..
  rw [endpoints_agree hagree (fun k hk => by omega)]
  simp [endpoints, toLoadBalancer, ipSaddr, ipDaddr, tcpSource, tcpDest, read32_write16_frame,
    read32_write32_frame, read16_write16_frame]
  rfl

theorem toLoadBalancer_known {t : Tables} (hs : t.Sound) (hserv : t.servCnt ≠ 0) (f : Byte) :
    let b := Function.update (toLoadBalancer cfg t) 33 f
    fromClient cfg t b ∧ ∃ j, findPort t.clntList b = some j := by
  intro b
  have hends : endpoints b = _ := toLoadBalancer_endpoints cfg t f
  have hdaddr : ipDaddr b = cfg.lbaddr.addr := congrArg Endpoints.daddr hends
  have hdest : tcpDest b = cfg.lbaddr.port := congrArg Endpoints.dest hends
  have hsource : tcpSource b = BitVec.ofInt 16 (t.clntList 0).port :=
    congrArg Endpoints.source hends
  refine ⟨⟨by rw [checkIpAndPort, if_pos ⟨hdaddr, hdest⟩], hserv⟩, ?_⟩
  cases hport : findPort t.clntList b with
  | some j => exact ⟨j, rfl⟩
  | none =>
    have hne := findPort_none hport 0
    have hlo := hs.port_nonneg 0
    have hhi := hs.port_lt 0
    rw [hsource, BitVec.toNat_ofInt] at hne
    omega

/-- While a server is there, the effect of a failed `recv` depends on the buffer. -/
theorem failed_recv_changes (hs : s.tables.Sound) (hserv : s.tables.servCnt ≠ 0) :
    ¬∀ buf, effect (packet cfg { s with buf := buf } none now minIndex) = .ok (s.tables, []) := by
  intro hall
  obtain ⟨_, j, hj⟩ := @toLoadBalancer_known cfg s.tables hs hserv 0
  obtain ⟨f, hf⟩ := exists_flags s.tables j
  obtain ⟨hclient, k, hk⟩ := @toLoadBalancer_known cfg s.tables hs hserv f
  have hends := (toLoadBalancer_endpoints cfg s.tables 0).trans
    (toLoadBalancer_endpoints cfg s.tables f).symm
  obtain rfl : j = k := Option.some.inj (hj.symm.trans ((findPort_congr hends).trans hk))
  obtain ⟨t', b', out, x, hstep, ho⟩ :=
    effect_step (hall (Function.update (toLoadBalancer cfg s.tables) 33 f))
  obtain ⟨i, _, _, ht, _⟩ := hstep.known hclient hk
  have hsame : t' = s.tables := (congrArg Prod.fst ho).symm
  rw [hsame] at ht
  refine hf i ?_
  rw [← checkType_flags (toLoadBalancer cfg s.tables)]
  exact ht.symm

theorem PacketStep.emits {r : Received bufSize} {t t' : Tables} {b b' : Mem} {out : List Output}
    {x : LoopExit} (hs : t.Sound)
    (hstep : PacketStep cfg t b (recvLength (some r)) now minIndex t' b' out x)
    (hnot : ¬Dropped cfg t b) : (sentCalls out).filterMap Sent.datagram ≠ [] := by
  obtain ⟨⟨call, hsent, hlen⟩, _⟩ := hstep.sends hs hnot
  have hpos : (0 : Int) ≤ r.bytes.length := Int.natCast_nonneg _
  have hd : call.datagram = some (load call.packet 0 call.length.toNat, call.addr) := by
    unfold Sent.datagram
    exact if_pos (hlen ▸ hpos)
  simp [hsent, hd]

theorem datagram_inj {r : Received bufSize} {dir : Direction} {sourceId destId : Int}
    {c₁ c₂ : Mem} {addr₁ addr₂ : SockaddrIn}
    (h : [(⟨dir, sourceId, destId, c₁, recvLength (some r), addr₁⟩ : Sent)].filterMap
        Sent.datagram =
      [(⟨dir, sourceId, destId, c₂, recvLength (some r), addr₂⟩ : Sent)].filterMap
        Sent.datagram) :
    AgreeOn (· < r.bytes.length) c₁ c₂ := by
  have hpos : (0 : Int) ≤ r.bytes.length := Int.natCast_nonneg _
  have hd (c : Mem) (addr : SockaddrIn) :
      Sent.datagram ⟨dir, sourceId, destId, c, recvLength (some r), addr⟩ =
        some (load c 0 r.bytes.length, addr) := by
    unfold Sent.datagram
    exact if_pos hpos
  simp only [List.filterMap_cons, List.filterMap_nil, hd, List.cons.injEq, Prod.mk.injEq] at h
  intro k hk
  have hload := List.map_inj_left.mp h.1.1 k (List.mem_range.mpr hk)
  rwa [Nat.zero_add] at hload

section Observed
variable {r : Received bufSize}
  (hall : ∀ buf, effect (packet cfg { s with buf := buf } (some r) now minIndex) = .ok o)
include hall

theorem effect_step_update {buf : Mem} {k : Nat} (hk : r.bytes.length ≤ k) (v : Byte) :
    ∃ t' b' out x, PacketStep cfg s.tables (Function.update (recvInto buf (some r)) k v)
        (recvLength (some r)) now minIndex t' b' out x ∧
      o = (t', (sentCalls out).filterMap Sent.datagram) := by
  rw [← @recv_update (some r) buf k v hk]
  exact effect_step (hall (Function.update buf k v))

theorem ports_read (hs : s.tables.Sound) {buf : Mem}
    (hnot : ¬Dropped cfg s.tables (recvInto buf (some r))) : 24 ≤ r.bytes.length := by
  by_contra hn
  obtain ⟨v, hdrop⟩ := @exists_dropped cfg s.tables hs (recvInto buf (some r))
  obtain ⟨t₁, b₁, out₁, x₁, hstep₁, ho₁⟩ := effect_step (hall buf)
  obtain ⟨t₂, b₂, out₂, x₂, hstep₂, ho₂⟩ :=
    @effect_step_update cfg s now minIndex o r hall buf 23 (by omega) v
  have hsent := (hstep₂.dropped hdrop).2
  have ho := congrArg Prod.snd (ho₁.symm.trans ho₂)
  simp only [hsent, List.filterMap_nil] at ho
  exact hstep₁.emits hs hnot ho

theorem flags_read (hs : s.tables.Sound) {buf : Mem}
    (hnot : ¬Dropped cfg s.tables (recvInto buf (some r))) :
    FlagsRead cfg s.tables r.bytes.length (recvInto buf (some r)) := by
  by_contra hflags
  obtain ⟨hn, hmarked⟩ := not_or.mp hflags
  -- Bytes behind those received may hold any flags.
  have hvary := fun f => @effect_step_update cfg s now minIndex o r hall buf 33 (by omega) f
  have hends (f : Byte) : endpoints (recvInto buf (some r)) =
      endpoints (Function.update (recvInto buf (some r)) 33 f) :=
    @endpoints_agree _ _ (· ≠ 33) (fun k hk => (Function.update_of_ne hk ..).symm)
      (fun k hk => by omega)
  obtain ⟨t₀, b₀, out₀, x₀, hstep₀, ho₀⟩ := hvary 0
  rcases not_dropped hnot with ⟨hserver, j, hj⟩ | ⟨hclient, j, hj⟩ | ⟨hclient, hport, _, _⟩
  · have hflag : (s.tables.forwardingTable j).2 ≠ 1 := by
      refine fun hflag => hmarked ⟨hserver, fun k hk => ?_⟩
      rw [hj] at hk
      exact Option.some.inj hk ▸ hflag
    obtain ⟨t₁, b₁, out₁, x₁, hstep₁, ho₁⟩ := hvary finFlag
    obtain ⟨_, _, ht₀, _⟩ := hstep₀.reply hs ((fromServer_congr (hends 0)).mp hserver)
      ((findPseudoPort_congr (hends 0)).symm.trans hj)
    obtain ⟨_, _, ht₁, _⟩ := hstep₁.reply hs ((fromServer_congr (hends finFlag)).mp hserver)
      ((findPseudoPort_congr (hends finFlag)).symm.trans hj)
    rw [checkType_flags, checkType_data, if_neg (by decide)] at ht₀
    rw [checkType_flags, if_pos (by decide)] at ht₁
    have ht : t₁ = t₀ := congrArg Prod.fst (ho₁.symm.trans ho₀)
    have hpair := congrArg (fun u : Tables => (u.forwardingTable j).2)
      (ht₁.symm.trans (ht.trans ht₀))
    simp only [markFin_flag, if_true] at hpair
    exact hflag hpair.symm
  · obtain ⟨f, hf⟩ := exists_flags s.tables j
    obtain ⟨t₁, b₁, out₁, x₁, hstep₁, ho₁⟩ := hvary f
    obtain ⟨i₀, _, _, ht₀, _⟩ := hstep₀.known ((fromClient_congr (hends 0)).mp hclient)
      ((findPort_congr (hends 0)).symm.trans hj)
    obtain ⟨i₁, _, _, ht₁, _⟩ := hstep₁.known ((fromClient_congr (hends f)).mp hclient)
      ((findPort_congr (hends f)).symm.trans hj)
    rw [checkType_flags, checkType_data, afterSegment, if_neg (by decide),
      if_neg (fun h => TcpType.noConfusion h.1)] at ht₀
    rw [checkType_flags] at ht₁
    exact hf i₁ (ht₁.symm.trans ((congrArg Prod.fst (ho₁.symm.trans ho₀)).trans ht₀))
  · obtain ⟨t₁, b₁, out₁, x₁, hstep₁, ho₁⟩ := effect_step (hall buf)
    have hdrop : Dropped cfg s.tables (Function.update (recvInto buf (some r)) 33 0) := by
      refine ⟨fun h => ((fromServer_congr (hends 0)).mpr h).not_client hclient, fun _ => ?_⟩
      rw [← findPort_congr (hends 0), checkType_flags, checkType_data]
      exact ⟨hport, .inl (by decide)⟩
    have hsent := (hstep₀.dropped hdrop).2
    have ho := congrArg Prod.snd (ho₁.symm.trans ho₀)
    simp only [hsent, List.filterMap_nil] at ho
    exact hstep₁.emits hs hnot ho

theorem checksum_read (hs : s.tables.Sound) {buf : Mem} (hn : 24 ≤ r.bytes.length)
    (hnot : ¬Dropped cfg s.tables (recvInto buf (some r))) :
    ChecksumRead r.bytes.length (recvInto buf (some r)) := by
  by_contra hcov
  obtain ⟨t, b, out, x, hstep, ho⟩ := effect_step (hall buf)
  have hle : r.bytes.length ≤ max r.bytes.length 38 := by omega
  obtain ⟨t₀, c₀, out₀, x₀, hstep₀, ho₀⟩ := @effect_step_update _ _ _ _ _ _ hall buf _ hle 0
  obtain ⟨t₁, c₁, out₁, x₁, hstep₁, ho₁⟩ := @effect_step_update _ _ _ _ _ _ hall buf _ hle 1
  have hagree : AgreeOn (· ≠ max r.bytes.length 38)
      (Function.update (recvInto buf (some r)) (max r.bytes.length 38) 0)
      (Function.update (recvInto buf (some r)) (max r.bytes.length 38) 1) := by
    intro k hk
    rw [Function.update_of_ne hk, Function.update_of_ne hk]
  obtain ⟨_, ⟨hsent₀, _⟩ |
      ⟨u, dir, sourceId, destId, addr₀, addr₁, hnat₀, hnat₁, hsent₀, hsent₁, _⟩⟩ :=
    hstep₀.twin hs hagree (fun k hk => by omega) (.inl (by omega)) hstep₁
  · have hnone := congrArg Prod.snd (ho.symm.trans ho₀)
    simp only [hsent₀, List.filterMap_nil] at hnone
    exact hstep.emits hs hnot hnone
  · have hsame := congrArg Prod.snd (ho₀.symm.trans ho₁)
    simp only [hsent₀, hsent₁] at hsame
    obtain ⟨k, hk, hne⟩ := nat_sensitive hcov hnat₀ hnat₁
    exact hne (datagram_inj hsame k hk)

end Observed

theorem StaleFree.safe (hs : s.tables.Sound) (h : StaleFree cfg s received now minIndex) :
    StaleSafe cfg s received minIndex := by
  obtain ⟨o, hall, hnone⟩ := h
  by_cases hdrop : ∀ buf, Dropped cfg s.tables (recvInto buf received)
  · exact .inl hdrop
  obtain ⟨buf, hnot⟩ := not_forall.mp hdrop
  cases received with
  | none =>
    obtain rfl := hnone rfl
    have hserv : s.tables.servCnt ≠ 0 := by
      rcases not_dropped hnot with ⟨h, _⟩ | ⟨h, _⟩ | ⟨h, _⟩
      · exact h.2
      · exact h.2
      · exact h.2
    exact absurd hall (failed_recv_changes hs hserv)
  | some r =>
    have hn := ports_read hall hs hnot
    obtain ⟨t, b, out, x, hstep, _⟩ := effect_step (hall buf)
    obtain ⟨_, hfits, hindexes⟩ := hstep.sends hs hnot
    have hread : ReadsReceived cfg s.tables (recvCount (some r)) (recvInto buf (some r)) minIndex :=
      ⟨hn, flags_read hall hs hnot, hindexes, hfits, checksum_read hall hs hn hnot⟩
    exact .inr (hread.congr recv_agree)

end Necessary

/-- In a reachable state, what the buffer held before has no influence exactly on the packets
that are dropped anyway and on those handled from received bytes only. -/
theorem stale_free_iff {cfg : Config} {s : State} {received : Option (Received bufSize)}
    {now : BitVec 32} {minIndex : Int} (h : Reachable cfg s) :
    StaleFree cfg s received now minIndex ↔ StaleSafe cfg s received minIndex := by
  have hs := h.sound.tables
  constructor
  · exact fun hfree => hfree.safe hs
  · rintro (hdrop | hread)
    · refine ⟨(s.tables, []), fun buf => ?_, fun _ => rfl⟩
      have hrun := @packet_dropped cfg { s with buf := buf } received now minIndex (hdrop buf)
      exact effect_eq_ok.mpr ⟨_, _, _, hrun, rfl⟩
    · exact hread.free hs

theorem stale_free_demo : ∃ s received, Reachable demoConfig s ∧
    recvCount received = 40 ∧ ¬Dropped demoConfig s.tables (recvInto s.buf received) ∧
    StaleFree demoConfig s received 0 0 := by
  let received := some (tcpPacket 0x0900000a 0x0100000a 0x409c 0x5000 synFlag)
  obtain ⟨s, hrun, htest⟩ := @executes_of_endsIn demoConfig anyStep _
    (fun s =>
      let b := recvInto s.buf received
      fromClient demoConfig s.tables b ∧ findPort s.tables.clntList b = none ∧
        checkType b = .syn ∧ s.tables.clntCnt = 0 ∧ ¬s.tables.occupied 0 ∧
        ¬UsagesMaxed demoConfig s.tables ∧ SegmentFits b ∧ ChecksumRead 40 b) demoStart [demoJoin]
    (by decide +kernel)
  obtain ⟨hclient, hport, hsyn, hcnt, hfree, hset, hfits, hsum⟩ := of_decide_eq_true htest
  have hserver : ¬fromServer demoConfig s.tables (recvInto s.buf received) :=
    fun h => h.not_client hclient
  have hread :
      ReadsReceived demoConfig s.tables (recvCount received) (recvInto s.buf received) 0 := by
    refine ⟨by decide, .inl (by decide), ⟨fun _ j hj => ?_, fun _ _ _ _ => ⟨⟨0, hfree⟩, ?_⟩, ?_⟩,
      hfits, hsum⟩
    · cases hport.symm.trans hj
    · exact fun hmax => absurd hmax hset
    · exact fun h => absurd h hserver
  refine ⟨s, received, hrun.reachable.reachable, rfl, fun hdrop => ?_,
    (stale_free_iff hrun.reachable.reachable).mpr (.inr hread)⟩
  rcases (hdrop.2 hclient).2 with h | h
  · exact h hsyn
  · rw [hcnt] at h
    exact absurd h (by decide)

/-- A SYN is dropped because no server is there yet; after a server has joined, a failed
`recv` admits the client of the old SYN. -/
theorem stale_syn_admitted : ∃ s, Executes demoConfig anyStep demoStart
    [demoClient synFlag, demoJoin] s ∧ s.tables.clntCnt = 0 ∧
    (∃ s' out x, packet demoConfig s none 0 0 = .ok (s', out, x) ∧ s'.tables.clntCnt = 1) ∧
    ¬StaleFree demoConfig s none 0 0 := by
  obtain ⟨s, hrun, htest⟩ := @executes_of_endsIn demoConfig anyStep _
    (fun s => decide (s.tables.clntCnt = 0) &&
      (nextStep demoConfig anyStep s (.packet none 0 0)).any fun (r : Step × State) =>
        decide (r.2.tables.clntCnt = 1)) demoStart [demoClient synFlag, demoJoin]
    (by decide +kernel)
  rw [Bool.and_eq_true, decide_eq_true_eq] at htest
  obtain ⟨hcnt, htest⟩ := htest
  obtain ⟨⟨e, out, x⟩, s', rfl, ⟨_, hpkt⟩, htest⟩ := nextStep_any htest
  have hcnt' : s'.tables.clntCnt = 1 := of_decide_eq_true htest
  have hpkt : packet demoConfig s none 0 0 = .ok (s', out, x) := hpkt
  refine ⟨s, hrun, hcnt, ⟨s', out, x, hpkt, hcnt'⟩, ?_⟩
  rintro ⟨o, hall, hnone⟩
  obtain rfl := hnone rfl
  have hsame := (effect_eq_ok.mpr ⟨s', out, x, hpkt, rfl⟩).symm.trans (hall s.buf)
  have htables := congrArg (fun o => o.1.clntCnt) (Except.ok.inj hsame)
  simp only [hcnt, hcnt'] at htables
  exact absurd htables (by decide)

end LoadBalancer
