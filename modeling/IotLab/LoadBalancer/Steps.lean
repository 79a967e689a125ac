import IotLab.LoadBalancer.Main

set_option autoImplicit false

namespace LoadBalancer
open SlotTable HostMemory Fallible

def Output.call : Output → Option Sent
  | .sent call => some call
  | _ => none

def Output.admission : Output → Option (Fin maxClntCnt × Int)
  | .newClient j id => some (j, id)
  | _ => none

def Output.disconnection : Output → Option (Fin maxClntCnt × Int)
  | .clntDisconnected j id => some (j, id)
  | _ => none

def sentCalls (out : List Output) : List Sent := out.filterMap Output.call

def admissions (out : List Output) : List (Fin maxClntCnt × Int) :=
  out.filterMap Output.admission

def disconnections (out : List Output) : List (Fin maxClntCnt × Int) :=
  out.filterMap Output.disconnection

theorem mem_sentCalls {out : List Output} {call : Sent} :
    call ∈ sentCalls out ↔ .sent call ∈ out := by
  rw [sentCalls, List.mem_filterMap]
  constructor
  · rintro ⟨o, ho, hcall⟩
    cases o <;> simp [Output.call] at hcall
    exact hcall ▸ ho
  · intro h
    exact ⟨_, h, rfl⟩

theorem mem_admissions {out : List Output} {j : Fin maxClntCnt} {id : Int} :
    (j, id) ∈ admissions out ↔ .newClient j id ∈ out := by
  rw [admissions, List.mem_filterMap]
  constructor
  · rintro ⟨o, ho, hnew⟩
    cases o <;> simp [Output.admission] at hnew
    exact hnew.1 ▸ hnew.2 ▸ ho
  · intro h
    exact ⟨_, h, rfl⟩

theorem mem_disconnections {out : List Output} {j : Fin maxClntCnt} {id : Int} :
    (j, id) ∈ disconnections out ↔ .clntDisconnected j id ∈ out := by
  rw [disconnections, List.mem_filterMap]
  constructor
  · rintro ⟨o, ho, hgone⟩
    cases o <;> simp [Output.disconnection] at hgone
    exact hgone.1 ▸ hgone.2 ▸ ho
  · intro h
    exact ⟨_, h, rfl⟩

abbrev fromClient (cfg : Config) (t : Tables) (b : Mem) : Prop :=
  checkIpAndPort t.clntList b cfg.lbaddr = some .clnt2serv ∧ t.servCnt ≠ 0

abbrev fromServer (cfg : Config) (t : Tables) (b : Mem) : Prop :=
  checkIpAndPort t.clntList b cfg.lbaddr = some .serv2clnt ∧ t.servCnt ≠ 0

def admitTables (cfg : Config) (t : Tables) (b : Mem) (now : BitVec 32)
    (j : Fin maxClntCnt) (i : Fin maxServCnt) (recent : Int) : Tables :=
  let t := addNewClnt cfg t j b now
  addClntCnt { t with
    recentServId := recent
    forwardingTable := Function.update t.forwardingTable j (i.val, 2) } i 1

/-- The outcomes of the packet handler on the buffer `b` as received. -/
inductive PacketStep (cfg : Config) (t : Tables) (b : Mem) (length : Int) (now : BitVec 32)
    (minIndex : Int) : Tables → Mem → List Output → LoopExit → Prop where
  | ignored (h : checkIpAndPort t.clntList b cfg.lbaddr = none ∨ t.servCnt = 0) :
      PacketStep cfg t b length now minIndex t b [] .next
  | unknown (hdir : checkIpAndPort t.clntList b cfg.lbaddr = some .clnt2serv)
      (hserv : t.servCnt ≠ 0) (hport : findPort t.clntList b = none)
      (h : checkType b ≠ .syn ∨ t.clntCnt = maxClntCnt) :
      PacketStep cfg t b length now minIndex t b [] .next
  | admitted (j : Fin maxClntCnt) (i : Fin maxServCnt) (recent : Int) (b' : Mem)
      (hdir : checkIpAndPort t.clntList b cfg.lbaddr = some .clnt2serv)
      (hserv : t.servCnt ≠ 0) (hport : findPort t.clntList b = none)
      (htype : checkType b = .syn) (hcnt : t.clntCnt ≠ maxClntCnt)
      (hfree : firstSlot (fun j => (t.clntList j).port = 0) = some j)
      (hsel : selectServ cfg.selectedAlgo (addNewClnt cfg t j b now) minIndex =
        .ok (i.val, recent))
      (hnat : nat (admitTables cfg t b now j i recent) b j i cfg.lbaddr .clnt2serv = .ok b') :
      PacketStep cfg t b length now minIndex (admitTables cfg t b now j i recent) b'
        [.newClient j i, .sent ⟨.clnt2serv, j, i, b', length, (t.servList i).sockAdr⟩] .next
  | forwarded (j : Fin maxClntCnt) (i : Fin maxServCnt) (b' : Mem)
      (hdir : checkIpAndPort t.clntList b cfg.lbaddr = some .clnt2serv)
      (hserv : t.servCnt ≠ 0) (hport : findPort t.clntList b = some j)
      (hassigned : t.assigned i j)
      (h : ¬(checkType b = .ack ∧ (t.forwardingTable j).2 = 1))
      (hnat : nat t b j i cfg.lbaddr .clnt2serv = .ok b') :
      PacketStep cfg t b length now minIndex (if checkType b = .fin then markFin t j else t) b'
        [.sent ⟨.clnt2serv, j, i, b', length, (t.servList i).sockAdr⟩] .next
  | released (j : Fin maxClntCnt) (i : Fin maxServCnt) (b' : Mem)
      (hdir : checkIpAndPort t.clntList b cfg.lbaddr = some .clnt2serv)
      (hserv : t.servCnt ≠ 0) (hport : findPort t.clntList b = some j)
      (hassigned : t.assigned i j) (htype : checkType b = .ack)
      (hflag : (t.forwardingTable j).2 = 1)
      (hnat : nat t b j i cfg.lbaddr .clnt2serv = .ok b') :
      PacketStep cfg t b length now minIndex (releaseClnt t i j) b'
        [.sent ⟨.clnt2serv, j, i, b', length, (t.servList i).sockAdr⟩,
          .clntDisconnected j i] .next
  | relayed (j : Fin maxClntCnt) (b' : Mem)
      (hdir : checkIpAndPort t.clntList b cfg.lbaddr = some .serv2clnt)
      (hserv : t.servCnt ≠ 0) (hport : findPseudoPort t.clntList b = some j)
      (h : ¬(checkType b = .ack ∧ (t.forwardingTable j).2 = -1))
      (hnat : nat t b (t.forwardingTable j).1 j cfg.lbaddr .serv2clnt = .ok b') :
      PacketStep cfg t b length now minIndex (if checkType b = .fin then markFin t j else t) b'
        [.sent ⟨.serv2clnt, (t.forwardingTable j).1, j, b', length,
          ⟨afInet, tcpDest b', ipDaddr b'⟩⟩] .leave
  | relayReleased (j : Fin maxClntCnt) (i : Fin maxServCnt) (b' : Mem)
      (hdir : checkIpAndPort t.clntList b cfg.lbaddr = some .serv2clnt)
      (hserv : t.servCnt ≠ 0) (hport : findPseudoPort t.clntList b = some j)
      (hassigned : t.assigned i j) (htype : checkType b = .ack)
      (hflag : (t.forwardingTable j).2 = -1)
      (hnat : nat t b i j cfg.lbaddr .serv2clnt = .ok b') :
      PacketStep cfg t b length now minIndex (releaseClnt t i j) b'
        [.sent ⟨.serv2clnt, i, j, b', length, ⟨afInet, tcpDest b', ipDaddr b'⟩⟩,
          .clntDisconnected j i] .leave

section Nat
variable {t t' : Tables} {b : Mem} {sourceId destId : Int} {lbaddr : SockaddrIn}
  {dir : Direction}

theorem nat_congr (hs : t.servList = t'.servList) (hc : t.clntList = t'.clntList) :
    nat t b sourceId destId lbaddr dir = nat t' b sourceId destId lbaddr dir := by
  cases dir <;> simp only [nat, natRewrite, hs, hc]

@[simp] theorem nat_markFin (j : Fin maxClntCnt) :
    nat (markFin t j) b sourceId destId lbaddr dir = nat t b sourceId destId lbaddr dir :=
  nat_congr rfl rfl

end Nat

@[simp] theorem markFin_servList (t : Tables) (j : Fin maxClntCnt) :
    (markFin t j).servList = t.servList := rfl

theorem markFin_serv (t : Tables) (j k : Fin maxClntCnt) :
    ((markFin t j).forwardingTable k).1 = (t.forwardingTable k).1 := by
  by_cases h : k = j
  · subst h; simp [markFin]
  · simp [markFin, h]

theorem markFin_flag (t : Tables) (j k : Fin maxClntCnt) :
    ((markFin t j).forwardingTable k).2 = if k = j then 1 else (t.forwardingTable k).2 := by
  by_cases h : k = j
  · subst h; simp [markFin]
  · simp [markFin, h]

section MarkIf
variable (p : Prop) [Decidable p] (t : Tables) (j : Fin maxClntCnt)

@[simp] theorem markIf_clntList : (if p then markFin t j else t).clntList = t.clntList := by
  split <;> rfl

theorem markIf_serv (k : Fin maxClntCnt) :
    ((if p then markFin t j else t).forwardingTable k).1 = (t.forwardingTable k).1 := by
  split
  · exact markFin_serv t j k
  · rfl

theorem markIf_flag (k : Fin maxClntCnt) :
    ((if p then markFin t j else t).forwardingTable k).2 =
      if p ∧ k = j then 1 else (t.forwardingTable k).2 := by
  by_cases hp : p
  · simp [hp, markFin_flag]
  · simp [hp]

end MarkIf

theorem forward_ok {cfg : Config} {t t' : Tables} {b b' : Mem} {length : Int} {type : TcpType}
    {j : Fin maxClntCnt} {out : List Output}
    (h : forward cfg t b length type j = .ok (t', b', out)) :
    ∃ i : Fin maxServCnt, t.assigned i j ∧ nat t b j i cfg.lbaddr .clnt2serv = .ok b' ∧
      ((¬(type = .ack ∧ (t.forwardingTable j).2 = 1) ∧ t' = t ∧
          out = [.sent ⟨.clnt2serv, j, i, b', length, (t.servList i).sockAdr⟩]) ∨
        ((type = .ack ∧ (t.forwardingTable j).2 = 1) ∧ t' = releaseClnt t i j ∧
          out = [.sent ⟨.clnt2serv, j, i, b', length, (t.servList i).sockAdr⟩,
            .clntDisconnected j i])) := by
  unfold forward at h
  obtain ⟨j', hj, h⟩ := bind_eq_ok.mp h
  have hjj : j' = j := by
    have := clntAt_eq_ok.mp hj
    exact Fin.ext (by omega)
  subst hjj
  obtain ⟨b₁, hnat, h⟩ := bind_eq_ok.mp h
  obtain ⟨i, hi, h⟩ := bind_eq_ok.mp h
  have hi := servAt_eq_ok.mp hi
  rw [hi] at hnat h
  refine ⟨i, hi, ?_⟩
  split at h
  · rename_i hrel
    cases h
    exact ⟨hnat, .inr ⟨hrel, rfl, rfl⟩⟩
  · rename_i hrel
    cases h
    exact ⟨hnat, .inl ⟨hrel, rfl, rfl⟩⟩

theorem admit_ok {cfg : Config} {t t' : Tables} {b : Mem} {now : BitVec 32}
    {minIndex sourceId : Int} {out : List Output}
    (h : admitClnt cfg t b now minIndex = .ok (t', sourceId, out)) :
    (firstSlot (fun j => (t.clntList j).port = 0) = none ∧ sourceId = -1) ∨
      ∃ (j : Fin maxClntCnt) (i : Fin maxServCnt) (recent : Int),
        firstSlot (fun j => (t.clntList j).port = 0) = some j ∧ sourceId = j.val ∧
        selectServ cfg.selectedAlgo (addNewClnt cfg t j b now) minIndex =
          .ok (i.val, recent) ∧
        t' = admitTables cfg t b now j i recent ∧ out = [.newClient j i] := by
  unfold admitClnt at h
  cases hf : firstSlot (fun j => (t.clntList j).port = 0) with
  | none =>
    rw [hf] at h
    cases h
    exact .inl ⟨rfl, rfl⟩
  | some j =>
    rw [hf] at h
    obtain ⟨⟨serv, recent⟩, hsel, h⟩ := bind_eq_ok.mp h
    obtain ⟨i, hi, h⟩ := bind_eq_ok.mp h
    have hi := servAt_eq_ok.mp hi
    subst hi
    cases h
    exact .inr ⟨j, i, recent, rfl, rfl, hsel, rfl, rfl⟩

theorem admitTables_forwarding (cfg : Config) (t : Tables) (b : Mem) (now : BitVec 32)
    (j : Fin maxClntCnt) (i : Fin maxServCnt) (recent : Int) :
    (admitTables cfg t b now j i recent).forwardingTable =
      Function.update t.forwardingTable j ((i.val : Int), 2) := rfl

theorem admitTables_sockAdr (cfg : Config) (t : Tables) (b : Mem) (now : BitVec 32)
    (j : Fin maxClntCnt) (i : Fin maxServCnt) (recent : Int) :
    ((admitTables cfg t b now j i recent).servList i).sockAdr = (t.servList i).sockAdr := by
  simp [admitTables, addClntCnt, addNewClnt]

section FromClient
variable {cfg : Config} {t t' : Tables} {b b' : Mem} {length : Int} {now : BitVec 32}
  {minIndex : Int} {out : List Output}

theorem clnt2serv_unknown_ok
    (hdir : checkIpAndPort t.clntList b cfg.lbaddr = some .clnt2serv) (hserv : t.servCnt ≠ 0)
    (hp : findPort t.clntList b = none)
    (h : clnt2serv cfg t b length now minIndex = .ok (t', b', out)) :
    PacketStep cfg t b length now minIndex t' b' out .next := by
  unfold clnt2serv at h
  simp only [hp] at h
  split at h
  · rename_i hdrop
    cases h
    exact .unknown hdir hserv hp hdrop
  · rename_i hsyn
    obtain ⟨htype, hcnt⟩ := not_or.mp hsyn
    rw [not_not] at htype
    obtain ⟨⟨t₁, sourceId, out₁⟩, hadm, h⟩ := bind_eq_ok.mp h
    obtain ⟨⟨t₂, b₂, out₂⟩, hfwd, h⟩ := bind_eq_ok.mp h
    cases h
    rcases admit_ok hadm with ⟨_, hsrc⟩ | ⟨j, i, recent, hfree, hsrc, hsel, ht, hout⟩
    · -- No free slot: `forwarding_table[-1]` faults.
      subst hsrc
      unfold forward at hfwd
      obtain ⟨k, hk, _⟩ := bind_eq_ok.mp hfwd
      have hk : (-1 : Int) = k.val := clntAt_eq_ok.mp hk
      omega
    · subst hsrc ht hout
      obtain ⟨i', hi', hnat, hcase⟩ := forward_ok hfwd
      have hii : i' = i := by
        simp only [Tables.assigned, admitTables_forwarding, Function.update_self] at hi'
        exact Fin.ext (by omega)
      subst hii
      rcases hcase with ⟨_, ht, hout⟩ | ⟨⟨hack, _⟩, _, _⟩
      · subst ht hout
        rw [admitTables_sockAdr]
        exact .admitted j i' recent _ hdir hserv hp htype hcnt hfree hsel hnat
      · simp [htype] at hack

theorem clnt2serv_known_ok {j : Fin maxClntCnt}
    (hdir : checkIpAndPort t.clntList b cfg.lbaddr = some .clnt2serv) (hserv : t.servCnt ≠ 0)
    (hp : findPort t.clntList b = some j)
    (h : clnt2serv cfg t b length now minIndex = .ok (t', b', out)) :
    PacketStep cfg t b length now minIndex t' b' out .next := by
  unfold clnt2serv at h
  simp only [hp] at h
  by_cases hfin : checkType b = .fin
  · simp only [hfin, if_true] at h
    obtain ⟨i, hi, hnat, hcase⟩ := forward_ok h
    have hassigned : t.assigned i j := by rw [Tables.assigned, ← markFin_serv t j j]; exact hi
    rw [nat_markFin] at hnat
    rcases hcase with ⟨_, ht, hout⟩ | ⟨⟨hack, _⟩, _, _⟩
    · subst ht hout
      have hne : ¬(checkType b = .ack ∧ (t.forwardingTable j).2 = 1) := by simp [hfin]
      have hstep : PacketStep cfg t b length now minIndex _ _ _ _ :=
        .forwarded j i b' hdir hserv hp hassigned hne hnat
      simpa only [hfin, if_true, markFin_servList] using hstep
    · simp at hack
  · simp only [hfin, if_false] at h
    obtain ⟨i, hi, hnat, hcase⟩ := forward_ok h
    rcases hcase with ⟨hne, ht, hout⟩ | ⟨⟨hack, hflag⟩, ht, hout⟩
    · rw [ht, hout]
      have hstep : PacketStep cfg t b length now minIndex _ _ _ _ :=
        .forwarded j i b' hdir hserv hp hi hne hnat
      simpa only [hfin, if_false] using hstep
    · subst ht hout
      exact .released j i b' hdir hserv hp hi hack hflag hnat

theorem clnt2serv_ok (hdir : checkIpAndPort t.clntList b cfg.lbaddr = some .clnt2serv)
    (hserv : t.servCnt ≠ 0) (h : clnt2serv cfg t b length now minIndex = .ok (t', b', out)) :
    PacketStep cfg t b length now minIndex t' b' out .next := by
  cases hp : findPort t.clntList b with
  | none => exact clnt2serv_unknown_ok hdir hserv hp h
  | some j => exact clnt2serv_known_ok hdir hserv hp h

end FromClient

theorem serv2clnt_ok {cfg : Config} {t t' : Tables} {b b' : Mem} {length : Int}
    {now : BitVec 32} {minIndex : Int} {out : List Output}
    (hdir : checkIpAndPort t.clntList b cfg.lbaddr = some .serv2clnt) (hserv : t.servCnt ≠ 0)
    (h : serv2clnt cfg t b length = .ok (t', b', out)) :
    PacketStep cfg t b length now minIndex t' b' out .leave := by
  unfold serv2clnt at h
  cases hp : findPseudoPort t.clntList b with
  | none => simp [hp] at h
  | some j =>
    simp only [hp] at h
    obtain ⟨b₁, hnat, h⟩ := bind_eq_ok.mp h
    by_cases hfin : checkType b = .fin
    · have hne : ¬(checkType b = .ack ∧ (t.forwardingTable j).2 = -1) := by simp [hfin]
      simp [hfin] at h hnat
      obtain ⟨rfl, rfl, rfl⟩ := h
      have hstep : PacketStep cfg t b length now minIndex _ _ _ _ :=
        .relayed j b₁ hdir hserv hp hne hnat
      simpa only [hfin, if_true] using hstep
    · simp only [hfin, if_false] at h hnat
      split at h
      · rename_i hrel
        obtain ⟨i, hi, h⟩ := bind_eq_ok.mp h
        have hi := servAt_eq_ok.mp hi
        cases h
        rw [hi] at hnat ⊢
        exact .relayReleased j i _ hdir hserv hp hi hrel.1 hrel.2 hnat
      · rename_i hrel
        cases h
        have hstep : PacketStep cfg t b length now minIndex _ _ _ _ :=
          .relayed j _ hdir hserv hp hrel hnat
        simpa only [hfin, if_false] using hstep

theorem packet_ok {cfg : Config} {s s' : State} {received : Option (Received bufSize)}
    {now : BitVec 32} {minIndex : Int} {out : List Output} {x : LoopExit}
    (h : packet cfg s received now minIndex = .ok (s', out, x)) :
    PacketStep cfg s.tables (recvInto s.buf received) (recvLength received) now minIndex
        s'.tables s'.buf out x ∧
      s'.servAdr = s.servAdr ∧ s'.watched = s.watched := by
  unfold packet at h
  cases hdir : checkIpAndPort s.tables.clntList (recvInto s.buf received) cfg.lbaddr with
  | none =>
    simp only [hdir] at h
    cases h
    exact ⟨.ignored (.inl hdir), rfl, rfl⟩
  | some dir =>
    simp only [hdir] at h
    split at h
    · rename_i hserv
      cases h
      exact ⟨.ignored (.inr hserv), rfl, rfl⟩
    · rename_i hserv
      cases dir with
      | clnt2serv =>
        obtain ⟨⟨t₁, b₁, out₁⟩, hrun, h⟩ := bind_eq_ok.mp h
        cases h
        exact ⟨clnt2serv_ok hdir hserv hrun, rfl, rfl⟩
      | serv2clnt =>
        obtain ⟨⟨t₁, b₁, out₁⟩, hrun, h⟩ := bind_eq_ok.mp h
        cases h
        exact ⟨serv2clnt_ok hdir hserv hrun, rfl, rfl⟩

section Fields
variable (cfg : Config) (t : Tables) (b : Mem) (now : BitVec 32) (j : Fin maxClntCnt)
  (i : Fin maxServCnt) (recent : Int)

theorem addClntCnt_servList (d : Int) (k : Fin maxServCnt) :
    (addClntCnt t i d).servList k = { t.servList k with
      clntCnt := (t.servList k).clntCnt + if k = i then d else 0 } := by
  by_cases h : k = i
  · subst h; simp [addClntCnt]
  · simp [addClntCnt, h]

theorem admitTables_servList (k : Fin maxServCnt) :
    (admitTables cfg t b now j i recent).servList k = { t.servList k with
      clntCnt := (t.servList k).clntCnt + if k = i then 1 else 0 } :=
  addClntCnt_servList _ i 1 k

def newClntNode (cfg : Config) (b : Mem) (now : BitVec 32) : ClntListNode :=
  ⟨ipSaddr b, (tcpSource b).toNat, (cfg.rand now % 16386 + 49152 : Nat)⟩

@[simp] theorem admitTables_clntList :
    (admitTables cfg t b now j i recent).clntList =
      Function.update t.clntList j (newClntNode cfg b now) := rfl

@[simp] theorem admitTables_clntCnt :
    (admitTables cfg t b now j i recent).clntCnt = t.clntCnt + 1 := rfl

@[simp] theorem admitTables_servCnt :
    (admitTables cfg t b now j i recent).servCnt = t.servCnt := rfl

theorem releaseClnt_servList (k : Fin maxServCnt) :
    (releaseClnt t i j).servList k = { t.servList k with
      clntCnt := (t.servList k).clntCnt + if k = i then -1 else 0 } :=
  addClntCnt_servList t i (-1) k

@[simp] theorem releaseClnt_clntList :
    (releaseClnt t i j).clntList = Function.update t.clntList j .zero := rfl

@[simp] theorem releaseClnt_clntCnt : (releaseClnt t i j).clntCnt = t.clntCnt - 1 := rfl

@[simp] theorem releaseClnt_servCnt : (releaseClnt t i j).servCnt = t.servCnt := rfl

@[simp] theorem releaseClnt_forwardingTable :
    (releaseClnt t i j).forwardingTable = t.forwardingTable := rfl

end Fields

/-- The tables `t` after a sweep for server `i` has passed the slots below `k`. -/
structure SweptBelow (t : Tables) (i : Fin maxServCnt) (k : Nat) (u : Tables) : Prop where
  recentServId : u.recentServId = t.recentServId
  servCnt : u.servCnt = t.servCnt
  servList : u.servList = t.servList
  clntList : ∀ j, u.clntList j = if j.val < k ∧ t.assigned i j then .zero else t.clntList j
  clntCnt : u.clntCnt = t.clntCnt - count fun j => j.val < k ∧ t.assigned i j
  forwardingTable : ∀ j, u.forwardingTable j =
    if j.val < k ∧ t.assigned i j then (-1, -1) else t.forwardingTable j

theorem SweptBelow.step {t u : Tables} {i : Fin maxServCnt} {k : Fin maxClntCnt}
    (h : SweptBelow t i k.val u) : SweptBelow t i (k.val + 1) (sweepSlot i u k) := by
  have hk : u.forwardingTable k = t.forwardingTable k := by simp [h.forwardingTable]
  have hcount := count_below_succ (p := t.assigned i) k
  have hlt {j : Fin maxClntCnt} (hj : j ≠ k) : j.val < k.val + 1 ↔ j.val < k.val := by
    have : j.val ≠ k.val := fun hv => hj (Fin.ext hv)
    omega
  by_cases ha : t.assigned i k
  · have hu : (u.forwardingTable k).1 = i.val := by rw [hk]; exact ha
    simp only [if_pos ha] at hcount
    simp only [sweepSlot, if_pos hu]
    refine ⟨h.recentServId, h.servCnt, h.servList, fun j => ?_, ?_, fun j => ?_⟩
    · by_cases hj : j = k
      · subst hj; simp [ha]
      · simp [hj, h.clntList, hlt hj]
    · simp only [h.clntCnt, hcount]
      push_cast
      omega
    · by_cases hj : j = k
      · subst hj; simp [ha]
      · simp [hj, h.forwardingTable, hlt hj]
  · have hu : ¬(u.forwardingTable k).1 = i.val := by rw [hk]; exact ha
    simp only [if_neg ha, Nat.add_zero] at hcount
    simp only [sweepSlot, if_neg hu]
    refine ⟨h.recentServId, h.servCnt, h.servList, fun j => ?_, ?_, fun j => ?_⟩
    · by_cases hj : j = k
      · subst hj; simp [h.clntList, ha]
      · simp [h.clntList, hlt hj]
    · rw [h.clntCnt, hcount]
    · by_cases hj : j = k
      · subst hj; simp [h.forwardingTable, ha]
      · simp [h.forwardingTable, hlt hj]

theorem sweepServer_swept (t : Tables) (i : Fin maxServCnt) :
    SweptBelow t i maxClntCnt (sweepServer t i) := by
  have h0 : count (fun j => j.val < 0 ∧ t.assigned i j) = 0 := count_eq_zero.mpr (by simp)
  have hstart : SweptBelow t i 0 t := ⟨rfl, rfl, rfl, by simp, by rw [h0]; simp, by simp⟩
  unfold sweepServer
  exact forSlots_invariant (SweptBelow t i) (sweepSlot i) t hstart (fun u k h => h.step)

structure Closed (t : Tables) (i : Fin maxServCnt) (u : Tables) : Prop where
  recentServId : u.recentServId = t.recentServId
  servCnt : u.servCnt = t.servCnt - 1
  servList : u.servList = Function.update t.servList i .zero
  clntList : ∀ j, u.clntList j = if t.assigned i j then .zero else t.clntList j
  clntCnt : u.clntCnt = t.clntCnt - count (t.assigned i)
  forwardingTable : ∀ j, u.forwardingTable j =
    if t.assigned i j then (-1, -1) else t.forwardingTable j

theorem deleteServerNode_closed {t u : Tables} {i : Fin maxServCnt}
    (h : SweptBelow t i maxClntCnt u) : Closed t i (deleteServerNode u i) := by
  have hcount : count (fun j => j.val < maxClntCnt ∧ t.assigned i j) =
      count (t.assigned i) := count_congr (fun j => by simp)
  constructor
  case recentServId => exact h.recentServId
  case servCnt => simp [deleteServerNode, h.servCnt]
  case servList => simp [deleteServerNode, h.servList]
  case clntList => simp [deleteServerNode, h.clntList]
  case clntCnt =>
    rw [← hcount]
    exact h.clntCnt
  case forwardingTable => simp [deleteServerNode, h.forwardingTable]

theorem closeServer_closed (t : Tables) (i : Fin maxServCnt) :
    Closed t i (closeServer t i).1 := deleteServerNode_closed (sweepServer_swept t i)

structure SameButUsage (t u : Tables) : Prop where
  recentServId : u.recentServId = t.recentServId
  servCnt : u.servCnt = t.servCnt
  clntList : u.clntList = t.clntList
  clntCnt : u.clntCnt = t.clntCnt
  forwardingTable : u.forwardingTable = t.forwardingTable
  servList : ∀ i, u.servList i =
    { t.servList i with resourceUsage := (u.servList i).resourceUsage }

theorem SameButUsage.trans {t u v : Tables} (h : SameButUsage t u) (k : SameButUsage u v) :
    SameButUsage t v := by
  refine ⟨k.recentServId.trans h.recentServId, k.servCnt.trans h.servCnt,
    k.clntList.trans h.clntList, k.clntCnt.trans h.clntCnt,
    k.forwardingTable.trans h.forwardingTable, fun i => ?_⟩
  rw [k.servList i, h.servList i]

theorem setUsage_same (t : Tables) (i : Fin maxServCnt) (usage : Int) :
    SameButUsage t (setUsage t i usage) := by
  refine ⟨rfl, rfl, rfl, rfl, rfl, fun k => ?_⟩
  by_cases hk : k = i
  · subst hk; simp [setUsage]
  · simp [setUsage, hk]

theorem healthChecks_ok {serverId : Option (Fin maxServCnt)} {t u : Tables} {usage : Mem}
    {reads : List ReadResult} (h : healthChecks serverId t usage reads = .ok u) :
    SameButUsage t u := by
  induction reads generalizing t usage with
  | nil =>
    cases h
    exact ⟨rfl, rfl, rfl, rfl, rfl, fun _ => rfl⟩
  | cons r rest ih =>
    cases r with
    | failed => exact ih h
    | data r hr =>
      obtain ⟨i, _, h⟩ := bind_eq_ok.mp h
      exact (setUsage_same t i _).trans (ih h)

theorem serverEvent_ok {s s' : State} {fd : Int} {reads : List ReadResult}
    {ending : ReadEnd} {stack : Mem} {out : List Output}
    (h : serverEvent s fd reads ending stack = .ok (s', out)) :
    ∃ t, SameButUsage s.tables t ∧
      ((ending = .again ∧ s' = { s with tables := t } ∧ out = []) ∨
        (ending = .eof ∧ ∃ i, findServer s.tables fd = some i ∧
          s' = { s with
            tables := (closeServer t i).1
            watched := s.watched.filter (· ≠ fd) } ∧ out = (closeServer t i).2)) := by
  unfold serverEvent at h
  obtain ⟨t, ht, h⟩ := bind_eq_ok.mp h
  refine ⟨t, healthChecks_ok ht, ?_⟩
  cases ending with
  | again =>
    cases h
    exact .inl ⟨rfl, rfl, rfl⟩
  | eof =>
    obtain ⟨i, hi, h⟩ := bind_eq_ok.mp h
    cases hf : findServer s.tables fd with
    | none => simp [hf] at hi
    | some k =>
      have hki : k = i := by simpa [hf] using hi
      subst hki
      simp only [Except.ok.injEq, Prod.mk.injEq] at h
      exact .inr ⟨rfl, k, rfl, h.1.symm, h.2.symm⟩

theorem handle_join {cfg : Config} {s s' : State} {accepted : Option (Int × BitVec 32)}
    {port : Received 2} {stack : Mem} {out : List Output} {x : LoopExit}
    (h : handle cfg s (.join accepted port stack) = .ok (s', out, x)) :
    join s accepted port stack = (s', out) ∧ x = .next := by
  simp only [handle, Except.ok.injEq, Prod.mk.injEq] at h
  exact ⟨Prod.ext h.1 h.2.1, h.2.2.symm⟩

theorem handle_server {cfg : Config} {s s' : State} {fd : Int} {reads : List ReadResult}
    {ending : ReadEnd} {stack : Mem} {out : List Output} {x : LoopExit}
    (h : handle cfg s (.server fd reads ending stack) = .ok (s', out, x)) :
    serverEvent s fd reads ending stack = .ok (s', out) ∧ x = .next := by
  obtain ⟨⟨s₁, out₁⟩, hrun, h⟩ := bind_eq_ok.mp h
  simp only [Except.ok.injEq, Prod.mk.injEq] at h
  obtain ⟨rfl, rfl, rfl⟩ := h
  exact ⟨hrun, rfl⟩

structure Joined (t : Tables) (i : Fin maxServCnt) (node : ServListNode) (u : Tables) :
    Prop where
  recentServId : u.recentServId = t.recentServId
  servCnt : u.servCnt = t.servCnt + 1
  servList : u.servList = Function.update t.servList i node
  clntList : u.clntList = t.clntList
  clntCnt : u.clntCnt = t.clntCnt
  forwardingTable : u.forwardingTable = t.forwardingTable

theorem join_cases {s s' : State} {accepted : Option (Int × BitVec 32)} {port : Received 2}
    {stack : Mem} {out : List Output} (h : join s accepted port stack = (s', out)) :
    (s.tables.servCnt = maxServCnt ∧ s'.tables = s.tables ∧ s'.watched = s.watched ∧
      out = []) ∨
    (s.tables.servCnt ≠ maxServCnt ∧
      firstSlot (fun i => (s.tables.servList i).sock = 0) = none ∧ out = []) ∨
    ∃ i node, firstSlot (fun i => (s.tables.servList i).sock = 0) = some i ∧
      node.sock = (accepted.getD (-1, s.servAdr)).1 ∧ node.clntCnt = 0 ∧
      Joined s.tables i node s'.tables ∧
      s'.watched = (if node.sock = -1 then s.watched else node.sock :: s.watched) ∧
      out = [.newServer i node.sock node.port] := by
  unfold join at h
  generalize accepted.getD (-1, s.servAdr) = a at h ⊢
  obtain ⟨sock, adr⟩ := a
  dsimp only at h
  split at h
  · rename_i hmax
    cases h
    exact .inl ⟨hmax, rfl, rfl, rfl⟩
  · rename_i hmax
    unfold addServerInfo at h
    cases hf : firstSlot (fun i => (s.tables.servList i).sock = 0) with
    | none =>
      simp only [hf] at h
      cases h
      exact .inr (.inl ⟨hmax, rfl, rfl⟩)
    | some i =>
      simp only [hf] at h
      cases h
      exact .inr (.inr ⟨i, _, rfl, rfl, rfl, ⟨rfl, rfl, rfl, rfl, rfl, rfl⟩, rfl, rfl⟩)

end LoadBalancer
