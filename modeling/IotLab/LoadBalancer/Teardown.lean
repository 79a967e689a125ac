import IotLab.LoadBalancer.Sessions

set_option autoImplicit false

namespace LoadBalancer
open SlotTable HostMemory

/-- No ACK of a client comes after a FIN handled for its slot unless both sides have sent a FIN
since the client's last SYN. -/
abbrev AckAfterFins (cfg : Config) (t : Tables) (h : History) (b : Mem) : Prop :=
  fromClient cfg t b → checkType b = .ack → ∀ j ∈ findPort t.clntList b,
    h.finSeen j → h.clntFin j ∧ h.servFin j

def ClosesProperly (cfg : Config) (s : State) (h : History) : Event → Prop
  | .packet received _ _ => AckAfterFins cfg s.tables h (recvInto s.buf received)
  | .join _ _ _ => True
  | .server _ _ _ _ => True

instance (cfg : Config) (s : State) (h : History) : DecidablePred (ClosesProperly cfg s h)
  | .packet received _ _ => inferInstanceAs
    (Decidable (AckAfterFins cfg s.tables h (recvInto s.buf received)))
  | .join _ _ _ => inferInstanceAs (Decidable True)
  | .server _ _ _ _ => inferInstanceAs (Decidable True)

/-- The flag of a pair is 1 when a FIN has been handled since the admission. -/
def FlagsSeen (t : Tables) (h : History) : Prop :=
  ∀ j, h.finSeen j = true ↔ (t.forwardingTable j).2 = 1

/-- A slot keeps its client while a side of the connection is open. -/
def OpenKept (t : Tables) (h : History) : Prop :=
  ∀ j c, h.session j = some c → ¬(h.clntFin j = true ∧ h.servFin j = true) →
    (t.clntList j).isOf c.client

section Flags
variable {t u : Tables} {h : History} {b : Mem} {j : Fin maxClntCnt}

theorem FlagsSeen.clientSegment (hf : FlagsSeen t h)
    (hu : ∀ k, (u.forwardingTable k).2 =
      if checkType b = .fin ∧ k = j then 1 else (t.forwardingTable k).2) :
    FlagsSeen u (h.clientSegment t u b j) := by
  intro k
  rw [hu k]
  by_cases hk : k = j
  · subst hk
    by_cases hfin : checkType b = .fin
    · simp [History.clientSegment, hfin]
    · simp [History.clientSegment, hfin, hf k]
  · simp [History.clientSegment, hk, hf k]

theorem FlagsSeen.serverSegment (hf : FlagsSeen t h)
    (hu : ∀ k, (u.forwardingTable k).2 =
      if checkType b = .fin ∧ k = j then 1 else (t.forwardingTable k).2) :
    FlagsSeen u (h.serverSegment t b j) := by
  intro k
  rw [hu k]
  unfold History.serverSegment
  by_cases hfin : checkType b = .fin
  · by_cases hk : k = j
    · subst hk
      simp [hfin]
    · simp [hfin, hk, hf k]
  · simp [hfin, hf k]

theorem flagsSeen_step {cfg : Config} {s : State} {l : Step} (hp : Observed cfg (s, h))
    (hstep : TablesStep cfg s l u) (hf : FlagsSeen s.tables h) :
    FlagsSeen u (h.look s l u) := by
  cases hstep with
  | denied => exact hf
  | joined i node _ _ _ hu =>
    intro j
    rw [hu.forwardingTable]
    exact hf j
  | health hu =>
    intro j
    rw [hu.forwardingTable]
    exact hf j
  | closed t i hfind _ ht hu =>
    rw [look_closed h s u hfind]
    intro j
    rw [hu.forwardingTable]
    simp only [History.close, Tables.assigned, ht.forwardingTable]
    split
    · simp
    · exact hf j
  | packet hpkt =>
    cases hpkt with
    | ignored => exact hf
    | unknown => exact hf
    | admitted j i recent _ _ _ _ htype _ _ _ _ =>
      rw [look_admitted]
      intro k
      by_cases hk : k = j
      · subst hk
        simp [History.clientSegment, History.admission, admitTables_forwarding, htype]
      · simp [History.clientSegment, History.admission, admitTables_forwarding, hk, hf k]
    | forwarded j i _ _ _ _ _ _ _ =>
      rw [look_forwarded]
      exact hf.clientSegment (fun k => markIf_flag _ _ _ k)
    | released j i _ _ _ _ _ htype _ _ =>
      rw [look_released]
      exact hf.clientSegment (fun k => by simp [htype])
    | relayed j _ _ _ _ _ _ =>
      rw [look_relayed]
      exact hf.serverSegment (fun k => markIf_flag _ _ _ k)
    | relayReleased j i _ _ _ _ hassigned _ hflag _ =>
      exact absurd hflag (hp.reachable.sound.tables.flag_ne_of_assigned hassigned)

theorem Observed.flagsSeen {cfg : Config} {p : State × History} (hp : Observed cfg p) :
    FlagsSeen p.1.tables p.2 :=
  hp.invariant (fun _ => by simp [History.start, Tables.start])
    (fun _ _ _ _ hobs hstep hf => flagsSeen_step hobs hstep hf)

end Flags

section Open
variable {cfg : Config} {t u : Tables} {h : History} {b : Mem} {j : Fin maxClntCnt}

theorem OpenKept.same {h' : History} (ho : OpenKept t h) (hc : u.clntList = t.clntList)
    (hs : h'.session = h.session) (hclnt : h'.clntFin = h.clntFin)
    (hserv : h'.servFin = h.servFin) : OpenKept u h' := by
  intro j c
  rw [hs, hclnt, hserv, hc]
  exact ho j c

theorem OpenKept.clientSegment (hm : SessionsMatch cfg t h) (ho : OpenKept t h)
    (hport : findPort t.clntList b = some j) (hc : u.clntList = t.clntList) :
    OpenKept u (h.clientSegment t u b j) := by
  intro k c hs hopen
  rw [hc]
  replace hs : h.session k = some c := hs
  by_cases hk : k = j
  · subst hk
    by_cases hboth : h.clntFin k = true ∧ h.servFin k = true
    · have hfrom : h.fromItsClient b k = true := by
        cases hfrom : h.fromItsClient b k with
        | true => rfl
        | false => exact absurd (by simp [History.clientSegment, hfrom, hboth]) hopen
      have hclient : c.client = clientOf b := by
        rw [History.fromItsClient, hs] at hfrom
        simpa using hfrom
      have hne : tcpSource b ≠ 0 := by
        have := (hm.admitted k c hs).1
        rw [hclient] at this
        exact this
      obtain ⟨c', hc', hnode⟩ := hm.occupied k (findPort_occupied hport hne)
      have hcc : c' = c := Option.some.inj (hc'.symm.trans hs)
      rw [hnode, hcc]
      exact ⟨rfl, rfl⟩
    · exact ho k c hs hboth
  · refine ho k c hs ?_
    simpa [History.clientSegment, hk] using hopen

theorem OpenKept.serverSegment (ho : OpenKept t h) (hc : u.clntList = t.clntList) :
    OpenKept u (h.serverSegment t b j) := by
  intro k c hs hopen
  rw [hc]
  rw [(serverSegment_same h t b j).1] at hs
  refine ho k c hs (fun hboth => hopen ?_)
  unfold History.serverSegment
  split
  · by_cases hk : k = j
    · subst hk
      simp [hboth]
    · simp [hk, hboth]
  · exact hboth

theorem OpenKept.admission {now : BitVec 32} {i : Fin maxServCnt} {recent : Int}
    (ho : OpenKept t h) :
    OpenKept (admitTables cfg t b now j i recent)
      ((h.admission t b now j i).clientSegment t (admitTables cfg t b now j i recent) b j) := by
  intro k c hs hopen
  by_cases hk : k = j
  · subst hk
    simp only [History.clientSegment, History.admission, Function.update_self] at hs
    cases hs
    rw [admitTables_clntList, Function.update_self]
    exact ⟨rfl, rfl⟩
  · simp only [History.clientSegment, History.admission, Function.update_of_ne hk] at hs hopen
    rw [admitTables_clntList, Function.update_of_ne hk]
    exact ho k c hs hopen

theorem OpenKept.release {i : Fin maxServCnt} (ho : OpenKept t h) (htype : checkType b = .ack)
    (hboth : h.clntFin j = true ∧ h.servFin j = true) :
    OpenKept (releaseClnt t i j) (h.clientSegment t (releaseClnt t i j) b j) := by
  intro k c hs hopen
  by_cases hk : k = j
  · subst hk
    exact absurd (by simp [History.clientSegment, htype, hboth]) hopen
  · have hs : h.session k = some c := hs
    rw [releaseClnt_clntList, Function.update_of_ne hk]
    exact ho k c hs (by simpa [History.clientSegment, hk] using hopen)

theorem OpenKept.close {w : Tables} {i : Fin maxServCnt} (ho : OpenKept t h)
    (ht : SameButUsage t w) (hu : Closed w i u) : OpenKept u (h.close t i) := by
  intro j c hs hopen
  simp only [History.close] at hs hopen
  split at hs
  · simp at hs
  · rename_i ha
    have ha' : ¬w.assigned i j := by
      rw [Tables.assigned, ht.forwardingTable]
      exact ha
    rw [hu.clntList, if_neg ha', ht.clntList]
    exact ho j c hs hopen

theorem openKept_step {s : State} {l : Step} (hp : Observed cfg (s, h))
    (hok : ClosesProperly cfg s h l.event) (hstep : TablesStep cfg s l u)
    (ho : OpenKept s.tables h) : OpenKept u (h.look s l u) := by
  have hm : SessionsMatch cfg s.tables h := hp.sessionsMatch
  have hf : FlagsSeen s.tables h := hp.flagsSeen
  cases hstep with
  | denied => exact ho
  | joined i node _ _ _ hu => exact ho.same hu.clntList rfl rfl rfl
  | health hu => exact ho.same hu.clntList rfl rfl rfl
  | closed t i hfind _ ht hu =>
    rw [look_closed h s u hfind]
    exact ho.close ht hu
  | packet hpkt =>
    cases hpkt with
    | ignored => exact ho
    | unknown => exact ho
    | admitted j i recent _ _ _ _ _ _ _ _ _ =>
      rw [look_admitted]
      exact ho.admission
    | forwarded j i _ _ _ hport _ _ _ =>
      rw [look_forwarded]
      exact ho.clientSegment hm hport (markIf_clntList ..)
    | released j i _ hdir hserv hport _ htype hflag _ =>
      rw [look_released]
      exact ho.release htype (hok ⟨hdir, hserv⟩ htype j hport ((hf j).mpr hflag))
    | relayed j _ _ _ _ _ _ =>
      rw [look_relayed]
      exact ho.serverSegment (markIf_clntList ..)
    | relayReleased j i _ _ _ _ hassigned _ hflag _ =>
      exact absurd hflag (hp.reachable.sound.tables.flag_ne_of_assigned hassigned)

end Open

end LoadBalancer
