import IotLab.LoadBalancer.Rewrite
import IotLab.LoadBalancer.Sessions

set_option autoImplicit false

namespace LoadBalancer
open SlotTable HostMemory

structure ServListNode.Same (m n : ServListNode) : Prop where
  sock : n.sock = m.sock
  ip : n.ip = m.ip
  port : n.port = m.port

theorem ServListNode.Same.refl (m : ServListNode) : m.Same m := ⟨rfl, rfl, rfl⟩

structure Instance.Present (v : Instance) (t : Tables) (h : History) : Prop where
  live : t.live v.id
  registered : h.registered v.id = v.serial
  sock : (t.servList v.id).sock = v.sock
  ip : (t.servList v.id).ip = v.ip
  port : (t.servList v.id).port = v.port

/-- Live servers are registered under old numbers, and the session of an occupied slot leads
to its server. -/
structure AffinityKept (t : Tables) (h : History) : Prop where
  numbered : ∀ i, t.live i → h.registered i < h.joins
  server : ∀ j c v, t.occupied j → h.session j = some c → c.server = some v →
    t.assigned v.id j ∧ v.Present t h

section Keep
variable {t u : Tables} {h h' : History} {v : Instance}

theorem Instance.Present.keep (hv : v.Present t h)
    (hnode : (t.servList v.id).Same (u.servList v.id))
    (hr : h'.registered v.id = h.registered v.id) : v.Present u h' := by
  refine ⟨?_, hr.trans hv.registered, hnode.sock.trans hv.sock, hnode.ip.trans hv.ip,
    hnode.port.trans hv.port⟩
  rw [Tables.live, hnode.sock]
  exact hv.live

theorem instanceAt_present {i : Fin maxServCnt} (hv : h.instanceAt t i = some v) :
    v.id = i ∧ v.Present t h := by
  rw [instanceAt_coe] at hv
  split at hv
  · rename_i hlive
    cases hv
    exact ⟨rfl, hlive, rfl, rfl, rfl, rfl⟩
  · contradiction

theorem AffinityKept.keep (ha : AffinityKept t h)
    (hnode : ∀ i, (t.servList i).Same (u.servList i))
    (hpair : ∀ j, u.occupied j → t.occupied j ∧
      (u.forwardingTable j).1 = (t.forwardingTable j).1)
    (hs : h'.session = h.session) (hr : h'.registered = h.registered)
    (hj : h'.joins = h.joins) : AffinityKept u h' := by
  constructor
  · intro i hi
    rw [Tables.live, (hnode i).sock] at hi
    rw [hr, hj]
    exact ha.numbered i hi
  · intro j c v hocc hc hv
    rw [hs] at hc
    obtain ⟨ho, hp⟩ := hpair j hocc
    obtain ⟨hassigned, hpresent⟩ := ha.server j c v ho hc hv
    exact ⟨hp.trans hassigned, hpresent.keep (hnode v.id) (by rw [hr])⟩

theorem AffinityKept.join {i : Fin maxServCnt} {node : ServListNode} (ha : AffinityKept t h)
    (hdead : ¬t.live i) (hu : Joined t i node u) : AffinityKept u (h.register i) := by
  constructor
  · intro k hk
    by_cases hki : k = i
    · subst hki
      simp [History.register]
    · rw [Tables.live, hu.servList, Function.update_of_ne hki] at hk
      simp only [History.register, Function.update_of_ne hki]
      exact Nat.lt_succ_of_lt (ha.numbered k hk)
  · intro j c v hocc hc hv
    rw [Tables.occupied, hu.clntList] at hocc
    obtain ⟨hassigned, hpresent⟩ := ha.server j c v hocc hc hv
    -- A session's server is live, so it is not in the slot that is given out.
    have hki : v.id ≠ i := fun hki => hdead (hki ▸ hpresent.live)
    refine ⟨by rw [Tables.assigned, hu.forwardingTable]; exact hassigned,
      hpresent.keep ?_ (Function.update_of_ne hki ..)⟩
    rw [hu.servList, Function.update_of_ne hki]
    exact .refl _

theorem AffinityKept.close {w : Tables} {i : Fin maxServCnt} (ha : AffinityKept t h)
    (ht : SameButUsage t w) (hu : Closed w i u) : AffinityKept u (h.close t i) := by
  constructor
  · intro k hk
    have hki := hu.ne_of_live hk
    rw [Tables.live, hu.servList, Function.update_of_ne hki, ht.servList] at hk
    exact ha.numbered k hk
  · intro j c v hocc hc hv
    obtain ⟨ho, hnot⟩ := (closed_occupied hu j).mp hocc
    rw [Tables.occupied, ht.clntList] at ho
    have hnot' : ¬t.assigned i j := by
      rw [Tables.assigned, ← ht.forwardingTable]
      exact hnot
    simp only [History.close, if_neg hnot'] at hc
    obtain ⟨hassigned, hpresent⟩ := ha.server j c v ho hc hv
    have hki : v.id ≠ i := fun hki => hnot' (hki ▸ hassigned)
    refine ⟨?_, hpresent.keep ?_ rfl⟩
    · rw [Tables.assigned, hu.forwardingTable, if_neg hnot, ht.forwardingTable]
      exact hassigned
    · rw [hu.servList, Function.update_of_ne hki, ht.servList v.id]
      exact ⟨rfl, rfl, rfl⟩

theorem AffinityKept.admission {cfg : Config} {b : Mem} {now : BitVec 32} {j : Fin maxClntCnt}
    {i : Fin maxServCnt} {recent : Int} (ha : AffinityKept t h)
    (hsrc : (tcpSource b).toNat ≠ 0) :
    AffinityKept (admitTables cfg t b now j i recent) (h.admission t b now j i) := by
  constructor
  · intro k hk
    rw [Tables.live, admitTables_servList] at hk
    exact ha.numbered k hk
  · intro k c v hocc hc hv
    simp only [History.admission] at hc
    by_cases hkj : k = j
    · subst hkj
      rw [Function.update_self] at hc
      cases hc
      obtain ⟨rfl, hpresent⟩ := instanceAt_present hv
      refine ⟨by simp [Tables.assigned, admitTables_forwarding], hpresent.keep ?_ rfl⟩
      rw [admitTables_servList]
      exact ⟨rfl, rfl, rfl⟩
    · rw [Function.update_of_ne hkj] at hc
      have ho := ((occupied_admitted hsrc k).mp hocc).resolve_left hkj
      obtain ⟨hassigned, hpresent⟩ := ha.server k c v ho hc hv
      refine ⟨?_, hpresent.keep ?_ rfl⟩
      · rw [Tables.assigned, admitTables_forwarding, Function.update_of_ne hkj]
        exact hassigned
      · rw [admitTables_servList]
        exact ⟨rfl, rfl, rfl⟩

end Keep

theorem affinityKept_step {cfg : Config} {s : State} {h : History} {l : Step} {u : Tables}
    (hp : Observed cfg (s, h)) (hstep : TablesStep cfg s l u)
    (ha : AffinityKept s.tables h) : AffinityKept u (h.look s l u) := by
  cases hstep with
  | denied => exact ha
  | joined i node hdead _ _ hu => exact ha.join hdead hu
  | health hu =>
    refine ha.keep (fun i => ?_) (fun j hj => ?_) rfl rfl rfl
    · rw [hu.servList i]
      exact ⟨rfl, rfl, rfl⟩
    · rw [Tables.occupied, hu.clntList] at hj
      exact ⟨hj, by rw [hu.forwardingTable]⟩
  | closed t i hfind _ ht hu =>
    rw [look_closed h s u hfind]
    exact ha.close ht hu
  | packet hpkt =>
    have hnode (i : Fin maxServCnt) : (s.tables.servList i).Same (u.servList i) := by
      rw [hpkt.servList i]
      exact ⟨rfl, rfl, rfl⟩
    cases hpkt with
    | ignored => exact ha
    | unknown => exact ha
    | admitted j i recent _ _ _ hport _ _ hfree _ _ =>
      rw [look_admitted]
      exact (ha.admission (admitted_port_ne hport hfree)).keep (fun _ => .refl _)
        (fun _ hk => ⟨hk, rfl⟩) rfl rfl rfl
    | forwarded j i _ _ _ _ _ _ _ =>
      rw [look_forwarded]
      exact ha.keep hnode (fun k hk => ⟨by simpa using hk, markIf_serv ..⟩) rfl rfl rfl
    | released j i _ _ _ _ _ _ _ _ =>
      rw [look_released]
      exact ha.keep hnode (fun k hk => ⟨((occupied_release j k).mp hk).2, rfl⟩) rfl rfl rfl
    | relayed j _ _ _ _ _ _ =>
      rw [look_relayed]
      obtain ⟨hsession, _, _, hreg, hjoins, _⟩ := serverSegment_same h s.tables _ j
      exact ha.keep hnode (fun k hk => ⟨by simpa using hk, markIf_serv ..⟩) hsession hreg hjoins
    | relayReleased j i _ _ _ _ hassigned _ hflag _ =>
      exact absurd hflag (hp.reachable.sound.tables.flag_ne_of_assigned hassigned)

theorem Observed.affinityKept {cfg : Config} {p : State × History} (hp : Observed cfg p) :
    AffinityKept p.1.tables p.2 :=
  hp.invariant ⟨fun _ hi => absurd rfl hi, fun _ _ _ hj => absurd rfl hj⟩
    (fun _ _ _ _ hobs hstep ha => affinityKept_step hobs hstep ha)

theorem closeServer_sent {t : Tables} {i : Fin maxServCnt} {call : Sent} :
    .sent call ∉ (closeServer t i).2 := by
  simp [closeServer]

section Forward
variable {cfg : Config} {t u : Tables} {h : History} {b b' : Mem} {j : Fin maxClntCnt}
  {i : Fin maxServCnt} {c : Session} {v : Instance}

theorem sent_endpoint {w : Tables} (hnat : nat w b j i cfg.lbaddr .clnt2serv = .ok b')
    (hnode : (w.servList i).Same (t.servList i)) :
    ipDaddr b' = (t.servList i).ip ∧ tcpDest b' = (t.servList i).port := by
  have hend := nat_clnt2serv_endpoints hnat
  exact ⟨(congrArg Endpoints.daddr hend).trans hnode.ip.symm,
    (congrArg Endpoints.dest hend).trans hnode.port.symm⟩

theorem AffinityKept.forward (ha : AffinityKept t h)
    (hu : u.clntList j = t.clntList j ∨ u.clntList j = .zero)
    (hocc : (usedEntry t u j).port ≠ 0) (hc : h.session j = some c) (hv : c.server = some v)
    (hassigned : t.assigned i j) (hnat : nat t b j i cfg.lbaddr .clnt2serv = .ok b') :
    (i.val : Int) = v.id ∧ v.Present t h ∧ ipDaddr b' = v.ip ∧ tcpDest b' = v.port := by
  have hj : t.occupied j := by
    intro hj
    rw [usedEntry, if_neg (fun ho => ho hj)] at hocc
    rcases hu with hu | hu
    · rw [hu] at hocc
      exact hocc hj
    · rw [hu] at hocc
      exact hocc rfl
  obtain ⟨hv', hpresent⟩ := ha.server j c v hj hc hv
  have hi : i = v.id := Fin.ext (by omega)
  subst hi
  obtain ⟨hip, hport⟩ := sent_endpoint hnat (.refl _)
  exact ⟨rfl, hpresent, hip.trans hpresent.ip, hport.trans hpresent.port⟩

end Forward

end LoadBalancer
