import IotLab.LoadBalancer.Counters

set_option autoImplicit false

namespace LoadBalancer
open SlotTable HostMemory

def Tables.FreePairs (t : Tables) : Prop :=
  ∀ j, ¬t.occupied j → t.forwardingTable j = (-1, -1)

structure Coherent (t : Tables) : Prop where
  occupied : ∀ j, t.occupied j → t.namesLive (t.forwardingTable j).1 ∧
    ((t.forwardingTable j).2 = 1 ∨ (t.forwardingTable j).2 = 2)
  free : ∀ j, ¬t.occupied j → t.forwardingTable j = (-1, -1)

theorem coherent_iff {t : Tables} (h : t.Sound) :
    Coherent t ↔ t.PairsLive ∧ t.FreePairs := by
  constructor
  · intro hc
    refine ⟨fun j hj => ?_, hc.free⟩
    obtain ⟨⟨i, hi, hlive⟩, _⟩ := hc.occupied j hj
    exact ⟨i, hi, hlive⟩
  · rintro ⟨hpairs, hfree⟩
    refine ⟨fun j hj => ⟨?_, (h.pair_occupied j hj).2⟩, hfree⟩
    obtain ⟨i, hi, hlive⟩ := hpairs j hj
    exact ⟨i, hi, hlive⟩

abbrev ClientPairsKept (cfg : Config) (t : Tables) (b : Mem) (minIndex : Int) : Prop :=
  fromClient cfg t b →
    (∀ j ∈ findPort t.clntList b, ¬(checkType b = .ack ∧ (t.forwardingTable j).2 = 1)) ∧
    SelectionSet cfg t b minIndex

abbrev ServerPairsKept (cfg : Config) (t : Tables) (b : Mem) : Prop :=
  fromServer cfg t b → checkType b = .fin → ∀ j ∈ findPseudoPort t.clntList b, t.occupied j

def PairsKept (cfg : Config) (s : State) : Event → Prop
  | .packet received _ minIndex =>
    let b := recvInto s.buf received
    ClientPairsKept cfg s.tables b minIndex ∧ ServerPairsKept cfg s.tables b
  | .join _ _ _ => True
  | .server _ _ _ _ => True

instance (cfg : Config) (s : State) : DecidablePred (PairsKept cfg s)
  | .packet received _ minIndex => @instDecidableAnd _ _
    (inferInstanceAs (Decidable (ClientPairsKept cfg s.tables _ minIndex)))
    (inferInstanceAs (Decidable (ServerPairsKept cfg s.tables (recvInto s.buf received))))
  | .join _ _ _ => inferInstanceAs (Decidable True)
  | .server _ _ _ _ => inferInstanceAs (Decidable True)

section FreePairs
variable {t u : Tables}

theorem Tables.FreePairs.markFin {j : Fin maxClntCnt} (hj : t.occupied j)
    (h : t.FreePairs) : (markFin t j).FreePairs := by
  intro k hk
  have hkj : k ≠ j := fun hkj => hk (hkj ▸ hj)
  simpa [LoadBalancer.markFin, hkj] using h k hk

theorem Tables.FreePairs.occupied_of_assigned {i : Fin maxServCnt} {j : Fin maxClntCnt}
    (h : t.FreePairs) (hassigned : t.assigned i j) : t.occupied j := by
  intro hj
  have hi : (t.forwardingTable j).1 = -1 := by rw [h j (by simpa using hj)]
  omega

theorem Tables.FreePairs.packet {cfg : Config} {b b' : Mem} {length : Int}
    {now : BitVec 32} {minIndex : Int} {out : List Output} {x : LoopExit} (hs : t.Sound)
    (hstep : PacketStep cfg t b length now minIndex u b' out x)
    (hok : ClientPairsKept cfg t b minIndex ∧ ServerPairsKept cfg t b) (h : t.FreePairs) :
    u.FreePairs := by
  cases hstep with
  | ignored => exact h
  | unknown => exact h
  | admitted j i recent _ _ _ hport _ _ hfree _ _ =>
    intro k hk
    rw [occupied_admitted (admitted_port_ne hport hfree)] at hk
    rw [not_or] at hk
    rw [admitTables_forwarding, Function.update_of_ne hk.1]
    exact h k hk.2
  | forwarded j i _ _ _ _ hassigned _ _ =>
    split
    · exact h.markFin (h.occupied_of_assigned hassigned)
    · exact h
  | released j i _ hdir hserv hport _ htype hflag _ =>
    exact absurd ⟨htype, hflag⟩ ((hok.1 ⟨hdir, hserv⟩).1 j hport)
  | relayed j _ hdir hserv hport _ _ =>
    split
    · rename_i hfin
      exact h.markFin (hok.2 ⟨hdir, hserv⟩ hfin j hport)
    · exact h
  | relayReleased j i _ _ _ _ hassigned _ hflag _ =>
    exact absurd hflag (hs.flag_ne_of_assigned hassigned)

theorem Tables.FreePairs.same (hc : u.clntList = t.clntList)
    (hf : u.forwardingTable = t.forwardingTable) (h : t.FreePairs) : u.FreePairs := by
  intro j hj
  rw [Tables.occupied, hc] at hj
  rw [hf]
  exact h j hj

theorem Tables.FreePairs.close {i : Fin maxServCnt} (h : t.FreePairs) (hu : Closed t i u) :
    u.FreePairs := by
  intro j hj
  rw [hu.forwardingTable]
  split
  · rfl
  · rename_i ha
    exact h j (fun ho => hj ((closed_occupied hu j).mpr ⟨ho, ha⟩))

end FreePairs

theorem coherent_step {cfg : Config} {s : State} {l : Step} {u : Tables} (hs : s.Sound)
    (hok : PairsKept cfg s l.event) (hstep : TablesStep cfg s l u)
    (h : s.tables.PairsLive ∧ s.tables.FreePairs) : u.PairsLive ∧ u.FreePairs := by
  obtain ⟨hpairs, hfree⟩ := h
  cases hstep with
  | denied => exact ⟨hpairs, hfree⟩
  | joined i node _ hsock _ hu =>
    exact ⟨hpairs.join hsock hu, hfree.same hu.clntList hu.forwardingTable⟩
  | packet hpkt =>
    exact ⟨hpkt.pairsLive hs.tables (fun hdir => (hok.1 hdir).2) hpairs,
      hfree.packet hs.tables hpkt hok⟩
  | health hu => exact ⟨hpairs.usage hu, hfree.same hu.clntList hu.forwardingTable⟩
  | closed t i _ _ ht hu =>
    exact ⟨(hpairs.usage ht).close hu,
      (hfree.same ht.clntList ht.forwardingTable).close hu⟩

end LoadBalancer
