import IotLab.LoadBalancer.StaleBuffer

set_option autoImplicit false

namespace LoadBalancer
open SlotTable HostMemory

inductive Change where
  | keep
  | mark
  | release (i : Fin maxServCnt)

def Change.apply (t : Tables) (j : Fin maxClntCnt) : Change → Tables
  | .keep => t
  | .mark => markFin t j
  | .release i => releaseClnt t i j

/-- The change made by a segment, by its direction, its type and the close flag of its slot. -/
def segmentChange (dir : Direction) (type : TcpType) (flag : Int) (i : Fin maxServCnt) : Change :=
  if type = .fin then .mark
  else if dir = .clnt2serv ∧ type = .ack ∧ flag = 1 then .release i
  else .keep

def findSlot (t : Tables) (b : Mem) : Direction → Option (Fin maxClntCnt)
  | .clnt2serv => findPort t.clntList b
  | .serv2clnt => findPseudoPort t.clntList b

def segmentEnds (i : Fin maxServCnt) (j : Fin maxClntCnt) : Direction → Int × Int
  | .clnt2serv => (j, i)
  | .serv2clnt => (i, j)

def segmentAddr (t : Tables) (i : Fin maxServCnt) (b' : Mem) : Direction → SockaddrIn
  | .clnt2serv => (t.servList i).sockAdr
  | .serv2clnt => ⟨afInet, tcpDest b', ipDaddr b'⟩

/-- The packet in `b` is a segment between the client in slot `j` and its server `i`. -/
structure SegmentOf (cfg : Config) (t : Tables) (b : Mem) (dir : Direction)
    (i : Fin maxServCnt) (j : Fin maxClntCnt) : Prop where
  dir_eq : checkIpAndPort t.clntList b cfg.lbaddr = some dir
  servCnt_ne : t.servCnt ≠ 0
  found : findSlot t b dir = some j
  assigned : t.assigned i j
  flag_ne : (t.forwardingTable j).2 ≠ -1

/-- What a segment of another client leaves for client `k`: only the servers' client counts
may differ. -/
structure KeptFor (k : Fin maxClntCnt) (t u : Tables) : Prop where
  servCnt : u.servCnt = t.servCnt
  entry : u.clntList k = t.clntList k
  pair : u.forwardingTable k = t.forwardingTable k
  servList : ∀ i, u.servList i = { t.servList i with clntCnt := (u.servList i).clntCnt }

section Changes
variable {t : Tables} {i i' : Fin maxServCnt} {j k : Fin maxClntCnt}

theorem Change.keptFor (c : Change) (h : k ≠ j) : KeptFor k t (c.apply t j) := by
  cases c with
  | keep => exact ⟨rfl, rfl, rfl, fun _ => rfl⟩
  | mark => exact ⟨rfl, rfl, Function.update_of_ne h .., fun _ => rfl⟩
  | release i =>
    refine ⟨rfl, Function.update_of_ne h .., rfl, fun i' => ?_⟩
    rw [Change.apply, releaseClnt_servList]

@[simp] theorem Change.apply_servCnt (c : Change) : (c.apply t j).servCnt = t.servCnt := by
  cases c <;> rfl

theorem Change.live_iff (c : Change) : (c.apply t j).live i ↔ t.live i := by
  cases c with
  | keep => rfl
  | mark => rfl
  | release i' =>
    rw [Change.apply, Tables.live, releaseClnt_servList]

theorem Change.pair_serv (c : Change) :
    ((c.apply t j).forwardingTable k).1 = (t.forwardingTable k).1 := by
  cases c with
  | keep => rfl
  | mark => exact markFin_serv t j k
  | release i => rfl

theorem Change.entry_cases (c : Change) : (c.apply t j).clntList = t.clntList ∨
    (c.apply t j).clntList = Function.update t.clntList j .zero := by
  cases c with
  | keep => exact .inl rfl
  | mark => exact .inl rfl
  | release i => exact .inr rfl

theorem addClntCnt_comm (d d' : Int) :
    addClntCnt (addClntCnt t i d) i' d' = addClntCnt (addClntCnt t i' d') i d := by
  have hlist : (addClntCnt (addClntCnt t i d) i' d').servList =
      (addClntCnt (addClntCnt t i' d') i d).servList := by
    funext k
    simp only [addClntCnt_servList]
    ac_rfl
  exact congrArg (fun l => { t with servList := l }) hlist

theorem markFin_comm (h : j ≠ k) : markFin (markFin t j) k = markFin (markFin t k) j := by
  have hpairs : (markFin (markFin t j) k).forwardingTable =
      (markFin (markFin t k) j).forwardingTable := by
    simp only [markFin, Function.update_of_ne h, Function.update_of_ne h.symm]
    exact Function.update_comm h ..
  exact congrArg (fun f => { t with forwardingTable := f }) hpairs

theorem releaseClnt_comm (h : j ≠ k) :
    releaseClnt (releaseClnt t i j) i' k = releaseClnt (releaseClnt t i' k) i j := by
  have hservers : (releaseClnt (releaseClnt t i j) i' k).servList =
      (releaseClnt (releaseClnt t i' k) i j).servList :=
    show (addClntCnt (addClntCnt t i (-1)) i' (-1)).servList = _ by rw [addClntCnt_comm]; rfl
  have hentries : Function.update (Function.update t.clntList j .zero) k .zero =
      Function.update (Function.update t.clntList k .zero) j .zero :=
    Function.update_comm h ..
  exact congrArg₂ (fun l c => { t with
    servList := l
    clntList := c
    clntCnt := t.clntCnt - 1 - 1 }) hservers hentries

theorem Change.comm (c d : Change) (h : j ≠ k) :
    c.apply (d.apply t k) j = d.apply (c.apply t j) k := by
  cases c with
  | keep => rfl
  | mark =>
    cases d with
    | keep => rfl
    | mark => exact markFin_comm h.symm
    | release i => rfl
  | release i =>
    cases d with
    | keep => rfl
    | mark => rfl
    | release i' => exact releaseClnt_comm h.symm

end Changes

section Handling
variable {cfg : Config} {s : State} {received : Option (Received bufSize)} {now : BitVec 32}
  {minIndex : Int} {dir : Direction} {i : Fin maxServCnt} {j : Fin maxClntCnt}

theorem SegmentOf.handled (h : SegmentOf cfg s.tables (recvInto s.buf received) dir i j)
    (hfits : SegmentFits (recvInto s.buf received)) :
    ∃ s' out x, packet cfg s received now minIndex = .ok (s', out, x) ∧
      s'.tables = (segmentChange dir (checkType (recvInto s.buf received))
        (s.tables.forwardingTable j).2 i).apply s.tables j ∧
      nat s.tables (recvInto s.buf received) (segmentEnds i j dir).1 (segmentEnds i j dir).2
        cfg.lbaddr dir = .ok s'.buf ∧
      sentCalls out = [⟨dir, (segmentEnds i j dir).1, (segmentEnds i j dir).2, s'.buf,
        recvLength received, segmentAddr s.tables i s'.buf dir⟩] := by
  obtain ⟨hdir, hserv, hfound, hassigned, hflag⟩ := h
  cases dir with
  | clnt2serv =>
    obtain ⟨r, hr⟩ := @clnt2serv_known_total cfg s.tables _ (recvLength received) now minIndex
      hfits j i hfound hassigned
    have hrun : packet cfg s received now minIndex =
        .ok ({ s with tables := r.1, buf := r.2.1 }, r.2.2, .next) := by
      simp only [packet, hdir, if_neg hserv, hr, bind, Except.bind]
    obtain ⟨i', hi', hnat, ht, hsent⟩ := (packet_ok hrun).1.known ⟨hdir, hserv⟩ hfound
    obtain rfl : i' = i := Fin.ext (by omega)
    refine ⟨_, _, _, hrun, ?_, hnat, hsent⟩
    rw [ht, afterSegment, segmentChange]
    simp only [true_and]
    split
    · rfl
    · split <;> rfl
  | serv2clnt =>
    have hfound : findPseudoPort s.tables.clntList (recvInto s.buf received) = some j := hfound
    have hsafe : ReplySafe cfg s.tables (recvInto s.buf received) := by
      intro _ k hk hrel
      obtain rfl : k = j := Option.some.inj (hk.symm.trans hfound)
      exact hflag hrel.2
    obtain ⟨r, hr⟩ := @serv2clnt_total cfg s.tables _ (recvLength received) hfits ⟨hdir, hserv⟩
      hsafe
    have hrun : packet cfg s received now minIndex =
        .ok ({ s with tables := r.1, buf := r.2.1 }, r.2.2, .leave) := by
      simp only [packet, hdir, if_neg hserv, hr, bind, Except.bind]
    obtain ⟨_, hnat, ht, hsent⟩ :=
      (packet_ok hrun).1.replied (fun _ _ => hflag) ⟨hdir, hserv⟩ hfound
    rw [hassigned] at hnat hsent
    refine ⟨_, _, _, hrun, ?_, hnat, hsent⟩
    rw [ht, segmentChange]
    split
    · rfl
    · rw [if_neg (fun h => Direction.noConfusion h.1)]
      rfl

end Handling

end LoadBalancer
