import IotLab.LoadBalancer.Execution

set_option autoImplicit false

namespace LoadBalancer
open SlotTable HostMemory Fallible

def ReadResult.chunk : ReadResult → Option (List Byte)
  | .data r _ => some r.bytes
  | .failed => none

def chunks (reads : List ReadResult) : List (List Byte) := reads.filterMap ReadResult.chunk

def reported : Mem → List (List Byte) → List Int
  | _, [] => []
  | usage, c :: rest =>
    let usage := store usage 0 c
    (read32 usage 0).toInt :: reported usage rest

def Step.chunks (fd : Int) (l : Step) : List (List Byte) :=
  match l.event with
  | .server fd' reads _ _ => if fd' = fd then LoadBalancer.chunks reads else []
  | .join _ _ _ | .packet _ _ _ => []

def Step.reported (fd : Int) (l : Step) : List Int :=
  match l.event with
  | .server fd' reads _ stack =>
    if fd' = fd then LoadBalancer.reported stack (LoadBalancer.chunks reads) else []
  | .join _ _ _ | .packet _ _ _ => []

def Step.KeepsOpen (fd : Int) (l : Step) : Prop :=
  ∀ reads stack, l.event ≠ .server fd reads .eof stack

theorem findServer_eq {s : State} {fd : Int} {i : Fin maxServCnt} (hs : s.Sound)
    (hpos : 0 < fd) (hsock : (s.tables.servList i).sock = fd) :
    findServer s.tables fd = some i := by
  refine firstSlot_of_unique (by simpa using hsock) fun k hk => ?_
  have hk : (s.tables.servList k).sock = fd := by simpa using hk
  exact hs.sock_inj k i (hk.trans hsock.symm) (by rw [hk]; exact hpos)

section Checks
variable {t u : Tables} {i : Fin maxServCnt}

/-- The health checks of an event store the reported values one after the other. -/
theorem healthChecks_eq (i : Fin maxServCnt) (t : Tables) (usage : Mem)
    (reads : List ReadResult) :
    healthChecks (some i) t usage reads =
      .ok ((reported usage (chunks reads)).foldl (fun t v => setUsage t i v) t) := by
  induction reads generalizing t usage with
  | nil => rfl
  | cons r rest ih =>
    cases r with
    | failed => exact ih t usage
    | data r hr => exact ih (setUsage t i _) (store usage 0 r.bytes)

theorem setUsage_servList (t : Tables) (i : Fin maxServCnt) (v : Int) :
    (setUsage t i v).servList i = { t.servList i with resourceUsage := v } := by
  simp [setUsage]

theorem setUsage_fold (t : Tables) (i : Fin maxServCnt) (vs : List Int) :
    (vs.foldl (fun t v => setUsage t i v) t).servList i =
      { t.servList i with resourceUsage := vs.getLastD (t.servList i).resourceUsage } := by
  induction vs generalizing t with
  | nil => rfl
  | cons v vs ih => rw [List.foldl_cons, ih, setUsage_servList, List.getLastD_cons]

theorem healthChecks_other {serverId : Option (Fin maxServCnt)} {usage : Mem}
    {reads : List ReadResult} (hne : ∀ k, serverId = some k → i ≠ k)
    (h : healthChecks serverId t usage reads = .ok u) : u.servList i = t.servList i := by
  induction reads generalizing t usage with
  | nil =>
    cases h
    rfl
  | cons r rest ih =>
    cases r with
    | failed => exact ih h
    | data r hr =>
      obtain ⟨k, hk, h⟩ := bind_eq_ok.mp h
      cases serverId with
      | none => simp at hk
      | some k' =>
        rw [ih h]
        have hkk : k' = k := by simpa using hk
        exact Function.update_of_ne (hkk ▸ hne k' rfl) _ _

end Checks

section Run
variable {cfg : Config} {s s' : State} {l : Step} {ls : List Step} {fd : Int}
  {i : Fin maxServCnt}

theorem serverEvent_usage {reads : List ReadResult} {stack : Mem} {out : List Output}
    (hfind : findServer s.tables fd = some i)
    (h : serverEvent s fd reads .again stack = .ok (s', out)) :
    s'.tables.servList i = { s.tables.servList i with
      resourceUsage := (reported stack (chunks reads)).getLastD
        (s.tables.servList i).resourceUsage } := by
  simp only [serverEvent, hfind, healthChecks_eq, bind, Except.bind] at h
  cases h
  exact setUsage_fold s.tables i _

theorem serverEvent_other {fd' : Int} {reads : List ReadResult} {ending : ReadEnd}
    {stack : Mem} {out : List Output} (hsock : (s.tables.servList i).sock = fd)
    (hne : fd' ≠ fd) (h : serverEvent s fd' reads ending stack = .ok (s', out)) :
    s'.tables.servList i = s.tables.servList i := by
  have hother (k : Fin maxServCnt) (hk : findServer s.tables fd' = some k) : i ≠ k := by
    rintro rfl
    exact hne ((findServer_some hk).symm.trans hsock)
  unfold serverEvent at h
  obtain ⟨t, ht, h⟩ := bind_eq_ok.mp h
  have hkeep := healthChecks_other hother ht
  cases ending with
  | again =>
    cases h
    exact hkeep
  | eof =>
    obtain ⟨k, hk, h⟩ := bind_eq_ok.mp h
    have hki : findServer s.tables fd' = some k := by
      cases hf : findServer s.tables fd' with
      | none => simp [hf] at hk
      | some k' => simpa [hf] using hk
    cases h
    dsimp only
    rw [(closeServer_closed t k).servList, Function.update_of_ne (hother k hki), hkeep]

theorem health_step (hs : s.Sound) (hfd : fd ∈ s.watched) (reads : List ReadResult)
    (stack : Mem) :
    ∃ s', (system cfg).step s ⟨.server fd reads .again stack, [], .next⟩ s' := by
  obtain ⟨i, hi⟩ := hs.watched_live fd hfd
  have hfind := findServer_eq hs (hs.watched_pos fd hfd) hi
  have hrun : ∃ t, healthChecks (findServer s.tables fd) s.tables stack reads = .ok t :=
    ⟨_, by rw [hfind, healthChecks_eq]⟩
  obtain ⟨t, ht⟩ := hrun
  refine ⟨{ s with tables := t }, hfd, ?_⟩
  simp only [handle, serverEvent, ht, bind, Except.bind]

theorem usage_stored (hs : s.Sound) (hfd : fd ∈ s.watched)
    (hsock : (s.tables.servList i).sock = fd) (hopen : l.KeepsOpen fd)
    (hstep : (system cfg).step s l s') :
    (s'.tables.servList i).sock = fd ∧ (s'.tables.servList i).resourceUsage =
      (l.reported fd).getLastD (s.tables.servList i).resourceUsage := by
  have hpos := hs.watched_pos fd hfd
  have htables := hs.tablesStep hstep
  obtain ⟨event, out, x⟩ := l
  cases event with
  | join accepted port stack =>
    generalize s'.tables = u at htables ⊢
    cases htables with
    | denied => exact ⟨hsock, rfl⟩
    | joined k node hdead _ _ hu =>
      have hik : i ≠ k := by
        rintro rfl
        exact hdead (by rw [Tables.live]; omega)
      rw [hu.servList, Function.update_of_ne hik]
      exact ⟨hsock, rfl⟩
  | packet received now minIndex =>
    generalize s'.tables = u at htables ⊢
    cases htables with
    | packet hpkt =>
      rw [hpkt.servList]
      exact ⟨hsock, rfl⟩
  | server fd' reads ending stack =>
    have hrun := (handle_server hstep.2).1
    by_cases hf : fd' = fd
    · subst hf
      cases ending with
      | eof => exact absurd rfl (hopen reads stack)
      | again =>
        rw [serverEvent_usage (findServer_eq hs hpos hsock) hrun]
        simp [Step.reported, hsock]
    · rw [serverEvent_other hsock hf hrun]
      simp [Step.reported, hf, hsock]

theorem usage_step (hs : s.Sound) (hfd : fd ∈ s.watched)
    (hsock : (s.tables.servList i).sock = fd) (hopen : l.KeepsOpen fd)
    (hstep : (system cfg).step s l s') :
    fd ∈ s'.watched ∧ (s'.tables.servList i).sock = fd ∧
      (s'.tables.servList i).resourceUsage =
        (l.reported fd).getLastD (s.tables.servList i).resourceUsage := by
  have hpos := hs.watched_pos fd hfd
  obtain ⟨hsock', husage⟩ := usage_stored hs hfd hsock hopen hstep
  have hlive : s'.tables.live i := by
    rw [Tables.live, hsock']
    omega
  refine ⟨?_, hsock', husage⟩
  rcases (hs.step hstep).sock_watched i hlive with h | h
  · omega
  · rwa [hsock'] at h

theorem usage_run (hs : Reachable cfg s) (hfd : fd ∈ s.watched)
    (hsock : (s.tables.servList i).sock = fd)
    (hrun : Transitions.Run ((system cfg).restrict fun _ l => l.KeepsOpen fd) s ls s') :
    (s'.tables.servList i).resourceUsage =
      (ls.flatMap (Step.reported fd)).getLastD (s.tables.servList i).resourceUsage := by
  induction hrun with
  | nil => rfl
  | cons hst _ ih =>
    obtain ⟨hopen, hstep⟩ := hst
    obtain ⟨hfd', hsock', husage⟩ := usage_step hs.sound hfd hsock hopen hstep
    rw [ih (.step hs hstep) hfd' hsock', husage, List.flatMap_cons]
    simp

end Run

def sentBytes (sent : List (BitVec 32)) : List Byte := sent.flatMap bytes32

theorem prefix_of_flatten {α : Type} {n : Nat} {xs ys : List (List α)} (hn : 0 < n)
    (hxs : ∀ x ∈ xs, x.length = n) (hys : ∀ y ∈ ys, y.length = n)
    (h : xs.flatten <+: ys.flatten) : xs <+: ys := by
  induction xs generalizing ys with
  | nil => exact List.nil_prefix
  | cons x xs ih =>
    have hx := hxs x (List.mem_cons_self ..)
    obtain ⟨rest, hrest⟩ := h
    cases ys with
    | nil =>
      have hlen := congrArg List.length hrest
      simp only [List.flatten_cons, List.flatten_nil, List.length_append, List.length_nil] at hlen
      omega
    | cons y ys =>
      rw [List.flatten_cons, List.flatten_cons, List.append_assoc] at hrest
      have hy := hys y (List.mem_cons_self ..)
      obtain ⟨rfl, hflat⟩ := List.append_inj hrest (hx.trans hy.symm)
      exact List.cons_prefix_cons.mpr ⟨rfl, ih (fun z hz => hxs z (List.mem_cons_of_mem _ hz))
        (fun z hz => hys z (List.mem_cons_of_mem _ hz)) ⟨rest, hflat⟩⟩

theorem reported_whole {usage : Mem} {pieces : List (List Byte)}
    (h : ∀ c ∈ pieces, c.length = 4) :
    reported usage pieces = pieces.map fun c => (word32 c).toInt := by
  induction pieces generalizing usage with
  | nil => rfl
  | cons c rest ih =>
    have hc := h c (List.mem_cons_self ..)
    rw [reported, List.map_cons, ih fun c hc => h c (List.mem_cons_of_mem _ hc),
      read32_store_self hc]

section Whole
variable {fd : Int} {ls : List Step} {sent : List (BitVec 32)}

theorem Step.reported_whole {l : Step} (h : ∀ c ∈ l.chunks fd, c.length = 4) :
    l.reported fd = (l.chunks fd).map fun c => (word32 c).toInt := by
  obtain ⟨event, out, x⟩ := l
  cases event with
  | join | packet => rfl
  | server fd' reads ending stack =>
    simp only [Step.chunks, Step.reported] at h ⊢
    split
    · rename_i hf
      rw [if_pos hf] at h
      exact LoadBalancer.reported_whole h
    · rfl

theorem reports_whole (h : ∀ c ∈ ls.flatMap (Step.chunks fd), c.length = 4) :
    ls.flatMap (Step.reported fd) =
      (ls.flatMap (Step.chunks fd)).map fun c => (word32 c).toInt := by
  rw [List.map_flatMap]
  refine List.flatMap_congr fun l hl => Step.reported_whole fun c hc => ?_
  exact h c (List.mem_flatMap.mpr ⟨l, hl, hc⟩)

end Whole

/-- Over every run in which `fd` stays open and its reads return the sizes of `cut`, whatever
ints are sent: a value stored in the usage was sent, and when all the bytes have been read,
the usage is the last int. -/
def ReportsFramed (cfg : Config) (s : State) (fd : Int) (cut : List Nat) : Prop :=
  ∀ ls s' sent, Transitions.Run ((system cfg).restrict fun _ l => l.KeepsOpen fd) s ls s' →
    (ls.flatMap (Step.chunks fd)).map List.length = cut →
    (ls.flatMap (Step.chunks fd)).flatten <+: sentBytes sent →
      (∀ v ∈ ls.flatMap (Step.reported fd), v ∈ sent.map BitVec.toInt) ∧
      ((ls.flatMap (Step.chunks fd)).flatten = sentBytes sent →
        ∀ i w, (s.tables.servList i).sock = fd → sent.getLast? = some w →
          (s'.tables.servList i).resourceUsage = w.toInt)

theorem framed_of_whole {cfg : Config} {s : State} {fd : Int} {cut : List Nat}
    (hs : Reachable cfg s) (hfd : fd ∈ s.watched) (hcut : ∀ n ∈ cut, n = 4) :
    ReportsFramed cfg s fd cut := by
  intro ls s' sent hrun hlen hsent
  have hwhole : ∀ c ∈ ls.flatMap (Step.chunks fd), c.length = 4 := fun c hc =>
    hcut _ (hlen ▸ List.mem_map_of_mem hc)
  have hwords : ∀ c ∈ sent.map bytes32, c.length = 4 := by simp
  have hpre : ls.flatMap (Step.chunks fd) <+: sent.map bytes32 :=
    prefix_of_flatten (by decide) hwhole hwords hsent
  have hvalues (sent : List (BitVec 32)) :
      ((sent.map bytes32).map fun c => (word32 c).toInt) = sent.map BitVec.toInt := by
    simp [Function.comp_def]
  rw [reports_whole hwhole]
  constructor
  · intro v hv
    rw [← hvalues]
    exact (hpre.map _).subset hv
  · intro hall i w hi hw
    have hpre' : sent.map bytes32 <+: ls.flatMap (Step.chunks fd) :=
      prefix_of_flatten (by decide) hwords hwhole ⟨[], by rw [hall, List.append_nil]; rfl⟩
    rw [usage_run hs hfd hi hrun, reports_whole hwhole, hpre.eq_of_length_le hpre'.length_le,
      hvalues, List.getLastD_eq_getLast?, List.getLast?_map, hw]
    rfl

section Short

def sameByte (c : Bool) : Byte := if c then 1 else 2

def sameWord (c : Bool) : BitVec 32 := if c then 0x01010101 else 0x02020202

theorem bytes32_sameWord (c : Bool) : bytes32 (sameWord c) = List.replicate 4 (sameByte c) := by
  cases c <;> decide

theorem sameByte_bit (c : Bool) : (sameByte c).getLsbD 0 = c := by cases c <;> rfl

theorem sameWord_bit (c : Bool) :
    (sameWord c).getLsbD 0 = c ∧ (sameWord c).getLsbD 24 = c := by cases c <;> decide

theorem short_read_mixes {usage : Mem} {c : Bool} {n : Nat} (hpos : 0 < n) (hlt : n < 4)
    (h : ∀ k < 4, usage k = sameByte !c) (c' : Bool) :
    read32 (store usage 0 (List.replicate n (sameByte c))) 0 ≠ sameWord c' := by
  generalize hm : store usage 0 (List.replicate n (sameByte c)) = m
  have hnew : m 0 = sameByte c := by
    rw [← hm, ← Nat.add_zero 0, store_of_inside (by simpa using hpos)]
    simp [hpos]
  have hold : m 3 = sameByte !c := by
    rw [← hm, store_of_outside (by simp only [List.length_replicate]; omega), h 3 (by decide)]
  have hlow : (read32 m 0).getLsbD 0 = c := by
    rw [← sameByte_bit c, ← hnew]
    simp only [read32, BitVec.getLsbD_append]
    rfl
  have hhigh : (read32 m 0).getLsbD 24 = !c := by
    rw [← sameByte_bit (!c), ← hold]
    simp only [read32, BitVec.getLsbD_append]
    rfl
  intro heq
  rw [heq, (sameWord_bit c').1] at hlow
  rw [heq, (sameWord_bit c').2, hlow] at hhigh
  cases c <;> contradiction

theorem replicates_prefix {α : Type} (x : α) {cut : List Nat} (h : ∀ n ∈ cut, n ≤ 4) :
    (cut.map fun n => List.replicate n x).flatten <+: List.replicate (4 * cut.length) x := by
  induction cut with
  | nil => exact List.nil_prefix
  | cons n cut ih =>
    have hn := h n (List.mem_cons_self ..)
    obtain ⟨rest, hrest⟩ := ih fun n hn => h n (List.mem_cons_of_mem _ hn)
    have hlen : 4 * (n :: cut).length = n + (4 * cut.length + (4 - n)) := by
      rw [List.length_cons]
      omega
    rw [hlen, List.replicate_add, List.replicate_add, ← hrest]
    exact ⟨rest ++ List.replicate (4 - n) x, by simp⟩

theorem sentBytes_replicate (k : Nat) (c : Bool) :
    sentBytes (List.replicate k (sameWord c)) = List.replicate (4 * k) (sameByte c) := by
  induction k with
  | zero => rfl
  | succ k ih =>
    rw [List.replicate_succ, sentBytes, List.flatMap_cons, bytes32_sameWord]
    rw [sentBytes] at ih
    rw [ih, List.replicate_append_replicate, Nat.mul_succ, Nat.add_comm]

/-- A cut with a short read somewhere: ints and chunks for which a value is stored that was
never sent. -/
theorem exists_mixed {cut : List Nat} {usage : Mem} {c : Bool}
    (hcut : ∀ n ∈ cut, 0 < n ∧ n ≤ 4) (hshort : ∃ n ∈ cut, n ≠ 4)
    (husage : ∀ k < 4, usage k = sameByte !c) :
    ∃ (pieces : List (List Byte)) (sent : List (BitVec 32)), pieces.map List.length = cut ∧
      pieces.flatten <+: sentBytes sent ∧ (∀ w ∈ sent, ∃ c, w = sameWord c) ∧
      ∃ v : BitVec 32, v.toInt ∈ reported usage pieces ∧ ∀ c, v ≠ sameWord c := by
  induction cut generalizing usage c with
  | nil => simp at hshort
  | cons n cut ih =>
    obtain ⟨hpos, hle⟩ := hcut n (List.mem_cons_self ..)
    have hcut' : ∀ n ∈ cut, 0 < n ∧ n ≤ 4 := fun n hn => hcut n (List.mem_cons_of_mem _ hn)
    by_cases hn : n = 4
    · subst hn
      have hshort' : ∃ n ∈ cut, n ≠ 4 := by simpa using hshort
      have hfull (k : Nat) (hk : k < 4) :
          store usage 0 (bytes32 (sameWord c)) k = sameByte !!c := by
        rw [bytes32_sameWord, ← Nat.zero_add k, store_of_inside (by simpa using hk),
          List.getD_eq_getElem?_getD, List.getElem?_replicate, if_pos hk, Bool.not_not]
        rfl
      obtain ⟨pieces, sent, hlen, hpre, hsent, v, hv, hne⟩ := ih hcut' hshort' hfull
      refine ⟨bytes32 (sameWord c) :: pieces, sameWord c :: sent, by simp [hlen], ?_, ?_, v,
        List.mem_cons_of_mem _ hv, hne⟩
      · exact (List.prefix_append_right_inj _).mpr hpre
      · intro w hw
        rcases List.mem_cons.mp hw with rfl | hw
        · exact ⟨c, rfl⟩
        · exact hsent w hw
    · refine ⟨(n :: cut).map fun n => List.replicate n (sameByte c),
        List.replicate (n :: cut).length (sameWord c), by simp [Function.comp_def], ?_, ?_, _,
        List.mem_cons_self .., short_read_mixes hpos (by omega) husage⟩
      · rw [sentBytes_replicate]
        exact replicates_prefix _ fun n hn => (hcut n hn).2
      · intro w hw
        exact ⟨c, List.eq_of_mem_replicate hw⟩

theorem exists_reads {pieces : List (List Byte)}
    (h : ∀ c ∈ pieces, 0 < c.length ∧ c.length ≤ 4) : ∃ reads, chunks reads = pieces := by
  induction pieces with
  | nil => exact ⟨[], rfl⟩
  | cons c pieces ih =>
    obtain ⟨hpos, hle⟩ := h c (List.mem_cons_self ..)
    obtain ⟨reads, hreads⟩ := ih fun c hc => h c (List.mem_cons_of_mem _ hc)
    refine ⟨.data ⟨c, hle⟩ (List.ne_nil_of_length_pos hpos) :: reads, ?_⟩
    rw [← hreads]
    rfl

end Short

/-- The reports stay apart exactly when every read returns a whole int. -/
theorem reports_framed_iff {cfg : Config} {s : State} {fd : Int} {cut : List Nat}
    (hs : Reachable cfg s) (hfd : fd ∈ s.watched) (hcut : ∀ n ∈ cut, 0 < n ∧ n ≤ 4) :
    ReportsFramed cfg s fd cut ↔ ∀ n ∈ cut, n = 4 := by
  refine ⟨fun h => ?_, framed_of_whole hs hfd⟩
  by_contra hshort
  push Not at hshort
  obtain ⟨pieces, sent, hlen, hpre, hsent, v, hv, hne⟩ :=
    @exists_mixed cut (fun _ => sameByte false) true hcut hshort fun _ _ => rfl
  obtain ⟨reads, hreads⟩ := @exists_reads pieces fun c hc =>
    hcut _ (hlen ▸ List.mem_map_of_mem hc)
  let stack : Mem := fun _ => sameByte false
  let l : Step := ⟨.server fd reads .again stack, [], .next⟩
  obtain ⟨s', hstep⟩ : ∃ s', (system cfg).step s l s' := health_step hs.sound hfd reads stack
  have hrun : Transitions.Run ((system cfg).restrict fun _ l => l.KeepsOpen fd) s [l] s' :=
    .cons ⟨fun _ _ => by simp [l], hstep⟩ (.nil s')
  have hchunks : [l].flatMap (Step.chunks fd) = pieces := by
    simp [l, Step.chunks, hreads]
  have hreported : [l].flatMap (Step.reported fd) = reported stack pieces := by
    simp [l, Step.reported, hreads]
  have hmem := (h [l] s' sent hrun (by rw [hchunks, hlen]) (by rw [hchunks]; exact hpre)).1
    v.toInt (by rw [hreported]; exact hv)
  obtain ⟨w, hw, hwv⟩ := List.mem_map.mp hmem
  obtain ⟨c, hc⟩ := hsent w hw
  exact hne c ((BitVec.toInt_inj.mp hwv).symm.trans hc)

theorem demo_joined : ∃ s, Executes demoConfig anyStep demoStart [demoJoin] s ∧
    Reachable demoConfig s ∧ 7 ∈ s.watched := by
  obtain ⟨s, hrun, hfd⟩ := @executes_of_endsIn demoConfig anyStep _
    (fun s => decide (7 ∈ s.watched)) demoStart [demoJoin] (by decide +kernel)
  exact ⟨s, hrun, hrun.reachable.reachable, of_decide_eq_true hfd⟩

theorem reports_framed_two : ∃ s, Reachable demoConfig s ∧ 7 ∈ s.watched ∧
    ReportsFramed demoConfig s 7 [4, 4] := by
  obtain ⟨s, -, hs, hfd⟩ := demo_joined
  exact ⟨s, hs, hfd, (reports_framed_iff hs hfd (by decide)).mpr (by decide)⟩

/-- The server sends 0x01010101, which arrives two bytes at a time. -/
theorem half_reports : ∃ s, Executes demoConfig anyStep demoStart [demoJoin] s ∧
    ∃ l s', (system demoConfig).step s l s' ∧ l.KeepsOpen 7 ∧
      (l.chunks 7).flatten = sentBytes [0x01010101] ∧
      l.reported 7 = [0x0101, 0x0101] ∧ ¬ReportsFramed demoConfig s 7 [2, 2] := by
  obtain ⟨s, hrun, hs, hfd⟩ := demo_joined
  let half : ReadResult := .data ⟨[1, 1], by decide⟩ (by decide)
  let l : Step := ⟨.server 7 [half, half] .again (fun _ => 0), [], .next⟩
  obtain ⟨s', hstep⟩ : ∃ s', (system demoConfig).step s l s' := health_step hs.sound hfd _ _
  have hopen : l.KeepsOpen 7 := fun _ _ => by simp [l]
  refine ⟨s, hrun, l, s', hstep, hopen, rfl, by decide, fun hframed => ?_⟩
  have hvalues := (hframed [l] s' [0x01010101] (.cons ⟨hopen, hstep⟩ (.nil s')) rfl
    (List.prefix_refl _)).1 0x0101 (by decide)
  exact absurd hvalues (by decide)

end LoadBalancer
