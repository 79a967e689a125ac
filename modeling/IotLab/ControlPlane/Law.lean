import IotLab.ControlPlane.Enrolment
import Mathlib.Data.List.Chain

set_option autoImplicit false

namespace ControlPlane
open SlotTable HostMemory LoadBalancer

section Frames
variable {cfg : Config} {p p' : Plane} {b b' : Books} {n : Nat} {s s' : Process}

structure Apart (n : Nat) (p : Plane) (b : Books) (p' : Plane) (b' : Books) : Prop where
  server : p'.server n = p.server n
  up : p'.up n = p.up n
  down : p'.down n = p.down n
  stage : b'.stage n = b.stage n
  sent : b'.sent n = b.sent n
  got : b'.got n = b.got n

theorem Silent.frame (h : Silent p b n s) (ha : Apart n p b p' b') : Silent p' b' n s :=
  ⟨ha.server.trans h.server, h.algorithm, ha.up.trans h.up, ha.sent.trans h.sent,
    ha.got.trans h.got⟩

theorem Told.frame (h : Told cfg p n s) (ha : Apart n p b p' b') : Told cfg p' n s :=
  ⟨ha.server.trans h.server, h.algorithm, ha.down.trans h.down⟩

theorem Holds.same {node node' : ServListNode} {got : List (BitVec 32)} (h : Holds node s got)
    (he : SameEntry node node') : Holds node' s got :=
  ⟨he.ip.trans h.ip, he.port.trans h.port, he.usage.trans h.usage⟩

/-- What a stage says of a server that a move leaves alone still holds after it. -/
theorem Kept.frame (h : Kept cfg p b) (ha : Apart n p b p' b')
    (hwait : n ∈ p.waiting → n ∈ p'.waiting)
    (hreg : ∀ fd, p.registering = some (fd, n) → p'.registering = some (fd, n))
    (hentry : ∀ i, p.lb.tables.live i → b.stage n = .enrolled (p.lb.tables.servList i).sock →
      SameEntry (p.lb.tables.servList i) (p'.lb.tables.servList i)) :
    (b'.stage n).Means cfg p' b' n := by
  have hmeans := h.means n
  rw [ha.stage]
  cases hstage : b.stage n with
  | absent =>
    rw [hstage] at hmeans
    obtain ⟨hserver, hup, hdown, hsent, hgot⟩ := hmeans
    exact ⟨ha.server.trans hserver, ha.up.trans hup, ha.down.trans hdown, ha.sent.trans hsent,
      ha.got.trans hgot⟩
  | queued =>
    rw [hstage] at hmeans
    obtain ⟨s, hs, hdown, hin⟩ := hmeans
    exact ⟨s, hs.frame ha, ha.down.trans hdown, hwait hin⟩
  | refused =>
    rw [hstage] at hmeans
    obtain ⟨s, hs, hdown⟩ := hmeans
    exact ⟨s, hs.frame ha, ha.down.trans hdown⟩
  | greeted fd =>
    rw [hstage] at hmeans
    obtain ⟨s, hs, hdown, hregistering⟩ := hmeans
    exact ⟨s, hs.frame ha, ha.down.trans hdown, hreg fd hregistering⟩
  | answered fd =>
    rw [hstage] at hmeans
    obtain ⟨s, hs, hgot, hup, hregistering⟩ := hmeans
    refine ⟨s, hs.frame ha, ha.got.trans hgot, ?_, hreg fd hregistering⟩
    rw [ha.up, ha.sent, hup]
  | enrolled fd =>
    rw [hstage] at hmeans
    obtain ⟨s, hs, ⟨rest, hsent, hup⟩, i, hlive, hsock, hholds⟩ := hmeans
    have he := hentry i hlive (hsock ▸ hstage)
    refine ⟨s, hs.frame ha, ⟨rest, ?_, ha.up.trans hup⟩, i, ?_, he.sock.trans hsock, ?_⟩
    · rw [ha.sent, ha.got, hsent]
    · rwa [Tables.live, he.sock]
    · rw [ha.got]
      exact hholds.same he
  | dropped =>
    rw [hstage] at hmeans
    obtain ⟨s, hs, hrun, hup, hsent⟩ := hmeans
    refine ⟨s, hs.frame ha, hrun, ha.up.trans hup, ?_⟩
    rw [ha.sent, ha.got, hsent]

theorem Kept.moved (h : Kept cfg p b) (hapart : ∀ k, k ≠ n → Apart k p b p' b')
    (hlb : p'.lb = p.lb) (hreg : p'.registering = p.registering) (hwait : p'.waiting = p.waiting)
    (hpeer : p'.peer = p.peer) (hhung : p'.hungUp = p.hungUp)
    (hstage : b'.stage n = (b.stage n) ∨ ∃ fd, b.stage n = .greeted fd ∧ b'.stage n = .answered fd)
    (hmeans : (b'.stage n).Means cfg p' b' n)
    (hspaced : ∀ s, p'.server n = some s → Spaced s (b'.sent n))
    (hquiet : cfg.selectedAlgo ≠ .resourceBased → b'.sent n = []) : Kept cfg p' b' := by
  have hkeep {k : Nat} {st : Stage} (hst : b.stage k = st) (hgreeted : ∀ fd, st ≠ .greeted fd) :
      b'.stage k = st := by
    by_cases hk : k = n
    · subst hk
      rcases hstage with heq | ⟨fd, hfd, _⟩
      · exact heq.trans hst
      · exact absurd (hst.symm.trans hfd) (hgreeted fd)
    · exact (hapart k hk).stage.trans hst
  constructor
  case sound => exact hlb ▸ h.sound
  case means =>
    intro k
    by_cases hk : k = n
    · exact hk ▸ hmeans
    · exact h.frame (hapart k hk) (hwait ▸ id) (hreg ▸ fun _ => id) fun i _ _ =>
        .of_eq (by rw [hlb])
  case queue => exact hwait ▸ h.queue
  case queued => exact fun k hk => hkeep (h.queued k (hwait ▸ hk)) nofun
  case registering =>
    intro fd k hk
    rw [hreg] at hk
    obtain ⟨hst, hpos⟩ := h.registering fd k hk
    refine ⟨?_, hlb ▸ hpos⟩
    by_cases hkn : k = n
    · subst hkn
      rcases hstage with heq | ⟨fd', hfd, hfd'⟩
      · rwa [heq]
      · rw [hfd] at hst
        rcases hst with hst | hst
        · exact .inr (hfd'.trans (by rw [Stage.greeted.inj hst]))
        · cases hst
    · rwa [(hapart k hkn).stage]
  case peer =>
    intro k fd hfd
    rw [hpeer]
    refine h.peer k fd ?_
    by_cases hkn : k = n
    · subst hkn
      rcases hstage with heq | ⟨fd', hfd₁, hfd₂⟩
      · rwa [heq] at hfd
      · rw [hfd₂] at hfd
        rw [hfd₁]
        exact hfd
    · rwa [(hapart k hkn).stage] at hfd
  case slots =>
    intro i hi
    rw [hlb] at hi ⊢
    obtain ⟨hpos, k, hk⟩ := h.slots i hi
    exact ⟨hpos, k, hkeep hk nofun⟩
  case unused => exact hlb ▸ h.unused
  case hungUp =>
    intro k hk
    exact (h.hungUp k (hhung ▸ hk)).imp (fun hst => hkeep hst nofun) (fun hst => hkeep hst nofun)
  case spaced =>
    intro k s hs
    by_cases hk : k = n
    · exact hk ▸ hspaced s (hk ▸ hs)
    · rw [(hapart k hk).server] at hs
      rw [(hapart k hk).sent]
      exact h.spaced k s hs
  case quiet =>
    intro hne k
    by_cases hk : k = n
    · exact hk ▸ hquiet hne
    · exact (hapart k hk).sent.trans (h.quiet hne k)

end Frames

section Servers
variable {cfg : Config} {p : Plane} {b : Books} {n k : Nat} {s s' : Process}

theorem Kept.absent (h : Kept cfg p b) (hn : p.server n = none) : b.stage n = .absent := by
  have hmeans := h.means n
  cases hstage : b.stage n with
  | absent => rfl
  | queued | refused | greeted | answered | enrolled | dropped =>
    rw [hstage] at hmeans
    obtain ⟨s, hs, _⟩ := hmeans
    cases hn.symm.trans hs.server

theorem Kept.untold (h : Kept cfg p b) (hs : p.server n = some s) (halgo : s.lbAlgorithm = none) :
    Silent p b n s ∧ ((p.down n = [] ∧ (b.stage n = .queued ∨ b.stage n = .refused)) ∨
      ∃ fd, p.down n = bytes32 (code cfg.selectedAlgo) ∧ b.stage n = .greeted fd ∧
        p.registering = some (fd, n)) := by
  have hmeans := h.means n
  cases hstage : b.stage n with
  | absent =>
    rw [hstage] at hmeans
    cases hmeans.1.symm.trans hs
  | queued =>
    rw [hstage] at hmeans
    obtain ⟨s₁, hs₁, hdown, _⟩ := hmeans
    cases hs.symm.trans hs₁.server
    exact ⟨hs₁, .inl ⟨hdown, .inl rfl⟩⟩
  | refused =>
    rw [hstage] at hmeans
    obtain ⟨s₁, hs₁, hdown⟩ := hmeans
    cases hs.symm.trans hs₁.server
    exact ⟨hs₁, .inl ⟨hdown, .inr rfl⟩⟩
  | greeted fd =>
    rw [hstage] at hmeans
    obtain ⟨s₁, hs₁, hdown, hreg⟩ := hmeans
    cases hs.symm.trans hs₁.server
    exact ⟨hs₁, .inr ⟨fd, hdown, rfl, hreg⟩⟩
  | answered | enrolled | dropped =>
    rw [hstage] at hmeans
    obtain ⟨s₁, hs₁, _⟩ := hmeans
    cases hs.symm.trans hs₁.server
    cases halgo.symm.trans hs₁.algorithm

theorem Kept.told (h : Kept cfg p b) (hs : p.server n = some s) (halgo : s.lbAlgorithm.isSome)
    (hrun : s.running = true) :
    Told cfg p n s ∧ ((∃ fd, b.stage n = .answered fd) ∨ ∃ fd, b.stage n = .enrolled fd) := by
  have hmeans := h.means n
  cases hstage : b.stage n with
  | absent =>
    rw [hstage] at hmeans
    cases hmeans.1.symm.trans hs
  | queued | refused | greeted =>
    rw [hstage] at hmeans
    obtain ⟨s₁, hs₁, _⟩ := hmeans
    cases hs.symm.trans hs₁.server
    simp [hs₁.algorithm] at halgo
  | answered fd =>
    rw [hstage] at hmeans
    obtain ⟨s₁, hs₁, _⟩ := hmeans
    cases hs.symm.trans hs₁.server
    exact ⟨hs₁, .inl ⟨fd, rfl⟩⟩
  | enrolled fd =>
    rw [hstage] at hmeans
    obtain ⟨s₁, hs₁, _⟩ := hmeans
    cases hs.symm.trans hs₁.server
    exact ⟨hs₁, .inr ⟨fd, rfl⟩⟩
  | dropped =>
    rw [hstage] at hmeans
    obtain ⟨s₁, hs₁, hrun', _⟩ := hmeans
    cases hs.symm.trans hs₁.server
    cases hrun.symm.trans hrun'

theorem Kept.launch (h : Kept cfg p b) (hn : p.server n = none) (addr : BitVec 32)
    (port : BitVec 16) :
    Kept cfg { p with
      server := Function.update p.server n (some (.start addr port))
      waiting := p.waiting ++ [n] } (b.set n .queued) := by
  have habsent := h.absent hn
  have hmeans := h.means n
  rw [habsent] at hmeans
  obtain ⟨_, hup, hdown, hsent, hgot⟩ := hmeans
  have hold {k : Nat} {st : Stage} (hst : b.stage k = st) (hne : st ≠ .absent) :
      (b.set n .queued).stage k = st := by
    have hk : k ≠ n := fun heq => hne (hst.symm.trans (heq ▸ habsent))
    exact (Function.update_of_ne hk ..).trans hst
  constructor
  case sound => exact h.sound
  case means =>
    intro k
    by_cases hk : k = n
    · subst hk
      have hstage : (b.set k .queued).stage k = .queued := Function.update_self ..
      rw [hstage]
      exact ⟨_, ⟨Function.update_self .., rfl, hup, hsent, hgot⟩, hdown,
        List.mem_append_right _ (List.mem_singleton_self k)⟩
    · exact h.frame ⟨Function.update_of_ne hk .., rfl, rfl, Function.update_of_ne hk .., rfl, rfl⟩
        (List.mem_append_left _) (fun _ => id) (fun _ _ _ => .of_eq rfl)
  case queue =>
    refine List.nodup_append.mpr ⟨h.queue, List.nodup_singleton _, ?_⟩
    rintro k hk _ hm rfl
    rw [List.mem_singleton.mp hm] at hk
    cases habsent.symm.trans (h.queued n hk)
  case queued =>
    intro k hk
    rcases List.mem_append.mp hk with hk | hk
    · exact hold (h.queued k hk) Stage.noConfusion
    · rw [List.mem_singleton.mp hk]
      exact Function.update_self ..
  case registering =>
    intro fd k hk
    obtain ⟨hst, hpos⟩ := h.registering fd k hk
    exact ⟨hst.imp (hold · Stage.noConfusion) (hold · Stage.noConfusion), hpos⟩
  case peer =>
    intro k fd hfd
    by_cases hk : k = n
    · subst hk
      simp [Books.set, Stage.fd?] at hfd
    · simp only [Books.set, Function.update_of_ne hk] at hfd
      exact h.peer k fd hfd
  case slots =>
    intro i hi
    obtain ⟨hpos, k, hk⟩ := h.slots i hi
    exact ⟨hpos, k, hold hk Stage.noConfusion⟩
  case unused => exact h.unused
  case hungUp =>
    exact fun k hk => (h.hungUp k hk).imp (hold · Stage.noConfusion) (hold · Stage.noConfusion)
  case spaced =>
    intro k s hs
    by_cases hk : k = n
    · subst hk
      simp only [Function.update_self] at hs
      cases hs
      exact ⟨by simp [Books.set, hsent], by simp [Books.set, hsent, Process.start]⟩
    · simp only [Function.update_of_ne hk] at hs
      exact h.spaced k s hs
  case quiet => exact h.quiet

theorem Kept.process (h : Kept cfg p b) (hs : p.server n = some s) (haddr : s'.addr = s.addr)
    (hport : s'.portForClient = s.portForClient) (halgo : s'.lbAlgorithm = s.lbAlgorithm)
    (hprev : s'.prevTime = s.prevTime) (hrun : s.running = false → s'.running = false) :
    Kept cfg { p with server := Function.update p.server n (some s') } b := by
  have hsilent (hold : Silent p b n s) :
      Silent { p with server := Function.update p.server n (some s') } b n s' :=
    ⟨Function.update_self .., halgo.trans hold.algorithm, hold.up, hold.sent, hold.got⟩
  have htold (hold : Told cfg p n s) :
      Told cfg { p with server := Function.update p.server n (some s') } n s' :=
    ⟨Function.update_self .., halgo.trans hold.algorithm, hold.down⟩
  refine h.moved (n := n)
    (fun k hk => ⟨Function.update_of_ne hk .., rfl, rfl, rfl, rfl, rfl⟩) rfl rfl rfl rfl rfl
    (.inl rfl) ?_ (fun s₁ hs₁ => ?_) (fun hne => h.quiet hne n)
  · have hmeans := h.means n
    cases hstage : b.stage n with
    | absent =>
      rw [hstage] at hmeans
      cases hmeans.1.symm.trans hs
    | queued =>
      rw [hstage] at hmeans
      obtain ⟨s₁, hs₁, hrest⟩ := hmeans
      cases hs.symm.trans hs₁.server
      exact ⟨s', hsilent hs₁, hrest⟩
    | refused =>
      rw [hstage] at hmeans
      obtain ⟨s₁, hs₁, hrest⟩ := hmeans
      cases hs.symm.trans hs₁.server
      exact ⟨s', hsilent hs₁, hrest⟩
    | greeted =>
      rw [hstage] at hmeans
      obtain ⟨s₁, hs₁, hrest⟩ := hmeans
      cases hs.symm.trans hs₁.server
      exact ⟨s', hsilent hs₁, hrest⟩
    | answered =>
      rw [hstage] at hmeans
      obtain ⟨s₁, hs₁, hrest⟩ := hmeans
      cases hs.symm.trans hs₁.server
      exact ⟨s', htold hs₁, hport ▸ hrest⟩
    | enrolled =>
      rw [hstage] at hmeans
      obtain ⟨s₁, hs₁, hsent, i, hlive, hsock, hholds⟩ := hmeans
      cases hs.symm.trans hs₁.server
      exact ⟨s', htold hs₁, hsent, i, hlive, hsock, hholds.ip.trans haddr.symm,
        hholds.port.trans (hport ▸ rfl), hholds.usage⟩
    | dropped =>
      rw [hstage] at hmeans
      obtain ⟨s₁, hs₁, hrun₁, hrest⟩ := hmeans
      cases hs.symm.trans hs₁.server
      exact ⟨s', htold hs₁, hrun hrun₁, hrest⟩
  · simp only [Function.update_self, Option.some.injEq] at hs₁
    subst hs₁
    obtain ⟨hapart, hlast⟩ := h.spaced n s hs
    exact ⟨hapart, hlast.trans hprev.symm⟩

theorem Kept.connect {fd : Int} (h : Kept cfg p b) (hs : Silent p b n s)
    (hdown : p.down n = bytes32 (code cfg.selectedAlgo)) (hstage : b.stage n = .greeted fd)
    (hreg : p.registering = some (fd, n)) (stack : Mem) :
    Kept cfg (p.reads n 4 (connected s stack)) (b.set n (.answered fd)) := by
  have htake : (p.down n).take 4 = bytes32 (code cfg.selectedAlgo) := by
    rw [hdown]
    rfl
  have hne : bytes32 (code cfg.selectedAlgo) ≠ [] := List.cons_ne_nil _ _
  have hreads : p.reads n 4 (connected s stack) = { p with
      server := Function.update p.server n
        (some { s with lbAlgorithm := some (code cfg.selectedAlgo) })
      down := Function.update p.down n []
      up := Function.update p.up n (bytes16 s.portForClient) } := by
    simp only [Plane.reads, htake, connected, if_neg hne, hs.up, List.nil_append,
      read32_store_self (bytes32_length _), word32_bytes32]
    rw [hdown]
    rfl
  rw [hreads]
  have hanswered : (b.set n (.answered fd)).stage n = .answered fd := Function.update_self ..
  refine h.moved (n := n)
    (fun k hk => ⟨Function.update_of_ne hk .., Function.update_of_ne hk ..,
      Function.update_of_ne hk .., Function.update_of_ne hk .., rfl, rfl⟩) rfl rfl rfl rfl rfl
    (.inr ⟨fd, hstage, hanswered⟩) ?_ (fun s₁ hs₁ => ?_) (fun hquiet => h.quiet hquiet n)
  · rw [hanswered]
    refine ⟨_, ⟨Function.update_self .., rfl, Function.update_self ..⟩, hs.got, ?_, hreg⟩
    refine (Function.update_self ..).trans ?_
    simp [Books.set, reportBytes, hs.sent]
  · simp only [Function.update_self, Option.some.injEq] at hs₁
    subst hs₁
    obtain ⟨hapart, hlast⟩ := h.spaced n s hs.server
    exact ⟨hapart, hlast⟩

theorem reportBytes_snoc (reports : List (Int × BitVec 32)) (t : Int) (v : BitVec 32) :
    reportBytes (reports ++ [(t, v)]) = reportBytes reports ++ bytes32 v := by
  simp [reportBytes]

theorem Spaced.snoc {reports : List (Int × BitVec 32)} {now : Int} (h : Spaced s reports)
    (hdue : s.Due now) (v : BitVec 32) :
    Spaced { s with curTime := now, prevTime := now } (reports ++ [(now, v)]) := by
  refine ⟨?_, by simp⟩
  rw [List.map_append, ← List.cons_append, List.isChain_append]
  refine ⟨h.apart, .singleton _, fun t ht t' ht' => ?_⟩
  have hlast := h.last
  rw [List.getLastD_eq_getLast?] at hlast
  have hten := hdue.2
  obtain rfl : now = t' := by simpa using ht'
  rw [List.getLast?_cons, Option.mem_some_iff, hlast] at ht
  omega

theorem Kept.reported {now : Int} (h : Kept cfg p b) (hs : p.server n = some s)
    (hrun : s.running = true) (hdue : s.Due now) (v : BitVec 32) :
    Kept cfg { p with
        server := Function.update p.server n (some { s with curTime := now, prevTime := now })
        up := Function.update p.up n (p.up n ++ bytes32 v) }
      { b with sent := Function.update b.sent n (b.sent n ++ [(now, v)]) } := by
  obtain ⟨htold, hstage⟩ := h.told hs (by simp [hdue.1]) hrun
  have htold' : Told cfg { p with
      server := Function.update p.server n (some { s with curTime := now, prevTime := now })
      up := Function.update p.up n (p.up n ++ bytes32 v) } n
      { s with curTime := now, prevTime := now } :=
    ⟨Function.update_self .., htold.algorithm, htold.down⟩
  have hmeans := h.means n
  refine h.moved (n := n)
    (fun k hk => ⟨Function.update_of_ne hk .., Function.update_of_ne hk .., rfl, rfl,
      Function.update_of_ne hk .., rfl⟩) rfl rfl rfl rfl rfl (.inl rfl) ?_ (fun s₁ hs₁ => ?_)
    (fun hne => ?_)
  · rcases hstage with ⟨fd, hfd⟩ | ⟨fd, hfd⟩
    · simp only [hfd] at hmeans ⊢
      obtain ⟨s₁, hs₁, hgot, hup, hreg⟩ := hmeans
      cases hs.symm.trans hs₁.server
      refine ⟨_, htold', hgot, ?_, hreg⟩
      simp only [Function.update_self, hup, reportBytes_snoc, List.append_assoc]
    · simp only [hfd] at hmeans ⊢
      obtain ⟨s₁, hs₁, ⟨rest, hsent, hup⟩, i, hlive, hsock, hholds⟩ := hmeans
      cases hs.symm.trans hs₁.server
      refine ⟨_, htold', ⟨rest ++ [v], ?_, ?_⟩, i, hlive, hsock, hholds.ip, hholds.port,
        hholds.usage⟩
      · simp [hsent]
      · simp [hup]
  · simp only [Function.update_self, Option.some.injEq] at hs₁ ⊢
    subst hs₁
    exact (h.spaced n s hs).snoc hdue v
  · have hcode := Option.some.inj (htold.algorithm.symm.trans hdue.1)
    refine absurd hcode ?_
    revert hne
    cases cfg.selectedAlgo <;> decide

theorem Kept.tick (h : Kept cfg p b) (hs : p.server n = some s) (hrun : s.running = true)
    (now : Int) (cpuUsage ramUsage : BitVec 32) :
    Kept cfg { p with
        server := Function.update p.server n (some (tick s now cpuUsage ramUsage).1)
        up := Function.update p.up n (p.up n ++ (tick s now cpuUsage ramUsage).2) }
      (b.look p (.tick n now cpuUsage ramUsage) p) := by
  have hall : (∀ s ∈ p.server n, s.Due now) ↔ s.Due now := by simp [hs]
  simp only [Books.look, ControlPlane.tick, hall]
  split
  · rename_i hdue
    exact h.reported hs hrun hdue _
  · rw [List.append_nil, Function.update_eq_self]
    exact h.process hs rfl rfl rfl rfl id

end Servers

section Balancer
variable {cfg : Config} {p p' : Plane} {b b' : Books} {n : Nat} {fd : Int}

theorem Kept.enrolled (h : Kept cfg p b) (hn : b.stage n = .enrolled fd) :
    0 < fd ∧ fd ∈ p.lb.watched := by
  have hmeans := h.means n
  rw [hn] at hmeans
  obtain ⟨_, _, _, i, hlive, rfl, _⟩ := hmeans
  have hpos := (h.slots i hlive).1
  refine ⟨hpos, (h.sound.sock_watched i hlive).resolve_left ?_⟩
  omega

/-- A move of the load balancer, for server `n` if for any, after which it waits for nobody. -/
theorem Kept.served (h : Kept cfg p b) (hapart : ∀ k, k ≠ n → Apart k p b p' b')
    (hsound : p'.lb.Sound) (hreg : p'.registering = none)
    (hregn : ∀ fd k, p.registering = some (fd, k) → k = n) (hwait : p'.waiting = p.waiting)
    (hpeer : p'.peer = p.peer) (hserver : p'.server = p.server) (hsent : b'.sent = b.sent)
    (hentry : ∀ k, k ≠ n → ∀ i, p.lb.tables.live i →
      b.stage k = .enrolled (p.lb.tables.servList i).sock →
        SameEntry (p.lb.tables.servList i) (p'.lb.tables.servList i))
    (hmeans : (b'.stage n).Means cfg p' b' n)
    (hqueued : b.stage n = .queued → b'.stage n = .queued)
    (hfd : ∀ fd ∈ (b'.stage n).fd?, p.peer fd = some n)
    (hslots : ∀ i, p'.lb.tables.live i → 0 < (p'.lb.tables.servList i).sock ∧
      ∃ k, b'.stage k = .enrolled (p'.lb.tables.servList i).sock)
    (hunused : ∀ i, ¬p'.lb.tables.live i → (p'.lb.tables.servList i).resourceUsage = 0)
    (hhung : ∀ k, p'.hungUp k = true → b'.stage k = .refused ∨ b'.stage k = .dropped) :
    Kept cfg p' b' := by
  constructor
  case sound => exact hsound
  case means =>
    intro k
    by_cases hk : k = n
    · exact hk ▸ hmeans
    · exact h.frame (hapart k hk) (hwait ▸ id) (fun fd hr => absurd (hregn fd k hr) hk)
        (hentry k hk)
  case queue => exact hwait ▸ h.queue
  case queued =>
    intro k hk
    have hold := h.queued k (hwait ▸ hk)
    by_cases hkn : k = n
    · subst hkn
      exact hqueued hold
    · exact (hapart k hkn).stage.trans hold
  case registering =>
    intro fd k hk
    cases hreg.symm.trans hk
  case peer =>
    intro k fd hk
    rw [hpeer]
    by_cases hkn : k = n
    · subst hkn
      exact hfd fd hk
    · rw [(hapart k hkn).stage] at hk
      exact h.peer k fd hk
  case slots => exact hslots
  case unused => exact hunused
  case hungUp => exact hhung
  case spaced => rw [hserver, hsent]; exact h.spaced
  case quiet => rw [hsent]; exact h.quiet

theorem Kept.packet {lb : LoadBalancer.State} {received : Option (Received LoadBalancer.bufSize)}
    {now : BitVec 32} {minIndex : Int} (h : Kept cfg p b) (hreg : p.registering = none)
    (hserve : serve cfg p.lb (.packet received now minIndex) = some lb) :
    Kept cfg { p with lb := lb } b := by
  have hentry := packet_entries hserve
  obtain ⟨out, x, hstep⟩ := serve_step hserve
  have hlive {i : Fin maxServCnt} : lb.tables.live i ↔ p.lb.tables.live i := by
    rw [Tables.live, Tables.live, (hentry i).sock]
  refine h.served (n := 0) (fun k _ => ⟨rfl, rfl, rfl, rfl, rfl, rfl⟩) (h.sound.step hstep) hreg
    (fun fd k hk => ?_) rfl rfl rfl rfl (fun k _ i _ _ => hentry i) ?_ id (h.peer 0)
    (fun i hi => ?_) (fun i hi => ?_) h.hungUp
  · cases hreg.symm.trans hk
  · exact h.frame ⟨rfl, rfl, rfl, rfl, rfl, rfl⟩ id (fun _ => id) (fun i _ _ => hentry i)
  · rw [(hentry i).sock]
    exact h.slots i (hlive.mp hi)
  · rw [(hentry i).usage]
    exact h.unused i (mt hlive.mpr hi)

theorem Kept.accepted {rest : List Nat} {stage : Stage} (h : Kept cfg p b)
    (hreg : p.registering = none) (hwait : p.waiting = n :: rest) (hwait' : p'.waiting = rest)
    (hapart : ∀ k, k ≠ n → Apart k p b p' (b.set n stage)) (hsound : p'.lb.Sound)
    (hservers : p'.lb.tables.servList = p.lb.tables.servList) (hserver : p'.server = p.server)
    (hmeans : stage.Means cfg p' (b.set n stage) n)
    (hnew : ∀ fd k, p'.registering = some (fd, k) → k = n ∧ stage = .greeted fd ∧ 0 < fd ∧
      fd ∉ p'.lb.watched ∧ p'.lb.tables.servCnt ≠ maxServCnt)
    (hpeer : ∀ k, k ≠ n → ∀ fd ∈ (b.stage k).fd?, p'.peer fd = p.peer fd)
    (hfd : ∀ fd ∈ stage.fd?, p'.peer fd = some n)
    (hhung : ∀ k, p'.hungUp k = true → p.hungUp k = true ∨ (k = n ∧ stage = .refused)) :
    Kept cfg p' (b.set n stage) := by
  have hqueue := h.queue
  rw [hwait, List.nodup_cons] at hqueue
  have hfirst : b.stage n = .queued := h.queued n (hwait ▸ List.mem_cons_self)
  have hset : (b.set n stage).stage n = stage := Function.update_self ..
  have hold {k : Nat} {st : Stage} (hst : b.stage k = st) (hne : st ≠ .queued) :
      (b.set n stage).stage k = st := by
    have hk : k ≠ n := fun heq => hne (hst.symm.trans (heq ▸ hfirst))
    exact (Function.update_of_ne hk ..).trans hst
  constructor
  case sound => exact hsound
  case means =>
    intro k
    by_cases hk : k = n
    · subst hk
      rwa [hset]
    · refine h.frame (hapart k hk) (fun hin => ?_) (fun fd hr => ?_)
        (fun i _ _ => .of_eq (by rw [hservers]))
      · rw [hwait] at hin
        rw [hwait']
        exact (List.mem_cons.mp hin).resolve_left hk
      · cases hreg.symm.trans hr
  case queue => exact hwait' ▸ hqueue.2
  case queued =>
    intro k hk
    rw [hwait'] at hk
    have hne : k ≠ n := fun heq => hqueue.1 (heq ▸ hk)
    exact (Function.update_of_ne hne ..).trans (h.queued k (hwait ▸ List.mem_cons_of_mem n hk))
  case registering =>
    intro fd k hk
    obtain ⟨rfl, hgreeted, hrest⟩ := hnew fd k hk
    exact ⟨.inl (hset.trans hgreeted), hrest⟩
  case peer =>
    intro k fd hk
    by_cases hkn : k = n
    · subst hkn
      rw [hset] at hk
      exact hfd fd hk
    · rw [(hapart k hkn).stage] at hk
      rw [hpeer k hkn fd hk]
      exact h.peer k fd hk
  case slots =>
    intro i hi
    rw [Tables.live, hservers] at hi
    obtain ⟨hpos, k, hk⟩ := h.slots i hi
    rw [hservers]
    exact ⟨hpos, k, hold hk Stage.noConfusion⟩
  case unused =>
    intro i hi
    rw [Tables.live, hservers] at hi
    rw [hservers]
    exact h.unused i hi
  case hungUp =>
    intro k hk
    rcases hhung k hk with hk | ⟨rfl, hrefused⟩
    · exact (h.hungUp k hk).imp (hold · Stage.noConfusion) (hold · Stage.noConfusion)
    · exact .inl (hset.trans hrefused)
  case spaced => rw [hserver]; exact h.spaced
  case quiet => exact h.quiet

theorem Kept.accept {rest : List Nat} (h : Kept cfg p b) (hreg : p.registering = none)
    (hwait : p.waiting = n :: rest)
    (haccept : Plane.accept cfg { p with waiting := rest } fd n = some p') :
    Kept cfg p' (b.set n
      (if p.lb.tables.servCnt = maxServCnt then .refused else .greeted fd)) := by
  have hmeans := h.means n
  have hfirst : b.stage n = .queued := h.queued n (hwait ▸ List.mem_cons_self)
  rw [hfirst] at hmeans
  obtain ⟨s, hs, hdown, _⟩ := hmeans
  have hapart {q : Plane} {stage : Stage} {k : Nat} (hk : k ≠ n) (hserver : q.server = p.server)
      (hup : q.up = p.up) (hdown : q.down k = p.down k) : Apart k p b q (b.set n stage) :=
    ⟨by rw [hserver], by rw [hup], hdown, Function.update_of_ne hk .., rfl, rfl⟩
  rw [Plane.accept] at haccept
  by_cases hmax : p.lb.tables.servCnt = maxServCnt
  · rw [if_pos hmax] at haccept ⊢
    obtain ⟨lb, hserve, rfl⟩ := Option.map_eq_some_iff.mp haccept
    have htables := denied_entries hmax hserve
    obtain ⟨out, x, hstep⟩ := serve_step hserve
    refine h.accepted hreg hwait rfl (fun k hk => hapart hk rfl rfl rfl) (h.sound.step hstep)
      (congrArg Tables.servList htables) rfl ⟨s, ⟨hs.server, hs.algorithm, hs.up, hs.sent, hs.got⟩,
        hdown⟩ (fun fd' k hk => ?_) (fun k _ fd' _ => rfl) nofun (fun k hk => ?_)
    · cases hreg.symm.trans hk
    · by_cases hkn : k = n
      · exact .inr ⟨hkn, rfl⟩
      · simp only [Function.update_of_ne hkn] at hk
        exact .inl hk
  · rw [if_neg hmax] at haccept ⊢
    split at haccept
    · rename_i hnew
      cases haccept
      refine h.accepted hreg hwait rfl
        (fun k hk => hapart hk rfl rfl (Function.update_of_ne hk ..)) h.sound rfl rfl
        ⟨s, ⟨hs.server, hs.algorithm, hs.up, hs.sent, hs.got⟩, ?_, rfl⟩ (fun fd' k hk => ?_)
        (fun k hk fd' hfd' => ?_) (fun fd' hfd' => ?_) (fun k hk => .inl hk)
      · simp [hdown]
      · cases hk
        exact ⟨rfl, rfl, hnew.1, hnew.2, hmax⟩
      · refine Function.update_of_ne (fun heq => ?_) ..
        subst heq
        have hmeans := h.means k
        cases hstage : b.stage k with
        | absent | queued | refused | dropped =>
          rw [hstage] at hfd'
          cases hfd'
        | greeted fd₁ =>
          rw [hstage] at hmeans
          obtain ⟨_, _, _, hreg'⟩ := hmeans
          cases hreg.symm.trans hreg'
        | answered fd₁ =>
          rw [hstage] at hmeans
          obtain ⟨_, _, _, _, hreg'⟩ := hmeans
          cases hreg.symm.trans hreg'
        | enrolled fd₁ =>
          rw [hstage] at hfd'
          obtain rfl : fd₁ = fd' := Option.some.inj hfd'
          exact hnew.2 (h.enrolled hstage).2
      · obtain rfl : fd = fd' := Option.some.inj hfd'
        exact Function.update_self ..
    · contradiction

theorem Kept.port {lb : LoadBalancer.State} {stack : Mem} (h : Kept cfg p b)
    (hreg : p.registering = some (fd, n)) (hlen : 2 ≤ (p.up n).length)
    (hserve : serve cfg p.lb (.join (some (fd, p.addr n)) (portOf 2 (p.up n)) stack) = some lb) :
    Kept cfg { p with
        lb := lb
        registering := none
        up := Function.update p.up n ((p.up n).drop 2) } (b.set n (.enrolled fd)) := by
  obtain ⟨hstage, hpos, hnew, hmax⟩ := h.registering fd n hreg
  have hmeans := h.means n
  rcases hstage with hstage | hstage
  · rw [hstage] at hmeans
    obtain ⟨s, hs, _⟩ := hmeans
    rw [hs.up] at hlen
    contradiction
  · rw [hstage] at hmeans
    obtain ⟨s, hs, hgot, hup, _⟩ := hmeans
    obtain ⟨i, hdead, hservers⟩ := port_entered h.sound hmax hserve
    obtain ⟨out, x, hstep⟩ := serve_step hserve
    have haddr : p.addr n = s.addr := by rw [Plane.addr, hs.server, Option.elim]
    have hport : (portOf 2 (p.up n)).bytes = bytes16 s.portForClient := by
      rw [portOf, hup]
      rfl
    have hread : read16 (store stack 0 (portOf 2 (p.up n)).bytes) 0 = s.portForClient := by
      rw [hport]
      exact read16_write16 stack 0 s.portForClient
    rw [haddr, hread] at hservers
    have hset : (b.set n (.enrolled fd)).stage n = .enrolled fd := Function.update_self ..
    have hold {k : Nat} {st : Stage} (hst : b.stage k = st) (hne : st ≠ .answered fd) :
        (b.set n (.enrolled fd)).stage k = st := by
      have hk : k ≠ n := fun heq => hne (hst.symm.trans (heq ▸ hstage))
      exact (Function.update_of_ne hk ..).trans hst
    have hsame {k : Fin maxServCnt} (hk : k ≠ i) :
        lb.tables.servList k = p.lb.tables.servList k := by
      rw [hservers, Function.update_of_ne hk]
    have hentered : lb.tables.servList i = { p.lb.tables.servList i with
        sock := fd
        ip := s.addr
        port := swap16 s.portForClient
        clntCnt := 0 } := by
      rw [hservers, Function.update_self]
    refine h.served (n := n) (fun k hk => ⟨rfl, Function.update_of_ne hk .., rfl,
      Function.update_of_ne hk .., rfl, rfl⟩) (h.sound.step hstep) rfl (fun fd' k hk => ?_) rfl rfl
      rfl rfl (fun k _ j hj _ => .of_eq (hsame fun heq => hdead (heq ▸ hj))) ?_ (fun hq => ?_)
      (fun fd' hfd' => ?_) (fun j hj => ?_) (fun j hj => ?_) (fun k hk => ?_)
    · cases hreg.symm.trans hk
      rfl
    · rw [hset]
      refine ⟨s, ⟨hs.server, hs.algorithm, hs.down⟩, ⟨(b.sent n).map (·.2), ?_, ?_⟩, i, ?_, ?_,
        ?_⟩
      · simp [Books.set, hgot]
      · simp only [Function.update_self, hup]
        rfl
      · rw [Tables.live, hentered]
        exact ne_of_gt hpos
      · rw [hentered]
      · rw [hentered]
        refine ⟨rfl, rfl, ?_⟩
        have hnone : (b.set n (.enrolled fd)).got n = [] := hgot
        rw [hnone]
        exact h.unused i hdead
    · cases hstage.symm.trans hq
    · rw [hset] at hfd'
      exact h.peer n fd' (hstage ▸ hfd')
    · by_cases hji : j = i
      · subst hji
        rw [hentered]
        exact ⟨hpos, n, hset⟩
      · rw [Tables.live, hsame hji] at hj
        obtain ⟨hpos', k, hk⟩ := h.slots j hj
        rw [hsame hji]
        exact ⟨hpos', k, hold hk Stage.noConfusion⟩
    · by_cases hji : j = i
      · subst hji
        rw [Tables.live, hentered] at hj
        exact absurd (ne_of_gt hpos) hj
      · rw [Tables.live, hsame hji] at hj
        rw [hsame hji]
        exact h.unused j hj
    · exact (h.hungUp k hk).imp (hold · Stage.noConfusion) (hold · Stage.noConfusion)

theorem read_reports {reads : List ReadResult} {rest : List (BitVec 32)}
    (hwhole : ∀ c ∈ chunks reads, c.length = 4)
    (hpre : (chunks reads).flatten <+: rest.flatMap bytes32) :
    ∃ more, rest = (chunks reads).map word32 ++ more ∧
      rest.flatMap bytes32 = (chunks reads).flatten ++ more.flatMap bytes32 := by
  have hwords : ∀ c ∈ rest.map bytes32, c.length = 4 := by simp
  obtain ⟨tail, htail⟩ := prefix_of_flatten (by decide) hwhole hwords hpre
  have hrest : rest = (chunks reads).map word32 ++ tail.map word32 := by
    rw [← List.map_append, htail]
    simp [Function.comp_def]
  have hpieces : (rest.map bytes32).drop (chunks reads).length = (tail.map word32).map bytes32 := by
    rw [hrest]
    simp
  rw [← htail, List.drop_left] at hpieces
  refine ⟨tail.map word32, hrest, ?_⟩
  rw [List.flatMap_def, ← htail, List.flatten_append, List.flatMap_def, ← hpieces]

theorem getLastD_append {α : Type} (xs ys : List α) (d : α) :
    (xs ++ ys).getLastD d = ys.getLastD (xs.getLastD d) := by
  simp [List.getLastD_eq_getLast?, Option.getD_or]

theorem Kept.connection {s : LoadBalancer.State} {reads : List ReadResult} {ending : ReadEnd}
    {stack : Mem} (h : Kept cfg p b) (hpeer : p.peer fd = some n)
    (hserve : serve cfg p.lb (.server fd reads ending stack) = some s) :
    b.stage n = .enrolled fd := by
  obtain ⟨out, x, hstep⟩ := serve_step hserve
  have hpos := h.sound.watched_pos fd hstep.1
  obtain ⟨i, rfl⟩ := h.sound.watched_live fd hstep.1
  obtain ⟨_, k, hk⟩ := h.slots i (by rw [Tables.live]; omega)
  have hk' : k = n := by
    have hp := h.peer k (p.lb.tables.servList i).sock (by rw [hk]; rfl)
    exact Option.some.inj (hp.symm.trans hpeer)
  exact hk' ▸ hk

theorem Kept.report {lb : LoadBalancer.State} {reads : List ReadResult} {stack : Mem}
    (h : Kept cfg p b) (hreg : p.registering = none) (hpeer : p.peer fd = some n)
    (hwhole : ∀ c ∈ chunks reads, c.length = 4) (hpre : (chunks reads).flatten <+: p.up n)
    (hserve : serve cfg p.lb (.server fd reads .again stack) = some lb) :
    Kept cfg { p with
        lb := lb
        up := Function.update p.up n ((p.up n).drop (chunks reads).flatten.length) }
      { b with got := Function.update b.got n (b.got n ++ (chunks reads).map word32) } := by
  have hstage := h.connection hpeer hserve
  have hmeans := h.means n
  rw [hstage] at hmeans
  obtain ⟨s, hs, ⟨rest, hsent, hup⟩, i, hlive, hsock, hholds⟩ := hmeans
  obtain ⟨more, hrest, hbytes⟩ := read_reports hwhole (hup ▸ hpre)
  obtain ⟨out, x, hstep⟩ := serve_step hserve
  have husage := report_usage h.sound hsock hwhole hserve
  have hother {k : Fin maxServCnt} (hk : k ≠ i) := report_other h.sound hsock hk hserve
  have hsocks (k : Fin maxServCnt) :
      (lb.tables.servList k).sock = (p.lb.tables.servList k).sock := by
    by_cases hk : k = i
    · rw [hk, husage]
    · exact (hother hk).sock
  refine h.served (n := n) (fun k hk => ⟨rfl, Function.update_of_ne hk .., rfl, rfl, rfl,
    Function.update_of_ne hk ..⟩) (h.sound.step hstep) hreg (fun fd' k hk => ?_) rfl rfl rfl rfl
    (fun k hk j _ hj => hother fun heq => ?_) ?_ id (h.peer n) (fun j hj => ?_) (fun j hj => ?_)
    h.hungUp
  · cases hreg.symm.trans hk
  · rw [heq, hsock] at hj
    exact hk (Option.some.inj ((h.peer k fd (by rw [hj]; rfl)).symm.trans hpeer))
  · simp only [hstage]
    refine ⟨s, ⟨hs.server, hs.algorithm, hs.down⟩, ⟨more, ?_, ?_⟩, i, ?_, (hsocks i).trans hsock,
      ?_⟩
    · simp only [Function.update_self, hsent, hrest, List.append_assoc]
    · simp only [Function.update_self, hup, hbytes, List.drop_left]
    · rwa [Tables.live, hsocks i]
    · simp only [Function.update_self, husage]
      refine ⟨hholds.ip, hholds.port, ?_⟩
      rw [List.map_append, getLastD_append, ← hholds.usage]
  · rw [Tables.live, hsocks j] at hj
    rw [hsocks j]
    exact h.slots j hj
  · rw [Tables.live, hsocks j] at hj
    have hji : j ≠ i := fun heq => hj (heq ▸ hlive)
    rw [(hother hji).usage]
    exact h.unused j hj

theorem Kept.close {lb : LoadBalancer.State} {reads : List ReadResult} {stack : Mem}
    (h : Kept cfg p b) (hreg : p.registering = none) (hpeer : p.peer fd = some n)
    (hwhole : ∀ c ∈ chunks reads, c.length = 4) (hall : p.up n = (chunks reads).flatten)
    (hstopped : p.stopped n)
    (hserve : serve cfg p.lb (.server fd reads .eof stack) = some lb) :
    Kept cfg { p with
        lb := lb
        up := Function.update p.up n ((p.up n).drop (chunks reads).flatten.length)
        hungUp := Function.update p.hungUp n true }
      (Books.set { b with
        got := Function.update b.got n (b.got n ++ (chunks reads).map word32) } n .dropped) := by
  have hstage := h.connection hpeer hserve
  have hmeans := h.means n
  rw [hstage] at hmeans
  obtain ⟨s, hs, ⟨rest, hsent, hup⟩, i, hlive, hsock, hholds⟩ := hmeans
  have hbytes : rest.flatMap bytes32 = (chunks reads).flatten := hup.symm.trans hall
  obtain ⟨more, hrest, hsplit⟩ := read_reports hwhole ⟨[], by rw [hbytes, List.append_nil]⟩
  have hmore : more = [] := by
    rw [hbytes, List.self_eq_append_right] at hsplit
    cases more with
    | nil => rfl
    | cons v more => exact absurd hsplit (List.cons_ne_nil _ _)
  obtain ⟨out, x, hstep⟩ := serve_step hserve
  have hzero := report_closes h.sound hsock hserve
  have hother {k : Fin maxServCnt} (hk : k ≠ i) := report_other h.sound hsock hk hserve
  have hset : ∀ b' : Books, (b'.set n .dropped).stage n = .dropped :=
    fun b' => Function.update_self ..
  have hlive' {k : Fin maxServCnt} (hk : lb.tables.live k) :
      k ≠ i ∧ p.lb.tables.live k := by
    have hki : k ≠ i := fun heq => hk (by rw [heq, hzero]; rfl)
    exact ⟨hki, by rwa [Tables.live, (hother hki).sock] at hk⟩
  refine h.served (n := n) (fun k hk => ⟨rfl, Function.update_of_ne hk .., rfl,
    Function.update_of_ne hk .., rfl, Function.update_of_ne hk ..⟩) (h.sound.step hstep) hreg
    (fun fd' k hk => ?_) rfl rfl rfl rfl (fun k hk j _ hj => hother fun heq => ?_) ?_
    (fun hq => ?_) (fun fd' hfd' => ?_) (fun j hj => ?_) (fun j hj => ?_) (fun k hk => ?_)
  · cases hreg.symm.trans hk
  · rw [heq, hsock] at hj
    exact hk (Option.some.inj ((h.peer k fd (by rw [hj]; rfl)).symm.trans hpeer))
  · rw [hset]
    refine ⟨s, ⟨hs.server, hs.algorithm, hs.down⟩, hstopped s hs.server, ?_, ?_⟩
    · simp only [Function.update_self, hall, List.drop_length]
    · simp only [Books.set, Function.update_self, hsent, hrest, hmore, List.append_nil]
  · cases hstage.symm.trans hq
  · rw [hset] at hfd'
    cases hfd'
  · obtain ⟨hji, hj⟩ := hlive' hj
    obtain ⟨hpos, k, hk⟩ := h.slots j hj
    rw [(hother hji).sock]
    refine ⟨hpos, k, (Function.update_of_ne (fun heq => hji ?_) ..).trans hk⟩
    have heq' : (p.lb.tables.servList j).sock = fd :=
      Stage.enrolled.inj ((heq ▸ hk).symm.trans hstage)
    exact h.sound.sock_inj j i (heq'.trans hsock.symm) hpos
  · by_cases hji : j = i
    · rw [hji, hzero]
      rfl
    · rw [Tables.live, (hother hji).sock] at hj
      rw [(hother hji).usage]
      exact h.unused j hj
  · by_cases hkn : k = n
    · subst hkn
      exact .inr (hset _)
    · simp only [Function.update_of_ne hkn] at hk
      simp only [Books.set, Function.update_of_ne hkn]
      exact h.hungUp k hk

end Balancer

section Run
variable {cfg : Config} {p p' : Plane} {b : Books} {n : Nat} {s : Process}

theorem Kept.start (buf : Mem) (servAdr : BitVec 32) :
    Kept cfg (.start buf servAdr) .empty := by
  constructor
  case sound => exact State.start_sound buf servAdr
  case means => exact fun n => ⟨rfl, rfl, rfl, rfl, rfl⟩
  case queue => exact .nil
  case queued => exact fun n hn => absurd hn List.not_mem_nil
  case registering => exact fun fd n hn => nomatch hn
  case peer => exact fun n fd hfd => nomatch hfd
  case slots => exact fun i hi => absurd rfl hi
  case unused => exact fun i _ => rfl
  case hungUp => exact fun n hn => nomatch hn
  case spaced => exact fun n s hs => nomatch hs
  case quiet => exact fun _ n => rfl

theorem reads_end (hdown : p.down n = []) {f : List Byte → Process × List Byte}
    (hf : f [] = ({ s with running := false }, [])) :
    p.reads n 0 f =
      { p with server := Function.update p.server n (some { s with running := false }) } := by
  have hnil : Function.update p.down n [] = p.down := by
    rw [← hdown, Function.update_eq_self]
  simp only [Plane.reads, List.take_zero, hf, List.drop_zero, hdown, hnil, List.append_nil,
    Function.update_eq_self]

theorem Kept.connects {k : Nat} {stack : Mem} (h : Kept cfg p b) (hs : p.server n = some s)
    (halgo : s.lbAlgorithm = none) (hread : p.Readable n k 4) (hwhole : k = 0 ∨ k = 4) :
    Kept cfg (p.reads n k (connected s stack))
      (if k = 0 then b else b.set n (b.stage n).connect) := by
  obtain ⟨hsilent, hdown⟩ := h.untold hs halgo
  rcases hwhole with rfl | rfl
  · rcases hread with ⟨_, hnil, _⟩ | ⟨hpos, _⟩
    · rw [if_pos rfl, @reads_end p n s hnil (connected s stack) rfl]
      exact h.process hs rfl rfl rfl rfl fun _ => rfl
    · exact absurd hpos (lt_irrefl 0)
  · rcases hdown with ⟨hnil, _⟩ | ⟨fd, hbytes, hstage, hreg⟩
    · rcases hread with ⟨hzero, _⟩ | ⟨_, _, hlen⟩
      · exact absurd hzero (by decide)
      · rw [hnil] at hlen
        exact absurd hlen (by decide)
    · rw [if_neg (by decide), hstage]
      exact h.connect hsilent hbytes hstage hreg stack

theorem Kept.step {m : Move} (h : Kept cfg p b) (hwhole : Whole m)
    (hnext : p.next cfg m = some p') : Kept cfg p' (b.look p m p') := by
  cases m with
  | launch n addr port =>
    simp only [Plane.next] at hnext
    split at hnext
    · cases hnext
      exact h.launch (Option.isNone_iff_eq_none.mp ‹_›) addr port
    · contradiction
  | connect n k stack =>
    obtain ⟨s, hs, hnext⟩ := Option.bind_eq_some_iff.mp hnext
    split at hnext
    · rename_i hok
      cases hnext
      exact h.connects hs hok.2.1 hok.2.2 hwhole
    · contradiction
  | tick n now cpuUsage ramUsage =>
    obtain ⟨s, hs, hnext⟩ := Option.bind_eq_some_iff.mp hnext
    split at hnext
    · rename_i hok
      cases hnext
      exact h.tick hs hok.1 now cpuUsage ramUsage
    · contradiction
  | readLb n k =>
    obtain ⟨s, hs, hnext⟩ := Option.bind_eq_some_iff.mp hnext
    split at hnext
    · rename_i hok
      obtain ⟨hrun, halgo, hread⟩ := hok
      obtain ⟨htold, _⟩ := h.told hs halgo hrun
      cases hnext
      rcases hread with ⟨rfl, hnil, _⟩ | ⟨hpos, _, hlen⟩
      · rw [@reads_end p n s hnil (readLb s) rfl]
        exact h.process hs rfl rfl rfl rfl fun _ => rfl
      · rw [htold.down] at hlen
        exact absurd (Nat.lt_of_lt_of_le hpos hlen) (lt_irrefl 0)
    · contradiction
  | die n =>
    obtain ⟨s, hs, rfl⟩ := Option.map_eq_some_iff.mp hnext
    exact h.process hs rfl rfl rfl rfl fun _ => rfl
  | accept fd =>
    simp only [Plane.next] at hnext
    split at hnext
    · rename_i hreg
      obtain ⟨n, hn, hnext⟩ := Option.bind_eq_some_iff.mp hnext
      obtain ⟨rest, hwait⟩ := List.head?_eq_some_iff.mp hn
      simp only [hwait, List.tail_cons] at hnext
      simp only [Books.look, hn, Option.elim]
      exact h.accept hreg hwait hnext
    · contradiction
  | port k stack =>
    obtain rfl : k = 2 := hwhole
    obtain ⟨⟨fd, n⟩, hreg, hnext⟩ := Option.bind_eq_some_iff.mp hnext
    simp only [Books.look, hreg, Option.elim]
    dsimp only at hnext
    split at hnext
    · rename_i hok
      obtain ⟨lb, hserve, rfl⟩ := Option.map_eq_some_iff.mp hnext
      rcases hok with ⟨hzero, _⟩ | ⟨_, _, hlen⟩
      · exact absurd hzero (by decide)
      · exact h.port hreg hlen hserve
    · contradiction
  | packet received now minIndex =>
    simp only [Plane.next] at hnext
    split at hnext
    · rename_i hreg
      obtain ⟨lb, hserve, rfl⟩ := Option.map_eq_some_iff.mp hnext
      exact h.packet hreg hserve
    · contradiction
  | report fd reads ending stack =>
    obtain ⟨n, hpeer, hnext⟩ := Option.bind_eq_some_iff.mp hnext
    simp only [Books.look, hpeer, Option.elim]
    dsimp only at hnext
    split at hnext
    · rename_i hok
      obtain ⟨hreg, hpre, heof⟩ := hok
      obtain ⟨lb, hserve, rfl⟩ := Option.map_eq_some_iff.mp hnext
      cases ending with
      | again =>
        rw [if_neg (by decide), if_neg (by decide)]
        exact h.report hreg hpeer hwhole hpre hserve
      | eof =>
        rw [if_pos rfl, if_pos rfl]
        exact h.close hreg hpeer hwhole (heof rfl).1 (heof rfl).2 hserve
    · contradiction

/-- The law of the control plane. A live slot holds the address and the port of a server that was
told the selected algorithm, and the last value that was read of it, and no server has two; what is
read of a server is what it has reported first, in order; reports lie ten seconds apart, and are
made for the resource based algorithm only; a running server that knows the algorithm is entered or
about to be; and the load balancer hangs up on no such server. -/
structure ControlLaw (cfg : Config) (p : Plane) (b : Books) : Prop where
  registered : ∀ i, p.lb.tables.live i → ∃ n s,
    p.peer (p.lb.tables.servList i).sock = some n ∧ p.server n = some s ∧
      s.lbAlgorithm = some (code cfg.selectedAlgo) ∧ Holds (p.lb.tables.servList i) s (b.got n)
  distinct : ∀ i j, p.lb.tables.live i → p.lb.tables.live j →
    p.peer (p.lb.tables.servList i).sock = p.peer (p.lb.tables.servList j).sock → i = j
  reports : ∀ n, b.got n <+: (b.sent n).map (·.2)
  apart : ∀ n, (0 :: (b.sent n).map (·.1)).IsChain fun t t' => t + 10 ≤ t'
  quiet : cfg.selectedAlgo ≠ .resourceBased → ∀ n, b.sent n = []
  entered : ∀ n s, p.server n = some s → s.running = true → s.lbAlgorithm.isSome →
    (∃ fd, p.registering = some (fd, n)) ∨
      ∃ i, p.lb.tables.live i ∧ p.peer (p.lb.tables.servList i).sock = some n
  unbroken : ∀ n s, p.server n = some s → s.running = true → s.lbAlgorithm.isSome →
    p.hungUp n = false

theorem Kept.slot (h : Kept cfg p b) {i : Fin maxServCnt} (hi : p.lb.tables.live i) :
    ∃ n s, b.stage n = .enrolled (p.lb.tables.servList i).sock ∧
      p.peer (p.lb.tables.servList i).sock = some n ∧ Told cfg p n s ∧
      Holds (p.lb.tables.servList i) s (b.got n) := by
  obtain ⟨hpos, n, hn⟩ := h.slots i hi
  have hmeans := h.means n
  rw [hn] at hmeans
  obtain ⟨s, hs, _, j, _, hsock, hholds⟩ := hmeans
  obtain rfl : i = j := h.sound.sock_inj i j hsock.symm hpos
  exact ⟨n, s, hn, h.peer n _ (by rw [hn]; rfl), hs, hholds⟩

theorem Kept.got_prefix (h : Kept cfg p b) (n : Nat) : b.got n <+: (b.sent n).map (·.2) := by
  have hmeans := h.means n
  cases hstage : b.stage n with
  | absent =>
    rw [hstage] at hmeans
    rw [hmeans.2.2.2.2]
    exact List.nil_prefix
  | queued | refused | greeted =>
    rw [hstage] at hmeans
    obtain ⟨s, hs, _⟩ := hmeans
    rw [hs.got]
    exact List.nil_prefix
  | answered =>
    rw [hstage] at hmeans
    obtain ⟨s, _, hgot, _⟩ := hmeans
    rw [hgot]
    exact List.nil_prefix
  | enrolled =>
    rw [hstage] at hmeans
    obtain ⟨s, _, ⟨rest, hsent, _⟩, _⟩ := hmeans
    exact ⟨rest, hsent.symm⟩
  | dropped =>
    rw [hstage] at hmeans
    obtain ⟨s, _, _, _, hsent⟩ := hmeans
    rw [hsent]

theorem Kept.law (h : Kept cfg p b) : ControlLaw cfg p b := by
  constructor
  case registered =>
    intro i hi
    obtain ⟨n, s, _, hpeer, hs, hholds⟩ := h.slot hi
    exact ⟨n, s, hpeer, hs.server, hs.algorithm, hholds⟩
  case distinct =>
    intro i j hi hj hij
    obtain ⟨n, _, hn, hpn, _⟩ := h.slot hi
    obtain ⟨m, _, hm, hpm, _⟩ := h.slot hj
    obtain rfl : n = m := Option.some.inj (hpn.symm.trans (hij.trans hpm))
    exact h.sound.sock_inj i j (Stage.enrolled.inj (hn.symm.trans hm)) (h.slots i hi).1
  case reports => exact h.got_prefix
  case apart =>
    intro n
    cases hs : p.server n with
    | none =>
      have hmeans := h.means n
      rw [h.absent hs] at hmeans
      rw [hmeans.2.2.2.1]
      exact .singleton _
    | some s => exact (h.spaced n s hs).apart
  case quiet => exact h.quiet
  case entered =>
    intro n s hs hrun halgo
    have hmeans := h.means n
    obtain ⟨_, ⟨fd, hfd⟩ | ⟨fd, hfd⟩⟩ := h.told hs halgo hrun
    · rw [hfd] at hmeans
      obtain ⟨_, _, _, _, hreg⟩ := hmeans
      exact .inl ⟨fd, hreg⟩
    · rw [hfd] at hmeans
      obtain ⟨_, _, _, i, hlive, rfl, _⟩ := hmeans
      exact .inr ⟨i, hlive, h.peer n _ (by rw [hfd]; rfl)⟩
  case unbroken =>
    intro n s hs hrun halgo
    rw [← Bool.not_eq_true]
    intro hhung
    obtain ⟨_, ⟨fd, hfd⟩ | ⟨fd, hfd⟩⟩ := h.told hs halgo hrun
    · rcases h.hungUp n hhung with hst | hst <;> cases hfd.symm.trans hst
    · rcases h.hungUp n hhung with hst | hst <;> cases hfd.symm.trans hst

end Run

/-- Every run in which nothing is received in parts keeps the law of the control plane. -/
theorem control_plane {cfg : Config} {p : Plane} {b : Books} (h : WholeRun cfg (p, b)) :
    ControlLaw cfg p b := by
  have hkept := Transitions.Reachable.invariant (I := fun p => Kept cfg p.1 p.2) ?_ ?_ h
  · exact hkept.law
  · rintro ⟨p, b⟩ ⟨⟨buf, servAdr, rfl⟩, rfl⟩
    exact .start buf servAdr
  · rintro p m q _ hp ⟨hwhole, hstep, hq⟩
    rw [hq]
    exact hp.step hwhole hstep

def nextWhole (cfg : Config) (p : Plane × Books) (m : Move) : Option (Move × (Plane × Books)) :=
  if Whole m then (p.1.next cfg m).map fun q => (m, (q, p.2.look p.1 m q)) else none

theorem nextWhole_step (cfg : Config) (p : Plane × Books) (m l : Move) (q : Plane × Books)
    (h : nextWhole cfg p m = some (l, q)) :
    id l = m ∧ ((observed cfg).restrict fun _ m => Whole m).step p l q := by
  rw [nextWhole] at h
  split at h
  · rename_i hok
    obtain ⟨r, hr, heq⟩ := Option.map_eq_some_iff.mp h
    cases heq
    exact ⟨rfl, hok, hr, rfl⟩
  · contradiction

def demoUsage : Config := { demoConfig with selectedAlgo := .resourceBased }

def demoRead : ReadResult := .data ⟨bytes32 30, le_refl 4⟩ (List.cons_ne_nil _ _)

def demoMoves : List Move :=
  [.launch 3 0x0200000a 8080, .accept 7, .connect 3 4 fun _ => 0, .port 2 fun _ => 0,
    .tick 3 100 10 20, .report 7 [demoRead] .again fun _ => 0, .tick 3 105 50 50,
    .tick 3 110 15 15]

theorem control_plane_demo : ∃ p b, WholeRun demoUsage (p, b) ∧
    b.sent 3 = [(100, 30), (110, 30)] ∧ b.got 3 = [30] ∧ p.lb.tables.live 0 ∧
    ControlLaw demoUsage p b := by
  obtain ⟨⟨p, b⟩, ms, _, hrun, htest⟩ := @Transitions.run_of_runsTo _ _ _ _ id
    (nextWhole demoUsage)
    (fun p => p.2.sent 3 = [(100, 30), (110, 30)] ∧ p.2.got 3 = [30] ∧ p.1.lb.tables.live 0)
    (nextWhole_step demoUsage) (.start (fun _ => 0) 0, .empty) demoMoves (by decide +kernel)
  have hreach : WholeRun demoUsage (p, b) := hrun.reachable (.init ⟨⟨_, _, rfl⟩, rfl⟩)
  obtain ⟨hsent, hgot, hlive⟩ := of_decide_eq_true htest
  exact ⟨p, b, hreach, hsent, hgot, hlive, control_plane hreach⟩

end ControlPlane
