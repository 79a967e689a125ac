import IotLab.Library.Fallible
import IotLab.ChatServer.Membership

set_option autoImplicit false

namespace ChatServer
open SlotTable HostMemory

/-- The connections in the order they were accepted: the socket of each, the threads that took
it for theirs, how often it was removed from the array and closed; and the connection that a
descriptor stands for. The server does not read this. -/
structure Ledger where
  count : Nat
  sock : Nat → Int
  handlers : Nat → List Nat
  removed : Nat → Nat
  closed : Nat → Nat
  current : Int → Option Nat

def Ledger.empty : Ledger :=
  ⟨0, fun _ => 0, fun _ => [], fun _ => 0, fun _ => 0, fun _ => none⟩

def Ledger.accept (g : Ledger) (fd : Int) : Ledger :=
  { g with
    count := g.count + 1
    sock := Function.update g.sock g.count fd
    current := Function.update g.current fd (some g.count) }

def Ledger.handle (g : Ledger) (c t : Nat) : Ledger :=
  { g with handlers := Function.update g.handlers c (t :: g.handlers c) }

def Ledger.remove (g : Ledger) (c : Nat) : Ledger :=
  { g with removed := Function.update g.removed c (g.removed c + 1) }

def Ledger.close (g : Ledger) (c : Nat) : Ledger :=
  { g with closed := Function.update g.closed c (g.closed c + 1) }

def Ledger.look (g : Ledger) (s : State) (l : Step) (_ : State) : Ledger :=
  match l.event with
  | .accept accepted => accepted.elim g g.accept
  | .start t => (g.current s.clntSock).elim g fun c => g.handle c t
  | .leave t => ((readsFrom s t).bind g.current).elim g g.remove
  | .close t => ((closes s t).bind g.current).elim g g.close
  | .append | .spawn _ | .message _ _ => g

/-- `accept` returns only after every new thread has copied its socket number, and a thread can
be created; neither matters while the variable holds the -1 of a failed `accept`. -/
def HandedOver (s : State) : Event → Prop
  | .accept accepted => .created ∉ s.threads ∨ (accepted = none ∧ s.clntSock = -1)
  | .spawn created => created = true ∨ s.clntSock = -1
  | _ => True

instance (s : State) (e : Event) : Decidable (HandedOver s e) :=
  match e with
  | .accept accepted =>
    inferInstanceAs (Decidable (.created ∉ s.threads ∨ (accepted = none ∧ s.clntSock = -1)))
  | .spawn created => inferInstanceAs (Decidable (created = true ∨ s.clntSock = -1))
  | .append | .start _ | .message _ _ | .leave _ | .close _ => inferInstanceAs (Decidable True)

def servingChat : Transitions.System (State × Ledger) Step :=
  system.observe .empty Ledger.look

abbrev Handing (s : State) : Prop := s.mainAt ≠ .accept ∨ .created ∈ s.threads

/-- Every accepted socket is served by one thread, once it was handed over, and no socket by
two; its thread reads it until it removes and closes it, which happens once. -/
structure ServingLaw (s : State) (g : Ledger) : Prop where
  one : ∀ c, (g.handlers c).length ≤ 1
  served : ∀ c < g.count, g.handlers c = [] → s.clntSock = g.sock c ∧ Handing s
  distinct : ∀ c c' t, t ∈ g.handlers c → t ∈ g.handlers c' → c = c'
  reading : ∀ c t, t ∈ g.handlers c → g.removed c = 0 → readsFrom s t = some (g.sock c)
  exclusive : ∀ t t' fd, fd ∈ s.openSocks → readsFrom s t = some fd →
    readsFrom s t' = some fd → t = t'
  removedOnce : ∀ c, g.removed c ≤ 1
  closedOnce : ∀ c, g.closed c ≤ 1

abbrev Names (s : State) (g : Ledger) (c : Nat) : Prop :=
  g.sock c ∈ s.openSocks ∧ g.current (g.sock c) = some c

inductive Served (s : State) (g : Ledger) (c : Nat) : Prop
  | waiting (hhandlers : g.handlers c = []) (hremoved : g.removed c = 0) (hclosed : g.closed c = 0)
      (hnames : Names s g c) (hsock : s.clntSock = g.sock c) (hhanding : Handing s)
  | running (t : Nat) (hhandlers : g.handlers c = [t]) (hremoved : g.removed c = 0)
      (hclosed : g.closed c = 0) (hnames : Names s g c) (ht : readsFrom s t = some (g.sock c))
  | left (t : Nat) (hhandlers : g.handlers c = [t]) (hremoved : g.removed c = 1)
      (hclosed : g.closed c = 0) (hnames : Names s g c) (ht : closes s t = some (g.sock c))
  | finished (t : Nat) (hhandlers : g.handlers c = [t]) (hremoved : g.removed c = 1)
      (hclosed : g.closed c = 1) (ht : s.threads[t]? = some .finished)

structure Serving (s : State) (g : Ledger) : Prop where
  served : ∀ c < g.count, Served s g c
  fresh : ∀ c, g.count ≤ c → g.handlers c = [] ∧ g.removed c = 0 ∧ g.closed c = 0
  distinct : ∀ c c' t, g.handlers c = [t] → g.handlers c' = [t] → c = c'
  named : ∀ fd c, g.current fd = some c → c < g.count ∧ g.sock c = fd ∧ 0 ≤ fd
  opened : ∀ fd ∈ s.openSocks, 0 ≤ fd
  reader : ∀ t fd, readsFrom s t = some fd → fd ≠ -1 →
    ∃ c < g.count, g.handlers c = [t] ∧ g.sock c = fd
  closer : ∀ t fd, closes s t = some fd → ∃ c < g.count, g.handlers c = [t] ∧ g.sock c = fd
  idle : s.clntSock ≠ -1 → s.mainAt ≠ .accept → .created ∉ s.threads
  createdInj : s.clntSock ≠ -1 → ∀ t t' : Nat, s.threads[t]? = some Thread.created →
    s.threads[t']? = some Thread.created → t = t'
  handing : Handing s → s.clntSock ≠ -1 →
    ∃ c < g.count, g.current s.clntSock = some c ∧ g.handlers c = []

section Phases
variable {s s' : State} {g g' : Ledger} {c c' t : Nat} {fd : Int}

theorem readsFrom_eq : readsFrom s t = some fd ↔ s.threads[t]? = some (.running fd) := by
  rw [readsFrom, Option.bind_eq_some_iff]
  constructor
  · rintro ⟨thread, ht, hr⟩
    cases thread <;> simp [Thread.reading] at hr
    rw [ht, hr]
  · exact fun h => ⟨_, h, rfl⟩

theorem closes_eq : closes s t = some fd ↔ s.threads[t]? = some (.left fd) := by
  rw [closes, Option.bind_eq_some_iff]
  constructor
  · rintro ⟨thread, ht, hr⟩
    cases thread <;> simp [Thread.closing] at hr
    rw [ht, hr]
  · exact fun h => ⟨_, h, rfl⟩

theorem Names.inj (h : Names s g c) (h' : Names s g c') (heq : g.sock c = g.sock c') : c = c' :=
  Option.some.inj (h.2.symm.trans (heq ▸ h'.2))

theorem Served.thread (h : Served s g c) (hh : g.handlers c = [t]) :
    (g.removed c = 0 ∧ g.closed c = 0 ∧ Names s g c ∧
      s.threads[t]? = some (.running (g.sock c))) ∨
    (g.removed c = 1 ∧ g.closed c = 0 ∧ Names s g c ∧ s.threads[t]? = some (.left (g.sock c))) ∨
    (g.removed c = 1 ∧ g.closed c = 1 ∧ s.threads[t]? = some .finished) := by
  cases h with
  | waiting hhandlers => cases hhandlers.symm.trans hh
  | running t' hhandlers hremoved hclosed hnames ht =>
    obtain rfl : t' = t := by simpa using hhandlers.symm.trans hh
    exact .inl ⟨hremoved, hclosed, hnames, readsFrom_eq.mp ht⟩
  | left t' hhandlers hremoved hclosed hnames ht =>
    obtain rfl : t' = t := by simpa using hhandlers.symm.trans hh
    exact .inr (.inl ⟨hremoved, hclosed, hnames, closes_eq.mp ht⟩)
  | finished t' hhandlers hremoved hclosed ht =>
    obtain rfl : t' = t := by simpa using hhandlers.symm.trans hh
    exact .inr (.inr ⟨hremoved, hclosed, ht⟩)

theorem Served.of_reads (h : Served s g c) (hh : g.handlers c = [t])
    (hr : readsFrom s t = some fd) :
    g.removed c = 0 ∧ g.closed c = 0 ∧ Names s g c ∧ g.sock c = fd := by
  have hr := readsFrom_eq.mp hr
  rcases h.thread hh with ⟨hremoved, hclosed, hnames, ht⟩ | ⟨_, _, _, ht⟩ | ⟨_, _, ht⟩
  · cases ht.symm.trans hr
    exact ⟨hremoved, hclosed, hnames, rfl⟩
  · cases ht.symm.trans hr
  · cases ht.symm.trans hr

theorem Served.of_closes (h : Served s g c) (hh : g.handlers c = [t])
    (hc : closes s t = some fd) :
    g.removed c = 1 ∧ g.closed c = 0 ∧ Names s g c ∧ g.sock c = fd := by
  have hc := closes_eq.mp hc
  rcases h.thread hh with ⟨_, _, _, ht⟩ | ⟨hremoved, hclosed, hnames, ht⟩ | ⟨_, _, ht⟩
  · cases ht.symm.trans hc
  · cases ht.symm.trans hc
    exact ⟨hremoved, hclosed, hnames, rfl⟩
  · cases ht.symm.trans hc

theorem Served.not_created (h : Served s g c) (hh : g.handlers c = [t]) :
    s.threads[t]? ≠ some .created := by
  intro hcreated
  rcases h.thread hh with ⟨_, _, _, ht⟩ | ⟨_, _, _, ht⟩ | ⟨_, _, ht⟩ <;>
    cases ht.symm.trans hcreated

theorem Served.lt_threads (h : Served s g c) (hh : g.handlers c = [t]) :
    t < s.threads.length := by
  rcases h.thread hh with ⟨_, _, _, ht⟩ | ⟨_, _, _, ht⟩ | ⟨_, _, ht⟩ <;>
    exact (List.getElem?_eq_some_iff.mp ht).1

theorem Served.kept (h : Served s g c) (hsock : g'.sock c = g.sock c)
    (hhandlers : g'.handlers c = g.handlers c) (hremoved : g'.removed c = g.removed c)
    (hclosed : g'.closed c = g.closed c) (hnames : Names s g c → Names s' g' c)
    (hwaiting : s.clntSock = g.sock c → Handing s → g.handlers c = [] → Names s g c →
      s'.clntSock = g.sock c ∧ Handing s')
    (hthread : ∀ t, g.handlers c = [t] → s'.threads[t]? = s.threads[t]?) : Served s' g' c := by
  cases h with
  | waiting hh hr hc hn hs hhand =>
    obtain ⟨hs', hhand'⟩ := hwaiting hs hhand hh hn
    exact .waiting (hhandlers.trans hh) (hremoved.trans hr) (hclosed.trans hc) (hnames hn)
      (hs'.trans hsock.symm) hhand'
  | running t hh hr hc hn ht =>
    refine .running t (hhandlers.trans hh) (hremoved.trans hr) (hclosed.trans hc) (hnames hn) ?_
    rw [readsFrom_eq, hthread t hh, hsock]
    exact readsFrom_eq.mp ht
  | left t hh hr hc hn ht =>
    refine .left t (hhandlers.trans hh) (hremoved.trans hr) (hclosed.trans hc) (hnames hn) ?_
    rw [closes_eq, hthread t hh, hsock]
    exact closes_eq.mp ht
  | finished t hh hr hc ht =>
    exact .finished t (hhandlers.trans hh) (hremoved.trans hr) (hclosed.trans hc)
      ((hthread t hh).trans ht)

end Phases

section Preserved
variable {s s' : State} {g : Ledger} {c t : Nat} {fd : Int}

theorem Serving.start (clntSock : Int) : Serving (State.start clntSock) .empty := by
  constructor <;> simp [State.start, Ledger.empty, readsFrom, closes]

theorem Serving.lt_count (h : Serving s g) (hh : g.handlers c = [t]) : c < g.count := by
  by_contra hge
  cases (h.fresh c (Nat.le_of_not_lt hge)).1.symm.trans hh

theorem Serving.sock_nonneg (h : Serving s g) (hn : Names s g c) : 0 ≤ g.sock c :=
  h.opened _ hn.1

theorem Serving.acceptFailed (h : Serving s g) (hmain : s.mainAt = .accept)
    (hok : .created ∉ s.threads ∨ s.clntSock = -1) :
    Serving { s with clntSock := -1, mainAt := .append } g := by
  refine ⟨fun c hc => ?_, h.fresh, h.distinct, h.named, h.opened, h.reader, h.closer,
    fun hne => absurd rfl hne, fun hne => absurd rfl hne, fun _ hne => absurd rfl hne⟩
  refine (h.served c hc).kept rfl rfl rfl rfl id (fun hsock hhand _ hn => ?_) (fun _ _ => rfl)
  have hpos := h.sock_nonneg hn
  rcases hok with hidle | hfailed
  · exact absurd (hhand.resolve_left (not_not.mpr hmain)) hidle
  · omega

theorem Serving.accepted (h : Serving s g) (hmain : s.mainAt = .accept) (hpos : 0 ≤ fd)
    (hfd : fd ∉ s.openSocks) (hidle : .created ∉ s.threads) :
    Serving { s with clntSock := fd, mainAt := .append, openSocks := fd :: s.openSocks }
      (g.accept fd) := by
  have hold {c : Nat} (hc : c < g.count) : (g.accept fd).sock c = g.sock c :=
    Function.update_of_ne (by omega) ..
  have hnew : (g.accept fd).sock g.count = fd := Function.update_self ..
  have hcurrent : (g.accept fd).current fd = some g.count := Function.update_self ..
  have hlt {c : Nat} (hc : c < g.count) : c < (g.accept fd).count := Nat.lt_succ_of_lt hc
  constructor
  case served =>
    intro c hc
    by_cases hcn : c = g.count
    · subst hcn
      obtain ⟨hh, hr, hcl⟩ := h.fresh g.count (le_refl _)
      refine .waiting hh hr hcl ⟨?_, ?_⟩ hnew.symm (.inl MainAt.noConfusion)
      · rw [hnew]
        exact List.mem_cons_self
      · rw [hnew]
        exact hcurrent
    · have hc' : c < g.count := Nat.lt_of_le_of_ne (Nat.le_of_lt_succ hc) hcn
      refine (h.served c hc').kept (hold hc') rfl rfl rfl (fun hn => ?_)
        (fun _ hhand _ _ => absurd (hhand.resolve_left (not_not.mpr hmain)) hidle) (fun _ _ => rfl)
      have hne : g.sock c ≠ fd := fun heq => hfd (heq ▸ hn.1)
      rw [Names, hold hc']
      exact ⟨List.mem_cons_of_mem _ hn.1, (Function.update_of_ne hne ..).trans hn.2⟩
  case fresh => exact fun c hc => h.fresh c (Nat.le_of_succ_le hc)
  case distinct => exact h.distinct
  case named =>
    intro x c hx
    by_cases hxf : x = fd
    · subst hxf
      obtain rfl : g.count = c := Option.some.inj (hcurrent.symm.trans hx)
      exact ⟨Nat.lt_succ_self _, hnew, hpos⟩
    · have hx : g.current x = some c := (Function.update_of_ne hxf ..).symm.trans hx
      obtain ⟨hc, hsock, hx0⟩ := h.named x c hx
      exact ⟨hlt hc, (hold hc).trans hsock, hx0⟩
  case opened =>
    intro x hx
    rcases List.mem_cons.mp hx with rfl | hx
    · exact hpos
    · exact h.opened x hx
  case reader =>
    intro t x hx hne
    obtain ⟨c, hc, hh, hsock⟩ := h.reader t x hx hne
    exact ⟨c, hlt hc, hh, (hold hc).trans hsock⟩
  case closer =>
    intro t x hx
    obtain ⟨c, hc, hh, hsock⟩ := h.closer t x hx
    exact ⟨c, hlt hc, hh, (hold hc).trans hsock⟩
  case idle => exact fun _ _ => hidle
  case createdInj => exact fun _ t t' ht => absurd (List.mem_of_getElem? ht) hidle
  case handing =>
    exact fun _ _ => ⟨g.count, Nat.lt_succ_self _, hcurrent, (h.fresh g.count (le_refl _)).1⟩

theorem Serving.appended (h : Serving s g) (hmain : s.mainAt = .append)
    (hsock : s'.clntSock = s.clntSock) (hmain' : s'.mainAt = .spawn)
    (hthreads : s'.threads = s.threads) (hopen : s'.openSocks = s.openSocks) : Serving s' g := by
  have hne : s.mainAt ≠ .accept := by rw [hmain]; exact MainAt.noConfusion
  have hhand : Handing s := .inl hne
  have hhand' : Handing s' := .inl (by rw [hmain']; exact MainAt.noConfusion)
  have hreads := @readsFrom_congr s s' hthreads
  have hcloses := @closes_congr s s' hthreads
  constructor
  case served =>
    intro c hc
    refine (h.served c hc).kept rfl rfl rfl rfl (fun hn => ?_)
      (fun hs _ _ _ => ⟨hsock.trans hs, hhand'⟩) (fun t _ => by rw [hthreads])
    rw [Names, hopen]
    exact hn
  case fresh => exact h.fresh
  case distinct => exact h.distinct
  case named => exact h.named
  case opened => exact hopen ▸ h.opened
  case reader => exact fun t x hx => h.reader t x (hreads t ▸ hx)
  case closer => exact fun t x hx => h.closer t x (hcloses t ▸ hx)
  case idle =>
    rw [hsock, hthreads]
    exact fun hx _ => h.idle hx hne
  case createdInj =>
    rw [hsock, hthreads]
    exact h.createdInj
  case handing =>
    rw [hsock]
    exact fun _ => h.handing hhand

theorem Serving.spawned (h : Serving s g) (hmain : s.mainAt = .spawn) :
    Serving { s with mainAt := .accept, threads := s.threads ++ [.created] } g := by
  have hne : s.mainAt ≠ .accept := by rw [hmain]; exact MainAt.noConfusion
  have hreads (t : Nat) : readsFrom { s with
      mainAt := .accept, threads := s.threads ++ [.created] } t = readsFrom s t :=
    bind_created rfl t
  have hcloses (t : Nat) : closes { s with
      mainAt := .accept, threads := s.threads ++ [.created] } t = closes s t :=
    bind_created rfl t
  constructor
  case served =>
    intro c hc
    have hserved := h.served c hc
    refine hserved.kept rfl rfl rfl rfl id (fun hs _ _ _ => ⟨hs, .inr ?_⟩) (fun t hh => ?_)
    · exact List.mem_append_right _ (List.mem_singleton_self _)
    · exact List.getElem?_append_left (hserved.lt_threads hh)
  case fresh => exact h.fresh
  case distinct => exact h.distinct
  case named => exact h.named
  case opened => exact h.opened
  case reader => exact fun t x hx => h.reader t x (hreads t ▸ hx)
  case closer => exact fun t x hx => h.closer t x (hcloses t ▸ hx)
  case idle => exact fun _ hm => absurd rfl hm
  case createdInj =>
    intro hx t t' ht ht'
    have hidle := h.idle hx hne
    exact (created_last hidle ht).trans (created_last hidle ht').symm
  case handing => exact fun _ => h.handing (.inl hne)

theorem Serving.unspawned (h : Serving s g) (hmain : s.mainAt = .spawn)
    (hfailed : s.clntSock = -1) : Serving { s with mainAt := .accept } g := by
  have hne : s.mainAt ≠ .accept := by rw [hmain]; exact MainAt.noConfusion
  refine ⟨fun c hc => ?_, h.fresh, h.distinct, h.named, h.opened, h.reader, h.closer,
    fun hx => absurd hfailed hx, fun hx => absurd hfailed hx, fun _ => h.handing (.inl hne)⟩
  refine (h.served c hc).kept rfl rfl rfl rfl id (fun hs _ _ hn => ?_) (fun _ _ => rfl)
  have := h.sock_nonneg hn
  omega

theorem threads_setThread {thread : Thread} {t' : Nat} (hne : t' ≠ t) :
    (setThread s t thread).threads[t']? = s.threads[t']? :=
  List.getElem?_set_ne (Ne.symm hne)

section Start
variable (h : Serving s g) (ht : s.threads[t]? = some .created)
include h ht

theorem Serving.start_other {c t' : Nat} (hc : c < g.count) (hh : g.handlers c = [t']) :
    (setThread s t (.running s.clntSock)).threads[t']? = s.threads[t']? :=
  threads_setThread (fun heq => (h.served c hc).not_created hh (heq ▸ ht))

omit h in
theorem closes_start {t' : Nat} (hx : closes (setThread s t (.running s.clntSock)) t' = some fd) :
    closes s t' = some fd :=
  (closes_other (List.getElem?_eq_some_iff.mp ht).1 rfl hx).2

theorem Serving.started_failed (hfailed : s.clntSock = -1) :
    Serving (setThread s t (.running s.clntSock)) g := by
  have hlt := (List.getElem?_eq_some_iff.mp ht).1
  refine ⟨fun c hc => ?_, h.fresh, h.distinct, h.named, h.opened, fun t' x hx hne => ?_,
    fun t' x hx => h.closer t' x (closes_start ht hx), fun hne => absurd hfailed hne,
    fun hne => absurd hfailed hne, fun _ hne => absurd hfailed hne⟩
  · refine (h.served c hc).kept rfl rfl rfl rfl id (fun hs _ _ hn => ?_)
      (fun t' hh => h.start_other ht hc hh)
    have := h.sock_nonneg hn
    omega
  · rw [readsFrom_setThread hlt] at hx
    split at hx
    · exact absurd ((Option.some.inj hx).symm.trans hfailed) hne
    · exact h.reader t' x hx hne

theorem Serving.start_idle (hgood : s.clntSock ≠ -1) :
    .created ∉ (setThread s t (.running s.clntSock)).threads := by
  intro hmem
  obtain ⟨k, hk⟩ := List.mem_iff_getElem?.mp hmem
  obtain rfl := h.createdInj hgood t k ht (created_setThread Thread.noConfusion hk)
  simp only [setThread, List.getElem?_set_self (List.getElem?_eq_some_iff.mp ht).1] at hk
  cases hk

theorem Serving.started_good {c₀ : Nat} (hgood : s.clntSock ≠ -1) (hc₀ : c₀ < g.count)
    (hcurrent : g.current s.clntSock = some c₀) (hempty : g.handlers c₀ = []) :
    Serving (setThread s t (.running s.clntSock)) (g.handle c₀ t) := by
  have hlt := (List.getElem?_eq_some_iff.mp ht).1
  have hsock₀ := (h.named _ c₀ hcurrent).2.1
  have hidle := h.start_idle ht hgood
  have hmain : s.mainAt = .accept :=
    Classical.byContradiction (fun hne => h.idle hgood hne (List.mem_of_getElem? ht))
  have hone : (g.handle c₀ t).handlers c₀ = [t] := by
    simp [Ledger.handle, hempty]
  have hothers {c : Nat} (hne : c ≠ c₀) : (g.handle c₀ t).handlers c = g.handlers c :=
    Function.update_of_ne hne ..
  have hserves {c t' : Nat} (hh : g.handlers c = [t']) : c ≠ c₀ := fun heq => by
    rw [heq, hempty] at hh
    cases hh
  have hreads : readsFrom (setThread s t (.running s.clntSock)) t = some s.clntSock := by
    rw [readsFrom_setThread hlt, if_pos rfl]
    rfl
  constructor
  case served =>
    intro c hc
    by_cases hne : c = c₀
    · subst hne
      cases h.served c hc with
      | waiting hh hr hcl hn hs _ =>
        exact .running t hone hr hcl hn (hreads.trans (congrArg some hs))
      | running _ hh | left _ hh | finished _ hh => cases hempty.symm.trans hh
    · refine (h.served c hc).kept rfl (hothers hne) rfl rfl id (fun hs _ _ hn => ?_)
        (fun t' hh => h.start_other ht hc hh)
      exact absurd (Option.some.inj (hn.2.symm.trans (hs ▸ hcurrent))) hne
  case fresh =>
    intro c hc
    obtain ⟨hh, hr, hcl⟩ := h.fresh c hc
    have hne : c ≠ c₀ := fun heq => absurd (heq ▸ hc : g.count ≤ c₀) (Nat.not_le_of_lt hc₀)
    exact ⟨(hothers hne).trans hh, hr, hcl⟩
  case distinct =>
    intro c c' t' hc hc'
    refine holder_unique (fun c x => g.handlers c = [x])
      (fun c x => (g.handle c₀ t).handlers c = [x]) c₀ (fun i x hne hx => ?_)
      (fun i x hx hi => ?_) h.distinct hc hc'
    · exact (hothers hne).symm.trans hx
    · obtain rfl : t = x := by simpa using hone.symm.trans hx
      exact (h.served i (h.lt_count hi)).not_created hi ht
  case named => exact h.named
  case opened => exact h.opened
  case reader =>
    intro t' x hx hne
    rw [readsFrom_setThread hlt] at hx
    split at hx
    · rename_i heq
      exact ⟨c₀, hc₀, heq ▸ hone, hsock₀.trans (Option.some.inj hx)⟩
    · obtain ⟨c, hc, hh, hs⟩ := h.reader t' x hx hne
      exact ⟨c, hc, (hothers (hserves hh)).trans hh, hs⟩
  case closer =>
    intro t' x hx
    obtain ⟨c, hc, hh, hs⟩ := h.closer t' x (closes_start ht hx)
    exact ⟨c, hc, (hothers (hserves hh)).trans hh, hs⟩
  case idle => exact fun _ _ => hidle
  case createdInj => exact fun _ k k' hk => absurd (List.mem_of_getElem? hk) hidle
  case handing => exact fun hhand => hhand.elim (absurd hmain) (absurd · hidle)

theorem Serving.started : Serving (setThread s t (.running s.clntSock))
    ((g.current s.clntSock).elim g fun c => g.handle c t) := by
  by_cases hfailed : s.clntSock = -1
  · have hnone : g.current s.clntSock = none := by
      rw [Option.eq_none_iff_forall_ne_some]
      intro c hc
      have := (h.named _ c hc).2.2
      omega
    rw [hnone]
    exact h.started_failed ht hfailed
  · obtain ⟨c₀, hc₀, hcurrent, hempty⟩ := h.handing (.inr (List.mem_of_getElem? ht)) hfailed
    rw [hcurrent]
    exact h.started_good ht hfailed hc₀ hcurrent hempty

end Start

theorem Serving.moved (h : Serving s g) {c₀ : Nat} {thread : Thread} (socks : List Int)
    {removed closed : Nat → Nat} (hc₀ : c₀ < g.count) (hh₀ : g.handlers c₀ = [t])
    (hnames : Names s g c₀)
    (hreading : thread.reading = none) (hclosing : ∀ x ∈ thread.closing, g.sock c₀ = x)
    (hcreated : thread ≠ .created) (hsocks : ∀ x ∈ socks, x ∈ s.openSocks)
    (hkeep : ∀ x ∈ s.openSocks, x ≠ g.sock c₀ → x ∈ socks)
    (hremoved : ∀ c, c ≠ c₀ → removed c = g.removed c)
    (hclosed : ∀ c, c ≠ c₀ → closed c = g.closed c)
    (hserved : Served { setThread s t thread with openSocks := socks }
      { g with removed := removed, closed := closed } c₀) :
    Serving { setThread s t thread with openSocks := socks }
      { g with removed := removed, closed := closed } := by
  have hlt := (h.served c₀ hc₀).lt_threads hh₀
  have hnot := (h.served c₀ hc₀).not_created hh₀
  have hhanding (hhand : s.mainAt ≠ .accept ∨ .created ∈ (setThread s t thread).threads) :
      Handing s := hhand.imp_right (created_mem_setThread hcreated)
  constructor
  case served =>
    intro c hc
    by_cases hcc : c = c₀
    · exact hcc ▸ hserved
    · refine (h.served c hc).kept rfl rfl (hremoved c hcc) (hclosed c hcc) (fun hn => ?_)
        (fun hs hhand _ _ => ⟨hs, ?_⟩) (fun t' hh => threads_setThread (fun heq => ?_))
      · exact ⟨hkeep _ hn.1 (fun heq => hcc (hn.inj hnames heq)), hn.2⟩
      · refine hhand.imp_right (fun hm => ?_)
        obtain ⟨k, hk⟩ := List.mem_iff_getElem?.mp hm
        have hkt : k ≠ t := fun heq => hnot (heq ▸ hk)
        exact List.mem_of_getElem? ((threads_setThread hkt).trans hk)
      · exact hcc (h.distinct c c₀ t (heq ▸ hh) hh₀)
  case fresh =>
    intro c hc
    obtain ⟨hh, hr, hcl⟩ := h.fresh c hc
    have hne : c ≠ c₀ := fun heq => absurd (heq ▸ hc : g.count ≤ c₀) (Nat.not_le_of_lt hc₀)
    exact ⟨hh, (hremoved c hne).trans hr, (hclosed c hne).trans hcl⟩
  case distinct => exact h.distinct
  case named => exact h.named
  case opened => exact fun x hx => h.opened x (hsocks x hx)
  case reader => exact fun t' x hx => h.reader t' x (readsFrom_other hlt hreading hx).2
  case closer =>
    intro t' x hx
    have hx := (closes_setThread hlt t').symm.trans hx
    split at hx
    · rename_i heq
      exact ⟨c₀, hc₀, heq ▸ hh₀, hclosing x hx⟩
    · exact h.closer t' x hx
  case idle =>
    exact fun hne hmain hm => h.idle hne hmain (created_mem_setThread hcreated hm)
  case createdInj =>
    exact fun hne t₁ t₂ h₁ h₂ => h.createdInj hne t₁ t₂ (created_setThread hcreated h₁)
      (created_setThread hcreated h₂)
  case handing => exact fun hhand hne => h.handing (hhanding hhand) hne

theorem Serving.left (h : Serving s g) (hr : readsFrom s t = some fd) (hfd : fd ∈ s.openSocks) :
    Serving (setThread s t (.left fd)) ((g.current fd).elim g g.remove) := by
  have hpos := h.opened fd hfd
  obtain ⟨c₀, hc₀, hh₀, -⟩ := h.reader t fd hr (by omega)
  obtain ⟨hremoved, hclosed, hnames, rfl⟩ := (h.served c₀ hc₀).of_reads hh₀ hr
  have hlt := lt_of_readsFrom hr
  rw [hnames.2]
  refine h.moved s.openSocks hc₀ hh₀ hnames rfl (fun x hx => Option.some.inj hx)
     Thread.noConfusion (fun x hx => hx) (fun x hx _ => hx)
    (fun c hne => Function.update_of_ne hne ..) (fun c _ => rfl) ?_
  refine .left t hh₀ ?_ hclosed hnames ((closes_setThread hlt t).trans (if_pos rfl))
  simp [hremoved]

theorem Serving.closed (h : Serving s g) (hc : closes s t = some fd) :
    Serving { setThread s t .finished with openSocks := s.openSocks.filter (· ≠ fd) }
      ((g.current fd).elim g g.close) := by
  obtain ⟨c₀, hc₀, hh₀, -⟩ := h.closer t fd hc
  obtain ⟨hremoved, hclosed, hnames, rfl⟩ := (h.served c₀ hc₀).of_closes hh₀ hc
  have hlt := lt_of_closes hc
  rw [hnames.2]
  refine h.moved _ hc₀ hh₀ hnames rfl nofun Thread.noConfusion
    (fun x hx => (List.mem_filter.mp hx).1)
    (fun x hx hne => List.mem_filter.mpr ⟨hx, by simpa using hne⟩) (fun c _ => rfl)
    (fun c hne => Function.update_of_ne hne ..) ?_
  refine .finished t hh₀ hremoved ?_ (List.getElem?_set_self hlt)
  simp [hclosed]

theorem Serving.congr (h : Serving s g) (hsock : s'.clntSock = s.clntSock)
    (hmain : s'.mainAt = s.mainAt) (hthreads : s'.threads = s.threads)
    (hopen : s'.openSocks = s.openSocks) : Serving s' g := by
  obtain ⟨cnt, socks, sock, mainAt, threads, opens⟩ := s
  obtain ⟨cnt', socks', sock', mainAt', threads', opens'⟩ := s'
  obtain ⟨rfl, rfl, rfl, rfl⟩ : sock' = sock ∧ mainAt' = mainAt ∧ threads' = threads ∧
      opens' = opens := ⟨hsock, hmain, hthreads, hopen⟩
  exact ⟨fun c hc => (h.served c hc).kept rfl rfl rfl rfl id (fun hs hh _ _ => ⟨hs, hh⟩)
    (fun _ _ => rfl), h.fresh, h.distinct, h.named, h.opened, h.reader, h.closer, h.idle,
    h.createdInj,
    h.handing⟩

theorem append_frame (h : append s = .ok s') : s'.clntSock = s.clntSock ∧ s'.mainAt = .spawn ∧
    s'.threads = s.threads ∧ s'.openSocks = s.openSocks := by
  obtain ⟨k, -, hk⟩ := Fallible.bind_eq_ok.mp h
  cases hk
  exact ⟨rfl, rfl, rfl, rfl⟩

theorem removeSock_frame (h : removeSock s fd = .ok s') : s'.clntSock = s.clntSock ∧
    s'.mainAt = s.mainAt ∧ s'.threads = s.threads ∧ s'.openSocks = s.openSocks := by
  obtain ⟨found, -, hfound⟩ := Fallible.bind_eq_ok.mp h
  cases found with
  | some i =>
    obtain ⟨socks, -, hsocks⟩ := Fallible.bind_eq_ok.mp hfound
    cases hsocks
    exact ⟨rfl, rfl, rfl, rfl⟩
  | none =>
    cases hfound
    exact ⟨rfl, rfl, rfl, rfl⟩

theorem Serving.step {l : Step} (h : Serving s g) (hok : HandedOver s l.event)
    (hstep : system.step s l s') : Serving s' (g.look s l s') := by
  obtain ⟨hcan, hrun⟩ := hstep
  obtain ⟨event, writes⟩ := l
  cases event with
  | accept accepted =>
    obtain ⟨rfl, -⟩ := Prod.mk.inj (Except.ok.inj hrun)
    cases accepted with
    | none => exact h.acceptFailed hcan.1 (hok.imp_right And.right)
    | some fd =>
      obtain ⟨hpos, hnew⟩ := hcan.2 fd rfl
      exact h.accepted hcan.1 hpos hnew (hok.resolve_right fun hnone => nomatch hnone.1)
  | append =>
    obtain ⟨s₁, hs₁, hrun⟩ := Fallible.bind_eq_ok.mp hrun
    obtain ⟨rfl, -⟩ := Prod.mk.inj (Except.ok.inj hrun)
    obtain ⟨hsock, hmain, hthreads, hopen⟩ := append_frame hs₁
    exact h.appended hcan hsock hmain hthreads hopen
  | spawn created =>
    obtain ⟨rfl, -⟩ := Prod.mk.inj (Except.ok.inj hrun)
    cases created with
    | true => exact h.spawned hcan
    | false => exact h.unspawned hcan (hok.resolve_left Bool.false_ne_true)
  | start t =>
    obtain ⟨rfl, -⟩ := Prod.mk.inj (Except.ok.inj hrun)
    exact h.started hcan
  | message t msg =>
    obtain ⟨socks, -, hrun⟩ := Fallible.bind_eq_ok.mp hrun
    obtain ⟨rfl, -⟩ := Prod.mk.inj (Except.ok.inj hrun)
    exact h
  | leave t =>
    obtain ⟨fd, hfd⟩ := Option.isSome_iff_exists.mp hcan.1
    simp only [handle, hfd] at hrun
    obtain ⟨s₁, hs₁, hrun⟩ := Fallible.bind_eq_ok.mp hrun
    obtain ⟨rfl, -⟩ := Prod.mk.inj (Except.ok.inj hrun)
    obtain ⟨hsock, hmain, hthreads, hopen⟩ := removeSock_frame hs₁
    have hleft := (h.congr hsock hmain hthreads hopen).left
      ((readsFrom_congr hthreads t).trans hfd) (hopen ▸ hcan.2 fd hfd)
    simpa only [Ledger.look, hfd, Option.bind_some] using hleft
  | close t =>
    obtain ⟨fd, hfd⟩ := Option.isSome_iff_exists.mp hcan
    simp only [handle, hfd] at hrun
    obtain ⟨rfl, -⟩ := Prod.mk.inj (Except.ok.inj hrun)
    simpa only [Ledger.look, hfd, Option.bind_some] using h.closed hfd

theorem Serving.handler (h : Serving s g) (ht : t ∈ g.handlers c) : g.handlers c = [t] := by
  by_cases hc : c < g.count
  · cases h.served c hc with
    | waiting hh =>
      rw [hh] at ht
      cases ht
    | running t' hh | left t' hh | finished t' hh =>
      rw [hh] at ht ⊢
      rw [List.mem_singleton.mp ht]
  · rw [(h.fresh c (Nat.le_of_not_lt hc)).1] at ht
    cases ht

theorem Serving.bounds (h : Serving s g) (c : Nat) :
    (g.handlers c).length ≤ 1 ∧ g.removed c ≤ 1 ∧ g.closed c ≤ 1 := by
  by_cases hc : c < g.count
  · cases h.served c hc with
    | waiting hh hr hcl => simp [hh, hr, hcl]
    | running _ hh hr hcl | left _ hh hr hcl | finished _ hh hr hcl => simp [hh, hr, hcl]
  · obtain ⟨hh, hr, hcl⟩ := h.fresh c (Nat.le_of_not_lt hc)
    simp [hh, hr, hcl]

theorem Serving.law (h : Serving s g) : ServingLaw s g := by
  refine ⟨fun c => (h.bounds c).1, fun c hc hnone => ?_,
    fun c c' t ht ht' => h.distinct c c' t (h.handler ht) (h.handler ht'),
    fun c t ht hrem => ?_, fun t t' fd hfd ht ht' => ?_, fun c => (h.bounds c).2.1,
    fun c => (h.bounds c).2.2⟩
  · cases h.served c hc with
    | waiting _ _ _ _ hsock hhand => exact ⟨hsock, hhand⟩
    | running _ hh | left _ hh | finished _ hh => cases hnone.symm.trans hh
  · have hh := h.handler ht
    rcases (h.served c (h.lt_count hh)).thread hh with ⟨_, _, _, hrun⟩ | ⟨hr, _⟩ | ⟨hr, _⟩
    · exact readsFrom_eq.mpr hrun
    · omega
    · omega
  · have hpos := h.opened fd hfd
    obtain ⟨c, hc, hh, -⟩ := h.reader t fd ht (by omega)
    obtain ⟨c', hc', hh', -⟩ := h.reader t' fd ht' (by omega)
    obtain ⟨-, -, hn, hs⟩ := (h.served c hc).of_reads hh ht
    obtain ⟨-, -, hn', hs'⟩ := (h.served c' hc').of_reads hh' ht'
    obtain rfl := hn.inj hn' (hs.trans hs'.symm)
    simpa using hh.symm.trans hh'

end Preserved

/-- When every socket number is copied before the next `accept` overwrites it, each client has a
thread of its own. -/
theorem each_client_served {s : State} {g : Ledger}
    (h : Transitions.Reachable (servingChat.restrict fun p l => HandedOver p.1 l.event) (s, g)) :
    ServingLaw s g := by
  have hinv := Transitions.Reachable.invariant (I := fun p => Serving p.1 p.2) ?_ ?_ h
  · exact hinv.law
  · rintro ⟨s, g⟩ ⟨⟨clntSock, rfl⟩, rfl⟩
    exact .start clntSock
  · rintro p l q _ hp ⟨hok, hstep, hq⟩
    rw [hq]
    exact hp.step hok hstep

theorem serving_of_runsTo {ok : State → Event → Prop} [∀ s e, Decidable (ok s e)]
    {test : State × Ledger → Bool} {events : List Event}
    (h : Transitions.runsTo (Transitions.observeNext (nextStep ok) Ledger.look) test
      (.start 0, .empty) events = true) :
    ∃ p ls, ls.map (·.event) = events ∧ Transitions.Run (servingChat.restrict fun p l =>
      ok p.1 l.event) (.start 0, .empty) ls p ∧ test p = true :=
  Transitions.run_of_runsTo (Transitions.observeNext_step nextStep_step) h

/-- The first of two clients leaves, and a third one gets its descriptor. -/
theorem each_client_served_demo : ∃ s g, ServingLaw s g ∧ g.count = 3 ∧ g.sock 0 = 4 ∧
    g.sock 2 = 4 ∧ g.handlers 0 = [0] ∧ g.handlers 2 = [2] ∧ g.closed 0 = 1 ∧ g.closed 2 = 0 := by
  obtain ⟨⟨s, g⟩, ls, -, hrun, htest⟩ := @serving_of_runsTo HandedOver _
    (fun p => p.2.count = 3 ∧ p.2.sock 0 = 4 ∧ p.2.sock 2 = 4 ∧ p.2.handlers 0 = [0] ∧
      p.2.handlers 2 = [2] ∧ p.2.closed 0 = 1 ∧ p.2.closed 2 = 0)
    (connects 4 0 ++ connects 5 1 ++ [.leave 0, .close 0] ++ connects 4 2) (by decide +kernel)
  exact ⟨s, g, each_client_served (hrun.reachable (.init ⟨⟨0, rfl⟩, rfl⟩)), of_decide_eq_true htest⟩

/-- The second client connects before the first thread runs: both threads take its socket, remove
it and close it, and nobody reads the first one. -/
theorem socket_served_twice : ∃ s g ls, ls.map (·.event) =
      [.accept (some 4), .append, .spawn true, .accept (some 5), .append, .spawn true,
        .start 0, .start 1, .leave 0, .leave 1, .close 0, .close 1] ∧
    Transitions.Run servingChat (.start 0, .empty) ls (s, g) ∧ g.sock 0 = 4 ∧ g.handlers 0 = [] ∧
    s.clntSock = 5 ∧ g.handlers 1 = [1, 0] ∧ g.removed 1 = 2 ∧ g.closed 1 = 2 ∧
    ¬ServingLaw s g := by
  obtain ⟨⟨s, g⟩, ls, hls, hrun, htest⟩ := @serving_of_runsTo anyStep _
    (fun p => p.2.sock 0 = 4 ∧ p.2.handlers 0 = [] ∧ p.1.clntSock = 5 ∧
      p.2.handlers 1 = [1, 0] ∧ p.2.removed 1 = 2 ∧ p.2.closed 1 = 2)
    [.accept (some 4), .append, .spawn true, .accept (some 5), .append, .spawn true,
      .start 0, .start 1, .leave 0, .leave 1, .close 0, .close 1] (by decide +kernel)
  obtain ⟨hsock, hunread, hclnt, htwo, hremoved, hclosed⟩ := of_decide_eq_true htest
  refine ⟨s, g, ls, hls, hrun.of_restrict, hsock, hunread, hclnt, htwo, hremoved, hclosed,
    fun hlaw => ?_⟩
  have hone := hlaw.one 1
  rw [htwo] at hone
  exact absurd hone (by decide)

end ChatServer
