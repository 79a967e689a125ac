import IotLab.ChatServer.Main

set_option autoImplicit false

namespace ChatServer
open SlotTable HostMemory

section Array
variable {socks : Socks} {clntSock : Int}

theorem sockAt_nat {i : Nat} (h : i < maxClnt) : sockAt i = .ok ⟨i, h⟩ :=
  index_coe (⟨i, h⟩ : Fin maxClnt)

theorem sendMsg_eq {n i : Nat} (h : i + n ≤ maxClnt) :
    sendMsg socks n i = .ok (((List.ofFn socks).drop i).take n) := by
  induction n generalizing i with
  | zero => simp [sendMsg]
  | succ n ih =>
    have hi : i < maxClnt := by omega
    have hrest := @ih (i + 1) (by omega)
    have hcons : (List.ofFn socks).drop i = socks ⟨i, hi⟩ :: (List.ofFn socks).drop (i + 1) := by
      rw [List.drop_eq_getElem_cons (by simpa using hi), List.getElem_ofFn]
    rw [hcons, List.take_succ_cons]
    simp only [sendMsg, sockAt_nat hi, bind, Except.bind]
    rw [show (i : Int) + 1 = ((i + 1 : Nat) : Int) from rfl, hrest]

theorem findSock_eq {n i j : Nat} (hij : i ≤ j) (hj : j < i + n) (hn : i + n ≤ maxClnt)
    (hat : socks ⟨j, by omega⟩ = clntSock)
    (hbefore : ∀ k (hk : k < j), i ≤ k → socks ⟨k, by omega⟩ ≠ clntSock) :
    findSock socks clntSock n i = .ok (some (j : Int)) := by
  induction n generalizing i with
  | zero => omega
  | succ n ih =>
    simp only [findSock, sockAt_nat (show i < maxClnt by omega), bind, Except.bind]
    by_cases hi : i = j
    · subst hi
      rw [if_pos hat.symm]
    · have hne := hbefore i (by omega) (le_refl i)
      rw [if_neg (fun h => hne h.symm), show (i : Int) + 1 = ((i + 1 : Nat) : Int) from rfl]
      exact ih (by omega) (by omega) (by omega) hat (fun k hk hik => hbefore k hk (by omega))

theorem shiftDown_eq {n i : Nat} (h : n = 0 ∨ i + n + 1 < maxClnt) :
    ∃ socks', shiftDown socks n i = .ok socks' ∧ ∀ (k : Nat) (hk : k < maxClnt),
      socks' ⟨k, hk⟩ = if hm : i < k ∧ k ≤ i + n then socks ⟨k + 1, by omega⟩
        else socks ⟨k, hk⟩ := by
  induction n generalizing socks i with
  | zero =>
    refine ⟨socks, rfl, fun k hk => ?_⟩
    rw [dif_neg (by omega)]
  | succ n ih =>
    have h := h.resolve_left (Nat.succ_ne_zero n)
    have h1 : i + 1 < maxClnt := by omega
    have h2 : i + 1 + 1 < maxClnt := by omega
    obtain ⟨socks', hrun, hval⟩ := @ih
      (Function.update socks ⟨i + 1, h1⟩ (socks ⟨i + 1 + 1, h2⟩)) (i + 1) (by omega)
    refine ⟨socks', ?_, fun k hk => ?_⟩
    · simp only [shiftDown, bind, Except.bind]
      rw [show (i : Int) + 1 = ((i + 1 : Nat) : Int) from rfl, sockAt_nat h1]
      rw [show ((i + 1 : Nat) : Int) + 1 = ((i + 1 + 1 : Nat) : Int) from rfl, sockAt_nat h2]
      exact hrun
    · rw [hval k hk]
      by_cases hki : k = i + 1
      · subst hki
        rw [dif_neg (by omega), dif_pos (by omega), Function.update_self]
      · by_cases hm : i < k ∧ k ≤ i + (n + 1)
        · rw [dif_pos (by omega), dif_pos hm,
            Function.update_of_ne (by simp only [ne_eq, Fin.mk.injEq]; omega)]
        · rw [dif_neg (by omega), dif_neg hm,
            Function.update_of_ne (by simpa only [ne_eq, Fin.mk.injEq] using hki)]

end Array

section Entries
variable {s s' : State} {clntSock : Int} {entries : List Int}

structure Lists (s : State) (entries : List Int) : Prop where
  inUse : s.entries = entries
  cnt : s.clntCnt = entries.length
  le : entries.length ≤ maxClnt

theorem Lists.get (h : Lists s entries) {k : Nat} (hk : k < entries.length) :
    s.clntSocks ⟨k, by have := h.le; omega⟩ = entries[k] := by
  simp [← h.inUse, State.entries]

theorem Lists.intro {n : Nat} (hcnt : s.clntCnt = n) (hn : n ≤ maxClnt)
    (hlen : entries.length = n)
    (hget : ∀ (k : Nat) (hk : k < n), s.clntSocks ⟨k, by omega⟩ = entries.get ⟨k, by omega⟩) :
    Lists s entries := by
  refine ⟨List.ext_getElem ?_ (fun k h₁ h₂ => ?_), by rw [hcnt, hlen], by omega⟩
  · simp [State.entries, hcnt, hlen, hn]
  · simpa [State.entries] using hget k (by omega)

theorem Lists.sendMsg (h : Lists s entries) :
    sendMsg s.clntSocks s.clntCnt.toNat 0 = .ok entries := by
  have hle := h.le
  have hrun := @sendMsg_eq s.clntSocks entries.length 0 (by omega)
  rw [← h.inUse, State.entries, h.cnt, Int.toNat_natCast]
  simpa using hrun

theorem Lists.append (h : Lists s entries) (hmax : entries.length < maxClnt) :
    ∃ s', append s = .ok s' ∧ Lists s' (entries ++ [s.clntSock]) ∧ s'.clntSock = s.clntSock ∧
      s'.mainAt = .spawn ∧ s'.threads = s.threads ∧ s'.openSocks = s.openSocks := by
  refine ⟨{ s with
    clntSocks := Function.update s.clntSocks ⟨entries.length, hmax⟩ s.clntSock
    clntCnt := s.clntCnt + 1
    mainAt := .spawn }, ?_, ?_, rfl, rfl, rfl, rfl⟩
  · simp only [ChatServer.append, h.cnt, sockAt_nat hmax, bind, Except.bind]
  · refine .intro (n := entries.length + 1) (by simp [h.cnt]) (by omega) (by simp) (fun k hk => ?_)
    by_cases hlast : k = entries.length
    · subst hlast
      simp
    · have hk' : k < entries.length := by omega
      rw [List.get_eq_getElem, List.getElem_append_left hk']
      simp only
      rw [Function.update_of_ne (by simpa only [ne_eq, Fin.mk.injEq] using hlast), h.get hk']

/-- The removal section, wherever the leaving socket is: the entry behind it is dropped, then
the last one. -/
theorem Lists.removeSock (h : Lists s entries) {p : Nat} (hp : p < entries.length)
    (hat : entries[p] = clntSock) (hfirst : ∀ k (hk : k < p), entries[k] ≠ clntSock)
    (hroom : p + 1 = entries.length ∨ entries.length < maxClnt) :
    ∃ s', removeSock s clntSock = .ok s' ∧
      Lists s' ((entries.eraseIdx (p + 1)).take (entries.length - 1)) ∧
      s'.clntSock = s.clntSock ∧ s'.mainAt = s.mainAt ∧ s'.threads = s.threads ∧
      s'.openSocks = s.openSocks := by
  have hle := h.le
  have hfind : findSock s.clntSocks clntSock s.clntCnt.toNat 0 = .ok (some (p : Int)) := by
    rw [h.cnt, Int.toNat_natCast]
    refine findSock_eq (i := 0) (by omega) (by omega) (by omega) ?_ (fun k hk _ => ?_)
    · rw [h.get hp, hat]
    · rw [h.get (by omega)]
      exact hfirst k hk
  obtain ⟨socks, hshift, hval⟩ := @shiftDown_eq s.clntSocks (entries.length - 1 - p) p (by omega)
  have hrounds : (s.clntCnt - 1 - (p : Int)).toNat = entries.length - 1 - p := by
    have hcnt := h.cnt
    omega
  refine ⟨{ s with clntSocks := socks, clntCnt := s.clntCnt - 1 }, ?_, ?_, rfl, rfl, rfl, rfl⟩
  · simp only [ChatServer.removeSock, hfind, hrounds, hshift, bind, Except.bind]
  · have hlen : ((entries.eraseIdx (p + 1)).take (entries.length - 1)).length =
        entries.length - 1 := by
      rw [List.length_take, List.length_eraseIdx]
      split <;> omega
    refine .intro (n := entries.length - 1) ?_ (by omega) hlen (fun k hk => ?_)
    · have hcnt := h.cnt
      simp only
      omega
    · simp only [List.get_eq_getElem, List.getElem_take, List.getElem_eraseIdx]
      rw [hval k (by omega)]
      by_cases hk' : k < p + 1
      · rw [dif_neg (by omega), dif_pos hk', h.get (by omega)]
      · rw [dif_pos (by omega), dif_neg hk', h.get (by omega)]

end Entries

theorem Lists.removeLast {s : State} {clntSock : Int} {clients : List Int}
    (h : Lists s (clients ++ [clntSock])) (hnew : clntSock ∉ clients) :
    ∃ s', ChatServer.removeSock s clntSock = .ok s' ∧ Lists s' clients ∧
      s'.clntSock = s.clntSock ∧ s'.mainAt = s.mainAt ∧ s'.threads = s.threads ∧
      s'.openSocks = s.openSocks := by
  have hrun := @Lists.removeSock _ clntSock _ h clients.length (by simp) (by simp)
    (fun k hk => ?_) (.inl (by simp))
  · have hdrop : ((clients ++ [clntSock]).eraseIdx (clients.length + 1)).take
        ((clients ++ [clntSock]).length - 1) = clients := by
      rw [List.eraseIdx_of_length_le (by simp)]
      simp
    rwa [hdrop] at hrun
  · rw [List.getElem_append_left hk]
    exact fun heq => hnew (heq ▸ List.getElem_mem hk)

/-- Any other leaver stays in the array, and the client behind it is dropped. -/
theorem Lists.removeOther {s : State} {clntSock next : Int} {clients rest : List Int}
    (h : Lists s (clients ++ clntSock :: next :: rest)) (hnew : clntSock ∉ clients)
    (hroom : (clients ++ clntSock :: next :: rest).length < maxClnt) :
    ∃ s', ChatServer.removeSock s clntSock = .ok s' ∧ Lists s' (clients ++ clntSock :: rest) := by
  have hrun := @Lists.removeSock _ clntSock _ h clients.length (by simp) (by simp)
    (fun k hk => ?_) (.inr hroom)
  · obtain ⟨s', hs', hlists, _⟩ := hrun
    have hdrop : ((clients ++ clntSock :: next :: rest).eraseIdx (clients.length + 1)).take
        ((clients ++ clntSock :: next :: rest).length - 1) = clients ++ clntSock :: rest := by
      rw [List.eraseIdx_append_of_length_le (by omega), Nat.add_sub_cancel_left]
      exact List.take_of_length_le (by simp)
    exact ⟨s', hs', hdrop ▸ hlists⟩
  · rw [List.getElem_append_left hk]
    exact fun heq => hnew (heq ▸ List.getElem_mem hk)

/-- The clients that are connected, in connection order: those that `main` has entered and no
thread has taken out. The server does not read this. -/
abbrev Connected := List Int

def Connected.look (clients : Connected) (s : State) (l : Step) (_ : State) : Connected :=
  match l.event with
  | .append => if s.clntSock = -1 then clients else clients ++ [s.clntSock]
  | .leave t => (readsFrom s t).elim clients clients.erase
  | _ => clients

/-- `accept` succeeds, and not before the last thread has copied its socket; a client is
entered while there is room; a leaving client is the last one. -/
def Orderly (s : State) : Event → Prop
  | .accept accepted => accepted.isSome ∧ .created ∉ s.threads
  | .append => s.clntCnt < maxClnt
  | .leave t => ∀ fd ∈ readsFrom s t, s.entries.getLast? = some fd
  | _ => True

def chat : Transitions.System (State × Connected) Step := system.observe [] Connected.look

abbrev OrderlyChat (p : State × Connected) : Prop :=
  Transitions.Reachable (chat.restrict fun p l => Orderly p.1 l.event) p

structure MembershipLaw (s : State) (clients : Connected) : Prop where
  entries : s.entries = clients
  cnt_eq : s.clntCnt = clients.length
  cnt_nonneg : 0 ≤ s.clntCnt
  cnt_le : s.clntCnt ≤ maxClnt
  nodup : clients.Nodup
  opened : ∀ fd ∈ clients, fd ∈ s.openSocks
  broadcast : ∀ l s' t msg, system.step s l s' → l.event = .message t (some msg) →
    l.writes = clients.map fun fd => (fd, msg)

/-- What keeps the law: every thread has a socket of its own, and `main` hands over a socket
that no thread has. -/
structure Handlers (s : State) (clients : Connected) : Prop where
  served : ∀ t fd, readsFrom s t = some fd → fd ∈ clients
  leaving : ∀ t fd, closes s t = some fd → fd ∈ s.openSocks ∧ fd ∉ clients
  readsInj : ∀ t t' fd, readsFrom s t = some fd → readsFrom s t' = some fd → t = t'
  closesInj : ∀ t t' fd, closes s t = some fd → closes s t' = some fd → t = t'
  idle : s.mainAt ≠ .accept → .created ∉ s.threads
  createdInj : ∀ t t' : Nat, s.threads[t]? = some Thread.created →
    s.threads[t']? = some Thread.created → t = t'
  appending : s.mainAt = .append → 0 ≤ s.clntSock ∧ s.clntSock ∈ s.openSocks ∧
    s.clntSock ∉ clients ∧ ∀ t, closes s t ≠ some s.clntSock
  handed : s.mainAt = .spawn ∨ .created ∈ s.threads →
    s.clntSock ∈ clients ∧ ∀ t, readsFrom s t ≠ some s.clntSock

structure Inv (s : State) (clients : Connected) : Prop where
  lists : Lists s clients
  nodup : clients.Nodup
  opened : ∀ fd ∈ clients, fd ∈ s.openSocks
  handlers : Handlers s clients

section Threads
variable {s : State} {t : Nat} {thread : Thread}

theorem readsFrom_setThread (h : t < s.threads.length) (t' : Nat) :
    readsFrom (setThread s t thread) t' = if t' = t then thread.reading else readsFrom s t' := by
  by_cases ht : t' = t
  · subst ht
    simp [readsFrom, setThread, h]
  · have ht' : t ≠ t' := fun heq => ht heq.symm
    simp [readsFrom, setThread, ht, ht']

theorem closes_setThread (h : t < s.threads.length) (t' : Nat) :
    closes (setThread s t thread) t' = if t' = t then thread.closing else closes s t' := by
  by_cases ht : t' = t
  · subst ht
    simp [closes, setThread, h]
  · have ht' : t ≠ t' := fun heq => ht heq.symm
    simp [closes, setThread, ht, ht']

theorem readsFrom_other (h : t < s.threads.length) (hnone : thread.reading = none) {t' : Nat}
    {fd : Int} (hr : readsFrom (setThread s t thread) t' = some fd) :
    t' ≠ t ∧ readsFrom s t' = some fd := by
  rw [readsFrom_setThread h, hnone] at hr
  split at hr
  · contradiction
  · exact ⟨‹_›, hr⟩

theorem closes_other (h : t < s.threads.length) (hnone : thread.closing = none) {t' : Nat}
    {fd : Int} (hc : closes (setThread s t thread) t' = some fd) :
    t' ≠ t ∧ closes s t' = some fd := by
  rw [closes_setThread h, hnone] at hc
  split at hc
  · contradiction
  · exact ⟨‹_›, hc⟩

theorem lt_of_readsFrom {fd : Int} (h : readsFrom s t = some fd) : t < s.threads.length := by
  obtain ⟨thread, hthread, _⟩ := Option.bind_eq_some_iff.mp h
  exact (List.getElem?_eq_some_iff.mp hthread).1

theorem lt_of_closes {fd : Int} (h : closes s t = some fd) : t < s.threads.length := by
  obtain ⟨thread, hthread, _⟩ := Option.bind_eq_some_iff.mp h
  exact (List.getElem?_eq_some_iff.mp hthread).1

theorem readsFrom_congr {s' : State} (h : s'.threads = s.threads) (t : Nat) :
    readsFrom s' t = readsFrom s t := by
  rw [readsFrom, h, readsFrom]

theorem closes_congr {s' : State} (h : s'.threads = s.threads) (t : Nat) :
    closes s' t = closes s t := by
  rw [closes, h, closes]

theorem inj_of_setThread {f f' : Nat → Option Int} {v : Option Int}
    (hf' : ∀ t', f' t' = if t' = t then v else f t') (hv : ∀ fd ∈ v, ∀ t', f t' ≠ some fd)
    (h : ∀ t t' fd, f t = some fd → f t' = some fd → t = t') (t₁ t₂ : Nat) (fd : Int)
    (h₁ : f' t₁ = some fd) (h₂ : f' t₂ = some fd) : t₁ = t₂ := by
  refine holder_unique (fun t fd => f t = some fd) (fun t fd => f' t = some fd) t
    (fun t' x hne hx => ?_) (fun t' x hx => ?_) h h₁ h₂
  · rwa [hf', if_neg hne] at hx
  · rw [hf', if_pos rfl] at hx
    exact hv x hx t'

theorem created_setThread (hne : thread ≠ .created) {k : Nat}
    (hk : (setThread s t thread).threads[k]? = some .created) :
    s.threads[k]? = some Thread.created := by
  simp only [setThread, List.getElem?_set] at hk
  by_cases htk : t = k
  · rw [if_pos htk] at hk
    split at hk
    · exact absurd (Option.some.inj hk) hne
    · contradiction
  · rwa [if_neg htk] at hk

theorem created_mem_setThread (hne : thread ≠ .created)
    (hm : .created ∈ (setThread s t thread).threads) : .created ∈ s.threads := by
  obtain ⟨k, hk⟩ := List.mem_iff_getElem?.mp hm
  exact List.mem_iff_getElem?.mpr ⟨k, created_setThread hne hk⟩

end Threads

section Preserved
variable {s s' : State} {clients : Connected}

theorem Inv.start (clntSock : Int) : Inv (State.start clntSock) [] := by
  refine ⟨⟨rfl, rfl, by simp⟩, .nil, by simp, ?_⟩
  constructor <;> simp [State.start, readsFrom, closes]

theorem Inv.accepted (h : Inv s clients) {fd : Int} (hpos : 0 ≤ fd) (hfd : fd ∉ s.openSocks)
    (hidle : .created ∉ s.threads) :
    Inv { s with clntSock := fd, mainAt := .append, openSocks := fd :: s.openSocks } clients := by
  have hh := h.handlers
  refine ⟨⟨h.lists.inUse, h.lists.cnt, h.lists.le⟩, h.nodup,
    fun x hx => List.mem_cons_of_mem _ (h.opened x hx), ?_⟩
  constructor
  case served => exact hh.served
  case leaving =>
    intro t x hx
    obtain ⟨hopen, hnot⟩ := hh.leaving t x hx
    exact ⟨List.mem_cons_of_mem _ hopen, hnot⟩
  case readsInj => exact hh.readsInj
  case closesInj => exact hh.closesInj
  case idle => exact fun _ => hidle
  case createdInj => exact hh.createdInj
  case appending =>
    refine fun _ => ⟨hpos, List.mem_cons_self .., fun hx => hfd (h.opened fd hx), fun t ht => ?_⟩
    exact hfd (hh.leaving t fd ht).1
  case handed =>
    rintro (hspawn | hcreated)
    · contradiction
    · exact absurd hcreated hidle

theorem Inv.appended (h : Inv s clients) (hmain : s.mainAt = .append)
    (hlists : Lists s' (clients ++ [s.clntSock])) (hsock : s'.clntSock = s.clntSock)
    (hmain' : s'.mainAt = .spawn) (hthreads : s'.threads = s.threads)
    (hopen : s'.openSocks = s.openSocks) : Inv s' (clients ++ [s.clntSock]) := by
  have hh := h.handlers
  obtain ⟨_, hin, hnot, hcloses⟩ := hh.appending hmain
  have hidle := hh.idle (by rw [hmain]; exact MainAt.noConfusion)
  have hreads := @readsFrom_congr s s' hthreads
  have hclosing := @closes_congr s s' hthreads
  refine ⟨hlists, ?_, fun x hx => ?_, ?_⟩
  · exact List.nodup_append.mpr ⟨h.nodup, List.nodup_singleton _, by
      intro a ha b hb
      rw [List.mem_singleton.mp hb]
      exact fun heq => hnot (heq ▸ ha)⟩
  · rw [hopen]
    rcases List.mem_append.mp hx with hx | hx
    · exact h.opened x hx
    · exact List.mem_singleton.mp hx ▸ hin
  constructor
  case served =>
    intro t x hx
    exact List.mem_append_left _ (hh.served t x (hreads t ▸ hx))
  case leaving =>
    intro t x hx
    rw [hclosing] at hx
    obtain ⟨hx', hnotx⟩ := hh.leaving t x hx
    refine ⟨hopen ▸ hx', fun hmem => ?_⟩
    rcases List.mem_append.mp hmem with hmem | hmem
    · exact hnotx hmem
    · exact hcloses t (List.mem_singleton.mp hmem ▸ hx)
  case readsInj =>
    intro t t' x hx hx'
    exact hh.readsInj t t' x (hreads t ▸ hx) (hreads t' ▸ hx')
  case closesInj =>
    intro t t' x hx hx'
    exact hh.closesInj t t' x (hclosing t ▸ hx) (hclosing t' ▸ hx')
  case idle => exact fun _ => hthreads ▸ hidle
  case createdInj => exact hthreads ▸ hh.createdInj
  case appending =>
    intro hcontra
    rw [hmain'] at hcontra
    contradiction
  case handed =>
    refine fun _ => ⟨hsock ▸ List.mem_append_right _ (List.mem_singleton_self _), fun t ht => ?_⟩
    rw [hreads, hsock] at ht
    exact hnot (hh.served t _ ht)

theorem bind_created {threads : List Thread} {f : Thread → Option Int} (hf : f .created = none)
    (t : Nat) : (threads ++ [.created])[t]?.bind f = threads[t]?.bind f := by
  rcases Nat.lt_trichotomy t threads.length with ht | ht | ht
  · rw [List.getElem?_append_left ht]
  · subst ht
    simp [hf]
  · rw [List.getElem?_eq_none (by simp; omega), List.getElem?_eq_none (by omega)]

theorem created_last {threads : List Thread} (hidle : .created ∉ threads) {t : Nat}
    (ht : (threads ++ [.created])[t]? = some Thread.created) : t = threads.length := by
  obtain ⟨hlt, hget⟩ := List.getElem?_eq_some_iff.mp ht
  by_contra hne
  have hlt' : t < threads.length := by
    simp only [List.length_append, List.length_singleton] at hlt
    omega
  rw [List.getElem_append_left hlt'] at hget
  exact hidle (hget ▸ List.getElem_mem hlt')

theorem Inv.spawned (h : Inv s clients) (hmain : s.mainAt = .spawn) :
    Inv { s with mainAt := .accept, threads := s.threads ++ [.created] } clients := by
  have hh := h.handlers
  have hidle := hh.idle (by rw [hmain]; exact MainAt.noConfusion)
  obtain ⟨hin, hfree⟩ := hh.handed (.inl hmain)
  have hreads (t : Nat) : readsFrom { s with
      mainAt := .accept, threads := s.threads ++ [.created] } t = readsFrom s t :=
    bind_created rfl t
  have hcloses (t : Nat) : closes { s with
      mainAt := .accept, threads := s.threads ++ [.created] } t = closes s t :=
    bind_created rfl t
  refine ⟨⟨h.lists.inUse, h.lists.cnt, h.lists.le⟩, h.nodup, h.opened, ?_⟩
  constructor
  case served => simpa only [hreads] using hh.served
  case leaving => simpa only [hcloses] using hh.leaving
  case readsInj => simpa only [hreads] using hh.readsInj
  case closesInj => simpa only [hcloses] using hh.closesInj
  case idle => exact fun hne => absurd rfl hne
  case createdInj =>
    exact fun t t' ht ht' => (created_last hidle ht).trans (created_last hidle ht').symm
  case appending => exact fun hcontra => MainAt.noConfusion hcontra
  case handed => exact fun _ => ⟨hin, fun t => by rw [hreads]; exact hfree t⟩

theorem Inv.unspawned (h : Inv s clients) (hmain : s.mainAt = .spawn) :
    Inv { s with mainAt := .accept } clients := by
  have hh := h.handlers
  have hidle := hh.idle (by rw [hmain]; exact MainAt.noConfusion)
  refine ⟨⟨h.lists.inUse, h.lists.cnt, h.lists.le⟩, h.nodup, h.opened, ?_⟩
  exact ⟨hh.served, hh.leaving, hh.readsInj, hh.closesInj, fun hne => absurd rfl hne,
    hh.createdInj, fun hcontra => MainAt.noConfusion hcontra,
    fun hor => absurd (hor.resolve_left MainAt.noConfusion) hidle⟩

theorem Inv.started (h : Inv s clients) {t : Nat} (ht : s.threads[t]? = some .created) :
    Inv (setThread s t (.running s.clntSock)) clients := by
  have hh := h.handlers
  obtain ⟨hlt, hget⟩ := List.getElem?_eq_some_iff.mp ht
  have hcreated : .created ∈ s.threads := hget ▸ List.getElem_mem hlt
  obtain ⟨hin, hfree⟩ := hh.handed (.inr hcreated)
  have hmain : s.mainAt = .accept := Classical.byContradiction (fun hne => hh.idle hne hcreated)
  have hnone : .created ∉ (setThread s t (.running s.clntSock)).threads := by
    intro hmem
    obtain ⟨k, hk, hget'⟩ := List.mem_iff_getElem.mp hmem
    simp only [setThread, List.length_set] at hk
    simp only [setThread, List.getElem_set] at hget'
    split at hget'
    · contradiction
    · rename_i hne
      exact hne (hh.createdInj t k ht (List.getElem?_eq_some_iff.mpr ⟨hk, hget'⟩))
  refine ⟨⟨h.lists.inUse, h.lists.cnt, h.lists.le⟩, h.nodup, h.opened, ?_⟩
  constructor
  case served =>
    intro t' fd hr
    rw [readsFrom_setThread hlt] at hr
    split at hr
    · cases hr
      exact hin
    · exact hh.served t' fd hr
  case leaving => exact fun t' fd hc => hh.leaving t' fd (closes_other hlt rfl hc).2
  case readsInj =>
    refine inj_of_setThread (readsFrom_setThread hlt) (fun fd hfd => ?_) hh.readsInj
    cases hfd
    exact hfree
  case closesInj => exact inj_of_setThread (closes_setThread hlt) nofun hh.closesInj
  case idle => exact fun _ => hnone
  case createdInj =>
    intro t₁ t₂ h₁ _
    obtain ⟨hk, hget'⟩ := List.getElem?_eq_some_iff.mp h₁
    exact absurd (hget' ▸ List.getElem_mem hk) hnone
  case appending =>
    intro hcontra
    exact absurd (hmain.symm.trans hcontra) MainAt.noConfusion
  case handed =>
    rintro (hcontra | hmem)
    · exact absurd (hmain.symm.trans hcontra) MainAt.noConfusion
    · exact absurd hmem hnone

theorem Inv.last_fresh {fd : Int} (h : Inv s (clients ++ [fd])) : fd ∉ clients := by
  have hdisjoint := (List.nodup_append.mp h.nodup).2.2
  exact fun hmem => hdisjoint fd hmem fd (List.mem_singleton_self _) rfl

theorem Inv.left {fd : Int} (h : Inv s (clients ++ [fd])) {t : Nat}
    (hr : readsFrom s t = some fd) (hlists : Lists s' clients) (hsock : s'.clntSock = s.clntSock)
    (hmain : s'.mainAt = s.mainAt) (hthreads : s'.threads = s.threads)
    (hopen : s'.openSocks = s.openSocks) : Inv (setThread s' t (.left fd)) clients := by
  have hh := h.handlers
  have hfd : fd ∈ clients ++ [fd] := List.mem_append_right _ (List.mem_singleton_self _)
  have hnot := h.last_fresh
  have hsub {x : Int} (hx : x ∈ clients) : x ∈ clients ++ [fd] := List.mem_append_left _ hx
  have hlt : t < s'.threads.length := hthreads ▸ lt_of_readsFrom hr
  have hreads := @readsFrom_congr s s' hthreads
  have hclosing := @closes_congr s s' hthreads
  have hother {t' : Nat} {x : Int} (hx : readsFrom (setThread s' t (.left fd)) t' = some x) :
      t' ≠ t ∧ readsFrom s t' = some x := hreads t' ▸ readsFrom_other hlt rfl hx
  have hcreated (k : Nat) (hk : (setThread s' t (.left fd)).threads[k]? = some .created) :
      s.threads[k]? = some Thread.created := hthreads ▸ created_setThread Thread.noConfusion hk
  have hmem (hm : .created ∈ (setThread s' t (.left fd)).threads) : .created ∈ s.threads :=
    hthreads ▸ created_mem_setThread Thread.noConfusion hm
  refine ⟨⟨hlists.inUse, hlists.cnt, hlists.le⟩, (List.nodup_append.mp h.nodup).1,
    fun x hx => hopen ▸ h.opened x (hsub hx), ?_⟩
  constructor
  case served =>
    intro t' x hx
    obtain ⟨hne, hx⟩ := hother hx
    refine (List.mem_append.mp (hh.served t' x hx)).resolve_right (fun hlast => hne ?_)
    exact hh.readsInj t' t fd (List.mem_singleton.mp hlast ▸ hx) hr
  case leaving =>
    intro t' x hx
    rw [closes_setThread hlt, hclosing] at hx
    split at hx
    · cases hx
      exact ⟨hopen ▸ h.opened fd hfd, hnot⟩
    · obtain ⟨hin, hnotx⟩ := hh.leaving t' x hx
      exact ⟨hopen ▸ hin, fun hmem => hnotx (hsub hmem)⟩
  case readsInj =>
    have hinj : ∀ t₁ t₂ x, readsFrom s' t₁ = some x → readsFrom s' t₂ = some x → t₁ = t₂ := by
      simpa only [hreads] using hh.readsInj
    exact inj_of_setThread (readsFrom_setThread hlt) nofun hinj
  case closesInj =>
    have hinj : ∀ t₁ t₂ x, closes s' t₁ = some x → closes s' t₂ = some x → t₁ = t₂ := by
      simpa only [hclosing] using hh.closesInj
    refine inj_of_setThread (closes_setThread hlt) (fun x hx t' hc => ?_) hinj
    cases hx
    rw [hclosing] at hc
    exact (hh.leaving t' fd hc).2 hfd
  case idle => exact fun hne hm => hh.idle (hmain ▸ hne) (hmem hm)
  case createdInj => exact fun t₁ t₂ h₁ h₂ => hh.createdInj t₁ t₂ (hcreated t₁ h₁) (hcreated t₂ h₂)
  case appending =>
    intro happend
    obtain ⟨hpos, hin, hnotin, hcloses⟩ := hh.appending (hmain.symm.trans happend)
    refine ⟨hsock ▸ hpos, hsock ▸ hopen ▸ hin, hsock ▸ fun hm => hnotin (hsub hm), fun t' ht => ?_⟩
    rw [closes_setThread hlt, hclosing] at ht
    have ht : (if t' = t then some fd else closes s t') = some s.clntSock := hsock ▸ ht
    split at ht
    · cases ht
      exact hnotin hfd
    · exact hcloses t' ht
  case handed =>
    intro hor
    obtain ⟨hin, hfree⟩ := hh.handed (hor.imp (fun hs => hmain.symm.trans hs) hmem)
    refine ⟨hsock ▸ (List.mem_append.mp hin).resolve_right (fun hlast => ?_), fun t' ht => ?_⟩
    · exact hfree t (List.mem_singleton.mp hlast ▸ hr)
    · exact hfree t' (hsock ▸ (hother ht).2)

theorem Inv.closed (h : Inv s clients) {t : Nat} {fd : Int} (hc : closes s t = some fd) :
    Inv { setThread s t .finished with openSocks := s.openSocks.filter (· ≠ fd) } clients := by
  have hh := h.handlers
  have hlt := lt_of_closes hc
  obtain ⟨_, hnot⟩ := hh.leaving t fd hc
  have hkeep {x : Int} (hx : x ∈ s.openSocks) (hne : x ≠ fd) : x ∈ s.openSocks.filter (· ≠ fd) :=
    List.mem_filter.mpr ⟨hx, by simpa using hne⟩
  have hreads {t' : Nat} {x : Int} : readsFrom (setThread s t .finished) t' = some x →
      t' ≠ t ∧ readsFrom s t' = some x := readsFrom_other hlt rfl
  have hclosing {t' : Nat} {x : Int} : closes (setThread s t .finished) t' = some x →
      t' ≠ t ∧ closes s t' = some x := closes_other hlt rfl
  have hne : Thread.finished ≠ .created := Thread.noConfusion
  refine ⟨⟨h.lists.inUse, h.lists.cnt, h.lists.le⟩, h.nodup,
    fun x hx => hkeep (h.opened x hx) (fun heq => hnot (heq ▸ hx)), ?_⟩
  constructor
  case served => exact fun t' x hx => hh.served t' x (hreads hx).2
  case leaving =>
    intro t' x hx
    obtain ⟨hne, hx⟩ := hclosing hx
    obtain ⟨hin, hnotx⟩ := hh.leaving t' x hx
    exact ⟨hkeep hin (fun heq => hne (hh.closesInj t' t fd (heq ▸ hx) hc)), hnotx⟩
  case readsInj => exact fun t₁ t₂ x h₁ h₂ => hh.readsInj t₁ t₂ x (hreads h₁).2 (hreads h₂).2
  case closesInj => exact fun t₁ t₂ x h₁ h₂ => hh.closesInj t₁ t₂ x (hclosing h₁).2 (hclosing h₂).2
  case idle => exact fun hmain hm => hh.idle hmain (created_mem_setThread hne hm)
  case createdInj =>
    exact fun t₁ t₂ h₁ h₂ =>
      hh.createdInj t₁ t₂ (created_setThread hne h₁) (created_setThread hne h₂)
  case appending =>
    intro happend
    obtain ⟨hpos, hin, hnotin, hcloses⟩ := hh.appending happend
    exact ⟨hpos, hkeep hin (fun heq => hcloses t (heq ▸ hc)), hnotin,
      fun t' ht => hcloses t' (hclosing ht).2⟩
  case handed =>
    intro hor
    obtain ⟨hin, hfree⟩ := hh.handed (hor.imp_right (created_mem_setThread hne))
    exact ⟨hin, fun t' ht => hfree t' (hreads ht).2⟩

theorem Inv.step {l : Step} (h : Inv s clients) (hok : Orderly s l.event)
    (hstep : system.step s l s') : Inv s' (clients.look s l s') := by
  obtain ⟨hcan, hrun⟩ := hstep
  obtain ⟨event, writes⟩ := l
  cases event with
  | accept accepted =>
    obtain ⟨hacc, hidle⟩ := hok
    obtain ⟨fd, rfl⟩ := Option.isSome_iff_exists.mp hacc
    obtain ⟨hpos, hnew⟩ := hcan.2 fd rfl
    obtain ⟨rfl, _⟩ := Prod.mk.inj (Except.ok.inj hrun)
    exact h.accepted hpos hnew hidle
  | append =>
    have hmax : s.clntCnt < maxClnt := hok
    have hcnt := h.lists.cnt
    obtain ⟨hpos, _⟩ := h.handlers.appending hcan
    obtain ⟨s₁, hs₁, hlists, hsock, hmain, hthreads, hopen⟩ := h.lists.append (by omega)
    simp only [handle, hs₁, bind, Except.bind] at hrun
    obtain ⟨rfl, _⟩ := Prod.mk.inj (Except.ok.inj hrun)
    simp only [Connected.look]
    rw [if_neg (by omega)]
    exact h.appended hcan hlists hsock hmain hthreads hopen
  | spawn created =>
    obtain ⟨rfl, _⟩ := Prod.mk.inj (Except.ok.inj hrun)
    cases created with
    | true => exact h.spawned hcan
    | false => exact h.unspawned hcan
  | start t =>
    obtain ⟨rfl, _⟩ := Prod.mk.inj (Except.ok.inj hrun)
    exact h.started hcan
  | message t msg =>
    simp only [handle, h.lists.sendMsg, bind, Except.bind] at hrun
    obtain ⟨rfl, _⟩ := Prod.mk.inj (Except.ok.inj hrun)
    exact h
  | leave t =>
    obtain ⟨fd, hfd⟩ := Option.isSome_iff_exists.mp hcan.1
    obtain ⟨rest, hlast⟩ := List.getLast?_eq_some_iff.mp (h.lists.inUse ▸ hok fd hfd)
    subst hlast
    have hnot := h.last_fresh
    obtain ⟨s₁, hs₁, hlists, hsock, hmain, hthreads, hopen⟩ := h.lists.removeLast hnot
    simp only [handle, hfd, hs₁, bind, Except.bind] at hrun
    obtain ⟨rfl, _⟩ := Prod.mk.inj (Except.ok.inj hrun)
    have herase : (rest ++ [fd]).erase fd = rest := by
      rw [List.erase_append_right _ hnot]
      simp
    simp only [Connected.look, hfd, Option.elim, herase]
    exact h.left hfd hlists hsock hmain hthreads hopen
  | close t =>
    obtain ⟨fd, hfd⟩ := Option.isSome_iff_exists.mp hcan
    simp only [handle, hfd] at hrun
    obtain ⟨rfl, _⟩ := Prod.mk.inj (Except.ok.inj hrun)
    exact h.closed hfd

theorem Inv.law (h : Inv s clients) : MembershipLaw s clients := by
  have hcnt := h.lists.cnt
  have hle := h.lists.le
  refine ⟨h.lists.inUse, hcnt, by omega, by omega, h.nodup, h.opened, ?_⟩
  intro l s' t msg hstep hevent
  have hrun := hstep.2
  simp only [hevent, handle, h.lists.sendMsg, bind, Except.bind] at hrun
  exact (Prod.mk.inj (Except.ok.inj hrun)).2.symm

end Preserved

/-- In a run of orderly steps the array lists the connected clients, and every message is
written to each of them once. -/
theorem chat_membership {s : State} {clients : Connected} (h : OrderlyChat (s, clients)) :
    MembershipLaw s clients := by
  have hinv := Transitions.Reachable.invariant (I := fun p => Inv p.1 p.2) ?_ ?_ h
  · exact hinv.law
  · rintro ⟨s, clients⟩ ⟨⟨clntSock, rfl⟩, rfl⟩
    exact .start clntSock
  · rintro p l q _ hp ⟨hok, hstep, hq⟩
    rw [hq]
    exact hp.step hok hstep

instance (s : State) (e : Event) : Decidable (Orderly s e) :=
  match e with
  | .accept accepted => inferInstanceAs (Decidable (accepted.isSome ∧ .created ∉ s.threads))
  | .append => inferInstanceAs (Decidable (s.clntCnt < maxClnt))
  | .leave t => inferInstanceAs (Decidable (∀ fd ∈ readsFrom s t, s.entries.getLast? = some fd))
  | .spawn _ | .start _ | .message _ _ | .close _ => inferInstanceAs (Decidable True)

def anyStep : State → Event → Prop := fun _ _ => True

instance (s : State) (e : Event) : Decidable (anyStep s e) := inferInstanceAs (Decidable True)

def ChatRun (ok : State → Event → Prop) (events : List Event) (p : State × Connected) : Prop :=
  ∃ ls : List Step, ls.map (·.event) = events ∧
    Transitions.Run (chat.restrict fun p l => ok p.1 l.event) (.start 0, []) ls p

def nextChat (ok : State → Event → Prop) [∀ s e, Decidable (ok s e)] (p : State × Connected)
    (e : Event) : Option (Step × (State × Connected)) :=
  Transitions.observeNext (nextStep ok) Connected.look p e

theorem nextChat_step {ok : State → Event → Prop} [∀ s e, Decidable (ok s e)]
    (p : State × Connected) (e : Event) (l : Step) (q : State × Connected)
    (h : nextChat ok p e = some (l, q)) :
    l.event = e ∧ (chat.restrict fun p l => ok p.1 l.event).step p l q :=
  Transitions.observeNext_step nextStep_step p e l q h

theorem chatRun_of_runsTo {ok : State → Event → Prop} [∀ s e, Decidable (ok s e)]
    {test : State × Connected → Bool} {events : List Event}
    (h : Transitions.runsTo (nextChat ok) test (.start 0, []) events = true) :
    ∃ p, ChatRun ok events p ∧ test p = true := by
  obtain ⟨p, ls, hls, hrun, htest⟩ := Transitions.run_of_runsTo nextChat_step h
  exact ⟨p, ⟨ls, hls, hrun⟩, htest⟩

def connects (fd : Int) (t : Nat) : List Event :=
  [.accept (some fd), .append, .spawn true, .start t]

theorem chat_membership_demo : ∃ s clients, OrderlyChat (s, clients) ∧ clients = [4] ∧
    MembershipLaw s clients := by
  obtain ⟨⟨s, clients⟩, ⟨ls, _, hrun⟩, htest⟩ := @chatRun_of_runsTo Orderly _
    (fun p => p.2 = [4]) (connects 4 0 ++ connects 5 1 ++ [.leave 1, .close 1]) (by decide +kernel)
  have hreach : OrderlyChat (s, clients) := hrun.reachable (.init ⟨⟨0, rfl⟩, rfl⟩)
  exact ⟨s, clients, hreach, of_decide_eq_true htest, chat_membership hreach⟩

/-- The first of two clients leaves: its closed socket stays in the array, the other client is
dropped from it, and what that one says is written to the closed socket. -/
theorem first_leaver_stays : ∃ s clients, ChatRun anyStep
      (connects 4 0 ++ connects 5 1 ++ [.leave 0, .close 0]) (s, clients) ∧
    clients = [5] ∧ s.openSocks = [5] ∧ s.entries = [4] ∧
    ∃ l s', system.step s l s' ∧ l.event = .message 1 (some [104]) ∧ l.writes = [(4, [104])] := by
  obtain ⟨⟨s, clients⟩, hrun, htest⟩ := @chatRun_of_runsTo anyStep _
    (fun p => decide (p.2 = [5] ∧ p.1.openSocks = [5] ∧ p.1.entries = [4]) &&
      (nextStep anyStep p.1 (.message 1 (some [104]))).any fun (r : Step × State) =>
        decide (r.1.writes = [(4, [104])]))
    (connects 4 0 ++ connects 5 1 ++ [.leave 0, .close 0]) (by decide +kernel)
  rw [Bool.and_eq_true, decide_eq_true_eq] at htest
  obtain ⟨⟨hclients, hopen, hentries⟩, htest⟩ := htest
  obtain ⟨⟨l, s'⟩, hnext, hwrites⟩ := (Option.any_eq_true _ _).mp htest
  obtain ⟨hl, _, hstep⟩ := nextStep_step _ _ _ _ hnext
  exact ⟨s, clients, hrun, hclients, hopen, hentries, l, s', hstep, hl, of_decide_eq_true hwrites⟩

end ChatServer
