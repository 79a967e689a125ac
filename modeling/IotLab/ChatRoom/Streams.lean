import IotLab.ChatRoom.Main
import IotLab.ChatServer.Handlers

set_option autoImplicit false

namespace ChatRoom
open HostMemory ChatClient ChatServer MqttChat

inductive Moves (r : Room) : Move → Room → Prop where
  | connect {n : Nat} {arg : CStr} {stdin : List Byte} {c : Client}
      (hnew : r.client n = none) (hstart : ChatClient.start arg.chars stdin = .ok c) :
      Moves r (.connect n arg stdin) { r.setClient n c with waiting := r.waiting ++ [n] }
  | say {n : Nat} {c c' : Client} {text : List Byte} (hc : r.client n = some c)
      (hrun : c.running = true) (hsend : sendMsg c = .ok (c', text)) :
      Moves r (.say n)
        { r.setClient n c' with up := Function.update r.up n (r.up n ++ text) }
  | hear {n k : Nat} {c : Client} (hc : r.client n = some c) :
      Moves r (.hear n k) { r.setClient n (recvMsg c ((r.down n).take k)) with
        down := Function.update r.down n ((r.down n).drop k) }
  | serve {e : ChatServer.Event} {s : ChatServer.State} {writes : List Write}
      (hallow : r.Allows e) (hstep : ChatServer.system.step r.server ⟨e, writes⟩ s) :
      Moves r (.serve e) (r.after s writes e)

theorem next_moves {r r' : Room} {m : Move} (h : r.next m = some r') : Moves r m r' := by
  cases m with
  | connect n arg stdin =>
    simp only [Room.next] at h
    split at h
    · rename_i hnew hstart
      cases h
      exact .connect hnew hstart
    · contradiction
  | say n =>
    simp only [Room.next] at h
    split at h
    · rename_i hc
      split at h
      · rename_i hrun
        split at h
        · rename_i hsend
          cases h
          exact .say hc hrun hsend
        · contradiction
      · contradiction
    · contradiction
  | hear n k =>
    simp only [Room.next] at h
    split at h
    · rename_i hc
      split at h
      · cases h
        exact .hear hc
      · contradiction
    · contradiction
  | serve e =>
    simp only [Room.next] at h
    split at h
    · rename_i hok
      split at h
      · rename_i hrun
        cases h
        exact .serve hok.1 ⟨hok.2, hrun⟩
      · contradiction
    · contradiction

def textsOf (log : List (Nat × List Byte)) (n : Nat) : List Byte :=
  texts (log.filter fun x => x.1 = n)

def Room.Unentered (r : Room) (n : Nat) : Prop :=
  r.client n = none ∨ n ∈ r.waiting ∨
    (r.server.mainAt = .append ∧ r.peer r.server.clntSock = some n)

/-- The rounds to come of a client go on where those that it has made ended. -/
def Told (c : Client) (b : Books) (n : Nat) : Prop :=
  ∃ arg stdin, b.typed n = some (arg, stdin) ∧ c.name = bracketed arg.chars ∧
    (c.running = true → ∀ k, spoken (b.rounds n + k) [] stdin =
      spoken (b.rounds n) [] stdin ++ spoken k c.msg c.stdin)

structure Kept (r : Room) (b : Books) : Prop where
  serving : ChatServer.Inv r.server b.clients
  fits : ∀ n c, r.client n = some c → c.Fits
  queue : r.waiting.Nodup
  queued : ∀ n ∈ r.waiting, r.client n ≠ none ∧ ∀ fd, r.peer fd ≠ some n
  connected : ∀ fd n, r.peer fd = some n → r.client n ≠ none
  peerInj : ∀ fd fd' n, r.peer fd = some n → r.peer fd' = some n → fd = fd'
  opened : ∀ fd ∈ r.server.openSocks, ∃ n, r.peer fd = some n
  upNul : ∀ n, 0 ∉ r.up n
  downNul : ∀ n, 0 ∉ r.down n
  unknown : ∀ n, r.client n = none → b.typed n = none ∧ b.rounds n = 0
  told : ∀ n c, r.client n = some c → Told c b n
  upward : ∀ n, textsOf b.log n ++ r.up n = b.uttered n
  downward : ∀ fd ∈ b.clients, ∀ n, r.peer fd = some n →
    b.since n ≤ b.log.length ∧ r.sentTo n = texts (b.log.drop (b.since n))
  silent : ∀ n, r.Unentered n → r.sentTo n = []
  gone : ∀ n, r.sentTo n <+: texts (b.log.drop (b.since n))

section Logs
variable {log : List (Nat × List Byte)} {n k : Nat} {msg : List Byte}

theorem texts_append (log log' : List (Nat × List Byte)) :
    texts (log ++ log') = texts log ++ texts log' := List.flatMap_append

theorem texts_drop_snoc (h : k ≤ log.length) :
    texts ((log ++ [(n, msg)]).drop k) = texts (log.drop k) ++ msg := by
  rw [List.drop_append_of_le_length h, texts_append]
  simp [texts]

theorem textsOf_snoc : textsOf (log ++ [(n, msg)]) k =
    textsOf log k ++ if n = k then msg else [] := by
  rw [textsOf, List.filter_append, texts_append]
  by_cases h : n = k
  · simp [h, textsOf, texts]
  · simp [h, textsOf, texts]

end Logs

section Moves
variable {r r' : Room} {b : Books} {n k : Nat} {c c' : Client}

theorem Kept.start (clntSock : Int) : Kept (.start clntSock) .empty := by
  constructor <;> simp [Room.start, Books.empty, Books.uttered, Room.sentTo, Room.printed, textsOf,
    texts, ChatServer.State.start]
  exact ChatServer.Inv.start clntSock

@[simp] theorem setClient_client :
    (r.setClient n c).client k = if k = n then some c else r.client k := by
  by_cases h : k = n
  · subst h
    simp [Room.setClient]
  · simp [Room.setClient, h]

theorem printed_setClient : (r.setClient n c).printed k =
    if k = n then c.stdout else r.printed k := by
  rw [Room.printed, setClient_client]
  split <;> rfl

theorem setClient_ne_none (h : r.client k ≠ none) : (r.setClient n c).client k ≠ none := by
  rw [setClient_client]
  split
  · simp
  · exact h

theorem setClient_fits (h : ∀ n c, r.client n = some c → c.Fits) (hc : c.Fits) (k : Nat)
    (d : Client) (hd : (r.setClient n c).client k = some d) : d.Fits := by
  rw [setClient_client] at hd
  split at hd
  · cases hd
    exact hc
  · exact h k d hd

theorem setClient_told {b' : Books} (h : ∀ n c, r.client n = some c → Told c b n)
    (hc : Told c b' n) (htyped : ∀ k, k ≠ n → b'.typed k = b.typed k)
    (hrounds : ∀ k, k ≠ n → b'.rounds k = b.rounds k) (k : Nat) (d : Client)
    (hd : (r.setClient n c).client k = some d) : Told d b' k := by
  rw [setClient_client] at hd
  split at hd
  · rename_i hk
    cases hd
    exact hk ▸ hc
  · rename_i hk
    have htold := h k d hd
    rwa [Told, ← htyped k hk, ← hrounds k hk] at htold

theorem spoken_zero (last stdin : List Byte) : spoken 0 last stdin = [] := by simp [spoken]

theorem Kept.connect {arg : CStr} {stdin : List Byte} (h : Kept r b)
    (hnew : r.client n = none) (hstart : ChatClient.start arg.chars stdin = .ok c) :
    Kept { r.setClient n c with waiting := r.waiting ++ [n] }
      { b with typed := Function.update b.typed n (some (arg, stdin)) } := by
  obtain ⟨htyped, hrounds⟩ := h.unknown n hnew
  have hsent (k : Nat) : Room.sentTo { r.setClient n c with waiting := r.waiting ++ [n] } k =
      r.sentTo k := by
    have hprinted : (r.setClient n c).printed k = r.printed k := by
      rw [printed_setClient]
      split
      · rename_i hk
        rw [hk, (start_eq.mp hstart).2, Room.printed, hnew]
        rfl
      · rfl
    rw [Room.sentTo, Room.sentTo, ← hprinted]
    rfl
  constructor
  case serving => exact h.serving
  case fits => exact setClient_fits h.fits (start_fits hstart arg.noNul)
  case queue =>
    refine List.nodup_append.mpr ⟨h.queue, List.nodup_singleton _, ?_⟩
    rintro x hx y hy rfl
    exact (h.queued x hx).1 (List.mem_singleton.mp hy ▸ hnew)
  case queued =>
    intro k hk
    rcases List.mem_append.mp hk with hk | hk
    · exact ⟨setClient_ne_none (h.queued k hk).1, (h.queued k hk).2⟩
    · rw [List.mem_singleton.mp hk]
      exact ⟨by simp, fun fd hfd => h.connected fd n hfd hnew⟩
  case connected => exact fun fd k hk => setClient_ne_none (h.connected fd k hk)
  case peerInj => exact h.peerInj
  case opened => exact h.opened
  case upNul => exact h.upNul
  case downNul => exact h.downNul
  case unknown =>
    intro k hk
    rw [setClient_client] at hk
    split at hk
    · contradiction
    · rename_i hne
      obtain ⟨hk, hrounds⟩ := h.unknown k hk
      exact ⟨(Function.update_of_ne hne ..).trans hk, hrounds⟩
  case told =>
    refine setClient_told h.told ⟨arg, stdin, Function.update_self .., ?_, fun _ k => ?_⟩
      (fun k hk => Function.update_of_ne hk ..) (fun k _ => rfl)
    · rw [(start_eq.mp hstart).2]
    · simp only [hrounds, spoken_zero, (start_eq.mp hstart).2, Nat.zero_add, List.nil_append]
  case upward =>
    intro k
    refine (h.upward k).trans ?_
    by_cases hk : k = n
    · subst hk
      simp [Books.uttered, htyped, hrounds, spoken_zero]
    · simp [Books.uttered, hk]
  case downward =>
    intro fd hfd k hk
    rw [hsent]
    exact h.downward fd hfd k hk
  case silent =>
    intro k hk
    rw [hsent]
    refine h.silent k ?_
    rcases hk with hk | hk | hk
    · simp only [setClient_client] at hk
      split at hk
      · contradiction
      · exact .inl hk
    · rcases List.mem_append.mp hk with hk | hk
      · exact .inr (.inl hk)
      · exact .inl (List.mem_singleton.mp hk ▸ hnew)
    · exact .inr (.inr hk)
  case gone =>
    intro k
    rw [hsent]
    exact h.gone k

theorem Kept.moved {up down : Nat → List Byte} {rounds : Nat → Nat} (h : Kept r b)
    (hfits : c'.Fits)
    (hstdout : ∀ k, (r.setClient n c').printed k ++ down k = r.sentTo k)
    (hup : ∀ k, 0 ∉ up k) (hdown : ∀ k, 0 ∉ down k)
    (htold : Told c' { b with rounds := rounds } n) (hrounds : ∀ k, k ≠ n → rounds k = b.rounds k)
    (huttered : ∀ k, textsOf b.log k ++ up k = { b with rounds := rounds }.uttered k) :
    Kept { r.setClient n c' with up := up, down := down } { b with rounds := rounds } := by
  constructor
  case serving => exact h.serving
  case fits => exact setClient_fits h.fits hfits
  case queue => exact h.queue
  case queued => exact fun k hk => ⟨setClient_ne_none (h.queued k hk).1, (h.queued k hk).2⟩
  case connected => exact fun fd k hk => setClient_ne_none (h.connected fd k hk)
  case peerInj => exact h.peerInj
  case opened => exact h.opened
  case upNul => exact hup
  case downNul => exact hdown
  case unknown =>
    intro k hk
    rw [setClient_client] at hk
    split at hk
    · contradiction
    · rename_i hne
      obtain ⟨htyped, hk⟩ := h.unknown k hk
      exact ⟨htyped, (hrounds k hne).trans hk⟩
  case told => exact setClient_told h.told htold (fun _ _ => rfl) hrounds
  case upward => exact huttered
  case downward =>
    intro fd hfd k hk
    obtain ⟨hle, hsent⟩ := h.downward fd hfd k hk
    exact ⟨hle, (hstdout k).trans hsent⟩
  case silent =>
    intro k hk
    refine (hstdout k).trans (h.silent k ?_)
    refine hk.imp_left (fun hk => ?_)
    simp only [setClient_client] at hk
    split at hk
    · contradiction
    · exact hk
  case gone =>
    intro k
    have hsame : Room.sentTo { r.setClient n c' with up := up, down := down } k = r.sentTo k :=
      hstdout k
    rw [hsame]
    exact h.gone k

theorem Told.say {text : List Byte} (h : Told c b n) (hfits : c.Fits) (hrun : c.running = true)
    (hsend : sendMsg c = .ok (c', text)) :
    Told c' { b with rounds := Function.update b.rounds n (b.rounds n + 1) } n ∧
      Books.uttered { b with rounds := Function.update b.rounds n (b.rounds n + 1) } n =
        b.uttered n ++ text := by
  obtain ⟨arg, stdin, htyped, hname, hspoken⟩ := h
  have hnext (k : Nat) : spoken (b.rounds n + 1 + k) [] stdin = spoken (b.rounds n) [] stdin ++
      spoken (k + 1) c.msg c.stdin := by
    rw [← hspoken hrun, Nat.add_assoc, Nat.add_comm 1 k]
  have hrest (k : Nat) : spoken (k + 1) c.msg c.stdin = if quits (nextMsg c) then [] else
      nextMsg c :: spoken k (nextMsg c)
        (c.stdin.drop (lineStart (ChatClient.bufSize - 1) c.stdin).length) := by
    rw [spoken_succ, ← nextMsg_eq]
  have hone := hnext 0
  rw [Nat.add_zero, hrest 0, spoken_zero] at hone
  simp only [Told, Books.uttered, htyped, Function.update_self, Option.elim]
  obtain ⟨_, ⟨hq, hsend'⟩ | ⟨hq, hsend'⟩⟩ := hfits.sendMsg
  · cases hsend.symm.trans hsend'
    rw [if_pos hq, List.append_nil] at hone
    refine ⟨⟨arg, stdin, rfl, hname, fun hrun' => nomatch hrun'⟩, ?_⟩
    rw [hone, List.append_nil]
  · cases hsend.symm.trans hsend'
    rw [if_neg hq] at hone
    refine ⟨⟨arg, stdin, rfl, hname, fun _ k => ?_⟩, ?_⟩
    · rw [hnext k, hrest k, if_neg hq, hone, List.append_assoc]
      rfl
    · rw [hone, List.flatMap_append, hname]
      simp

theorem Kept.say {text : List Byte} (h : Kept r b) (hc : r.client n = some c)
    (hrun : c.running = true) (hsend : sendMsg c = .ok (c', text)) :
    Kept { r.setClient n c' with up := Function.update r.up n (r.up n ++ text) }
      { b with rounds := Function.update b.rounds n (b.rounds n + 1) } := by
  obtain ⟨hfits, hstdout, hnul⟩ := (h.fits n c hc).sent hsend
  obtain ⟨htold, huttered⟩ := (h.told n c hc).say (h.fits n c hc) hrun hsend
  refine @Kept.moved r b n c' (Function.update r.up n (r.up n ++ text)) r.down _ h hfits
    (fun k => ?_) (fun k => ?_) h.downNul htold (fun k hk => Function.update_of_ne hk ..)
    (fun k => ?_)
  · rw [printed_setClient]
    split
    · rename_i hk
      subst hk
      rw [hstdout, Room.sentTo, Room.printed, hc]
      rfl
    · rfl
  · by_cases hk : k = n
    · subst hk
      rw [Function.update_self, List.mem_append, not_or]
      exact ⟨h.upNul k, hnul⟩
    · rw [Function.update_of_ne hk]
      exact h.upNul k
  · by_cases hk : k = n
    · subst hk
      rw [Function.update_self, ← List.append_assoc, h.upward, huttered]
    · rw [Function.update_of_ne hk, h.upward]
      simp [Books.uttered, hk]

theorem Kept.hear (h : Kept r b) (hc : r.client n = some c) :
    Kept { r.setClient n (recvMsg c ((r.down n).take k)) with
      down := Function.update r.down n ((r.down n).drop k) } b := by
  have hfits := h.fits n c hc
  have hnul : 0 ∉ (r.down n).take k := fun hm => h.downNul n (List.mem_of_mem_take hm)
  refine @Kept.moved r b n _ r.up (Function.update r.down n ((r.down n).drop k)) b.rounds h
    ⟨hfits.name, hfits.msg, hfits.nameNul, hfits.msgNul⟩ (fun m => ?_) h.upNul (fun m => ?_)
    (h.told n c hc) (fun _ _ => rfl) h.upward
  · rw [printed_setClient]
    by_cases hm : m = n
    · subst hm
      rw [if_pos rfl, Function.update_self, recvMsg, strOf_eq hnul, List.append_assoc,
        List.take_append_drop, Room.sentTo, Room.printed, hc]
      rfl
    · rw [if_neg hm, Function.update_of_ne hm]
      rfl
  · by_cases hm : m = n
    · subst hm
      rw [Function.update_self]
      exact fun hmem => h.downNul m (List.mem_of_mem_drop hmem)
    · rw [Function.update_of_ne hm]
      exact h.downNul m

end Moves

section Serve
variable {r : Room} {b : Books} {s : ChatServer.State} {clients : Connected}

theorem Kept.served (h : Kept r b) (hinv : ChatServer.Inv s clients)
    (hclients : ∀ fd ∈ clients, fd ∈ b.clients)
    (hopen : ∀ fd ∈ s.openSocks, fd ∈ r.server.openSocks)
    (hmain : s.mainAt = .append → r.server.mainAt = .append ∧ s.clntSock = r.server.clntSock) :
    Kept { r with server := s } { b with clients := clients } := by
  refine ⟨hinv, h.fits, h.queue, h.queued, h.connected, h.peerInj,
    fun fd hfd => h.opened fd (hopen fd hfd), h.upNul, h.downNul, h.unknown, h.told, h.upward,
    fun fd hfd => h.downward fd (hclients fd hfd), fun k hk => h.silent k ?_, h.gone⟩
  refine hk.imp_right (Or.imp_right fun ⟨happend, hpeer⟩ => ?_)
  obtain ⟨hat, hsock⟩ := hmain happend
  exact ⟨hat, hsock ▸ hpeer⟩

theorem Kept.accept {fd : Int} (h : Kept r b) (hinv : ChatServer.Inv s b.clients)
    (hwaiting : r.waiting ≠ []) (hnew : fd ∉ r.server.openSocks)
    (hsock : s.clntSock = fd) (hopen : s.openSocks = fd :: r.server.openSocks) :
    Kept { r with
      server := s
      waiting := r.waiting.tail
      peer := Function.update r.peer fd r.waiting.head? } b := by
  obtain ⟨n, rest, hw⟩ := List.exists_cons_of_ne_nil hwaiting
  have hqueue := h.queue
  rw [hw, List.nodup_cons] at hqueue
  obtain ⟨hn, hfree⟩ := h.queued n (hw ▸ List.mem_cons_self)
  have hold {fd' : Int} {k : Nat} (hk : Function.update r.peer fd (some n) fd' = some k) :
      (fd' = fd ∧ k = n) ∨ (fd' ≠ fd ∧ r.peer fd' = some k) := by
    by_cases heq : fd' = fd
    · rw [heq, Function.update_self] at hk
      exact .inl ⟨heq, (Option.some.inj hk).symm⟩
    · rw [Function.update_of_ne heq] at hk
      exact .inr ⟨heq, hk⟩
  simp only [hw, List.tail_cons, List.head?_cons]
  constructor
  case serving => exact hinv
  case fits => exact h.fits
  case queue => exact hqueue.2
  case queued =>
    intro k hk
    obtain ⟨hk', hfree'⟩ := h.queued k (hw ▸ List.mem_cons_of_mem n hk)
    refine ⟨hk', fun fd' hpeer => ?_⟩
    rcases hold hpeer with ⟨_, rfl⟩ | ⟨_, hpeer⟩
    · exact hqueue.1 hk
    · exact hfree' fd' hpeer
  case connected =>
    intro fd' k hk
    rcases hold hk with ⟨_, rfl⟩ | ⟨_, hk⟩
    · exact hn
    · exact h.connected fd' k hk
  case peerInj =>
    intro fd₁ fd₂ k h₁ h₂
    rcases hold h₁ with ⟨he₁, hk₁⟩ | ⟨_, hp₁⟩
    · rcases hold h₂ with ⟨he₂, _⟩ | ⟨_, hp₂⟩
      · rw [he₁, he₂]
      · exact absurd (hk₁ ▸ hp₂) (hfree fd₂)
    · rcases hold h₂ with ⟨_, hk₂⟩ | ⟨_, hp₂⟩
      · exact absurd (hk₂ ▸ hp₁) (hfree fd₁)
      · exact h.peerInj fd₁ fd₂ k hp₁ hp₂
  case opened =>
    intro fd' hfd'
    by_cases heq : fd' = fd
    · exact ⟨n, by simp [heq]⟩
    · simp only [hopen, List.mem_cons, heq, false_or] at hfd'
      simpa [heq] using h.opened fd' hfd'
  case upNul => exact h.upNul
  case downNul => exact h.downNul
  case unknown => exact h.unknown
  case told => exact h.told
  case upward => exact h.upward
  case downward =>
    intro fd' hfd' k hk
    rcases hold hk with ⟨rfl, _⟩ | ⟨_, hk⟩
    · exact absurd (h.serving.opened fd' hfd') hnew
    · exact h.downward fd' hfd' k hk
  case silent =>
    intro k hk
    refine h.silent k ?_
    rcases hk with hk | hk | ⟨_, hk⟩
    · exact .inl hk
    · exact .inr (.inl (hw ▸ List.mem_cons_of_mem n hk))
    · rcases hold hk with ⟨_, rfl⟩ | ⟨hne, _⟩
      · exact .inr (.inl (hw ▸ List.mem_cons_self))
      · exact absurd hsock hne
  case gone => exact h.gone

theorem Kept.append (h : Kept r b) (hmain : r.server.mainAt = .append)
    (hinv : ChatServer.Inv s (b.clients ++ [r.server.clntSock])) (hspawn : s.mainAt = .spawn)
    (hopen : s.openSocks = r.server.openSocks) :
    Kept { r with server := s } { b with
      clients := b.clients ++ [r.server.clntSock]
      since := fun n =>
        if r.peer r.server.clntSock = some n then b.log.length else b.since n } := by
  have hsilent {k : Nat} (hk : r.peer r.server.clntSock = some k) : r.sentTo k = [] :=
    h.silent k (.inr (.inr ⟨hmain, hk⟩))
  obtain ⟨_, _, hnew, _⟩ := h.serving.handlers.appending hmain
  constructor
  case serving => exact hinv
  case fits => exact h.fits
  case queue => exact h.queue
  case queued => exact h.queued
  case connected => exact h.connected
  case peerInj => exact h.peerInj
  case opened => exact fun fd hfd => h.opened fd (hopen ▸ hfd)
  case upNul => exact h.upNul
  case downNul => exact h.downNul
  case unknown => exact h.unknown
  case told => exact h.told
  case upward => exact h.upward
  case downward =>
    intro fd hfd k hk
    dsimp only at hfd hk ⊢
    by_cases hent : r.peer r.server.clntSock = some k
    · rw [if_pos hent]
      exact ⟨le_refl _, by rw [List.drop_length]; exact hsilent hent⟩
    · rw [if_neg hent]
      rcases List.mem_append.mp hfd with hfd | hfd
      · exact h.downward fd hfd k hk
      · exact absurd (List.mem_singleton.mp hfd ▸ hk) hent
  case silent =>
    intro k hk
    refine h.silent k (hk.imp_right (Or.imp_right fun hk => ?_))
    cases hspawn.symm.trans hk.1
  case gone =>
    intro k
    by_cases hent : r.peer r.server.clntSock = some k
    · exact (hsilent hent).symm ▸ List.nil_prefix
    · dsimp only
      rw [if_neg hent]
      exact h.gone k

section Message
variable {fd : Int} {k : Nat} {msg : List Byte}

theorem delivered_member (h : Kept r b) (hfd : fd ∈ b.clients) (hk : r.peer fd = some k) :
    r.delivered (b.clients.map fun fd => (fd, msg)) k = msg := by
  have hiff (x : Int) : decide (r.peer x = some k) = decide (x = fd) :=
    decide_eq_decide.mpr ⟨fun hx => h.peerInj x fd k hx hk, fun hx => hx ▸ hk⟩
  rw [Room.delivered, List.filter_map, Function.comp_def]
  simp only [hiff]
  rw [List.filter_eq, List.count_eq_one_of_mem h.serving.nodup hfd]
  simp

theorem delivered_other (hk : ∀ fd ∈ b.clients, r.peer fd ≠ some k) :
    r.delivered (b.clients.map fun fd => (fd, msg)) k = [] := by
  rw [Room.delivered, List.flatMap_eq_nil_iff]
  intro w hw
  obtain ⟨hw, hpeer⟩ := List.mem_filter.mp hw
  obtain ⟨fd, hfd, rfl⟩ := List.mem_map.mp hw
  exact absurd (of_decide_eq_true hpeer) (hk fd hfd)

theorem Kept.message {t : Nat} (h : Kept r b) (hmsg : ∃ n ∈ r.source t, msg <+: r.up n) :
    Kept (r.after r.server (b.clients.map fun fd => (fd, msg)) (.message t (some msg)))
      { b with log := b.log ++ (r.source t).toList.map fun n => (n, msg) } := by
  obtain ⟨n, hn, rest, hup⟩ := hmsg
  have hsource : r.source t = some n := hn
  have hsentTo (k : Nat) :
      (r.after r.server (b.clients.map fun fd => (fd, msg)) (.message t (some msg))).sentTo k =
        r.sentTo k ++ r.delivered (b.clients.map fun fd => (fd, msg)) k :=
    (List.append_assoc _ _ _).symm
  have hmember {fd : Int} {k : Nat} (hfd : fd ∈ b.clients) (hk : r.peer fd = some k) :
      r.sentTo k ++ r.delivered (b.clients.map fun fd => (fd, msg)) k =
        texts ((b.log ++ [(n, msg)]).drop (b.since k)) := by
    obtain ⟨hle, hsent⟩ := h.downward fd hfd k hk
    rw [delivered_member h hfd hk, texts_drop_snoc hle, hsent]
  have hnul : 0 ∉ msg := fun hm => h.upNul n (hup ▸ List.mem_append_left rest hm)
  rw [hsource, Option.toList_some, List.map_singleton]
  constructor
  case serving => exact h.serving
  case fits => exact h.fits
  case queue => exact h.queue
  case queued => exact h.queued
  case connected => exact h.connected
  case peerInj => exact h.peerInj
  case opened => exact h.opened
  case upNul =>
    intro k hk
    simp only [Room.after] at hk
    split at hk
    · exact h.upNul k (List.mem_of_mem_drop hk)
    · exact h.upNul k hk
  case downNul =>
    intro k hk
    rcases List.mem_append.mp hk with hk | hk
    · exact h.downNul k hk
    · obtain ⟨w, hw, hk⟩ := List.mem_flatMap.mp hk
      obtain ⟨fd, _, rfl⟩ := List.mem_map.mp (List.mem_filter.mp hw).1
      exact hnul hk
  case unknown => exact h.unknown
  case told => exact h.told
  case upward =>
    intro k
    have huttered := h.upward k
    rw [textsOf_snoc]
    refine Eq.trans ?_ huttered
    simp only [Room.after, hsource, Option.some.injEq]
    split
    · rename_i heq
      subst heq
      rw [← hup, List.append_assoc, List.drop_left]
    · rw [List.append_nil]
  case downward =>
    intro fd hfd k hk
    refine ⟨?_, (hsentTo k).trans (hmember hfd hk)⟩
    have := (h.downward fd hfd k hk).1
    simp only [List.length_append]
    omega
  case silent =>
    intro k hk
    have hnobody : ∀ fd ∈ b.clients, r.peer fd ≠ some k := by
      intro fd hfd hpeer
      rcases hk with hk | hk | ⟨hmain, hk⟩
      · exact h.connected fd k hpeer hk
      · exact (h.queued k hk).2 fd hpeer
      · obtain ⟨_, _, hnew, _⟩ := h.serving.handlers.appending hmain
        exact hnew (h.peerInj fd _ k hpeer hk ▸ hfd)
    rw [hsentTo, delivered_other hnobody, h.silent k hk]
    rfl
  case gone =>
    intro k
    rw [hsentTo]
    by_cases hin : ∃ fd ∈ b.clients, r.peer fd = some k
    · obtain ⟨fd, hfd, hk⟩ := hin
      rw [hmember hfd hk]
    · push Not at hin
      rw [delivered_other hin, List.append_nil, List.drop_append, texts_append]
      exact (h.gone k).trans (List.prefix_append _ _)

end Message

theorem Kept.serve {e : ChatServer.Event} {writes : List Write} (h : Kept r b)
    (hok : Orderly r.server e) (hallow : r.Allows e)
    (hstep : ChatServer.system.step r.server ⟨e, writes⟩ s) :
    Kept (r.after s writes e) (b.look r (.serve e) (r.after s writes e)) := by
  have hinv := h.serving.step hok hstep
  obtain ⟨hcan, hrun⟩ := id hstep
  cases e with
  | accept accepted =>
    obtain ⟨fd, rfl⟩ := Option.isSome_iff_exists.mp hok.1
    obtain ⟨rfl, _⟩ := Prod.mk.inj (Except.ok.inj hrun)
    exact h.accept hinv (hallow rfl) (hcan.2 fd rfl).2 rfl rfl
  | append =>
    obtain ⟨s₁, hs₁, hrun⟩ := Fallible.bind_eq_ok.mp hrun
    obtain ⟨rfl, _⟩ := Prod.mk.inj (Except.ok.inj hrun)
    obtain ⟨_, hmain, _, hopen⟩ := append_frame hs₁
    have hpos := (h.serving.handlers.appending hcan).1
    have hent : ¬r.server.clntSock = -1 := by omega
    simp only [Connected.look, if_neg hent] at hinv
    simp only [Books.look, Connected.look, if_neg hent]
    exact h.append hcan hinv hmain hopen
  | spawn created =>
    obtain ⟨rfl, _⟩ := Prod.mk.inj (Except.ok.inj hrun)
    exact h.served hinv (fun _ hfd => hfd) (fun _ hfd => hfd) MainAt.noConfusion
  | start t =>
    obtain ⟨rfl, _⟩ := Prod.mk.inj (Except.ok.inj hrun)
    exact h.served hinv (fun _ hfd => hfd) (fun _ hfd => hfd) (fun hmain => ⟨hmain, rfl⟩)
  | message t msg =>
    obtain ⟨socks, _, hrun⟩ := Fallible.bind_eq_ok.mp hrun
    obtain ⟨rfl, _⟩ := Prod.mk.inj (Except.ok.inj hrun)
    cases msg with
    | none => exact h
    | some msg =>
      have heq := h.serving.law.broadcast _ _ t msg hstep rfl
      dsimp only at heq
      rw [heq]
      exact h.message (hallow msg rfl)
  | leave t =>
    obtain ⟨fd, hfd⟩ := Option.isSome_iff_exists.mp hcan.1
    simp only [handle, hfd] at hrun
    obtain ⟨s₁, hs₁, hrun⟩ := Fallible.bind_eq_ok.mp hrun
    obtain ⟨rfl, _⟩ := Prod.mk.inj (Except.ok.inj hrun)
    obtain ⟨hsock, hmain, _, hopen⟩ := removeSock_frame hs₁
    refine h.served hinv (fun x hx => ?_) (fun x hx => hopen ▸ hx)
      (fun hat => ⟨hmain ▸ hat, hsock⟩)
    simp only [Connected.look, hfd, Option.elim] at hx
    exact List.mem_of_mem_erase hx
  | close t =>
    obtain ⟨fd, hfd⟩ := Option.isSome_iff_exists.mp hcan
    simp only [handle, hfd] at hrun
    obtain ⟨rfl, _⟩ := Prod.mk.inj (Except.ok.inj hrun)
    exact h.served hinv (fun _ hx => hx) (fun x hx => (List.mem_filter.mp hx).1)
      (fun hat => ⟨hat, rfl⟩)

theorem Kept.step {r' : Room} {m : Move} (h : Kept r b) (hok : OrderlyMove r m)
    (hnext : r.next m = some r') : Kept r' (b.look r m r') := by
  cases next_moves hnext with
  | connect hnew hstart => exact h.connect hnew hstart
  | say hc hrun hsend => exact h.say hc hrun hsend
  | hear hc => exact h.hear hc
  | serve hallow hstep => exact h.serve hok hallow hstep

end Serve

/-- The law of the room. The server has read and broadcast of every client the first part of what
it had to say, and the rest is on its way, in order. To a client in the array has come all that
was broadcast since it was entered, and nothing else, be it printed or on its way; and to no
client has come anything but a first part of that. -/
structure RoomLaw (r : Room) (b : Books) : Prop where
  upward : ∀ n, textsOf b.log n ++ r.up n = b.uttered n
  downward : ∀ fd ∈ r.server.entries, ∃ n, r.peer fd = some n ∧
    r.sentTo n = texts (b.log.drop (b.since n))
  onlyOne : ∀ fd fd' n, fd ∈ r.server.entries → fd' ∈ r.server.entries →
    r.peer fd = some n → r.peer fd' = some n → fd = fd'
  safe : ∀ n, r.printed n <+: texts (b.log.drop (b.since n))

theorem Kept.law {r : Room} {b : Books} (h : Kept r b) : RoomLaw r b := by
  have hentries : r.server.entries = b.clients := h.serving.lists.inUse
  refine ⟨h.upward, fun fd hfd => ?_, fun fd fd' n _ _ => h.peerInj fd fd' n, fun n => ?_⟩
  · rw [hentries] at hfd
    obtain ⟨n, hn⟩ := h.opened fd (h.serving.opened fd hfd)
    exact ⟨n, hn, (h.downward fd hfd n hn).2⟩
  · exact (List.prefix_append _ _).trans (h.gone n)

/-- In every orderly run of the room, whoever moves next, the streams follow the law. -/
theorem room_streams {r : Room} {b : Books} (h : OrderlyRoom (r, b)) : RoomLaw r b := by
  have hkept := Transitions.Reachable.invariant (I := fun p => Kept p.1 p.2) ?_ ?_ h
  · exact hkept.law
  · rintro ⟨r, b⟩ ⟨⟨clntSock, rfl⟩, rfl⟩
    exact .start clntSock
  · rintro p m q _ hp ⟨hok, hstep, hq⟩
    rw [hq]
    exact hp.step hok hstep

def nextOrderly (p : Room × Books) (m : Move) : Option (Move × (Room × Books)) :=
  if OrderlyMove p.1 m then (p.1.next m).map fun r => (m, (r, p.2.look p.1 m r)) else none

theorem nextOrderly_step (p : Room × Books) (m l : Move) (q : Room × Books)
    (h : nextOrderly p m = some (l, q)) :
    id l = m ∧ (observed.restrict fun p m => OrderlyMove p.1 m).step p l q := by
  rw [nextOrderly] at h
  split at h
  · rename_i hok
    obtain ⟨r, hr, heq⟩ := Option.map_eq_some_iff.mp h
    cases heq
    exact ⟨rfl, hok, hr, rfl⟩
  · contradiction

def demoMoves : List Move :=
  [.connect 0 ⟨[65], by decide⟩ [104, 105, 10]] ++ (connects 4 0).map .serve ++
    [.say 0, .connect 1 ⟨[66], by decide⟩ [10]] ++ (connects 5 1).map .serve ++
    [.serve (.message 0 (some [91, 65])), .hear 1 1,
      .serve (.message 0 (some [93, 32, 104, 105, 10])), .hear 1 6, .hear 0 3]

/-- The message of the first client is read in two pieces; the second client has printed it all,
the first one a part. -/
theorem room_streams_demo : ∃ r b, OrderlyRoom (r, b) ∧
    r.printed 1 = [91, 65, 93, 32, 104, 105, 10] ∧ r.printed 0 = [91, 65, 93] ∧ RoomLaw r b := by
  obtain ⟨⟨r, b⟩, ms, _, hrun, htest⟩ := @Transitions.run_of_runsTo _ _ _ _ id nextOrderly
    (fun p => p.1.printed 1 = [91, 65, 93, 32, 104, 105, 10] ∧ p.1.printed 0 = [91, 65, 93])
    nextOrderly_step (.start 0, .empty) demoMoves (by decide +kernel)
  have hreach : OrderlyRoom (r, b) := hrun.reachable (.init ⟨⟨0, rfl⟩, rfl⟩)
  obtain ⟨hone, hzero⟩ := of_decide_eq_true htest
  exact ⟨r, b, hreach, hone, hzero, room_streams hreach⟩

end ChatRoom
