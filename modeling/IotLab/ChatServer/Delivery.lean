import IotLab.Library.Broadcast
import IotLab.Library.Refinement
import IotLab.ChatServer.Membership

set_option autoImplicit false

namespace ChatServer
open SlotTable HostMemory

/-- What a step shows: a socket entered or left, or a message with the writes it led to. -/
abbrev Talk := Broadcast.Label Int (List Byte)

def talk (p : State × Connected) (l : Step) (_ : State × Connected) : List Talk :=
  match l.event with
  | .append => [.join p.1.clntSock]
  | .leave t => (readsFrom p.1 t).toList.map .leave
  | .message t (some msg) => (readsFrom p.1 t).toList.map fun fd => .post fd msg l.writes
  | _ => []

def orderlyChat : Transitions.System (State × Connected) Step :=
  chat.restrict fun p l => Orderly p.1 l.event

theorem orderlyChat_inv {p : State × Connected} (h : OrderlyChat p) : Inv p.1 p.2 := by
  refine h.invariant (I := fun p => Inv p.1 p.2) ?_ ?_
  · rintro ⟨s, clients⟩ ⟨⟨clntSock, rfl⟩, rfl⟩
    exact .start clntSock
  · rintro p l q _ hp ⟨hok, hstep, hq⟩
    rw [hq]
    exact hp.step hok hstep

theorem Inv.talks {s s' : State} {clients : Connected} {l : Step} (h : Inv s clients)
    (hok : Orderly s l.event) (hstep : system.step s l s') :
    Transitions.Run Broadcast.group clients (talk (s, clients) l (s', clients.look s l s'))
      (clients.look s l s') := by
  obtain ⟨event, writes⟩ := l
  cases event with
  | accept accepted => exact .nil _
  | append =>
    obtain ⟨hpos, _, hnew, _⟩ := h.handlers.appending hstep.1
    simp only [talk, Connected.look]
    rw [if_neg (by omega)]
    exact .single (.join hnew)
  | spawn created => exact .nil _
  | start t => exact .nil _
  | message t msg =>
    cases msg with
    | none => exact .nil _
    | some msg =>
      obtain ⟨fd, hfd⟩ := Option.isSome_iff_exists.mp hstep.1.1
      have hwrites := h.law.broadcast _ _ t msg hstep rfl
      dsimp only at hwrites
      simp only [talk, Connected.look, hfd, Option.toList, List.map_cons, List.map_nil]
      exact .single (.post (h.handlers.served t fd hfd) (by rw [hwrites]))
  | leave t =>
    obtain ⟨fd, hfd⟩ := Option.isSome_iff_exists.mp hstep.1.1
    simp only [talk, Connected.look, hfd, Option.toList, List.map_cons, List.map_nil, Option.elim]
    exact .single (.leave (h.handlers.served t fd hfd))
  | close t => exact .nil _

/-- The chat server in orderly runs refines the broadcast group. -/
theorem chat_refines : Transitions.Refines orderlyChat Broadcast.group OrderlyChat talk
    (fun p => p.2) := by
  constructor
  · rintro p ⟨hp, hclients⟩
    exact ⟨.init ⟨hp, hclients⟩, hclients⟩
  · intro p l q hp _ hstep
    obtain ⟨hok, hst, hq⟩ := hstep
    refine ⟨.step hp ⟨hok, hst, hq⟩, ?_⟩
    rw [show q = (q.1, q.2) from rfl, hq]
    exact (orderlyChat_inv hp).talks hok hst

abbrev Talks (s : State) (clients : Connected) (shown : List Talk) : Prop :=
  Transitions.Reachable (orderlyChat.record talk) ((s, clients), shown)

theorem talks_run {s : State} {clients : Connected} {shown : List Talk}
    (h : Talks s clients shown) : Transitions.Run Broadcast.group [] shown clients := by
  obtain ⟨_, a, ha, hrun⟩ := chat_refines.run h
  obtain rfl : a = [] := ha
  exact hrun

/-- The law of delivery for what a run has shown: a socket is written every message that is read
while it is entered, once and in the order of reading; two sockets are written the same, in the
same order, while both are entered; and after a socket has left it is written nothing until its
number is entered again. -/
structure DeliveryLaw (shown : List Talk) : Prop where
  complete : ∀ xs fd ys, shown = xs ++ .join fd :: ys → (∀ l ∈ ys, l ≠ .leave fd) →
    Broadcast.received fd ys = (Broadcast.posted ys).map (·.2)
  agree : ∀ xs fd ys fd' zs, shown = xs ++ .join fd :: (ys ++ .join fd' :: zs) →
    (∀ l ∈ ys, l ≠ .leave fd) → (∀ l ∈ zs, l ≠ .leave fd ∧ l ≠ .leave fd') →
    Broadcast.received fd zs = Broadcast.received fd' zs
  silent : ∀ xs fd ys, shown = xs ++ .leave fd :: ys → (∀ l ∈ ys, l ≠ .join fd) →
    Broadcast.received fd ys = []
  sender : ∀ xs fd msg writes ys, shown = xs ++ .post fd msg writes :: ys →
    ∃ zs zs', xs = zs ++ .join fd :: zs' ∧ ∀ l ∈ zs', l ≠ .leave fd

/-- Every orderly run of the chat server delivers by the law. -/
theorem deliveries_ordered {s : State} {clients : Connected} {shown : List Talk}
    (h : Talks s clients shown) : DeliveryLaw shown := by
  have hrun := talks_run h
  constructor
  case complete =>
    rintro xs fd ys rfl hys
    exact Broadcast.joined_received hrun hys
  case agree =>
    rintro xs fd ys fd' zs rfl hys hzs
    exact Broadcast.joined_agree hrun hys hzs
  case silent =>
    rintro xs fd ys rfl hys
    exact Broadcast.left_received hrun hys
  case sender =>
    rintro xs fd msg writes ys rfl
    exact Broadcast.sender_joined hrun

def demoTalk : List Talk :=
  [.join 4, .join 5, .post 5 [104, 105] [(4, [104, 105]), (5, [104, 105])], .leave 5,
    .post 4 [111] [(4, [111])]]

theorem deliveries_ordered_demo : ∃ s clients, Talks s clients demoTalk ∧
    DeliveryLaw demoTalk := by
  obtain ⟨⟨⟨s, clients⟩, shown⟩, h, htest⟩ := @Transitions.recorded_of_runsTo _ _ _ orderlyChat
    talk _ (·.event) (nextChat Orderly)
    (fun p e l q hn => by
      obtain ⟨hl, hstep⟩ := nextChat_step p e l q hn
      exact ⟨hl, hstep⟩) (fun p => p.2 = demoTalk) (.start 0, [])
    (connects 4 0 ++ connects 5 1 ++
      [.message 1 (some [104, 105]), .leave 1, .close 1, .message 0 (some [111])])
    ⟨⟨0, rfl⟩, rfl⟩ (by decide +kernel)
  have hshown : shown = demoTalk := of_decide_eq_true htest
  subst hshown
  exact ⟨s, clients, h, deliveries_ordered h⟩

end ChatServer
