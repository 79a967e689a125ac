import IotLab.MqttChat.Main
import Mathlib.Data.List.TakeWhile

/-!
The chat client: the rounds of its sending thread, which read a piece of the input and write it
behind the user's name, and what its receiving thread prints. Arrays are the strings in them.
-/

set_option autoImplicit false

namespace ChatClient
open HostMemory MqttChat

def bufSize : Nat := 100
def nameSize : Nat := 20

inductive Fault where
  | overflow
  deriving DecidableEq, Repr

abbrev Result := Except Fault

def strOf (bytes : List Byte) : List Byte := bytes.takeWhile (· ≠ 0)

def sprintf (size : Nat) (text : List Byte) : Result (List Byte) :=
  if text.length < size then .ok text else .error .overflow

/-- The globals `name` and `msg`, what is left of the input, what was printed, and whether the
process has not called `exit`. -/
structure Client where
  name : List Byte
  msg : List Byte
  stdin : List Byte
  stdout : List Byte
  running : Bool
  deriving DecidableEq

def bracketed (arg : List Byte) : List Byte := 91 :: (arg ++ [93])

def start (arg stdin : List Byte) : Result Client := do
  let name ← sprintf nameSize (bracketed arg)
  .ok ⟨name, [], stdin, [], true⟩

def quits (msg : List Byte) : Prop := msg = [113, 10] ∨ msg = [81, 10]

instance (msg : List Byte) : Decidable (quits msg) := inferInstanceAs (Decidable (_ ∨ _))

def nameMsg (name msg : List Byte) : List Byte := name ++ 32 :: msg

/-- What `msg` holds after `fgets`, which leaves it alone at the end of the input. -/
def nextMsg (c : Client) : List Byte :=
  let line := lineStart (bufSize - 1) c.stdin
  if line = [] then c.msg else strOf line

def sendMsg (c : Client) : Result (Client × List Byte) := do
  let msg := nextMsg c
  let stdin := c.stdin.drop (lineStart (bufSize - 1) c.stdin).length
  if quits msg then .ok ({ c with msg := msg, stdin := stdin, running := false }, [])
  else
    let text ← sprintf (nameSize + bufSize) (nameMsg c.name msg)
    .ok ({ c with msg := msg, stdin := stdin }, text)

/-- One round of `recv_msg` in which `read` does not fail. -/
def recvMsg (c : Client) (received : List Byte) : Client :=
  { c with stdout := c.stdout ++ strOf received }

def sendRounds : Nat → Client → Result (Client × List (List Byte))
  | 0, c => .ok (c, [])
  | n + 1, c =>
    if c.running then do
      let (c, text) ← sendMsg c
      let (c, texts) ← sendRounds n c
      .ok (c, text :: texts)
    else .ok (c, [])

structure Client.Fits (c : Client) : Prop where
  name : c.name.length < nameSize
  msg : c.msg.length < bufSize
  nameNul : 0 ∉ c.name
  msgNul : 0 ∉ c.msg

section Strings
variable {bytes : List Byte}

theorem strOf_length_le : (strOf bytes).length ≤ bytes.length :=
  (List.takeWhile_prefix _).length_le

theorem strOf_noNul : 0 ∉ strOf bytes := by
  intro h
  have := List.mem_takeWhile_imp h
  simp at this

theorem strOf_eq (h : 0 ∉ bytes) : strOf bytes = bytes := by
  refine List.takeWhile_eq_self_iff.mpr (fun b hb => ?_)
  have hne : b ≠ 0 := fun heq => h (heq ▸ hb)
  simpa using hne

theorem lineStart_length_le (n : Nat) (s : List Byte) : (lineStart n s).length ≤ n := by
  induction n generalizing s with
  | zero => simp [lineStart]
  | succ n ih =>
    cases s with
    | nil => simp [lineStart]
    | cons b s =>
      rw [lineStart]
      split
      · simp
      · have := ih s
        simp only [List.length_cons]
        omega

theorem prefix_of_lineStart (n : Nat) (s : List Byte) : lineStart n s <+: s := by
  induction n generalizing s with
  | zero => simp [lineStart]
  | succ n ih =>
    cases s with
    | nil => simp [lineStart]
    | cons b s =>
      rw [lineStart]
      split
      · exact ⟨s, rfl⟩
      · exact List.cons_prefix_cons.mpr ⟨rfl, ih s⟩

theorem lineStart_newline {n : Nat} {s u w : List Byte} (h : lineStart n s = u ++ newline :: w) :
    w = [] := by
  induction n generalizing s u with
  | zero => simp [lineStart] at h
  | succ n ih =>
    cases s with
    | nil => simp [lineStart] at h
    | cons b s =>
      rw [lineStart] at h
      split at h
      · cases u with
        | nil => exact (List.cons.inj h).2.symm
        | cons _ u => simp at h
      · rename_i hb
        cases u with
        | nil => exact absurd (List.cons.inj h).1 hb
        | cons _ u => exact ih (List.cons.inj h).2

theorem lineStart_eq_nil {n : Nat} {s : List Byte} : lineStart (n + 1) s = [] ↔ s = [] := by
  cases s with
  | nil => simp [lineStart]
  | cons b s =>
    rw [lineStart]
    split <;> simp

end Strings

section Rounds
variable {c c' : Client} {arg stdin text : List Byte} {texts : List (List Byte)} {n : Nat}

theorem sprintf_eq_ok {size : Nat} {text r : List Byte} :
    sprintf size text = .ok r ↔ text.length < size ∧ text = r := by
  unfold sprintf
  split <;> simp [*]

theorem start_eq : start arg stdin = .ok c ↔
    arg.length + 2 < nameSize ∧ c = ⟨bracketed arg, [], stdin, [], true⟩ := by
  unfold start
  rw [Fallible.bind_eq_ok]
  constructor
  · rintro ⟨name, hname, hc⟩
    obtain ⟨hlen, rfl⟩ := sprintf_eq_ok.mp hname
    cases hc
    exact ⟨by simpa [bracketed] using hlen, rfl⟩
  · rintro ⟨hlen, rfl⟩
    exact ⟨bracketed arg, sprintf_eq_ok.mpr ⟨by simpa [bracketed] using hlen, rfl⟩, rfl⟩

theorem start_fits (h : start arg stdin = .ok c) (harg : 0 ∉ arg) : c.Fits := by
  obtain ⟨hlen, rfl⟩ := start_eq.mp h
  refine ⟨?_, show 0 < bufSize by decide, ?_, List.not_mem_nil⟩
  · simp only [bracketed, List.length_cons, List.length_append, List.length_nil]
    omega
  · simpa [bracketed] using harg

theorem Client.Fits.nextMsg (h : c.Fits) : (nextMsg c).length < bufSize ∧ 0 ∉ nextMsg c := by
  unfold ChatClient.nextMsg
  dsimp only
  split
  · exact ⟨h.msg, h.msgNul⟩
  · refine ⟨?_, strOf_noNul⟩
    have hle := @strOf_length_le (lineStart (bufSize - 1) c.stdin)
    have hline := lineStart_length_le (bufSize - 1) c.stdin
    have : 0 < bufSize := by decide
    omega

def Client.heard (c : Client) : Client :=
  { c with
    msg := ChatClient.nextMsg c
    stdin := c.stdin.drop (lineStart (bufSize - 1) c.stdin).length }

theorem Client.Fits.sendMsg (h : c.Fits) : c.heard.Fits ∧
    ((quits (ChatClient.nextMsg c) ∧ sendMsg c = .ok ({ c.heard with running := false }, [])) ∨
      (¬quits (ChatClient.nextMsg c) ∧
        sendMsg c = .ok (c.heard, nameMsg c.name (ChatClient.nextMsg c)))) := by
  obtain ⟨hlen, hnul⟩ := h.nextMsg
  refine ⟨⟨h.name, hlen, h.nameNul, hnul⟩, ?_⟩
  by_cases hq : quits (ChatClient.nextMsg c)
  · refine .inl ⟨hq, ?_⟩
    rw [ChatClient.sendMsg, if_pos hq]
    rfl
  · refine .inr ⟨hq, ?_⟩
    have hroom : (nameMsg c.name (ChatClient.nextMsg c)).length < nameSize + bufSize := by
      have := h.name
      simp only [nameMsg, List.length_append, List.length_cons]
      omega
    rw [ChatClient.sendMsg, if_neg hq]
    simp only [sprintf, if_pos hroom, bind, Except.bind]
    rfl

theorem Client.Fits.sent (h : c.Fits) (hsend : ChatClient.sendMsg c = .ok (c', text)) :
    c'.Fits ∧ c'.stdout = c.stdout ∧ 0 ∉ text := by
  obtain ⟨hfits, ⟨_, hsend'⟩ | ⟨_, hsend'⟩⟩ := h.sendMsg
  · cases hsend.symm.trans hsend'
    exact ⟨⟨hfits.name, hfits.msg, hfits.nameNul, hfits.msgNul⟩, rfl, List.not_mem_nil⟩
  · cases hsend.symm.trans hsend'
    refine ⟨hfits, rfl, ?_⟩
    simp only [nameMsg, List.mem_append, List.mem_cons, not_or]
    exact ⟨h.nameNul, by decide, h.nextMsg.2⟩

theorem Client.Fits.sendRounds (h : c.Fits) (n : Nat) :
    ∃ c' texts, sendRounds n c = .ok (c', texts) ∧ c'.Fits := by
  induction n generalizing c with
  | zero => exact ⟨c, [], rfl, h⟩
  | succ n ih =>
    unfold ChatClient.sendRounds
    split
    · obtain ⟨hfits, ⟨_, hsend⟩ | ⟨_, hsend⟩⟩ := h.sendMsg
      · obtain ⟨c₂, texts, hrest, h₂⟩ := @ih { c.heard with running := false }
          ⟨hfits.name, hfits.msg, hfits.nameNul, hfits.msgNul⟩
        exact ⟨c₂, [] :: texts, by simp only [hsend, hrest, bind, Except.bind], h₂⟩
      · obtain ⟨c₂, texts, hrest, h₂⟩ := ih hfits
        exact ⟨c₂, nameMsg c.name (ChatClient.nextMsg c) :: texts,
          by simp only [hsend, hrest, bind, Except.bind], h₂⟩
    · exact ⟨c, [], rfl, h⟩

theorem sendRounds_stopped (h : c.running = false) : sendRounds n c = .ok (c, []) := by
  cases n with
  | zero => rfl
  | succ n => simp [sendRounds, h]

end Rounds

/-- The pieces in which `fgets` reads an input: its lines, cut where they are too long. -/
def pieces (stdin : List Byte) : List (List Byte) :=
  if h : stdin = [] then []
  else lineStart (bufSize - 1) stdin :: pieces (stdin.drop (lineStart (bufSize - 1) stdin).length)
termination_by stdin.length
decreasing_by
  have hne : lineStart (bufSize - 1) stdin ≠ [] := mt lineStart_eq_nil.mp h
  have hpos := List.length_pos_of_ne_nil hne
  have := List.length_pos_of_ne_nil h
  simp only [List.length_drop]
  omega

/-- The messages of the first `n` rounds up to the one that quits: the pieces of the input, and
at its end the last message over and over. -/
def spoken (n : Nat) (last stdin : List Byte) : List (List Byte) :=
  let uttered := (pieces stdin).map strOf
  ((uttered ++ List.replicate n (uttered.getLastD last)).take n).takeWhile fun m => ¬quits m

theorem pieces_cons {stdin : List Byte} (h : stdin ≠ []) : pieces stdin =
    lineStart (bufSize - 1) stdin ::
      pieces (stdin.drop (lineStart (bufSize - 1) stdin).length) := by
  rw [pieces, dif_neg h]

section Spoken
variable {c c' : Client} {last stdin text : List Byte} {texts : List (List Byte)} {n : Nat}

theorem pieces_flatten : (pieces stdin).flatten = stdin := by
  fun_induction pieces stdin with
  | case1 => rfl
  | case2 stdin h ih =>
    rw [List.flatten_cons, ih]
    exact List.prefix_iff_eq_append.mp (prefix_of_lineStart _ _)

def roundMsg (last stdin : List Byte) : List Byte :=
  if stdin = [] then last else strOf (lineStart (bufSize - 1) stdin)

theorem nextMsg_eq (c : Client) : nextMsg c = roundMsg c.msg c.stdin := by
  unfold nextMsg roundMsg
  simp only [show bufSize - 1 = 98 + 1 from rfl, lineStart_eq_nil]

theorem spoken_succ : spoken (n + 1) last stdin =
    if quits (roundMsg last stdin) then []
    else roundMsg last stdin :: spoken n (roundMsg last stdin)
      (stdin.drop (lineStart (bufSize - 1) stdin).length) := by
  by_cases h : stdin = []
  · subst h
    have hnil : pieces [] = [] := by simp [pieces]
    simp only [spoken, roundMsg, hnil, List.map_nil, List.nil_append, List.getLastD_nil,
      List.replicate_succ, List.take_succ_cons, List.takeWhile_cons, if_true, List.drop_nil]
    by_cases hq : quits last
    · simp [hq]
    · simp [hq]
  · have htake (u : List (List Byte)) (x : List Byte) :
        (u ++ List.replicate (n + 1) x).take n = (u ++ List.replicate n x).take n := by
      rw [List.replicate_succ', ← List.append_assoc, List.take_append_of_le_length (by simp)]
    simp only [spoken, roundMsg, pieces_cons h, List.map_cons, List.getLastD_cons, List.cons_append,
      List.take_succ_cons, List.takeWhile_cons, if_neg h, htake]
    by_cases hq : quits (strOf (lineStart (bufSize - 1) stdin))
    · simp [hq]
    · simp [hq]

theorem Client.Fits.texts_eq (h : c.Fits) (hrun : c.running = true)
    (hrounds : ChatClient.sendRounds n c = .ok (c', texts)) :
    texts.flatten = (spoken n c.msg c.stdin).flatMap (nameMsg c.name) := by
  induction n generalizing c texts with
  | zero =>
    cases hrounds
    simp [spoken]
  | succ n ih =>
    rw [ChatClient.sendRounds, if_pos hrun] at hrounds
    obtain ⟨⟨c₁, text⟩, hsend, hrounds⟩ := Fallible.bind_eq_ok.mp hrounds
    obtain ⟨⟨c₂, rest⟩, hrest, heq⟩ := Fallible.bind_eq_ok.mp hrounds
    cases heq
    rw [spoken_succ, ← nextMsg_eq]
    obtain ⟨hfits, ⟨hq, hsend'⟩ | ⟨hq, hsend'⟩⟩ := h.sendMsg
    · cases hsend.symm.trans hsend'
      cases hrest.symm.trans (sendRounds_stopped rfl)
      simp [hq]
    · cases hsend.symm.trans hsend'
      rw [if_neg hq, List.flatten_cons, List.flatMap_cons, ih hfits hrun hrest]
      rfl

/-- A client with a user name of at most 17 characters starts, and however many rounds it makes, on
whatever input, it stays inside its arrays and writes the spoken messages, each behind the name. -/
theorem rounds_spoken (arg : CStr) (hlen : arg.chars.length ≤ 17) (stdin : List Byte) (n : Nat) :
    ∃ c c' texts, start arg.chars stdin = .ok c ∧ sendRounds n c = .ok (c', texts) ∧
      texts.flatten = (spoken n [] stdin).flatMap (nameMsg (bracketed arg.chars)) := by
  have hstart : start arg.chars stdin = .ok ⟨bracketed arg.chars, [], stdin, [], true⟩ :=
    start_eq.mpr ⟨by simp only [nameSize]; omega, rfl⟩
  have hfits := start_fits hstart arg.noNul
  obtain ⟨c', texts, hrounds, _⟩ := hfits.sendRounds n
  exact ⟨_, c', texts, hstart, hrounds, hfits.texts_eq rfl hrounds⟩

end Spoken

/-- What the user has to say: the pieces of the input up to the line that quits. -/
def meant (stdin : List Byte) : List (List Byte) := (pieces stdin).takeWhile fun p => ¬quits p

/-- The client starts, and in any number of rounds it stays inside its arrays and writes what is
meant, a piece a round, each behind the name, and nothing else. -/
def SpeaksAsMeant (arg : CStr) (stdin : List Byte) : Prop :=
  ∀ n, ∃ c c' texts, start arg.chars stdin = .ok c ∧ sendRounds n c = .ok (c', texts) ∧
    texts.flatten = ((meant stdin).take n).flatMap (nameMsg (bracketed arg.chars))

section Meant
variable {name last stdin : List Byte}

theorem meant_cons (h : stdin ≠ []) : meant stdin =
    if quits (lineStart (bufSize - 1) stdin) then []
    else lineStart (bufSize - 1) stdin ::
      meant (stdin.drop (lineStart (bufSize - 1) stdin).length) := by
  rw [meant, pieces_cons h, List.takeWhile_cons]
  split
  · rename_i hq
    rw [if_neg (of_decide_eq_true hq), meant]
  · rename_i hq
    rw [if_pos (by simpa using hq)]

theorem strOf_eq_iff {bytes : List Byte} : strOf bytes = bytes ↔ 0 ∉ bytes :=
  ⟨fun h => h ▸ strOf_noNul, strOf_eq⟩

theorem quits_strOf {n : Nat} : quits (strOf (lineStart n stdin)) ↔ quits (lineStart n stdin) := by
  obtain ⟨rest, hrest⟩ := List.takeWhile_prefix (l := lineStart n stdin) fun b => b ≠ 0
  constructor
  · intro h
    have hline (q : Byte) (hq : strOf (lineStart n stdin) = [q, newline]) :
        lineStart n stdin = [q, newline] := by
      have hsplit : lineStart n stdin = [q] ++ newline :: rest := by
        rw [← hrest]
        exact congrArg (· ++ rest) hq
      rw [hsplit, lineStart_newline hsplit]
      rfl
    exact h.imp (hline _) (hline _)
  · intro h
    have hnul : 0 ∉ lineStart n stdin := by
      rcases h with h | h <;> rw [h] <;> decide
    rwa [strOf_eq hnul]

theorem nameMsg_inj {m m' : List Byte} : nameMsg name m = nameMsg name m' ↔ m = m' := by
  simp [nameMsg]

theorem spoken_meant_iff (hlast : ¬quits last) :
    (∀ n, (spoken n last stdin).flatMap (nameMsg name) =
        ((meant stdin).take n).flatMap (nameMsg name)) ↔
      (∃ p ∈ pieces stdin, quits p) ∧ ∀ p ∈ meant stdin, 0 ∉ p := by
  fun_induction pieces stdin generalizing last with
  | case1 =>
    refine iff_of_false (fun h => ?_) (by simp)
    have hone := h 1
    rw [spoken_succ, roundMsg, if_pos rfl, if_neg hlast] at hone
    simp [meant, pieces, nameMsg] at hone
  | case2 stdin hne ih =>
    have hround : roundMsg last stdin = strOf (lineStart (bufSize - 1) stdin) := if_neg hne
    generalize hrest : stdin.drop (lineStart (bufSize - 1) stdin).length = rest at ih
    have hmeant := hrest ▸ meant_cons hne
    have hsaid (n : Nat) := hrest ▸ hround ▸ @spoken_succ last stdin n
    generalize hpiece : lineStart (bufSize - 1) stdin = piece at hmeant hsaid hround
    have hstr : quits (strOf piece) ↔ quits piece := hpiece ▸ quits_strOf
    by_cases hq : quits piece
    · rw [hmeant, if_pos hq]
      refine iff_of_true (fun n => ?_) ⟨⟨piece, List.mem_cons_self, hq⟩, by simp⟩
      cases n with
      | zero => simp [spoken]
      | succ n => rw [hsaid, if_pos (hstr.mpr hq), List.take_nil]
    · have hn : ¬quits (strOf piece) := mt hstr.mp hq
      have hrest := ih hn
      have hquits : (∃ p ∈ piece :: pieces rest, quits p) ↔ ∃ p ∈ pieces rest, quits p := by
        simp [hq]
      rw [hmeant, if_neg hq, hquits, List.forall_mem_cons, and_left_comm, ← hrest, ← strOf_eq_iff]
      constructor
      · intro h
        -- The first round says the piece, and what the later ones say does not depend on it.
        have hfirst := h 1
        rw [hsaid, if_neg hn] at hfirst
        have hsame : strOf piece = piece := by simpa [spoken, nameMsg_inj] using hfirst
        refine ⟨hsame, fun n => ?_⟩
        have hnext := h (n + 1)
        rw [hsaid, if_neg hn, List.take_succ_cons, List.flatMap_cons, List.flatMap_cons,
          nameMsg_inj.mpr hsame] at hnext
        exact List.append_cancel_left hnext
      · rintro ⟨hsame, h⟩ n
        cases n with
        | zero => simp [spoken]
        | succ n =>
          rw [hsaid, if_neg hn, List.take_succ_cons, List.flatMap_cons, List.flatMap_cons, h n,
            hsame]

end Meant

/-- The client speaks as meant exactly for user names of at most 17 characters and inputs that quit,
with no 0 byte before. -/
theorem client_speaks_iff (arg : CStr) (stdin : List Byte) : SpeaksAsMeant arg stdin ↔
    arg.chars.length ≤ 17 ∧ (∃ p ∈ pieces stdin, quits p) ∧ ∀ p ∈ meant stdin, 0 ∉ p := by
  constructor
  · intro h
    obtain ⟨c, _, _, hstart, _⟩ := h 0
    have hroom := (start_eq.mp hstart).1
    have hlen : arg.chars.length ≤ 17 := by
      simp only [nameSize] at hroom
      omega
    refine ⟨hlen, (@spoken_meant_iff (bracketed arg.chars) [] stdin (by decide)).mp fun n => ?_⟩
    obtain ⟨c, c', texts, hstart, hrounds, htexts⟩ := h n
    obtain ⟨d, d', texts', hstart', hrounds', htexts'⟩ := rounds_spoken arg hlen stdin n
    cases hstart.symm.trans hstart'
    cases hrounds.symm.trans hrounds'
    exact htexts'.symm.trans htexts
  · rintro ⟨hlen, hinput⟩ n
    obtain ⟨c, c', texts, hstart, hrounds, htexts⟩ := rounds_spoken arg hlen stdin n
    exact ⟨c, c', texts, hstart, hrounds,
      htexts.trans ((@spoken_meant_iff (bracketed arg.chars) [] stdin (by decide)).mpr hinput n)⟩

end ChatClient
