import IotLab.Library.Fallible
import IotLab.Library.HostMemory

/-!
The MQTT chat client: each call of `publish_message` reads a piece of the typed line and
publishes it behind the user's name.
-/

set_option autoImplicit false

namespace MqttChat
open HostMemory

def payloadSize : Nat := 20

def newline : Byte := 10

def namePrefix (name : List Byte) : List Byte := 91 :: name ++ [93, 58, 32]

inductive Fault where
  | unterminated
  deriving DecidableEq, Repr

abbrev Result := Except Fault

/-- The bytes that `fgets` takes: at most `n`, and none behind a newline. -/
def lineStart : Nat → List Byte → List Byte
  | 0, _ | _, [] => []
  | n + 1, b :: rest => if b = newline then [b] else b :: lineStart n rest

/-- `fgets` into an array that holds `payload`, which it leaves alone at the end of the input. -/
def fgets (payload : Mem) (size : Nat) (stdin : List Byte) : Mem × List Byte :=
  if stdin = [] then (payload, [])
  else
    let line := lineStart (size - 1) stdin
    (store payload 0 (line ++ [0]), stdin.drop line.length)

def snprintf (size : Nat) (text : List Byte) : List Byte :=
  if size = 0 then [] else text.take (size - 1) ++ [0]

/-- One call: the string that was read, the size of the block for the message, the bytes stored
from its start on, and the payload published. -/
structure Published where
  chunk : List Byte
  allocated : Nat
  stored : List Byte
  payload : List Byte
  deriving DecidableEq, Repr

/-- `stack` is what the local array holds at the start. -/
def publishMessage (name : List Byte) (stack : Mem) (stdin : List Byte) :
    Result (Published × List Byte) := do
  let (buf, stdin) := fgets stack payloadSize stdin
  let payload ← (cString (load buf 0 payloadSize)).elim (.error .unterminated) .ok
  let data := snprintf (payload.length + name.length + 4) (namePrefix name ++ payload)
  .ok (⟨payload, payload.length + name.length + 3, data, (cString data).getD []⟩, stdin)

def publishCalls (name : List Byte) (stack : Mem) :
    Nat → List Byte → Result (List Published × List Byte)
  | 0, stdin => .ok ([], stdin)
  | n + 1, stdin => do
    let (p, stdin) ← publishMessage name stack stdin
    let (ps, stdin) ← publishCalls name stack n stdin
    .ok (p :: ps, stdin)

structure CStr where
  chars : List Byte
  noNul : 0 ∉ chars

structure Line extends CStr where
  noNewline : newline ∉ chars

def chunks (text : List Byte) : List (List Byte) :=
  if text.length < payloadSize - 1 then [text ++ [newline]]
  else text.take (payloadSize - 1) :: chunks (text.drop (payloadSize - 1))
termination_by text.length
decreasing_by simp only [List.length_drop, payloadSize] at *; omega

def chunkText (chunk : List Byte) : List Byte := chunk.takeWhile (· ≠ newline)

/-- The published payloads are the name and the text of each chunk, and the texts put together
are the typed line. -/
structure TextsRight (name line : List Byte) (ps : List Published) : Prop where
  payload : ∀ p ∈ ps, p.payload = namePrefix name ++ chunkText p.chunk
  line : (ps.map fun p => p.payload.drop (namePrefix name).length).flatten = line

structure PublishedRight (name line : List Byte) (ps : List Published) : Prop
    extends TextsRight name line ps where
  inside : ∀ p ∈ ps, p.stored.length ≤ p.allocated

section Reading
variable {text rest : List Byte} {n : Nat}

theorem lineStart_line (h : newline ∉ text) (hlen : text.length < n) :
    lineStart n (text ++ newline :: rest) = text ++ [newline] := by
  induction text generalizing n with
  | nil =>
    obtain ⟨k, rfl⟩ : ∃ k, n = k + 1 := ⟨n - 1, by simp at hlen; omega⟩
    simp [lineStart]
  | cons b text ih =>
    obtain ⟨k, rfl⟩ : ∃ k, n = k + 1 := ⟨n - 1, by simp at hlen; omega⟩
    rw [List.mem_cons, not_or] at h
    rw [List.cons_append, lineStart, if_neg (Ne.symm h.1), ih h.2 (by simpa using hlen)]
    rfl

theorem lineStart_full (h : newline ∉ text) (hlen : n ≤ text.length) :
    lineStart n (text ++ rest) = text.take n := by
  induction text generalizing n with
  | nil =>
    obtain rfl : n = 0 := by simpa using hlen
    simp [lineStart]
  | cons b text ih =>
    cases n with
    | zero => simp [lineStart]
    | succ n =>
      rw [List.mem_cons, not_or] at h
      rw [List.cons_append, lineStart, if_neg (Ne.symm h.1), ih h.2 (by simpa using hlen),
        List.take_succ_cons]

/-- What a call makes of a chunk: the size for `snprintf` counts one byte too few for the text,
and one more than the block has. -/
def publishedOf (name chunk : List Byte) : Published where
  chunk := chunk
  allocated := chunk.length + name.length + 3
  stored := namePrefix name ++ chunk.dropLast ++ [0]
  payload := namePrefix name ++ chunk.dropLast

theorem publishMessage_eq (name : CStr) (stack : Mem) {chunk stdin : List Byte}
    (hstdin : stdin ≠ []) (hchunk : lineStart (payloadSize - 1) stdin = chunk)
    (hnul : 0 ∉ chunk) (hne : chunk ≠ []) (hlen : chunk.length ≤ payloadSize - 1) :
    publishMessage name.chars stack stdin =
      .ok (publishedOf name.chars chunk, stdin.drop chunk.length) := by
  have hpos := List.length_pos_of_ne_nil hne
  have hsize : payloadSize = chunk.length + 1 + (payloadSize - (chunk.length + 1)) := by
    simp only [payloadSize] at hlen ⊢
    omega
  have hstr : cString (load (store stack 0 (chunk ++ [0])) 0 payloadSize) = some chunk := by
    have hall := load_store stack 0 (chunk ++ [0])
    rw [List.length_append, List.length_singleton] at hall
    rw [hsize, load_add, hall]
    exact cString_eq_some.mpr ⟨hnul, _, by rw [List.append_assoc, List.singleton_append]⟩
  have hprefix : (namePrefix name.chars).length = name.chars.length + 4 := by simp [namePrefix]
  have hdata : snprintf (chunk.length + name.chars.length + 4) (namePrefix name.chars ++ chunk) =
      namePrefix name.chars ++ chunk.dropLast ++ [0] := by
    have htake : chunk.length + name.chars.length + 4 - 1 =
        (namePrefix name.chars ++ chunk).length - 1 := by
      rw [List.length_append, hprefix]
      omega
    rw [snprintf, if_neg (by omega), htake, ← List.dropLast_eq_take,
      List.dropLast_append_of_ne_nil hne]
  have hpayload : cString (namePrefix name.chars ++ chunk.dropLast ++ [0]) =
      some (namePrefix name.chars ++ chunk.dropLast) := by
    refine cString_eq_some.mpr ⟨fun hmem => ?_, [], rfl⟩
    rcases List.mem_append.mp hmem with hmem | hmem
    · have hname : 0 ∈ name.chars := by simpa [namePrefix] using hmem
      exact name.noNul hname
    · exact hnul (List.mem_of_mem_dropLast hmem)
  simp only [publishMessage, fgets, if_neg hstdin, hchunk, hstr, Option.elim, bind, Except.bind,
    hdata, hpayload, Option.getD_some, publishedOf]

end Reading

section Chunks
variable {text : List Byte}

theorem chunk_ne_nil : ∀ chunk ∈ chunks text, chunk ≠ [] := by
  fun_induction chunks text with
  | case1 text h => simp
  | case2 text h ih =>
    intro chunk hchunk
    rcases List.mem_cons.mp hchunk with rfl | hchunk
    · refine List.ne_nil_of_length_pos ?_
      simp only [payloadSize] at h ⊢
      simp
      omega
    · exact ih chunk hchunk

theorem chunks_length_pos : 0 < (chunks text).length := by
  rw [chunks]
  split <;> simp

theorem chunks_length_eq_one : (chunks text).length = 1 ↔ text.length < payloadSize - 1 := by
  have hpos := @chunks_length_pos (text.drop (payloadSize - 1))
  rw [chunks]
  split
  · simp [*]
  · rw [List.length_cons]
    exact ⟨fun h => by omega, fun h => absurd h ‹_›⟩

theorem chunks_dropLast_length :
    ((chunks text).map List.dropLast).flatten.length + (chunks text).length =
      text.length + 1 := by
  fun_induction chunks text with
  | case1 text h => simp
  | case2 text h ih =>
    simp only [List.map_cons, List.flatten_cons, List.length_append, List.length_cons,
      List.length_dropLast, List.length_take, List.length_drop] at ih ⊢
    simp only [payloadSize] at h ih ⊢
    omega

theorem publishCalls_line (name : CStr) (stack : Mem) (line : Line) (rest : List Byte) :
    publishCalls name.chars stack (chunks line.chars).length (line.chars ++ newline :: rest) =
      .ok ((chunks line.chars).map (publishedOf name.chars), rest) := by
  obtain ⟨⟨text, hnul⟩, hline⟩ := line
  simp only at hline ⊢
  fun_induction chunks text with
  | case1 text h =>
    have hmessage := @publishMessage_eq name stack _ (text ++ newline :: rest) (by simp)
      (lineStart_line hline h) (by simpa [newline] using hnul) (by simp)
      (by rw [List.length_append]; exact h)
    have hsplit : text ++ newline :: rest = text ++ [newline] ++ rest := by simp
    have hdrop : (text ++ newline :: rest).drop (text ++ [newline]).length = rest := by
      rw [hsplit, List.drop_left]
    rw [hdrop] at hmessage
    simp only [List.length_singleton, publishCalls, hmessage, bind, Except.bind, List.map_cons,
      List.map_nil]
  | case2 text h ih =>
    have hle : payloadSize - 1 ≤ text.length := Nat.le_of_not_lt h
    have hlen : (text.take (payloadSize - 1)).length = payloadSize - 1 := by simp [hle]
    have hmessage := @publishMessage_eq name stack _ (text ++ newline :: rest) (by simp)
      (lineStart_full hline hle) (fun hmem => hnul (List.mem_of_mem_take hmem))
      (List.ne_nil_of_length_pos (by rw [hlen]; decide)) (by rw [hlen])
    rw [hlen, List.drop_append_of_le_length hle] at hmessage
    have hrest := ih (fun hmem => hnul (List.mem_of_mem_drop hmem))
      (fun hmem => hline (List.mem_of_mem_drop hmem))
    simp only [List.length_cons, publishCalls, hmessage, hrest, bind, Except.bind, List.map_cons]

theorem textsRight_iff (name : List Byte) (line : Line) :
    TextsRight name line.chars ((chunks line.chars).map (publishedOf name)) ↔
      line.chars.length < payloadSize - 1 := by
  rw [← chunks_length_eq_one]
  have htexts : ((chunks line.chars).map (publishedOf name)).map
      (fun p => p.payload.drop (namePrefix name).length) =
        (chunks line.chars).map List.dropLast := by
    rw [List.map_map]
    exact List.map_congr_left fun chunk _ => List.drop_left
  constructor
  · intro h
    have hlen := congrArg List.length (htexts ▸ h.line)
    have htotal := @chunks_dropLast_length line.chars
    omega
  · intro hone
    have hlt := chunks_length_eq_one.mp hone
    have hchunks : chunks line.chars = [line.chars ++ [newline]] := by
      rw [chunks, if_pos hlt]
    refine ⟨fun p hp => ?_, ?_⟩
    · rw [hchunks] at hp
      obtain rfl := List.mem_singleton.mp hp
      have htext : chunkText (line.chars ++ [newline]) = line.chars := by
        have hall : ∀ b ∈ line.chars, decide (b ≠ newline) = true := by
          intro b hb
          refine decide_eq_true fun h => ?_
          subst h
          exact line.noNewline hb
        rw [chunkText, List.takeWhile_append_of_pos hall]
        simp
      simp [publishedOf, htext]
    · rw [htexts, hchunks]
      simp

end Chunks

/-- Every call stores a byte behind its block, and the texts are right just for lines that are
read by one call: of any other line a character is lost with each call but the last. -/
theorem line_not_published_right (name : CStr) (line : Line) (stack : Mem) (rest : List Byte) :
    ∃ ps, publishCalls name.chars stack (chunks line.chars).length
        (line.chars ++ newline :: rest) = .ok (ps, rest) ∧
      ¬PublishedRight name.chars line.chars ps ∧
      (∀ p ∈ ps, p.stored.length = p.allocated + 1) ∧
      (TextsRight name.chars line.chars ps ↔ line.chars.length < payloadSize - 1) := by
  have hstored : ∀ p ∈ (chunks line.chars).map (publishedOf name.chars),
      p.stored.length = p.allocated + 1 := by
    intro p hp
    obtain ⟨chunk, hchunk, rfl⟩ := List.mem_map.mp hp
    have hpos := List.length_pos_of_ne_nil (chunk_ne_nil chunk hchunk)
    simp only [publishedOf, namePrefix, List.length_append, List.length_cons, List.length_nil,
      List.length_dropLast]
    omega
  refine ⟨_, publishCalls_line name stack line rest, fun h => ?_, hstored,
    textsRight_iff name.chars line⟩
  obtain ⟨p, hp⟩ := List.exists_mem_of_length_pos
    (l := (chunks line.chars).map (publishedOf name.chars))
    (by rw [List.length_map]; exact chunks_length_pos)
  have hinside := h.inside p hp
  have hlen := hstored p hp
  omega

/-- Of nineteen letters the last one is not published, and each message ends behind its block. -/
theorem nineteen_letters_cut : ∃ ps,
    publishCalls [97] (fun _ => 0) 2 (List.replicate 19 98 ++ [newline]) = .ok (ps, []) ∧
      ¬PublishedRight [97] (List.replicate 19 98) ps ∧
      ps.map (·.payload) = [[91, 97, 93, 58, 32] ++ List.replicate 18 98, [91, 97, 93, 58, 32]] ∧
      ps.map (fun p => (p.stored.length, p.allocated)) = [(24, 23), (6, 5)] := by
  refine ⟨[publishedOf [97] (List.replicate 19 98), publishedOf [97] [newline]], by decide,
    fun h => ?_, by decide, by decide⟩
  have hinside := h.inside (publishedOf [97] [newline]) (by simp)
  revert hinside
  decide

end MqttChat
