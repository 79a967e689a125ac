import IotLab.EchoClient.Main

set_option autoImplicit false

namespace EchoClient
open HostMemory

/-- The client in the lab05 directory, and the one of the load balancer. -/
inductive Copy where
  | lab05 | l4lb
  deriving DecidableEq, Repr

/-- The first copy does not look for the end of the stream. -/
def Copy.recv (copy : Copy) (c : Client) (got : Option (List Byte)) : Result Client :=
  if copy = .lab05 ∧ got = some [] then .ok c else c.recv got

/-- The `while` loop and what follows it, over what the `read`s give: behind the last one the
stream has ended. There is no result while the loop still goes on after `fuel` `read`s. -/
def receiveLoop (copy : Copy) (fuel : Nat) (reads : List (Option (List Byte))) (c : Client) :
    Option (Result Client) :=
  if c.strLen ≤ c.recvLen then some c.print
  else
    match fuel with
    | 0 => none
    | fuel + 1 =>
      match copy.recv c (reads.headD (some [])) with
      | .error fault => some (.error fault)
      | .ok c => if c.phase = .stopped then some (.ok c) else receiveLoop copy fuel reads.tail c

def Settles (copy : Copy) (reads : List (Option (List Byte))) (c : Client) : Prop :=
  ∃ fuel c', receiveLoop copy fuel reads c = some (.ok c')

def readLength (got : Option (List Byte)) : Nat := (got.getD []).length

def total (reads : List (Option (List Byte))) : Nat := (reads.map readLength).sum

def Copy.GoesOn (copy : Copy) (got : Option (List Byte)) : Prop :=
  got ≠ none ∧ (got = some [] → copy = .lab05)

/-- From `received` bytes on: no `read` that the loop comes to brings more than BUF_SIZE - 1 bytes
together. -/
def Fits (copy : Copy) (strLen received : Nat) (reads : List (Option (List Byte))) : Prop :=
  ∀ before got after, reads = before ++ got :: after → (∀ r ∈ before, copy.GoesOn r) →
    received + total before < strLen → received + total before + readLength got ≤ bufSize - 1

section Loop
variable {copy : Copy} {reads : List (Option (List Byte))} {got : Option (List Byte)} {c : Client}
  {strLen received : Nat}

theorem fits_nil : Fits copy strLen received [] := by
  intro before got after h
  exact absurd h.symm (by simp)

theorem fits_cons : Fits copy strLen received (got :: reads) ↔
    (received < strLen → received + readLength got ≤ bufSize - 1) ∧
      (copy.GoesOn got → Fits copy strLen (received + readLength got) reads) := by
  constructor
  · intro h
    refine ⟨fun hlt => ?_, fun hgoes before r after hreads hbefore hlt => ?_⟩
    · exact h [] got reads rfl (by simp) hlt
    · have hroom := h (got :: before) r after (by rw [hreads]; rfl)
        (List.forall_mem_cons.mpr ⟨hgoes, hbefore⟩)
      simp only [total, List.map_cons, List.sum_cons] at hroom hlt ⊢
      omega
  · rintro ⟨hfirst, hrest⟩ before r after hreads hbefore hlt
    cases before with
    | nil =>
      obtain ⟨rfl, -⟩ := List.cons.inj hreads
      exact hfirst hlt
    | cons r' before =>
      obtain ⟨rfl, hreads'⟩ := List.cons.inj hreads
      obtain ⟨hgoes, hbefore⟩ := List.forall_mem_cons.mp hbefore
      have hroom := hrest hgoes before r after hreads' hbefore
      simp only [total, List.map_cons, List.sum_cons] at hroom hlt ⊢
      omega

theorem fits_of_received (h : strLen ≤ received) : Fits copy strLen received reads :=
  fun _ _ _ _ _ hlt => absurd hlt (by omega)

theorem print_ok_iff : (∃ c', c.print = .ok c') ↔ c.recvLen < bufSize := by
  unfold Client.print
  split
  · rename_i hlt
    have hzero : 0 ∈ load (store c.message c.recvLen [0]) 0 bufSize := by
      have hget := @load_getElem? (store c.message c.recvLen [0]) 0 _ _ hlt
      rw [Nat.zero_add, show store c.message c.recvLen [0] c.recvLen = 0 from
        store_of_inside (k := 0) (by simp)] at hget
      exact List.mem_of_getElem? hget
    obtain ⟨str, hstr⟩ := Option.isSome_iff_exists.mp (cString_isSome.mpr hzero)
    have hat : strAt (store c.message c.recvLen [0]) = .ok str := by
      rw [strAt, hstr]
      rfl
    simp only [hat, bind, Except.bind, Except.ok.injEq, exists_eq', hlt]
  · simp [*]

theorem settles_of_received (h : c.strLen ≤ c.recvLen) :
    Settles copy reads c ↔ c.recvLen < bufSize := by
  rw [← print_ok_iff]
  constructor
  · rintro ⟨fuel, c', hrun⟩
    rw [receiveLoop.eq_def, if_pos h] at hrun
    exact ⟨c', Option.some.inj hrun⟩
  · rintro ⟨c', hprint⟩
    exact ⟨0, c', by rw [receiveLoop.eq_def, if_pos h, hprint]⟩

theorem settles_next (h : c.recvLen < c.strLen) : Settles copy reads c ↔
    ∃ c', copy.recv c (reads.headD (some [])) = .ok c' ∧
      (c'.phase = .stopped ∨ Settles copy reads.tail c') := by
  constructor
  · rintro ⟨fuel, c', hrun⟩
    rw [receiveLoop.eq_def, if_neg (by omega)] at hrun
    cases fuel with
    | zero => contradiction
    | succ fuel =>
      dsimp only at hrun
      split at hrun
      · cases hrun
      · rename_i d hd
        refine ⟨d, hd, ?_⟩
        split at hrun
        · exact .inl ‹_›
        · exact .inr ⟨fuel, c', hrun⟩
  · rintro ⟨d, hd, hstop | ⟨fuel, c', hrun⟩⟩
    · refine ⟨1, d, ?_⟩
      rw [receiveLoop.eq_def, if_neg (by omega)]
      simp only [hd, if_pos hstop]
    · by_cases hstop : d.phase = .stopped
      · refine ⟨1, d, ?_⟩
        rw [receiveLoop.eq_def, if_neg (by omega)]
        simp only [hd, if_pos hstop]
      · refine ⟨fuel + 1, c', ?_⟩
        rw [receiveLoop.eq_def, if_neg (by omega)]
        simp only [hd, if_neg hstop, hrun]

theorem recv_bytes {b : Byte} {bytes : List Byte} :
    copy.recv c (some (b :: bytes)) = c.recv (some (b :: bytes)) := if_neg (by simp)

theorem lab05_hangs (h : c.recvLen < c.strLen) (hphase : c.phase ≠ .stopped) :
    ¬Settles .lab05 [] c := by
  rintro ⟨fuel, c', hrun⟩
  induction fuel with
  | zero =>
    rw [receiveLoop.eq_def, if_neg (by omega)] at hrun
    contradiction
  | succ fuel ih =>
    rw [receiveLoop.eq_def, if_neg (by omega)] at hrun
    simp only [List.headD_nil, Copy.recv, and_self, if_true, if_neg hphase] at hrun
    exact ih hrun

theorem settles_goesOn {d : Client} (hrun : copy.recv c got = .ok d)
    (hphase : d.phase = .receiving) :
    (∃ c', copy.recv c got = .ok c' ∧ (c'.phase = .stopped ∨ Settles copy reads c')) ↔
      Settles copy reads d := by
  constructor
  · rintro ⟨c', hc', hstop | hsettles⟩
    · obtain rfl := Except.ok.inj (hrun.symm.trans hc')
      cases hphase.symm.trans hstop
    · obtain rfl := Except.ok.inj (hrun.symm.trans hc')
      exact hsettles
  · exact fun h => ⟨d, hrun, .inr h⟩

theorem condition_cons (hgoes : copy.GoesOn got) (hroom : received + readLength got ≤ bufSize - 1) :
    (((received < strLen → received + readLength got ≤ bufSize - 1) ∧
        (copy.GoesOn got → Fits copy strLen (received + readLength got) reads)) ∧
      (copy = .lab05 → none ∈ got :: reads ∨ strLen ≤ received + total (got :: reads))) ↔
    Fits copy strLen (received + readLength got) reads ∧
      (copy = .lab05 → none ∈ reads ∨ strLen ≤ received + readLength got + total reads) := by
  have htotal : received + total (got :: reads) = received + readLength got + total reads := by
    simp only [total, List.map_cons, List.sum_cons, Nat.add_assoc]
  have hmem : none ∈ got :: reads ↔ none ∈ reads := by
    rw [List.mem_cons, or_iff_right (Ne.symm hgoes.1)]
  rw [htotal, hmem]
  exact and_congr_left fun _ => ⟨fun h => h.2 hgoes, fun h => ⟨fun _ => hroom, fun _ => h⟩⟩

theorem settles_iff (hstr : c.strLen ≤ bufSize - 1) (hrecv : c.recvLen < bufSize)
    (hphase : c.phase = .receiving) : Settles copy reads c ↔
      Fits copy c.strLen c.recvLen reads ∧
        (copy = .lab05 → none ∈ reads ∨ c.strLen ≤ c.recvLen + total reads) := by
  have hsize : 0 < bufSize := by decide
  induction reads generalizing c with
  | nil =>
    by_cases hdone : c.strLen ≤ c.recvLen
    · rw [settles_of_received hdone]
      exact ⟨fun _ => ⟨fits_nil, fun _ => .inr (Nat.le_add_right_of_le hdone)⟩, fun _ => hrecv⟩
    · cases copy with
      | lab05 =>
        refine ⟨fun h => absurd h (lab05_hangs (by omega) (by simp [hphase])), fun h => ?_⟩
        simp [total] at h
        omega
      | l4lb =>
        refine ⟨fun _ => ⟨fits_nil, fun h => by cases h⟩, fun _ => ?_⟩
        exact (settles_next (by omega)).mpr ⟨{ c with phase := .stopped }, rfl, .inl rfl⟩
  | cons got reads ih =>
    by_cases hdone : c.strLen ≤ c.recvLen
    · rw [settles_of_received hdone]
      exact ⟨fun _ => ⟨fits_of_received hdone, fun _ => .inr (Nat.le_add_right_of_le hdone)⟩,
        fun _ => hrecv⟩
    rw [settles_next (by omega), List.headD_cons, List.tail_cons, fits_cons]
    match got with
    | none =>
      have hexit : copy.recv c none = .ok { c with phase := .stopped } := if_neg (by simp)
      refine ⟨fun _ => ⟨⟨fun _ => ?_, fun hgoes => absurd rfl hgoes.1⟩, fun _ => .inl (by simp)⟩,
        fun _ => ⟨_, hexit, .inl rfl⟩⟩
      simp only [readLength, Option.getD_none, List.length_nil]
      omega
    | some [] =>
      cases copy with
      | lab05 =>
        have hagain : Copy.lab05.recv c (some []) = .ok c := rfl
        have hgoes : Copy.lab05.GoesOn (some []) := ⟨by simp, fun _ => rfl⟩
        have hroom : c.recvLen + readLength (some []) ≤ bufSize - 1 := by
          simp only [readLength, Option.getD_some, List.length_nil]
          omega
        rw [settles_goesOn hagain hphase, condition_cons hgoes hroom]
        exact ih hstr hrecv hphase
      | l4lb =>
        refine ⟨fun _ => ⟨⟨fun _ => ?_, fun hgoes => ?_⟩, fun h => by cases h⟩,
          fun _ => ⟨{ c with phase := .stopped }, rfl, .inl rfl⟩⟩
        · simp only [readLength, Option.getD_some, List.length_nil]
          omega
        · cases hgoes.2 rfl
    | some (b :: bytes) =>
      have hgoes : copy.GoesOn (some (b :: bytes)) := ⟨by simp, fun h => by simp at h⟩
      let d : Client := { c with
        message := store c.message c.recvLen (b :: bytes)
        recvLen := c.recvLen + (b :: bytes).length }
      have hrun (hle : c.recvLen + (b :: bytes).length ≤ bufSize) :
          copy.recv c (some (b :: bytes)) = .ok d := recv_bytes.trans (if_pos hle)
      by_cases hroom : c.recvLen + (b :: bytes).length ≤ bufSize - 1
      · rw [settles_goesOn (hrun (by omega)) hphase, condition_cons hgoes hroom]
        exact ih (c := d) hstr (by simp only [d]; omega) hphase
      · -- The bytes do not fit, or fill the buffer and leave no room for the terminator.
        refine ⟨?_, fun h => absurd (h.1.1 (by omega)) hroom⟩
        rintro ⟨c', hc', hend⟩
        by_cases hfull : c.recvLen + (b :: bytes).length = bufSize
        · have hsettles := (settles_goesOn (hrun (by omega)) hphase).mp ⟨c', hc', hend⟩
          rw [settles_of_received (by simp only [d]; omega)] at hsettles
          simp only [d] at hsettles
          omega
        · have hfault : c.recv (some (b :: bytes)) = .error .outOfBounds := if_neg (by omega)
          rw [recv_bytes, hfault] at hc'
          contradiction

end Loop

/-- Behind `write`, which takes no more bytes than `fgets` has stored; here a -1 is as no byte. -/
structure Sent (c : Client) : Prop where
  written : c.strLen ≤ bufSize - 1
  nothingReceived : c.recvLen = 0
  receiving : c.phase = .receiving

theorem Message.sent (m : Message) (c : Client) : ∃ c', c.input m.chars = .ok (c', m.chars) ∧
    Sent c' := by
  obtain ⟨message, hinput⟩ := c.input_eq m
  exact ⟨_, hinput, m.length_le, rfl, rfl⟩

/-- The loop ends inside its buffer exactly when no more than BUF_SIZE - 1 bytes come together
and, for the copy of lab05, enough of them before the stream ends, unless a `read` fails. -/
theorem receive_loop_settles_iff (copy : Copy) (c : Client) (hsent : Sent c)
    (reads : List (Option (List Byte))) : Settles copy reads c ↔
      Fits copy c.strLen 0 reads ∧
        (copy = .lab05 → none ∈ reads ∨ c.strLen ≤ total reads) := by
  have hzero := hsent.nothingReceived
  have h := @settles_iff copy reads c hsent.written (by rw [hzero]; decide) hsent.receiving
  rwa [hzero, Nat.zero_add] at h

theorem receive_loop_settles_hi : Settles .lab05 [some [104], some [], some [105, 10]]
    ⟨fun _ => 0, 3, 0, .receiving, []⟩ := by
  refine (receive_loop_settles_iff .lab05 ⟨fun _ => 0, 3, 0, .receiving, []⟩
    ⟨by decide, rfl, rfl⟩ _).mpr ⟨?_, fun _ => .inr (by decide)⟩
  simp only [fits_cons]
  exact ⟨fun _ => by decide, fun _ => ⟨fun _ => by decide, fun _ => ⟨fun _ => by decide,
    fun _ => fits_nil⟩⟩⟩

/-- Against a peer that closes at once the copy of lab05 reads on for ever; one that answers
with a byte and then with 1023 more has the other copy store the terminator behind its buffer. -/
theorem peer_hangs_or_overflows :
    ¬Settles .lab05 [] ⟨fun _ => 0, 3, 0, .receiving, []⟩ ∧
    ¬Settles .l4lb [some [104], some (List.replicate 1023 104)]
      ⟨fun _ => 0, 3, 0, .receiving, []⟩ := by
  refine ⟨lab05_hangs (by decide) (by decide), fun h => ?_⟩
  have hfits := ((settles_iff (by decide) (by decide) rfl).mp h).1
  have hroom := hfits [some [104]] (some (List.replicate 1023 104)) [] rfl
    (by simp [Copy.GoesOn]) (by decide)
  have hlen : readLength (some (List.replicate 1023 (104 : Byte))) = 1023 := List.length_replicate
  rw [hlen] at hroom
  exact absurd hroom (by decide)

end EchoClient
