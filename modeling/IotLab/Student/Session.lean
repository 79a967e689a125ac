import IotLab.Student.Transfer
import Mathlib.Tactic.Ring

set_option autoImplicit false

open HostMemory MemoryStream InputMemoryStream Fallible

namespace Student

def eat (st : Student) : Student := { st with mHealth := st.mHealth + 10 }

def study (st : Student) : Student :=
  { st with mHealth := st.mHealth - 5, mAbility := st.mAbility + 10 }

def sleep (st : Student) : Student := { st with mHealth := st.mHealth + 10 }

def play (st : Student) : Student :=
  { st with mHealth := st.mHealth - 3, mAbility := st.mAbility + 3 }

def addFriend (friendId : BitVec 32) (st : Student) : Student :=
  { st with mFriends := st.mFriends ++ [friendId] }

def testBits (st : Student) : Student :=
  { st with
    mBitData1 := st.mBitData1 + 2
    mBitData2 := st.mBitData2 + 10
    mBitData3 := st.mBitData3 - 5 }

inductive Action where
  | eat | study | sleep | play
  | addFriend (friendId : BitVec 32)
  | testBits
  deriving DecidableEq, Repr

def act (st : Student) : Action → Student
  | .eat => st.eat
  | .study => st.study
  | .sleep => st.sleep
  | .play => st.play
  | .addFriend friendId => st.addFriend friendId
  | .testBits => st.testBits

def live (st : Student) (actions : List Action) : Student := actions.foldl act st

def tests (actions : List Action) : Nat := actions.count .testBits

def served (st : Student) : Student :=
  (((st.sleep.eat.study).addFriend 2222222).addFriend 3333333).testBits

/-- The constructor without arguments, which leaves the bit fields as they are in memory. -/
def blank (mBitData1 mBitData2 mBitData3 : Byte) : Student :=
  ⟨0, 0, 0, [], [], mBitData1, mBitData2, mBitData3⟩

/-- The machines of client and server, and how TCP cuts the bytes on their way there and back. -/
structure Peers where
  signed : Bool
  clntHeap : Mem
  servHeap : Mem
  clntAlloc : Allocator
  servAlloc : Allocator
  request : List Nat
  reply : List Nat

/-- One connection: the student that the server receives into its own, and the one that the
client receives into the one it has sent. -/
def exchange (p : Peers) (servBuffer clntBuffer : List Byte) (stu st : Student) :
    Result (Student × Student) := do
  let sent ← st.send p.clntHeap
  let stu ← receive p.signed p.servAlloc servBuffer (.ok (segments p.request sent)) stu
  let back ← stu.served.send p.servHeap
  let st ← receive p.signed p.clntAlloc clntBuffer (.ok (segments p.reply back)) st
  .ok (stu, st)

/-- The server gets the client's student, and the client gets it back as the server has served
it. -/
def Exchanged (p : Peers) (st : Student) : Prop :=
  ∀ servBuffer clntBuffer mBitData1 mBitData2 mBitData3, servBuffer.length = kMaxPacketSize →
    clntBuffer.length = kMaxPacketSize →
    exchange p servBuffer clntBuffer (blank mBitData1 mBitData2 mBitData3) st =
      .ok (st, st.served)

def FieldsKept (signed : Bool) (d1 d2 d3 : Byte) : Prop :=
  d1.toNat < 32 ∧ (if signed && d2.getLsbD 2 then 248 ≤ d2.toNat else d2.toNat < 64) ∧
    d2 >>> 6 &&& ~~~d3 = 0 ∧ (signed = true → d3.getLsbD 4 = true → 224 ≤ d3.toNat)

instance (signed : Bool) (d1 d2 d3 : Byte) : Decidable (FieldsKept signed d1 d2 d3) :=
  inferInstanceAs (Decidable (_ ∧ _ ∧ _ ∧ _))

/-- The counts of `TestBits` with which the bit fields survive the way to the server and back:
where a plain `char` is signed, the student as it was constructed is not among them. -/
def Survives (signed : Bool) (count : Nat) : Prop :=
  if signed then count % 128 = 126 else count % 128 = 0 ∨ 123 ≤ count % 128

instance (signed : Bool) (count : Nat) : Decidable (Survives signed count) :=
  inferInstanceAs (Decidable (if signed then _ else _))

/-- What a machine and a connection need for one way: room in the sender's buffer, a clean byte
behind it, a receiver that terminates the name and has memory, and one segment. -/
structure Carries (signed : Bool) (heap : Mem) (alloc : Allocator) (cuts : List Nat)
    (st : Student) : Prop where
  room : Room st.firstCapacity st.size
  clean : heap st.size &&& ~~~(st.mBitData1 ||| st.mBitData2 <<< 5) = 0
  terminated : ∃ mem, alloc.malloc st.mName.length = some mem ∧ mem[st.mName.length]? = some 0
  resize : alloc.resize st.mFriends.length = true
  arrives : Arrives signed cuts st

section Life
variable {st : Student} {actions : List Action} {signed : Bool}

@[simp] theorem live_cons (a : Action) : live st (a :: actions) = live (st.act a) actions := rfl

theorem live_mName : (live st actions).mName = st.mName := by
  induction actions generalizing st with
  | nil => rfl
  | cons a actions ih =>
    rw [live_cons, ih]
    cases a <;> rfl

theorem live_bits {k : Nat} (h1 : st.mBitData1 = 13 + 2 * BitVec.ofNat 8 k)
    (h2 : st.mBitData2 = 52 + 10 * BitVec.ofNat 8 k)
    (h3 : st.mBitData3 = 100 - 5 * BitVec.ofNat 8 k) :
    (live st actions).mBitData1 = 13 + 2 * BitVec.ofNat 8 (k + tests actions) ∧
      (live st actions).mBitData2 = 52 + 10 * BitVec.ofNat 8 (k + tests actions) ∧
      (live st actions).mBitData3 = 100 - 5 * BitVec.ofNat 8 (k + tests actions) := by
  induction actions generalizing st k with
  | nil => exact ⟨h1, h2, h3⟩
  | cons a actions ih =>
    by_cases ha : a = .testBits
    · subst ha
      have hcount : k + tests (.testBits :: actions) = k + 1 + tests actions := by
        simp [tests]
        omega
      have hsucc : BitVec.ofNat 8 (k + 1) = BitVec.ofNat 8 k + 1 := BitVec.ofNat_add k 1
      rw [hcount, live_cons]
      refine ih ?_ ?_ ?_
      · rw [act, testBits, h1, hsucc]
        ring
      · rw [act, testBits, h2, hsucc]
        ring
      · rw [act, testBits, h3, hsucc]
        ring
    · have hcount : tests (a :: actions) = tests actions := by simp [tests, ha]
      rw [hcount, live_cons]
      refine ih ?_ ?_ ?_
      · rw [← h1]
        cases a <;> first | rfl | contradiction
      · rw [← h2]
        cases a <;> first | rfl | contradiction
      · rw [← h3]
        cases a <;> first | rfl | contradiction

end Life

section Ways
variable {signed : Bool} {heap : Mem} {alloc : Allocator} {st : Student} {cuts : List Nat}

theorem bitsKept_iff_carried {g : Byte} : BitsKept signed g st ↔
    FieldsKept signed st.mBitData1 st.mBitData2 st.mBitData3 ∧
      g &&& ~~~(st.mBitData1 ||| st.mBitData2 <<< 5) = 0 :=
  ⟨fun h => ⟨⟨h.first, h.second, h.leak, h.third⟩, h.clean⟩,
    fun ⟨⟨h1, h2, h3, h4⟩, hclean⟩ => ⟨h1, hclean, h2, h3, h4⟩⟩

theorem transfers_iff_carried : Transfers signed heap alloc st cuts ↔
    FieldsKept signed st.mBitData1 st.mBitData2 st.mBitData3 ∧ 0 ∉ st.mName ∧
      Carries signed heap alloc cuts st := by
  constructor
  · intro h
    obtain ⟨hroom, hname, hterm, hresize, hbits⟩ := h.restorable
    obtain ⟨hfields, hclean⟩ := bitsKept_iff_carried.mp hbits
    exact ⟨hfields, hname, hroom, hclean, hterm, hresize, h.arrives⟩
  · rintro ⟨hfields, hname, hroom, hclean, hterm, hresize, harrives⟩
    exact Restorable.transfers ⟨hroom, hname, hterm, hresize,
      bitsKept_iff_carried.mpr ⟨hfields, hclean⟩⟩ harrives

theorem transfers_of_receives {sent : List Byte} {old : Student} (hsend : st.send heap = .ok sent)
    (hother : ∃ buffer, buffer.length = kMaxPacketSize ∧
      ∃ old', old' ≠ st ∧ receive signed alloc buffer (.ok (segments cuts sent)) old' = .ok st)
    (h : ∀ buffer, buffer.length = kMaxPacketSize →
      receive signed alloc buffer (.ok (segments cuts sent)) old = .ok st) :
    Transfers signed heap alloc st cuts := by
  have hpos : 0 < arrived cuts sent := by
    obtain ⟨buffer, -, old', hne, hreceive⟩ := hother
    by_contra hzero
    rw [receive_nothing (by omega), Except.ok.injEq] at hreceive
    exact hne hreceive
  refine ⟨sent, hsend, fun buffer old' hbuffer => ?_⟩
  rw [receive_eq_ok hbuffer hpos, ← receive_eq_ok hbuffer hpos]
  exact h buffer hbuffer

theorem served_mHealth : st.served.mHealth ≠ st.mHealth := by
  have hserved : st.served.mHealth = st.mHealth + 15 := by
    change st.mHealth + 10 + 10 - 5 = _
    ring
  rw [hserved]
  intro h
  exact absurd (add_eq_left.mp h) (by decide)

theorem exchange_eq_ok {p : Peers} {servBuffer clntBuffer : List Byte} {stu stu' st st' : Student} :
    exchange p servBuffer clntBuffer stu st = .ok (stu', st') ↔ ∃ sent back,
      st.send p.clntHeap = .ok sent ∧
      receive p.signed p.servAlloc servBuffer (.ok (segments p.request sent)) stu = .ok stu' ∧
      stu'.served.send p.servHeap = .ok back ∧
      receive p.signed p.clntAlloc clntBuffer (.ok (segments p.reply back)) st = .ok st' := by
  constructor
  · intro h
    obtain ⟨sent, hsent, h⟩ := bind_eq_ok.mp h
    obtain ⟨stu₁, hstu, h⟩ := bind_eq_ok.mp h
    obtain ⟨back, hback, h⟩ := bind_eq_ok.mp h
    obtain ⟨st₁, hst, h⟩ := bind_eq_ok.mp h
    cases h
    exact ⟨sent, back, hsent, hstu, hback, hst⟩
  · rintro ⟨sent, back, hsent, hstu, hback, hst⟩
    exact bind_eq_ok.mpr ⟨sent, hsent, bind_eq_ok.mpr ⟨stu', hstu,
      bind_eq_ok.mpr ⟨back, hback, bind_eq_ok.mpr ⟨st', hst, rfl⟩⟩⟩⟩

theorem exchanged_iff_transfers {p : Peers} : Exchanged p st ↔
    Transfers p.signed p.clntHeap p.servAlloc st p.request ∧
      Transfers p.signed p.servHeap p.clntAlloc st.served p.reply := by
  constructor
  · intro h
    have hlen : (List.replicate kMaxPacketSize (0 : Byte)).length = kMaxPacketSize :=
      List.length_replicate ..
    obtain ⟨sent, back, hsent, -, hback, -⟩ := exchange_eq_ok.mp (h _ _ 0 0 0 hlen hlen)
    have hserv (buffer : List Byte) (d : Byte) (hbuffer : buffer.length = kMaxPacketSize) :
        receive p.signed p.servAlloc buffer (.ok (segments p.request sent)) (blank d 0 0) =
          .ok st := by
      obtain ⟨sent', -, hsent', hstu, -⟩ := exchange_eq_ok.mp (h buffer _ d 0 0 hbuffer hlen)
      obtain rfl := Except.ok.inj (hsent.symm.trans hsent')
      exact hstu
    have hclnt (buffer : List Byte) (hbuffer : buffer.length = kMaxPacketSize) :
        receive p.signed p.clntAlloc buffer (.ok (segments p.reply back)) st =
          .ok st.served := by
      obtain ⟨-, back', -, -, hback', hst⟩ := exchange_eq_ok.mp (h _ buffer 0 0 0 hlen hbuffer)
      obtain rfl := Except.ok.inj (hback.symm.trans hback')
      exact hst
    refine ⟨transfers_of_receives hsent ⟨_, hlen, blank (st.mBitData1 + 1) 0 0, fun heq => ?_,
      hserv _ _ hlen⟩ fun buffer => hserv buffer 0, transfers_of_receives hback
      ⟨_, hlen, st, fun heq => ?_, hclnt _ hlen⟩ hclnt⟩
    · have hbits : st.mBitData1 + 1 = st.mBitData1 := congrArg mBitData1 heq
      exact absurd (add_eq_left.mp hbits) (by decide)
    · exact served_mHealth (congrArg mHealth heq).symm
  · rintro ⟨⟨sent, hsent, hserv⟩, back, hback, hclnt⟩ servBuffer clntBuffer d1 d2 d3 hs hc
    exact exchange_eq_ok.mpr ⟨sent, back, hsent, hserv servBuffer _ hs, hback,
      hclnt clntBuffer _ hc⟩

end Ways

theorem fieldsKept_tests (signed : Bool) : ∀ x : Byte,
    FieldsKept signed (13 + 2 * x) (52 + 10 * x) (100 - 5 * x) ∧
        FieldsKept signed (13 + 2 * (x + 1)) (52 + 10 * (x + 1)) (100 - 5 * (x + 1)) ↔
      Survives signed x.toNat := by
  cases signed <;> decide +kernel

/-- A student that was constructed and had any methods called on it makes the way to the server
and back exactly when `TestBits` was called a number of times that the bit fields survive, its
name has no 0 in it, and either way is open for it. -/
theorem exchanged_iff (p : Peers) (id : BitVec 32) (name : List Byte) (actions : List Action) :
    Exchanged p (live (construct id name) actions) ↔
      Survives p.signed (tests actions) ∧ 0 ∉ name ∧
        Carries p.signed p.clntHeap p.servAlloc p.request (live (construct id name) actions) ∧
        Carries p.signed p.servHeap p.clntAlloc p.reply
          (live (construct id name) actions).served := by
  obtain ⟨st, hst⟩ : ∃ st, st = live (construct id name) actions := ⟨_, rfl⟩
  obtain ⟨x, hx⟩ : ∃ x, x = BitVec.ofNat 8 (tests actions) := ⟨_, rfl⟩
  obtain ⟨h1, h2, h3⟩ := @live_bits (construct id name) actions 0 rfl rfl rfl
  rw [Nat.zero_add, ← hx, ← hst] at h1 h2 h3
  have hname : st.mName = name := hst ▸ live_mName
  have hname' : st.served.mName = name := hname
  have h1' : st.served.mBitData1 = 13 + 2 * (x + 1) := by
    change st.mBitData1 + 2 = _
    rw [h1]
    ring
  have h2' : st.served.mBitData2 = 52 + 10 * (x + 1) := by
    change st.mBitData2 + 10 = _
    rw [h2]
    ring
  have h3' : st.served.mBitData3 = 100 - 5 * (x + 1) := by
    change st.mBitData3 - 5 = _
    rw [h3]
    ring
  have hcount : Survives p.signed x.toNat ↔ Survives p.signed (tests actions) := by
    have hmod : x.toNat % 128 = tests actions % 128 := by
      rw [hx, BitVec.toNat_ofNat]
      omega
    rw [Survives, Survives, hmod]
  rw [← hst, exchanged_iff_transfers, transfers_iff_carried, transfers_iff_carried, h1, h2, h3,
    h1', h2', h3', hname, hname', ← hcount, ← fieldsKept_tests]
  tauto

def demoPeers (signed : Bool) : Peers :=
  ⟨signed, fun _ => 0, fun _ => 0, .zeroed, .zeroed, [], []⟩

/-- The students of the lab come back served where a plain `char` is unsigned, and where it is
signed they do not. -/
theorem seoeun_exchanged :
    Exchanged (demoPeers false) seoeun ∧ ¬Exchanged (demoPeers true) seoeun := by
  constructor
  · refine (exchanged_iff (demoPeers false) 1111111 [83, 101, 111, 101, 117, 110] []).mpr
      ⟨by decide, by decide, ⟨⟨1, by decide, by decide, by decide⟩, by decide, ⟨_, rfl, by decide⟩,
        by decide, ⟨by decide, by simp [demoPeers]⟩⟩,
        ⟨⟨1, by decide, by decide, by decide⟩, by decide, ⟨_, rfl, by decide⟩, by decide,
          ⟨by decide, by simp [demoPeers]⟩⟩⟩
  · intro h
    have hsurvives := ((exchanged_iff (demoPeers true) 1111111 [83, 101, 111, 101, 117, 110]
      []).mp h).1
    exact absurd hsurvives (by decide)

end Student
