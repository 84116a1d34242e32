import Mathlib
import Netcode.Proofs.Wire.Layout

set_option autoImplicit false

namespace Netcode

/-- An operation on a byte stream: read `n` bytes, write bytes, or move the cursor. -/
inductive StreamOp where
  | read (n : Nat)
  | write (src : List UInt8)
  | seek (offset : Int64) (base : SeekBase)
  deriving DecidableEq, Repr

/-- The bytes of a stream as a list, and its cursor. -/
structure Tape where
  bytes : List UInt8
  pos : Nat
  deriving DecidableEq, Repr

namespace Tape

/-- The largest signed 64-bit number: the furthest a seek reaches, and more bytes than any stream
holds. -/
def maxOffset : Nat := 9223372036854775807

/-- The tape after `src` is written at the cursor: the bytes under it are replaced, the tape
grows as far as `src` reaches, and the cursor moves past it. -/
def overwrite (t : Tape) (src : List UInt8) : Tape :=
  ⟨t.bytes.take t.pos ++ src ++ t.bytes.drop (t.pos + src.length), t.pos + src.length⟩

def aim (t : Tape) (offset : Int64) : SeekBase → Int
  | .start => offset.toInt
  | .cursor => t.pos + offset.toInt
  | .finish => t.bytes.length + offset.toInt

/-- One operation on the tape of a stream of capacity `cap`, `none` for a growing stream: the
bytes read, and the tape after it. A refused operation leaves the tape as it was. -/
def perform (cap : Option Nat) (t : Tape) : StreamOp → Except NetError (List UInt8) × Tape
  | .read n =>
    if t.pos + n ≤ t.bytes.length then (.ok ((t.bytes.drop t.pos).take n), { t with pos := t.pos + n })
    else (.error (.streamOverflow .reading), t)
  | .write src =>
    if cap.all (t.pos + src.length ≤ ·) then (.ok [], t.overwrite src)
    else (.error (.streamOverflow .writing), t)
  | .seek offset base =>
    let target := t.aim offset base
    if target < 0 ∨ maxOffset < target then (.error (.streamOverflow .reading), t)
    else if target.toNat ≤ t.bytes.length then (.ok [], { t with pos := target.toNat })
    else match cap with
      | some _ => (.error (.streamOverflow .reading), t)
      | none => (.ok [], ⟨t.bytes ++ List.replicate (target.toNat - t.bytes.length) 0, target.toNat⟩)

def performAll (cap : Option Nat) (t : Tape) : List StreamOp → List (Except NetError (List UInt8)) × Tape
  | [] => ([], t)
  | op :: ops =>
    let (r, t') := t.perform cap op
    let (rs, t'') := t'.performAll cap ops
    (r :: rs, t'')

/-- What every stream keeps: the cursor within the bytes, and the bytes within the largest offset
and within the capacity of a fixed stream. -/
structure Sound (cap : Option Nat) (t : Tape) : Prop where
  inside : t.pos ≤ t.bytes.length
  bounded : t.bytes.length ≤ maxOffset
  held : cap.all (t.bytes.length ≤ ·)

def Fits (t : Tape) : StreamOp → Prop
  | .write src => t.pos + src.length ≤ maxOffset
  | .read _ | .seek _ _ => True

instance (t : Tape) : (op : StreamOp) → Decidable (t.Fits op)
  | .write src => inferInstanceAs (Decidable (t.pos + src.length ≤ maxOffset))
  | .read _ | .seek _ _ => isTrue trivial

/-- Every write of a run, from wherever the cursor then stands, ends within the largest offset. -/
def Room (cap : Option Nat) : Tape → List StreamOp → Prop
  | _, [] => True
  | t, op :: ops => t.Fits op ∧ Room cap (t.perform cap op).2 ops

instance decidableRoom (cap : Option Nat) : (t : Tape) → (ops : List StreamOp) → Decidable (Room cap t ops)
  | _, [] => isTrue trivial
  | t, op :: ops =>
    have := decidableRoom cap (t.perform cap op).2 ops
    inferInstanceAs (Decidable (t.Fits op ∧ Room cap (t.perform cap op).2 ops))

section Laws

variable {cap : Option Nat} {t : Tape}

theorem length_overwrite (src : List UInt8) (inside : t.pos ≤ t.bytes.length) :
    (t.overwrite src).bytes.length = max t.bytes.length (t.pos + src.length) := by
  simp only [overwrite, List.length_append, List.length_take, List.length_drop]
  omega

theorem pos_overwrite (src : List UInt8) : (t.overwrite src).pos = t.pos + src.length := rfl

theorem overwrite_cons (b : UInt8) (rest : List UInt8) (inside : t.pos ≤ t.bytes.length) :
    (t.overwrite [b]).overwrite rest = t.overwrite (b :: rest) := by
  obtain ⟨bytes, pos⟩ := t
  -- the first byte leaves a front of `pos + 1` bytes, and the rest is written after it
  let first := bytes.take pos ++ [b]
  have front : first.length = pos + 1 := by
    simp only [first, List.length_append, List.length_take, List.length_singleton]
    simp only at inside
    omega
  have kept : (first ++ bytes.drop (pos + 1)).take (pos + 1) = first := List.take_left' front
  have dropped : (first ++ bytes.drop (pos + 1)).drop (pos + 1 + rest.length) =
      bytes.drop (pos + 1 + rest.length) := by
    rw [← List.drop_drop, List.drop_left' front, List.drop_drop]
  have written : (⟨bytes, pos⟩ : Tape).overwrite [b] = ⟨first ++ bytes.drop (pos + 1), pos + 1⟩ := rfl
  rw [written]
  simp only [overwrite, kept, dropped, Tape.mk.injEq, List.length_cons]
  constructor
  · rw [show pos + (rest.length + 1) = pos + 1 + rest.length by omega]
    simp [first]
  · omega

/-- A step keeps a sound tape sound, provided a write ends within the largest offset. -/
theorem Sound.perform (sound : t.Sound cap) (op : StreamOp) (fits : t.Fits op) :
    (t.perform cap op).2.Sound cap := by
  cases op with
  | read n =>
    simp only [Tape.perform]
    split_ifs with enough
    · exact ⟨enough, sound.bounded, sound.held⟩
    · exact sound
  | write src =>
    simp only [Tape.perform]
    split_ifs with allowed
    · have length := length_overwrite src sound.inside
      have reach : t.pos + src.length ≤ maxOffset := fits
      refine ⟨by rw [length, pos_overwrite]; omega, by rw [length]; have := sound.bounded; omega, ?_⟩
      cases cap with
      | none => rfl
      | some c =>
        have held : t.bytes.length ≤ c := by simpa using sound.held
        have room : t.pos + src.length ≤ c := by simpa using allowed
        simp only [Option.all_some, decide_eq_true_eq, length]
        omega
    · exact sound
  | seek offset base =>
    simp only [Tape.perform]
    split_ifs with refused within
    · exact sound
    · exact ⟨within, sound.bounded, sound.held⟩
    · cases cap with
      | some c => exact sound
      | none => exact ⟨by simp; omega, by simp; omega, rfl⟩

theorem Sound.performAll (sound : t.Sound cap) (ops : List StreamOp) (room : Room cap t ops) :
    (t.performAll cap ops).2.Sound cap := by
  induction ops generalizing t with
  | nil => exact sound
  | cons op ops ih => exact ih (sound.perform op room.1) room.2

end Laws

end Tape

namespace ByteStream

def toTape (s : ByteStream) : Tape :=
  ⟨s.bytes.data.toList, s.pos⟩

def Sound (s : ByteStream) : Prop :=
  s.toTape.Sound s.capacity

/-- One operation performed in place: the bytes read, and the stream after it. A refused
operation keeps the stream. -/
def perform (s : ByteStream) : StreamOp → Except NetError (List UInt8) × ByteStream
  | .read n => match s.read n with
    | .ok (bytes, s') => (.ok bytes, s')
    | .error e => (.error e, s)
  | .write src => match s.write src with
    | .ok s' => (.ok [], s')
    | .error e => (.error e, s)
  | .seek offset base => match s.seek offset base with
    | .ok s' => (.ok [], s')
    | .error e => (.error e, s)

def performAll (s : ByteStream) : List StreamOp → List (Except NetError (List UInt8)) × ByteStream
  | [] => ([], s)
  | op :: ops =>
    let (r, s') := s.perform op
    let (rs, s'') := s'.performAll ops
    (r :: rs, s'')

theorem sound_growing (data : ByteArray) (small : data.size ≤ Tape.maxOffset) : (growing data).Sound :=
  ⟨Nat.zero_le _, by simpa [toTape, growing] using small, rfl⟩

theorem sound_fixedFull (data : ByteArray) (small : data.size ≤ Tape.maxOffset) : (fixedFull data).Sound :=
  ⟨Nat.zero_le _, by simpa [toTape, fixedFull] using small, by simp [toTape, fixedFull]⟩

theorem sound_fixedEmpty (capacity : Nat) : (fixedEmpty capacity).Sound :=
  ⟨le_rfl, Nat.zero_le _, by simp [toTape, fixedEmpty]⟩

section Refinement

variable (s : ByteStream)

theorem length_toTape : s.toTape.bytes.length = s.length := by
  simp [toTape, length]

theorem toList_putByte (bytes : ByteArray) (i : Nat) (b : UInt8) (inside : i ≤ bytes.size) :
    (putByte bytes i b).data.toList = bytes.data.toList.take i ++ b :: bytes.data.toList.drop (i + 1) := by
  unfold putByte
  split_ifs with within
  · rw [ByteArray.data_set, Array.toList_set, List.set_eq_take_append_cons_drop,
      if_pos (by simpa using within)]
  · obtain rfl : i = bytes.size := by omega
    have whole : bytes.data.toList.length = bytes.size := Array.length_toList
    rw [ByteArray.data_push, Array.toList_push, List.take_of_length_le whole.le,
      List.drop_eq_nil_of_le (by omega)]

theorem toTape_putAll (src : List UInt8) (inside : s.pos ≤ s.length) :
    (s.putAll src).toTape = s.toTape.overwrite src ∧ (s.putAll src).capacity = s.capacity := by
  induction src generalizing s with
  | nil => simp [putAll, toTape, Tape.overwrite]
  | cons b rest ih =>
    let s₁ : ByteStream := ⟨putByte s.bytes s.pos b, s.pos + 1, s.capacity⟩
    have first : s₁.toTape = s.toTape.overwrite [b] := by
      simp only [s₁, toTape, Tape.overwrite, toList_putByte _ _ _ inside, List.length_singleton,
        List.append_assoc, List.singleton_append]
    have inside₁ : s₁.pos ≤ s₁.length := by
      rw [← length_toTape, first, Tape.length_overwrite _ (by rw [length_toTape]; exact inside)]
      exact le_max_of_le_right le_rfl
    obtain ⟨tape, capacity⟩ := ih s₁ inside₁
    exact ⟨by rw [putAll, tape, first, Tape.overwrite_cons b rest (by rw [length_toTape]; exact inside)], capacity⟩

theorem perform_write (src : List UInt8) (inside : s.pos ≤ s.length) :
    Prod.map id toTape (s.perform (.write src)) = s.toTape.perform s.capacity (.write src) ∧
      (s.perform (.write src)).2.capacity = s.capacity := by
  have allowed : s.canWrite src.length = s.capacity.all (s.toTape.pos + src.length ≤ ·) := by
    unfold canWrite
    cases s.capacity <;> rfl
  obtain ⟨tape, capacity⟩ := s.toTape_putAll src inside
  simp only [perform, write, Tape.perform, allowed]
  by_cases room : s.capacity.all (s.toTape.pos + src.length ≤ ·) = true
  · simp only [room, if_true, Prod.map, id, tape, capacity, and_self]
  · simp only [room, Bool.false_eq_true, if_false, Prod.map, id, and_self]

theorem perform_read (n : Nat) :
    Prod.map id toTape (s.perform (.read n)) = s.toTape.perform s.capacity (.read n) ∧
      (s.perform (.read n)).2.capacity = s.capacity := by
  have enough : s.canRead n = decide (s.toTape.pos + n ≤ s.toTape.bytes.length) := by
    rw [length_toTape]
    rfl
  simp only [perform, read, Tape.perform, enough]
  by_cases fits : s.toTape.pos + n ≤ s.toTape.bytes.length
  · simp only [fits, decide_true, if_true, Prod.map, id, take_fst]
    exact ⟨rfl, rfl⟩
  · simp only [fits, decide_false, Bool.false_eq_true, if_false, Prod.map, id, and_self]

section Target

variable {origin : Int64} {o : Nat}

theorem toInt_add_of_le (value : origin.toInt = o) (small : o ≤ Tape.maxOffset) (offset : Int64) :
    (origin + offset).toInt =
      if (o : Int) + offset.toInt ≤ Tape.maxOffset then o + offset.toInt else o + offset.toInt - 2 ^ 64 := by
  have low := Int64.le_toInt offset
  have high := Int64.toInt_lt offset
  have limit : (Tape.maxOffset : Int) = 2 ^ 63 - 1 := rfl
  have within : (o : Int) ≤ 2 ^ 63 - 1 := limit ▸ Int.ofNat_le.mpr small
  rw [Int64.toInt_add, value]
  split_ifs with fits
  · exact Int.bmod_eq_of_le (by omega) (by omega)
  · -- past the largest offset the sum is still below `2 ^ 64`, so it wraps exactly once
    rw [Int.bmod_def, Int.emod_eq_of_lt (by omega) (by omega), if_neg (by omega)]
    norm_num

theorem add_neg_iff (value : origin.toInt = o) (small : o ≤ Tape.maxOffset) (offset : Int64) :
    origin + offset < 0 ↔ (o : Int) + offset.toInt < 0 ∨ Tape.maxOffset < (o : Int) + offset.toInt := by
  rw [Int64.lt_iff_toInt_lt, Int64.toInt_zero, toInt_add_of_le value small]
  have high := Int64.toInt_lt offset
  have limit : (Tape.maxOffset : Int) = 2 ^ 63 - 1 := rfl
  split_ifs <;> omega

theorem toNatClampNeg_add (value : origin.toInt = o) (small : o ≤ Tape.maxOffset) (offset : Int64)
    (aimed : ¬((o : Int) + offset.toInt < 0 ∨ Tape.maxOffset < (o : Int) + offset.toInt)) :
    (origin + offset).toNatClampNeg = ((o : Int) + offset.toInt).toNat := by
  rw [Int64.toNatClampNeg, toInt_add_of_le value small, if_pos (by omega)]

end Target

/-- Where a seek of a sound stream lands: where it aims, unless that is before the start or past
the largest offset, or past the end of a fixed stream. -/
theorem seekTarget?_eq (offset : Int64) (base : SeekBase) (sound : s.Sound) :
    s.seekTarget? offset base =
      if s.toTape.aim offset base < 0 ∨ Tape.maxOffset < s.toTape.aim offset base then none
      else if (s.toTape.aim offset base).toNat ≤ s.length then some (s.toTape.aim offset base).toNat
      else if s.capacity.isSome then none else some (s.toTape.aim offset base).toNat := by
  have bounded : s.length ≤ Tape.maxOffset := s.length_toTape ▸ sound.bounded
  have inside : s.pos ≤ s.length := s.length_toTape ▸ sound.inside
  -- from any origin within the largest offset, the 64-bit target test is the test on the true sum
  have general : ∀ (origin : Int64) (o : Nat), origin.toInt = o → o ≤ Tape.maxOffset →
      (if origin + offset < 0 then none
        else if s.capacity.isSome then
          (if (origin + offset).toNatClampNeg ≤ s.length then some (origin + offset).toNatClampNeg else none)
        else some (origin + offset).toNatClampNeg) =
      (if (o : Int) + offset.toInt < 0 ∨ Tape.maxOffset < (o : Int) + offset.toInt then none
        else if ((o : Int) + offset.toInt).toNat ≤ s.length then some ((o : Int) + offset.toInt).toNat
        else if s.capacity.isSome then none else some ((o : Int) + offset.toInt).toNat) := by
    intro origin o value small
    by_cases aimed : (o : Int) + offset.toInt < 0 ∨ Tape.maxOffset < (o : Int) + offset.toInt
    · rw [if_pos ((add_neg_iff value small offset).mpr aimed), if_pos aimed]
    · rw [if_neg (mt (add_neg_iff value small offset).mp aimed), if_neg aimed,
        toNatClampNeg_add value small offset aimed]
      cases s.capacity.isSome <;> split_ifs <;> rfl
  have word : Tape.maxOffset < 2 ^ 63 := by decide
  obtain ⟨bytes, pos, capacity⟩ := s
  cases base with
  | start =>
    have aim : (⟨bytes, pos, capacity⟩ : ByteStream).toTape.aim offset .start = ((0 : Nat) : Int) + offset.toInt := by
      simp [Tape.aim]
    rw [aim, ← general 0 0 (by simp) (Nat.zero_le _)]
    cases capacity <;> rfl
  | cursor =>
    have small : pos ≤ Tape.maxOffset := inside.trans bounded
    have aim : (⟨bytes, pos, capacity⟩ : ByteStream).toTape.aim offset .cursor = (pos : Int) + offset.toInt := rfl
    rw [aim, ← general _ pos (Int64.toInt_ofNat_of_lt (by omega)) small]
    cases capacity <;> rfl
  | finish =>
    have small : bytes.size ≤ Tape.maxOffset := bounded
    have aim : (⟨bytes, pos, capacity⟩ : ByteStream).toTape.aim offset .finish = (bytes.size : Int) + offset.toInt := by
      simp [Tape.aim, toTape]
    rw [aim, ← general _ bytes.size (Int64.toInt_ofNat_of_lt (by omega)) small]
    cases capacity <;> rfl

theorem toTape_moveTo (target : Nat) (grows : s.capacity = none ∨ target ≤ s.length) :
    (s.moveTo target).toTape = ⟨s.toTape.bytes ++ List.replicate (target - s.length) 0, target⟩ ∧
      (s.moveTo target).capacity = s.capacity := by
  obtain ⟨bytes, pos, capacity⟩ := s
  cases capacity with
  | some c =>
    have within : target ≤ bytes.size := grows.resolve_left (by simp)
    simp [moveTo, toTape, length, Nat.sub_eq_zero_of_le within]
  | none =>
    simp only [moveTo, toTape, length, padTo, and_true]
    split_ifs with short
    · simp [ByteArray.data_append]
    · simp [Nat.sub_eq_zero_of_le (Nat.le_of_not_lt short)]

theorem perform_seek (offset : Int64) (base : SeekBase) (sound : s.Sound) :
    Prod.map id toTape (s.perform (.seek offset base)) = s.toTape.perform s.capacity (.seek offset base) ∧
      (s.perform (.seek offset base)).2.capacity = s.capacity := by
  simp only [perform, seek, seekTarget?_eq s offset base sound, Tape.perform, length_toTape]
  split_ifs with refused within grows
  · simp
  · obtain ⟨tape, capacity⟩ := s.toTape_moveTo _ (.inr within)
    simp only [Prod.map, id, tape, capacity, Nat.sub_eq_zero_of_le within, List.replicate_zero,
      List.append_nil, and_true]
  · obtain ⟨c, fixed⟩ := Option.isSome_iff_exists.mp grows
    simp [fixed]
  · have growing : s.capacity = none := Option.not_isSome_iff_eq_none.mp grows
    obtain ⟨tape, capacity⟩ := s.toTape_moveTo (s.toTape.aim offset base).toNat (.inl growing)
    simp only [Prod.map, id, tape, capacity, and_true, growing]

theorem perform_refines (op : StreamOp) (sound : s.Sound) :
    Prod.map id toTape (s.perform op) = s.toTape.perform s.capacity op ∧
      (s.perform op).2.capacity = s.capacity := by
  cases op with
  | read n => exact s.perform_read n
  | write src => exact s.perform_write src (s.length_toTape ▸ sound.inside)
  | seek offset base => exact s.perform_seek offset base sound

end Refinement

/-- A sound stream runs every sequence of reads, writes and seeks as its tape does, outcome for
outcome, and stays sound, as long as no write reaches past the largest offset. -/
theorem performAll_refines (s : ByteStream) (ops : List StreamOp) (sound : s.Sound)
    (room : Tape.Room s.capacity s.toTape ops) :
    (s.performAll ops).1 = (s.toTape.performAll s.capacity ops).1 ∧
      (s.performAll ops).2.toTape = (s.toTape.performAll s.capacity ops).2 ∧ (s.performAll ops).2.Sound := by
  induction ops generalizing s with
  | nil => exact ⟨rfl, rfl, sound⟩
  | cons op ops ih =>
    obtain ⟨step, capacity⟩ := s.perform_refines op sound
    have outcome : (s.perform op).1 = (s.toTape.perform s.capacity op).1 := congrArg Prod.fst step
    have tape : (s.perform op).2.toTape = (s.toTape.perform s.capacity op).2 := congrArg Prod.snd step
    -- the stream after the step is sound because its tape is, and the rest of the run has room
    have sound' : (s.perform op).2.Sound := by
      unfold Sound
      rw [tape, capacity]
      exact sound.perform op room.1
    have room' : Tape.Room (s.perform op).2.capacity (s.perform op).2.toTape ops := by
      rw [tape, capacity]
      exact room.2
    obtain ⟨outcomes, last, sound''⟩ := ih _ sound' room'
    rw [tape, capacity] at outcomes last
    exact ⟨by simp only [performAll, Tape.performAll, outcome, outcomes], by simp only [performAll, Tape.performAll, last],
      sound''⟩

/-- The runs agree on a growing stream that is written past its end, read back, moved past its
end and read past that. -/
theorem performAll_refines_growing :
    (growing ⟨#[7]⟩).Sound ∧
      Tape.Room (growing ⟨#[7]⟩).capacity (growing ⟨#[7]⟩).toTape
        [.write [1, 2], .seek (-1) .finish, .read 1, .seek 2 .cursor, .read 5] ∧
      ((growing ⟨#[7]⟩).performAll [.write [1, 2], .seek (-1) .finish, .read 1, .seek 2 .cursor, .read 5]).1 =
        ((growing ⟨#[7]⟩).toTape.performAll (growing ⟨#[7]⟩).capacity
          [.write [1, 2], .seek (-1) .finish, .read 1, .seek 2 .cursor, .read 5]).1 ∧
      ((growing ⟨#[7]⟩).performAll [.write [1, 2], .seek (-1) .finish, .read 1, .seek 2 .cursor, .read 5]).2.toTape =
        ((growing ⟨#[7]⟩).toTape.performAll (growing ⟨#[7]⟩).capacity
          [.write [1, 2], .seek (-1) .finish, .read 1, .seek 2 .cursor, .read 5]).2 ∧
      ((growing ⟨#[7]⟩).performAll [.write [1, 2], .seek (-1) .finish, .read 1, .seek 2 .cursor, .read 5]).2.Sound :=
  have sound : (growing ⟨#[7]⟩).Sound := sound_growing _ (by decide)
  have room : Tape.Room (growing ⟨#[7]⟩).capacity (growing ⟨#[7]⟩).toTape
      [.write [1, 2], .seek (-1) .finish, .read 1, .seek 2 .cursor, .read 5] := by decide
  ⟨sound, room, performAll_refines _ _ sound room⟩

/-- A seek that aims past the largest offset is refused even by a growing stream, though it aims
past the end: its 64-bit target wraps below the start. -/
theorem seek_refused_pastMaxOffset :
    (growing ⟨#[7]⟩).toTape.aim Int64.maxValue .finish = 2 ^ 63 ∧
      ((growing ⟨#[7]⟩).perform (.seek Int64.maxValue .finish)).1 = .error (.streamOverflow .reading) := by
  decide

end ByteStream

end Netcode
