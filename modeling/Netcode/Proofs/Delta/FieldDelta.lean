import Netcode.Proofs.Wire.Codec
import Netcode.Delta.Field

set_option autoImplicit false

namespace Netcode

namespace Wire

theorem widthOf_magnitude (bits : Int32) : widthOf (if bits < 0 then -bits else bits) = widthOf bits := by
  unfold widthOf
  by_cases negative : bits < 0
  · by_cases wraps : -bits < 0
    · -- only the least value is its own negation, and both sides then move its magnitude
      have selfNeg : -bits = bits := by
        apply Int32.toInt_inj.mp
        have below := Int32.lt_iff_toInt_lt.mp negative
        have stillBelow := Int32.lt_iff_toInt_lt.mp wraps
        have least := Int32.le_toInt bits
        simp only [Int32.toInt_neg, Int32.toInt_zero] at below stillBelow ⊢
        simp only [Int.bmod] at stillBelow ⊢
        split at stillBelow <;> split <;> omega
      simp [negative, selfNeg]
    · simp [negative, wraps]
  · simp [negative]

/-- A regular float travels as its 13-bit biased integer form or as its whole pattern, and comes
back with the same bit pattern either way: `-0.0` and every NaN take the whole form. -/
theorem regular_roundTrip (bits : Int32) (v : Single) :
    ∃ B, Emits (writeFloatValue bits .regular v) () B ∧ Parses (readFloatValue bits .regular) B v := by
  by_cases integral : (Single.ofInt32 v.toInt32Sat).eqValue v = true ∧
      0 ≤ v.toInt32Sat + regularBias ∧ v.toInt32Sat + regularBias < 8192 ∧ v.bits ≠ 0x80000000
  · have ⟨same, low, high, notNegZero⟩ := integral
    -- the biased form is a number below 2 ^ 13, which 13 bits carry exactly
    obtain ⟨biased, biasedDef⟩ : ∃ b, b = v.toInt32Sat + regularBias := ⟨_, rfl⟩
    rw [← biasedDef] at low high
    have range : 0 ≤ biased.toInt ∧ biased.toInt < 8192 :=
      ⟨Int32.le_iff_toInt_le.mp low, Int32.lt_iff_toInt_lt.mp high⟩
    have raw : biased.toInt64.toUInt64.toNat = biased.toInt.toNat := by
      rw [Int64.toNat_toUInt64_of_le (Int64.le_iff_toInt_le.mpr (by simpa using range.1))]
      simp [Int64.toNatClampNeg]
    have carried : (extendSign 13 (UInt64.ofNat (Bits.toNat
        (Bits.ofNat (widthOf 13).toNat biased.toInt64.toUInt64.toNat)))).toInt32 = biased := by
      apply Int32.toInt_inj.mp
      have small : biased.toInt.toNat % 2 ^ 13 = biased.toInt.toNat := Nat.mod_eq_of_lt (by omega)
      rw [extendSign_of_not_neg (by decide), Bits.toNat_ofNat, raw]
      change (UInt64.ofNat (biased.toInt.toNat % 2 ^ 13)).toInt64.toInt32.toInt = _
      rw [small, UInt64.toInt64_ofNat', Int64.toInt_toInt32, Int64.toInt_ofNat_of_lt (by omega)]
      simp only [Int.bmod]
      split <;> omega
    -- equal values here mean equal patterns: the only other case, two zeros, is ruled out
    -- for `-0.0` by the test and gives back `+0.0` otherwise
    have back : Single.ofInt32 v.toInt32Sat = v := by
      simp only [Single.eqValue, Bool.and_eq_true, Bool.not_eq_true', Bool.or_eq_true,
        decide_eq_true_eq] at same
      rcases same with ⟨-, equal | ⟨-, zero⟩⟩
      · have eta : Single.ofInt32 v.toInt32Sat = ⟨(Single.ofInt32 v.toInt32Sat).bits⟩ := rfl
        rw [eta, equal]
      · have positiveZero : v = ⟨0⟩ := by
          have doubled : v.bits.toNat * 2 % 4294967296 = 0 := by
            have shifted := congrArg UInt32.toNat zero
            simpa [UInt32.toNat_shiftLeft, Nat.shiftLeft_eq] using shifted
          have excluded : v.bits.toNat ≠ 2147483648 := fun h => notNegZero (UInt32.toNat_inj.mp h)
          have bound := v.bits.toNat_lt
          have cleared : v.bits = 0 := UInt32.toNat_inj.mp (by simp; omega)
          have eta : v = ⟨v.bits⟩ := rfl
          rw [eta, cleared]
        subst positiveZero
        decide
    refine ⟨[false] ++ Bits.ofNat (widthOf 13).toNat biased.toInt64.toUInt64.toNat, ?_, ?_⟩
    · simp only [writeFloatValue, if_pos integral]
      rw [← biasedDef]
      exact (emits_writeBool false).seq (emits_writeBits biased.toInt64 13 (by decide))
    · simp only [readFloatValue]
      refine (parses_readBool false).bind ?_
      refine ((parses_readBits 13 (by decide) _ (Bits.length_ofNat _ _)).map _).of_eq rfl ?_
      show Single.ofInt32 ((extendSign 13 _).toInt32 - regularBias) = v
      rw [carried, biasedDef, Int32.add_sub_cancel, back]
  · refine ⟨[true] ++ Bits.ofNat 32 v.bits.toNat, ?_, ?_⟩
    · simp only [writeFloatValue, if_neg integral]
      exact (emits_writeBool true).seq (emits_writeFloat v)
    · simp only [readFloatValue]
      exact (parses_readBool true).bind (parses_readFloat v)

theorem validWidth_magnitude (bits : Int32) :
    ValidWidth (if bits < 0 then -bits else bits) ↔ ValidWidth bits := by
  unfold ValidWidth
  rw [widthOf_magnitude]

theorem raw_aligned {α : Type} (value : Int64) (bits : Int32) (valid : ValidWidth bits)
    (decodeValue : Int64 → α) :
    ∃ B y, Emits (writeBits value bits) () B ∧ Parses (readBits bits >>= fun r => pure (decodeValue r)) B y :=
  ⟨_, _, emits_writeBits value bits valid, (parses_readBits bits valid _ (Bits.length_ofNat _ _)).map decodeValue⟩

/-- Every float kind's reader takes back exactly the bits its writer laid down, given a width the
codec can move; a regular float needs none. -/
theorem floatValue_aligned (bits : Int32) (kind : FieldKind) (v : Single)
    (valid : kind = .regular ∨ ValidWidth bits) :
    ∃ B y, Emits (writeFloatValue bits kind v) () B ∧ Parses (readFloatValue bits kind) B y := by
  cases kind with
  | regular =>
    obtain ⟨B, emits, parses⟩ := regular_roundTrip bits v
    exact ⟨B, v, emits, parses⟩
  | angle | coord | animWeight | alpha =>
    -- these kinds move the magnitude of the width
    simp only [writeFloatValue, readFloatValue]
    exact raw_aligned _ _ ((validWidth_magnitude bits).mpr (valid.resolve_left nofun)) _
  | animTime | scale | velocity =>
    simp only [writeFloatValue, readFloatValue]
    exact raw_aligned _ _ (valid.resolve_left nofun) _

section Shortcut

variable {S V : Type} (zs : Bool) (zero : Prop) [Decidable zero]

theorem emits_shortcut {writeValue : Wire Unit} {B : List Bool} (emits : Emits writeValue () B) :
    Emits (if zs = true then (if zero then writeBool false else writeBool true >>= fun _ => writeValue)
        else writeValue) () (if zs = true then (if zero then [false] else true :: B) else B) := by
  cases zs with
  | false => simpa using emits
  | true =>
    by_cases isZero : zero
    · simpa [isZero] using emits_writeBool false
    · simpa [isZero] using (emits_writeBool true).seq emits

theorem parses_shortcut {readValue : Wire V} {B : List Bool} {y : V} (parses : Parses readValue B y)
    (some : V → S) (none : S) :
    Parses (if zs = true then
          readBool >>= fun nonzero => if nonzero = true then readValue >>= (fun v => pure (some v)) else pure none
        else pure true >>= fun nonzero =>
          if nonzero = true then readValue >>= (fun v => pure (some v)) else pure none)
      (if zs = true then (if zero then [false] else true :: B) else B)
      (if zs = true ∧ zero then none else some y) := by
  cases zs with
  | false =>
    simp only [Bool.false_eq_true, if_false, false_and]
    refine Parses.of_eq ((parses_pure true).bind ?_) (List.nil_append B) rfl
    exact parses.map some
  | true =>
    by_cases isZero : zero
    · simp only [if_true, isZero, and_self]
      refine Parses.of_eq ((parses_readBool false).bind ?_) rfl rfl
      exact parses_pure none
    · simp only [if_true, isZero, true_and, if_false]
      refine Parses.of_eq ((parses_readBool true).bind ?_) rfl rfl
      exact parses.map some

end Shortcut

end Wire

section Fields

variable {S : Type}

/-- A field that the codec can carry: an integer field holds 1 to 32 bits of its `Int32`, a
fixed-point float 1 to 64 bits, and a regular float ignores its width. -/
def NetField.Valid (f : NetField S) : Prop :=
  match f.access with
  | .int _ _ => Wire.ValidWidth f.bits ∧ (Wire.widthOf f.bits).toNat ≤ 32
  | .float _ _ => f.kind = .regular ∨ Wire.ValidWidth f.bits

instance (f : NetField S) : Decidable f.Valid :=
  match f with
  | ⟨_, bits, _, .int _ _⟩ => inferInstanceAs (Decidable (Wire.ValidWidth bits ∧ (Wire.widthOf bits).toNat ≤ 32))
  | ⟨_, bits, kind, .float _ _⟩ => inferInstanceAs (Decidable (kind = .regular ∨ Wire.ValidWidth bits))

/-- What a field of `source` makes of `acc` when it travels alone: the state that `readField` reads
into `acc` from the bytes that `writeField` wrote for `source`. -/
def NetField.transmit (zs : Bool) (f : NetField S) (source acc : S) : S :=
  match ((Message.ofBytes (Message.encode (Wire.writeField zs f source)).2).run (Wire.readField zs f acc)).1 with
  | .ok s => s
  | .error _ => acc

def NetField.patch (f : NetField S) (zs : Bool) (base target acc : S) : S :=
  if f.differs base target then f.transmit zs target acc else acc

/-- The state a delta from `base` to `target` makes of `base`: every field in which they differ,
in table order, takes the value it travels with. -/
def FieldTable.patch (t : FieldTable S) (base target : S) : S :=
  t.fields.foldl (fun acc f => f.patch t.zeroShortcut base target acc) base

end Fields

namespace Wire

variable {S : Type}

theorem transmit_eq_of_parses {zs : Bool} {f : NetField S} {source acc result : S} {B : List Bool}
    (emits : Emits (writeField zs f source) () B) (parses : Parses (readField zs f acc) B result) :
    f.transmit zs source acc = result := by
  unfold NetField.transmit
  rw [(parses_encode emits parses).2]

theorem int_roundTrip (zs : Bool) (f : NetField S) {get : S → Int32} {set : S → Int32 → S}
    (access : f.access = .int get set) (valid : ValidWidth f.bits) (narrow : (widthOf f.bits).toNat ≤ 32)
    (source : S) :
    ∃ B, Emits (writeField zs f source) () B ∧
      ∀ acc, Parses (readField zs f acc) B (set acc (fitInt f.bits (get source))) := by
  refine ⟨_, by simp only [writeField, access]; exact emits_shortcut zs (get source = 0) (emits_writeBits _ _ valid),
    fun acc => ?_⟩
  · have value := parses_readBits f.bits valid _ (Bits.length_ofNat _ (get source).toInt64.toUInt64.toNat)
    rw [Bits.toNat_ofNat] at value
    simp only [readField, access]
    refine (parses_shortcut zs (get source = 0) value (fun r => set acc r.toInt32) (set acc 0)).of_eq rfl ?_
    by_cases shortcutZero : zs = true ∧ get source = 0
    · rw [if_pos shortcutZero, shortcutZero.2, fitInt_zero]
    · rw [if_neg shortcutZero, toInt32_extendSign_low f.bits valid narrow]

theorem float_roundTrip (zs : Bool) (f : NetField S) {get : S → Single} {set : S → Single → S}
    (access : f.access = .float get set) (source : S) {B : List Bool} {y : Single}
    (emits : Emits (writeFloatValue f.bits f.kind (get source)) () B)
    (parses : Parses (readFloatValue f.bits f.kind) B y) :
    ∃ B', Emits (writeField zs f source) () B' ∧
      ∀ acc, Parses (readField zs f acc) B'
        (set acc (if zs = true ∧ (get source).bits = 0 then Single.zero else y)) := by
  refine ⟨_, by simp only [writeField, access]; exact emits_shortcut zs ((get source).bits = 0) emits,
    fun acc => ?_⟩
  simp only [readField, access]
  exact (parses_shortcut zs ((get source).bits = 0) parses (set acc) (set acc Single.zero)).of_eq rfl
    (apply_ite (set acc) _ _ _).symm

/-- Every valid field's reader takes back the bits its writer laid down, and reads them into any
state as the field's transmission. -/
theorem field_roundTrip (zs : Bool) (f : NetField S) (valid : f.Valid) (source : S) :
    ∃ B, Emits (writeField zs f source) () B ∧ ∀ acc, Parses (readField zs f acc) B (f.transmit zs source acc) := by
  obtain ⟨B, emits, parses⟩ :
      ∃ B, Emits (writeField zs f source) () B ∧ ∀ acc, ∃ y, Parses (readField zs f acc) B y := by
    cases access : f.access with
    | int get set =>
      simp only [NetField.Valid, access] at valid
      obtain ⟨B, emits, parses⟩ := int_roundTrip zs f access valid.1 valid.2 source
      exact ⟨B, emits, fun acc => ⟨_, parses acc⟩⟩
    | float get set =>
      simp only [NetField.Valid, access] at valid
      obtain ⟨B, y, emits, parses⟩ := floatValue_aligned f.bits f.kind (get source) valid
      obtain ⟨B', emits', parses'⟩ := float_roundTrip zs f access source emits parses
      exact ⟨B', emits', fun acc => ⟨_, parses' acc⟩⟩
  refine ⟨B, emits, fun acc => ?_⟩
  obtain ⟨y, parsesY⟩ := parses acc
  rw [transmit_eq_of_parses emits parsesY]
  exact parsesY

theorem transmit_int (zs : Bool) (f : NetField S) {get : S → Int32} {set : S → Int32 → S}
    (access : f.access = .int get set) (valid : ValidWidth f.bits) (narrow : (widthOf f.bits).toNat ≤ 32)
    (source acc : S) :
    f.transmit zs source acc = set acc (fitInt f.bits (get source)) := by
  obtain ⟨B, emits, parses⟩ := int_roundTrip zs f access valid narrow source
  exact transmit_eq_of_parses emits (parses acc)

/-- A regular float field transmits its value's bit pattern unchanged, `-0.0` and every NaN
payload included. -/
theorem transmit_regular (zs : Bool) (f : NetField S) {get : S → Single} {set : S → Single → S}
    (access : f.access = .float get set) (regular : f.kind = .regular) (source acc : S) :
    f.transmit zs source acc = set acc (get source) := by
  obtain ⟨B, emits, parses⟩ := regular_roundTrip f.bits (get source)
  rw [← regular] at emits parses
  obtain ⟨B', emits', parses'⟩ := float_roundTrip zs f access source emits parses
  rw [transmit_eq_of_parses emits' (parses' acc)]
  by_cases shortcutZero : zs = true ∧ (get source).bits = 0
  · -- the shortcut's zero is the value itself: a float is its bit pattern
    have eta : get source = ⟨(get source).bits⟩ := rfl
    rw [if_pos shortcutZero, eta, shortcutZero.2]
    rfl
  · rw [if_neg shortcutZero]

theorem changes_roundTrip (zs : Bool) (base target : S) (fs : List (NetField S))
    (valid : ∀ f ∈ fs, f.Valid) :
    ∃ B, Emits (writeChanges zs base target fs) () B ∧
      ∀ acc, Parses (readChanges zs acc fs) B (fs.foldl (fun acc f => f.patch zs base target acc) acc) := by
  induction fs with
  | nil => exact ⟨[], emits_pure (), fun acc => parses_pure acc⟩
  | cons f rest ih =>
    obtain ⟨Brest, emitsRest, parsesRest⟩ := ih (fun g mem => valid g (List.mem_cons_of_mem f mem))
    by_cases changed : f.differs base target = true
    · obtain ⟨Bf, emitsF, parsesF⟩ := field_roundTrip zs f (valid f List.mem_cons_self) target
      refine ⟨[true] ++ (Bf ++ Brest), ?_, fun acc => ?_⟩
      · simp only [writeChanges, if_pos changed]
        exact (emits_writeBool true).seq (emitsF.bind emitsRest)
      · simp only [readChanges, List.foldl_cons, NetField.patch, if_pos changed]
        exact (parses_readBool true).bind ((parsesF acc).bind (parsesRest _))
    · refine ⟨[false] ++ Brest, ?_, fun acc => ?_⟩
      · simp only [writeChanges, if_neg changed]
        exact (emits_writeBool false).seq emitsRest
      · simp only [readChanges, List.foldl_cons, NetField.patch, if_neg changed]
        exact (parses_readBool false).bind ((parses_pure acc).bind (parsesRest acc))

theorem lastChanged_spec (t : FieldTable S) (a b : S) :
    t.lastChanged a b ≤ t.fields.length ∧
      ∀ f ∈ t.fields.drop (t.lastChanged a b), f.differs a b = false := by
  have unfolded : t.lastChanged a b =
      (t.fields.zipIdx.filter fun x => x.1.differs a b).foldl (fun _ x => x.2 + 1) 0 := rfl
  rw [unfolded]
  generalize t.fields = fs
  -- from the back: a last field that differs sets the count to the whole list
  induction fs using List.reverseRecOn with
  | nil => simp
  | append_singleton fs f ih =>
    have step : ((fs ++ [f]).zipIdx.filter fun x => x.1.differs a b).foldl (fun _ x => x.2 + 1) 0 =
        if f.differs a b then fs.length + 1
        else (fs.zipIdx.filter fun x => x.1.differs a b).foldl (fun _ x => x.2 + 1) 0 := by
      rw [List.zipIdx_append, List.filter_append, List.foldl_append]
      by_cases changed : f.differs a b <;> simp [changed]
    rw [step]
    by_cases changed : f.differs a b = true
    · simp [changed]
    · obtain ⟨bound, unchanged⟩ := ih
      rw [if_neg changed]
      refine ⟨by rw [List.length_append, List.length_singleton]; omega, fun g mem => ?_⟩
      rw [List.drop_append_of_le_length bound] at mem
      rcases List.mem_append.mp mem with early | last
      · exact unchanged g early
      · rw [List.mem_singleton.mp last]
        simpa using changed

theorem foldl_patch_of_unchanged (zs : Bool) (base target : S) (fs : List (NetField S))
    (unchanged : ∀ f ∈ fs, f.differs base target = false) (acc : S) :
    fs.foldl (fun acc f => f.patch zs base target acc) acc = acc := by
  induction fs generalizing acc with
  | nil => rfl
  | cons f rest ih =>
    rw [List.foldl_cons, NetField.patch, if_neg (by simp [unchanged f List.mem_cons_self])]
    exact ih (fun g mem => unchanged g (List.mem_cons_of_mem f mem)) acc

theorem patch_eq_take (t : FieldTable S) (base target : S) :
    (t.fields.take (t.lastChanged base target)).foldl
      (fun acc f => f.patch t.zeroShortcut base target acc) base = t.patch base target := by
  obtain ⟨-, unchanged⟩ := lastChanged_spec t base target
  unfold FieldTable.patch
  conv_rhs => rw [← List.take_append_drop (t.lastChanged base target) t.fields]
  rw [List.foldl_append, foldl_patch_of_unchanged _ _ _ _ unchanged]

/-- A delta with something to say, or forced, is its count byte and its change list, and reads
back against its base as the patch from the base to the target. -/
theorem deltaFields_roundTrip (t : FieldTable S) (valid : ∀ f ∈ t.fields, f.Valid)
    (fits : t.fields.length < 256) (base target : S) (force : Bool)
    (loud : ¬ (t.lastChanged base target = 0 ∧ ¬ force = true)) :
    ∃ B, Emits (writeDeltaFields t base target force) true B ∧
      Parses (readDeltaFields t base) B (t.patch base target) := by
  obtain ⟨bound, -⟩ := lastChanged_spec t base target
  obtain ⟨B, emits, parses⟩ := changes_roundTrip t.zeroShortcut base target
    (t.fields.take (t.lastChanged base target)) (fun f mem => valid f (List.mem_of_mem_take mem))
  have byte : (t.lastChanged base target).toUInt8.toNat = t.lastChanged base target := by
    rw [Nat.toUInt8_eq, UInt8.toNat_ofNat_of_lt' (by simp only [UInt8.size]; omega)]
  refine ⟨Bits.ofNat 8 (t.lastChanged base target).toUInt8.toNat ++ (B ++ []), ?_, ?_⟩
  · simp only [writeDeltaFields, if_neg loud]
    exact (emits_writeByte _).seq (emits.seq (emits_pure true))
  · simp only [readDeltaFields]
    refine (parses_readByte _).bind ?_
    simp only [byte, if_neg (Nat.not_lt.mpr bound)]
    rw [← patch_eq_take]
    exact (parses base).of_eq (List.append_nil B).symm rfl

/-- A delta that was written reads back, against its base, as the patch from the base to the
target, for every table of valid fields that a count byte can cover. -/
theorem readDeltaFields_encode (t : FieldTable S) (valid : ∀ f ∈ t.fields, f.Valid)
    (fits : t.fields.length < 256) (base target : S) (force : Bool)
    (wrote : (Message.encode (writeDeltaFields t base target force)).1 = .ok true) :
    ((Message.ofBytes (Message.encode (writeDeltaFields t base target force)).2).run
      (readDeltaFields t base)).1 = .ok (t.patch base target) := by
  by_cases silent : t.lastChanged base target = 0 ∧ ¬force = true
  · -- a delta with nothing to say is not written, and its writer answers false
    have quiet : writeDeltaFields t base target force = pure false := by
      simp only [writeDeltaFields, if_pos silent]
    rw [quiet, (parses_encode (emits_pure false) (parses_pure ())).1] at wrote
    cases wrote
  · obtain ⟨B, emits, parses⟩ := deltaFields_roundTrip t valid fits base target force silent
    exact (parses_encode emits parses).2

end Wire

end Netcode
