import Mathlib
import Netcode.Proofs.Delta.Fixed
import Netcode.Proofs.Snapshot.Ring
import Netcode.Proofs.Wire.Stateful

set_option autoImplicit false

namespace Netcode

open Wire

namespace Protocol

variable (p : Protocol)

theorem widthOf_numberBits : (widthOf p.numberBits.toInt32).toNat = p.numberBits := by
  cases family : p.family <;> simp [numberBits, family] <;> decide

theorem numberBits_valid : ValidWidth p.numberBits.toInt32 := by
  cases family : p.family <;> simp [numberBits, family] <;> decide

theorem numberBits_nonneg : ¬ p.numberBits.toInt32 < 0 := by
  cases family : p.family <;> simp [numberBits, family] <;> decide

theorem noneNumber_lt : p.noneNumber < 2 ^ p.numberBits := by
  cases family : p.family <;> simp [noneNumber, maxEntities, numberBits, family]

theorem maxEntities_pos : 0 < p.maxEntities :=
  Nat.two_pow_pos p.numberBits

theorem eight_le_numberBits : 8 ≤ p.numberBits := by
  cases family : p.family <;> simp [numberBits, family]

/-- A number a snapshot's entity can have: one of the slots, below the number that ends an
update list. -/
def Numbered (e : EntityState) : Prop :=
  0 ≤ e.number ∧ e.number.toInt < p.maxEntities - 1

section Numbers

variable (x : Int32) (nonneg : 0 ≤ x)
include nonneg

theorem toNat_numberWord : x.toInt64.toUInt64.toNat = x.toNatClampNeg := by
  have wide : (0 : Int64) ≤ x.toInt64 := by
    rw [Int64.le_iff_toInt_le, Int32.toInt_toInt64]
    simpa [Int32.le_iff_toInt_le] using nonneg
  rw [Int64.toNat_toUInt64_of_le wide, Int32.toNatClampNeg_toInt64]

theorem numberWord_eq : x.toInt64.toUInt64.toUInt32 = x.toUInt32 := by
  apply UInt32.toNat_inj.mp
  rw [UInt64.toNat_toUInt32, toNat_numberWord x nonneg, Int32.toNat_toUInt32_of_le nonneg]
  have := Int32.toNatClampNeg_lt x
  omega

theorem numberWord_toInt32 : x.toInt64.toUInt64.toUInt32.toInt32 = x := by
  rw [numberWord_eq x nonneg, Int32.toInt32_toUInt32]

end Numbers

theorem toUInt32_le_toUInt32 {x y : Int32} (hx : 0 ≤ x) (hy : 0 ≤ y) : x.toUInt32 ≤ y.toUInt32 ↔ x ≤ y := by
  rw [UInt32.le_iff_toNat_le, Int32.toNat_toUInt32_of_le hx, Int32.toNat_toUInt32_of_le hy,
    Int32.le_iff_toInt_le, ← Int32.cast_toNatClampNeg x hx, ← Int32.cast_toNatClampNeg y hy]
  omega

theorem toUInt32_inj {x y : Int32} : x.toUInt32 = y.toUInt32 ↔ x = y :=
  ⟨fun same => by rw [← Int32.toInt32_toUInt32 x, same, Int32.toInt32_toUInt32], congrArg _⟩

/-- The number an entity update names, as its reader gets it. -/
def slotNumber (e : EntityState) : UInt32 :=
  e.number.toInt64.toUInt64.toUInt32

variable {p}

theorem Numbered.toNat_lt {e : EntityState} (numbered : p.Numbered e) : e.number.toNatClampNeg < p.noneNumber := by
  obtain ⟨nonneg, below⟩ := numbered
  have clamp : (e.number.toNatClampNeg : Int) = e.number.toInt := by
    rw [Int32.toNatClampNeg]
    have : 0 ≤ e.number.toInt := by simpa [Int32.le_iff_toInt_le] using nonneg
    omega
  simp only [noneNumber]
  omega

theorem Numbered.slotNumber_eq {e : EntityState} (numbered : p.Numbered e) : slotNumber e = e.number.toUInt32 :=
  numberWord_eq _ numbered.1

theorem Numbered.toNat_slotNumber {e : EntityState} (numbered : p.Numbered e) :
    (slotNumber e).toNat = e.number.toNatClampNeg := by
  rw [numbered.slotNumber_eq, Int32.toNat_toUInt32_of_le numbered.1]

theorem Numbered.not_end {e : EntityState} (numbered : p.Numbered e) : (slotNumber e).toNat ≠ p.noneNumber := by
  rw [numbered.toNat_slotNumber]
  exact Nat.ne_of_lt numbered.toNat_lt

theorem Numbered.stops {e n : EntityState} (source : p.Numbered e) (named : p.Numbered n) :
    (some (slotNumber n)).any (e.number.toUInt32 ≥ ·) = decide (n.number ≤ e.number) := by
  rw [Option.any_some, named.slotNumber_eq]
  exact decide_eq_decide.mpr (toUInt32_le_toUInt32 named.1 source.1)

theorem Numbered.passes {e n : EntityState} (source : p.Numbered e) (named : p.Numbered n)
    (below : e.number < n.number) : (some (slotNumber n)).any (e.number.toUInt32 ≥ ·) = false := by
  rw [source.stops named]
  exact decide_eq_false (Int32.not_le.mpr below)

theorem Numbered.halts {e n : EntityState} (source : p.Numbered e) (named : p.Numbered n)
    (above : n.number ≤ e.number) : (some (slotNumber n)).any (e.number.toUInt32 ≥ ·) = true := by
  rw [source.stops named]
  exact decide_eq_true above

theorem Numbered.baselineFor_slotNumber {g : GameState} {n : EntityState} (numbered : p.Numbered n) :
    baselineFor g (slotNumber n) = writeBaseFor g n.number := by
  simp only [baselineFor, writeBaseFor, numbered.slotNumber_eq, Int32.toNat_toUInt32_of_le numbered.1,
    Int32.toInt32_toUInt32, if_neg (Int32.not_lt.mpr numbered.1)]

theorem Numbered.inRange {e : EntityState} (numbered : p.Numbered e) :
    ¬ (e.number < 0 ∨ e.number.toInt ≥ p.maxEntities - 1) := by
  rintro (negative | beyond)
  · exact absurd negative (Int32.not_lt.mpr numbered.1)
  · exact absurd numbered.2 (by omega)

theorem number_roundTrip {e : EntityState} (numbered : p.Numbered e) :
    Emits (writeBits e.number.toInt64 p.numberBits.toInt32) () (Bits.ofNat p.numberBits e.number.toNatClampNeg) ∧
      Parses p.readNumber (Bits.ofNat p.numberBits e.number.toNatClampNeg) (slotNumber e) := by
  have fits : e.number.toInt64.toUInt64.toNat < 2 ^ (widthOf p.numberBits.toInt32).toNat := by
    rw [toNat_numberWord _ numbered.1, widthOf_numberBits]
    exact Nat.lt_trans numbered.toNat_lt (noneNumber_lt p)
  obtain ⟨emits, parses⟩ := unsigned_roundTrip _ _ (numberBits_valid p) (numberBits_nonneg p) fits
  rw [widthOf_numberBits, toNat_numberWord _ numbered.1] at emits parses
  exact ⟨emits, (parses.map _).of_eq rfl rfl⟩

variable (p) in
theorem toNat_noneNumber : p.noneNumber.toUInt32.toNat = p.noneNumber := by
  have small : p.noneNumber < 2 ^ 32 := by
    cases family : p.family <;> simp [noneNumber, maxEntities, numberBits, family]
  rw [Nat.toUInt32_eq, UInt32.toNat_ofNat_of_lt' small]

theorem endNumber_roundTrip :
    Emits (p.writeNumber p.noneNumber.toUInt32) () (Bits.ofNat p.numberBits p.noneNumber) ∧
      Parses p.readNumber (Bits.ofNat p.numberBits p.noneNumber) p.noneNumber.toUInt32 := by
  have word : p.noneNumber.toUInt32.toUInt64.toNat = p.noneNumber := by
    rw [UInt32.toNat_toUInt64, toNat_noneNumber]
  have fits : p.noneNumber.toUInt32.toUInt64.toNat < 2 ^ (widthOf p.numberBits.toInt32).toNat := by
    rw [word, widthOf_numberBits]
    exact noneNumber_lt p
  obtain ⟨emits, parses⟩ := unsigned_roundTrip _ _ (numberBits_valid p) (numberBits_nonneg p) fits
  rw [widthOf_numberBits, word] at emits parses
  have inRange : ¬ p.noneNumber.toUInt32.toNat ≥ p.maxEntities := by
    rw [← UInt32.toNat_toUInt64, word]
    simp only [noneNumber]
    have := maxEntities_pos p
    omega
  refine ⟨by simpa only [writeNumber, if_neg inRange, pure_bind] using emits, (parses.map _).of_eq rfl ?_⟩
  simp

theorem removal_roundTrip {o : EntityState} (numbered : p.Numbered o) (base : Option EntityState)
    (number : UInt32) :
    Emits (p.writeDeltaEntity (some o) none true) () (Bits.ofNat p.numberBits o.number.toNatClampNeg ++ [true]) ∧
      Parses (p.readDeltaEntity base number) [true] none := by
  refine ⟨?_, ?_⟩
  · simp only [writeDeltaEntity]
    exact (number_roundTrip numbered).1.seq (emits_writeBool true)
  · simp only [readDeltaEntity]
    exact ((parses_readBool true).bind (by simpa using parses_pure none)).of_eq rfl rfl

/-- An update of a present entity, with something to say or forced, reads back as the patch of its
base under the number it names. -/
theorem update_roundTrip {base n : EntityState} (force : Bool) (numbered : p.Numbered n)
    (loud : ¬ (p.entityTable.lastChanged base n = 0 ∧ force = false)) :
    ∃ B, Emits (p.writeDeltaEntity (some base) (some n) force) () (Bits.ofNat p.numberBits n.number.toNatClampNeg ++ B) ∧
      Parses (p.readDeltaEntity (some base) (slotNumber n)) B (some { p.entityTable.patch base n with number := n.number }) := by
  have inRange := numbered.inRange
  have named : (slotNumber n).toInt32 = n.number := numberWord_toInt32 _ numbered.1
  obtain ⟨numberOut, -⟩ := number_roundTrip numbered
  by_cases unchanged : p.entityTable.lastChanged base n = 0
  · -- a forced update with nothing changed says so in two bits, and its base stands
    have forced : force = true := by cases force <;> simp_all
    have still : p.entityTable.patch base n = base := by
      rw [← Wire.patch_eq_take, unchanged]
      rfl
    refine ⟨[false] ++ [false], ?_, ?_⟩
    · simp only [writeDeltaEntity, if_neg inRange, Option.getD_some, unchanged, forced, if_true]
      exact numberOut.seq ((emits_writeBool false).seq (emits_writeBool false))
    · simp only [readDeltaEntity, Option.getD_some]
      refine (parses_readBool false).bind ?_
      simp only [Bool.false_eq_true, if_false]
      refine ((parses_readBool false).bind ?_).of_eq (List.append_nil _) rfl
      simp only [Bool.false_eq_true, if_false, pure_bind, still, named]
      exact parses_pure _
  · obtain ⟨D, deltaOut, deltaIn⟩ := deltaFields_roundTrip p.entityTable (entityTable_valid p)
      (entityTable_length p) base n true (by simp)
    refine ⟨[false] ++ ([true] ++ (D ++ [])), ?_, ?_⟩
    · simp only [writeDeltaEntity, if_neg inRange, Option.getD_some, unchanged, if_false]
      exact numberOut.seq ((emits_writeBool false).seq ((emits_writeBool true).seq (deltaOut.bind (emits_pure ()))))
    · simp only [readDeltaEntity, Option.getD_some]
      refine (parses_readBool false).bind ?_
      simp only [Bool.false_eq_true, if_false]
      refine (parses_readBool true).bind ?_
      simp only [if_true, named]
      exact deltaIn.bind (parses_pure _)

theorem update_silent {base n : EntityState} (numbered : p.Numbered n)
    (unchanged : p.entityTable.lastChanged base n = 0) :
    p.writeDeltaEntity (some base) (some n) false = pure () := by
  have inRange := numbered.inRange
  simp only [writeDeltaEntity, if_neg inRange, Option.getD_some, unchanged]
  rfl

theorem patch_number {n : EntityState} (fixed : p.entityTable.Fixed n) (base : EntityState) :
    { p.entityTable.patch base n with number := n.number } = n := by
  cases family : p.family <;> simp only [entityTable, family] at fixed ⊢
  · exact EntityState.patch_of_fixed false base n fixed
  · exact EntityState.patch_of_fixed true base n fixed

theorem eq_of_unchanged {o n : EntityState} (fixed : p.entityTable.Fixed n) (same : o.number = n.number)
    (unchanged : p.entityTable.lastChanged o n = 0) : o = n := by
  have still : p.entityTable.patch o n = o := by
    rw [← Wire.patch_eq_take, unchanged]
    rfl
  have rebuilt := patch_number fixed o
  rw [still, ← same] at rebuilt
  exact rebuilt

section Reader

open SnapshotManager

variable {g : GameState} {old : Option RawSnapshot}

/-- Carrying over runs through the source entities that the bound does not stop, pushing each,
and halts at the first one it stops, or at the end of the source. -/
theorem carryOver_parses (bound : Option UInt32) :
    ∀ (pending rest : List EntityState) (fuel : Nat) (c : OldCursor) (count room : Nat) (mgr : SnapshotManager),
      mgr.Holds old c.index (pending ++ rest) (pending.length + room) →
      c.state = (pending ++ rest).head? →
      (∀ e ∈ pending, bound.any (e.number.toUInt32 ≥ ·) = false) →
      (∀ e ∈ rest.head?, bound.any (e.number.toUInt32 ≥ ·) = true) →
      pending.length ≤ fuel →
      ∃ c', c'.index = c.index + pending.length ∧ c'.state = rest.head? ∧
        WireWith.Parses (carryOver old bound fuel c count) [] mgr (c', count + pending.length)
          (pending.foldl SnapshotManager.push mgr)
  | [], rest, fuel, c, count, room, mgr, _, cursor, _, stops, _ => by
    -- nothing to carry: the cursor already stands at the entity that stops it, or at the end
    refine ⟨c, rfl, cursor, ?_⟩
    cases fuel with
    | zero => exact WireWith.parses_pure _ _
    | succ fuel =>
      simp only [carryOver]
      cases rest with
      | nil =>
        rw [cursor]
        exact WireWith.parses_pure _ _
      | cons e rest =>
        rw [cursor]
        simp only [List.nil_append, List.head?_cons, if_pos (stops e rfl)]
        exact WireWith.parses_pure _ _
  | x :: pending, rest, fuel, c, count, room, mgr, holds, cursor, below, stops, enough => by
    obtain ⟨fuel, rfl⟩ : ∃ f, fuel = f + 1 := ⟨fuel - 1, by simp at enough; omega⟩
    have moved : (mgr.push x).Holds old (c.index + 1) (pending ++ rest) (pending.length + room) :=
      (Holds.push x (by simpa [Nat.add_right_comm] using holds)).next
    obtain ⟨c', index', state', parses⟩ := carryOver_parses bound pending rest fuel (c.next (mgr.push x) old)
      (count + 1) room (mgr.push x) moved moved.oldEntity (fun e mem => below e (List.mem_cons_of_mem x mem))
      stops (by simp at enough; omega)
    refine ⟨c', by simp [index', OldCursor.next]; omega, state', ?_⟩
    simp only [carryOver, cursor, List.cons_append, List.head?_cons, below x List.mem_cons_self]
    refine ((WireWith.parses_update _ mgr).bind ((WireWith.parses_value _).bind parses)).of_eq rfl
      (by simp; omega) rfl

theorem carry_pending (bound : Option UInt32) {pending rest : List EntityState} {c : OldCursor}
    {count room : Nat} {mgr : SnapshotManager}
    (holds : mgr.Holds old c.index (pending ++ rest) (pending.length + room))
    (cursor : c.state = (pending ++ rest).head?)
    (below : ∀ e ∈ pending, bound.any (e.number.toUInt32 ≥ ·) = false)
    (stops : ∀ e ∈ rest.head?, bound.any (e.number.toUInt32 ≥ ·) = true) :
    ∃ c', c'.index = c.index + pending.length ∧ c'.state = rest.head? ∧
      WireWith.Parses (carryOver old bound ((old.map (·.numEntities)).getD 0 + 1) c count) [] mgr
        (c', count + pending.length) (pending.foldl SnapshotManager.push mgr) := by
  have enough := holds.length_le
  rw [List.length_append] at enough
  exact carryOver_parses bound pending rest _ c count room mgr holds cursor below stops (by omega)

section Rounds

variable {fuel count count₁ result : Nat} {c c₁ : OldCursor} {mgr mgr₁ final : SnapshotManager}
  {number : UInt32} {N U R : List Bool}

theorem round_end
    (named : Parses p.readNumber N number) (isEnd : number.toNat = p.noneNumber)
    (carried : WireWith.Parses (carryOver old none ((old.map (·.numEntities)).getD 0 + 1) c count) [] mgr
      (c₁, count₁) mgr₁) :
    WireWith.Parses (p.readPacketEntities g old (fuel + 1) c count) N mgr count₁ mgr₁ := by
  simp only [readPacketEntities]
  refine ((WireWith.parses_wire named mgr).bind ?_).of_eq (List.append_nil N) rfl rfl
  simp only [if_pos isEnd]
  exact carried.bind (WireWith.parses_pure _ _)

theorem round_matched {o s : EntityState}
    (named : Parses p.readNumber N number) (notEnd : number.toNat ≠ p.noneNumber)
    (carried : WireWith.Parses (carryOver old (some number) ((old.map (·.numEntities)).getD 0 + 1) c count) []
      mgr (c₁, count₁) mgr₁)
    (state : c₁.state = some o) (same : o.number.toUInt32 = number)
    (read : Parses (p.readDeltaEntity (some o) number) U (some s))
    (rest : WireWith.Parses (p.readPacketEntities g old fuel (c₁.next mgr₁ old) (count₁ + 1)) R (mgr₁.push s)
      result final) :
    WireWith.Parses (p.readPacketEntities g old (fuel + 1) c count) (N ++ U ++ R) mgr result final := by
  have bits : N ++ U ++ R = N ++ ([] ++ ([] ++ (U ++ ([] ++ R)))) := by simp
  rw [bits]
  simp only [readPacketEntities]
  refine (WireWith.parses_wire named mgr).bind ?_
  simp only [if_neg notEnd]
  refine carried.bind ((WireWith.parses_value _).bind ?_)
  simp only [state, if_pos same]
  exact (WireWith.parses_wire read _).bind ((WireWith.parses_update _ _).bind rest)

theorem round_removal {o : EntityState}
    (named : Parses p.readNumber N number) (notEnd : number.toNat ≠ p.noneNumber)
    (carried : WireWith.Parses (carryOver old (some number) ((old.map (·.numEntities)).getD 0 + 1) c count) []
      mgr (c₁, count₁) mgr₁)
    (state : c₁.state = some o) (same : o.number.toUInt32 = number)
    (read : Parses (p.readDeltaEntity (some o) number) U none)
    (rest : WireWith.Parses (p.readPacketEntities g old fuel (c₁.next mgr₁ old) count₁) R mgr₁ result final) :
    WireWith.Parses (p.readPacketEntities g old (fuel + 1) c count) (N ++ U ++ R) mgr result final := by
  have bits : N ++ U ++ R = N ++ ([] ++ ([] ++ (U ++ R))) := by simp
  rw [bits]
  simp only [readPacketEntities]
  refine (WireWith.parses_wire named mgr).bind ?_
  simp only [if_neg notEnd]
  refine carried.bind ((WireWith.parses_value _).bind ?_)
  simp only [state, if_pos same]
  exact (WireWith.parses_wire read _).bind rest

theorem round_new {s : EntityState}
    (named : Parses p.readNumber N number) (notEnd : number.toNat ≠ p.noneNumber)
    (carried : WireWith.Parses (carryOver old (some number) ((old.map (·.numEntities)).getD 0 + 1) c count) []
      mgr (c₁, count₁) mgr₁)
    (absent : ∀ o ∈ c₁.state, o.number.toUInt32 ≠ number)
    (read : Parses (p.readDeltaEntity (some (baselineFor g number)) number) U (some s))
    (rest : WireWith.Parses (p.readPacketEntities g old fuel c₁ (count₁ + 1)) R (mgr₁.push s) result final) :
    WireWith.Parses (p.readPacketEntities g old (fuel + 1) c count) (N ++ U ++ R) mgr result final := by
  have bits : N ++ U ++ R = N ++ ([] ++ ([] ++ (U ++ ([] ++ R)))) := by simp
  rw [bits]
  simp only [readPacketEntities]
  refine (WireWith.parses_wire named mgr).bind ?_
  simp only [if_neg notEnd]
  refine carried.bind ((WireWith.parses_value _).bind ?_)
  -- the cursor either stands past the source or at an entity of another number
  cases state : c₁.state with
  | none =>
    simp only
    exact (WireWith.parses_wire read _).bind ((WireWith.parses_update _ _).bind rest)
  | some o =>
    simp only [if_neg (absent o state)]
    exact (WireWith.parses_wire read _).bind ((WireWith.parses_update _ _).bind rest)

end Rounds

end Reader

/-- What the reader makes of the updates `B` from `olds` to `news`: from a cursor before `pending ++
olds` it pushes `pending ++ news`, while the source stays in the ring and fuel lasts. -/
def MergeReads (g : GameState) (old : Option RawSnapshot) (olds news : List EntityState) (B : List Bool) :
    Prop :=
  ∀ (pending : List EntityState) (fuel : Nat) (c : OldCursor) (count : Nat) (mgr : SnapshotManager),
    mgr.Holds old c.index (pending ++ olds) (pending.length + news.length) →
    c.state = (pending ++ olds).head? →
    (∀ e ∈ pending, p.Numbered e ∧ ∀ x ∈ olds ++ news, e.number < x.number) →
    (B ++ Bits.ofNat p.numberBits p.noneNumber).length < 8 * fuel →
    WireWith.Parses (p.readPacketEntities g old fuel c count) (B ++ Bits.ofNat p.numberBits p.noneNumber) mgr
      (count + pending.length + news.length) ((pending ++ news).foldl SnapshotManager.push mgr)

section Steps

open SnapshotManager

variable {g : GameState} {old : Option RawSnapshot}

theorem fuel_round {fuel e : Nat} {U B : List Bool}
    (enough : (Bits.ofNat p.numberBits e ++ U ++ B ++ Bits.ofNat p.numberBits p.noneNumber).length < 8 * fuel) :
    ∃ f, fuel = f + 1 ∧ (B ++ Bits.ofNat p.numberBits p.noneNumber).length < 8 * f := by
  have wide := eight_le_numberBits p
  simp only [List.length_append, Bits.length_ofNat] at enough
  exact ⟨fuel - 1, by omega, by simp; omega⟩

theorem mergeReads_nil : p.MergeReads g old [] [] [] := by
  intro pending fuel c count mgr holds cursor below enough
  obtain ⟨f, rfl⟩ : ∃ f, fuel = f + 1 := ⟨fuel - 1, by simp at enough; omega⟩
  -- the end of the list carries the rest of the source over
  obtain ⟨c₁, -, -, carried⟩ := carry_pending none holds cursor (fun _ _ => rfl) (fun e mem => by simp at mem)
  exact (round_end (endNumber_roundTrip).2 (toNat_noneNumber p) carried).of_eq (by simp) rfl (by simp)

theorem MergeReads.removal {o : EntityState} {os news : List EntityState} {B : List Bool}
    (numbered : p.Numbered o) (next : p.MergeReads g old os news B) :
    p.MergeReads g old (o :: os) news (Bits.ofNat p.numberBits o.number.toNatClampNeg ++ [true] ++ B) := by
  intro pending fuel c count mgr holds cursor below enough
  obtain ⟨f, rfl, budget⟩ := fuel_round enough
  obtain ⟨c₁, index₁, state₁, carried⟩ := carry_pending (some (slotNumber o)) holds cursor
    (fun e mem => (below e mem).1.passes numbered ((below e mem).2 o (by simp)))
    (fun e mem => by
      rw [List.head?_cons, Option.mem_some_iff] at mem
      exact mem ▸ numbered.halts numbered (Int32.le_refl _))
  have held := holds.skip pending
  rw [← index₁] at held
  obtain ⟨moved, state₂⟩ := held.advance
  have rest := next [] f _ (count + pending.length) _ (by simpa using moved) state₂ (by simp) budget
  exact (round_removal (number_roundTrip numbered).2 numbered.not_end carried state₁ numbered.slotNumber_eq.symm
    (removal_roundTrip numbered _ _).2 rest).of_eq (by simp) (by simp) (by simp)

theorem MergeReads.update {o n : EntityState} {os ns : List EntityState} {U B : List Bool}
    (numbered : p.Numbered n) (same : o.number = n.number)
    (read : Parses (p.readDeltaEntity (some o) (slotNumber n)) U (some n)) (next : p.MergeReads g old os ns B) :
    p.MergeReads g old (o :: os) (n :: ns) (Bits.ofNat p.numberBits n.number.toNatClampNeg ++ U ++ B) := by
  intro pending fuel c count mgr holds cursor below enough
  obtain ⟨f, rfl, budget⟩ := fuel_round enough
  have source : p.Numbered o := by
    unfold Numbered
    rw [same]
    exact numbered
  obtain ⟨c₁, index₁, state₁, carried⟩ := carry_pending (some (slotNumber n)) holds cursor
    (fun e mem => (below e mem).1.passes numbered ((below e mem).2 n (by simp)))
    (fun e mem => by
      rw [List.head?_cons, Option.mem_some_iff] at mem
      exact mem ▸ source.halts numbered (same ▸ Int32.le_refl _))
  have held := holds.skip pending
  rw [← index₁] at held
  obtain ⟨moved, state₂⟩ := held.advance
  have rest := next [] f _ (count + pending.length + 1) _ (by simpa using moved.push n) state₂ (by simp) budget
  have named : o.number.toUInt32 = slotNumber n := by rw [same, numbered.slotNumber_eq]
  exact (round_matched (number_roundTrip numbered).2 numbered.not_end carried state₁ named read rest).of_eq
    (by simp) (by simp; omega) (by simp)

theorem MergeReads.new {n : EntityState} {olds ns : List EntityState} {U B : List Bool}
    (numbered : p.Numbered n) (before : ∀ o ∈ olds.head?, p.Numbered o ∧ n.number < o.number)
    (read : Parses (p.readDeltaEntity (some (writeBaseFor g n.number)) (slotNumber n)) U (some n))
    (next : p.MergeReads g old olds ns B) :
    p.MergeReads g old olds (n :: ns) (Bits.ofNat p.numberBits n.number.toNatClampNeg ++ U ++ B) := by
  intro pending fuel c count mgr holds cursor below enough
  obtain ⟨f, rfl, budget⟩ := fuel_round enough
  obtain ⟨c₁, index₁, state₁, carried⟩ := carry_pending (some (slotNumber n)) holds cursor
    (fun e mem => (below e mem).1.passes numbered ((below e mem).2 n (by simp)))
    (fun o mem => (before o mem).1.halts numbered (Int32.le_of_lt (before o mem).2))
  have held := holds.skip pending
  rw [← index₁] at held
  have absent : ∀ o ∈ c₁.state, o.number.toUInt32 ≠ slotNumber n := by
    intro o mem
    rw [state₁] at mem
    rw [numbered.slotNumber_eq, Ne, toUInt32_inj]
    exact Int32.ne_of_lt (before o mem).2 |>.symm
  have rest := next [] f c₁ (count + pending.length + 1) _ (by simpa using held.push n) (by simpa using state₁)
    (by simp) budget
  exact (round_new (number_roundTrip numbered).2 numbered.not_end carried absent
    (numbered.baselineFor_slotNumber ▸ read) rest).of_eq (by simp) (by simp; omega) (by simp)

theorem MergeReads.silent {n : EntityState} {os ns : List EntityState} {B : List Bool}
    (numbered : p.Numbered n) (ordered : ∀ x ∈ os ++ ns, n.number < x.number) (next : p.MergeReads g old os ns B) :
    p.MergeReads g old (n :: os) (n :: ns) B := by
  intro pending fuel c count mgr holds cursor below enough
  have room : (pending ++ [n]).length + ns.length = pending.length + (n :: ns).length := by
    simp
    omega
  have waiting : ∀ e ∈ pending ++ [n], p.Numbered e ∧ ∀ x ∈ os ++ ns, e.number < x.number := by
    intro e mem
    rcases List.mem_append.mp mem with early | last
    · exact ⟨(below e early).1, fun x mem' => (below e early).2 x (by simp at mem' ⊢; tauto)⟩
    · rw [List.mem_singleton] at last
      exact last ▸ ⟨numbered, ordered⟩
  have rest := next (pending ++ [n]) fuel c count mgr (by rw [List.append_assoc, room]; exact holds)
    (by simpa using cursor) waiting enough
  exact rest.of_eq rfl (by simp; omega) (by simp)

/-- The updates between two entity lists in number order read back as the new list, while the
source's entities stay in the ring. -/
theorem entityChanges_roundTrip (g : GameState) (olds news : List EntityState)
    (oldsOrdered : olds.Pairwise (·.number < ·.number)) (newsOrdered : news.Pairwise (·.number < ·.number))
    (oldsNumbered : ∀ o ∈ olds, p.Numbered o) (newsWire : ∀ n ∈ news, p.Numbered n ∧ p.entityTable.Fixed n) :
    ∃ B, Emits (p.writeEntityChanges g olds news) () B ∧ ∀ old, p.MergeReads g old olds news B := by
  induction olds, news using writeEntityChanges.induct with
  | case1 =>
    refine ⟨[], ?_, fun old => mergeReads_nil⟩
    simp only [writeEntityChanges]
    exact emits_pure ()
  | case2 o os ih =>
    -- the source has entities left and the new list is done: each is removed
    have numbered := oldsNumbered o List.mem_cons_self
    obtain ⟨B, emits, reads⟩ := ih oldsOrdered.of_cons newsOrdered
      (fun x mem => oldsNumbered x (List.mem_cons_of_mem o mem)) newsWire
    refine ⟨_, ?_, fun old => (reads old).removal numbered⟩
    simp only [writeEntityChanges]
    exact (removal_roundTrip numbered none 0).1.seq emits
  | case3 n ns ih =>
    -- the source is done: each new entity is written against its baseline
    obtain ⟨numbered, fixed⟩ := newsWire n List.mem_cons_self
    obtain ⟨B, emits, reads⟩ := ih oldsOrdered newsOrdered.of_cons oldsNumbered
      (fun x mem => newsWire x (List.mem_cons_of_mem n mem))
    obtain ⟨U, out, read⟩ := @update_roundTrip p (writeBaseFor g n.number) n true numbered (by simp)
    rw [patch_number fixed] at read
    refine ⟨_, ?_, fun old => (reads old).new numbered (by simp) read⟩
    simp only [writeEntityChanges]
    exact out.seq emits
  | case4 o os n ns same ih =>
    obtain ⟨numbered, fixed⟩ := newsWire n List.mem_cons_self
    obtain ⟨B, emits, reads⟩ := ih oldsOrdered.of_cons newsOrdered.of_cons
      (fun x mem => oldsNumbered x (List.mem_cons_of_mem o mem)) (fun x mem => newsWire x (List.mem_cons_of_mem n mem))
    by_cases unchanged : p.entityTable.lastChanged o n = 0
    · -- an entity that stays the same is not written, and the reader carries it over later
      have stays : o = n := eq_of_unchanged fixed same.symm unchanged
      subst stays
      have ordered : ∀ x ∈ os ++ ns, o.number < x.number := by
        intro x mem
        rcases List.mem_append.mp mem with source | target
        · exact List.rel_of_pairwise_cons oldsOrdered source
        · exact List.rel_of_pairwise_cons newsOrdered target
      refine ⟨B, ?_, fun old => (reads old).silent numbered ordered⟩
      simp only [writeEntityChanges, update_silent numbered unchanged, pure_bind]
      exact emits
    · obtain ⟨U, out, read⟩ := @update_roundTrip p o n false numbered (by simp [unchanged])
      rw [patch_number fixed] at read
      refine ⟨_, ?_, fun old => (reads old).update numbered same.symm read⟩
      simp only [writeEntityChanges, if_pos same]
      exact out.seq emits
  | case5 o os n ns differ less ih =>
    -- a new entity below the source's next one
    obtain ⟨numbered, fixed⟩ := newsWire n List.mem_cons_self
    obtain ⟨B, emits, reads⟩ := ih oldsOrdered newsOrdered.of_cons oldsNumbered
      (fun x mem => newsWire x (List.mem_cons_of_mem n mem))
    obtain ⟨U, out, read⟩ := @update_roundTrip p (writeBaseFor g n.number) n true numbered (by simp)
    rw [patch_number fixed] at read
    have before : ∀ x ∈ (o :: os).head?, p.Numbered x ∧ n.number < x.number := by
      intro x mem
      rw [List.head?_cons, Option.mem_some_iff] at mem
      exact mem ▸ ⟨oldsNumbered o List.mem_cons_self, less⟩
    refine ⟨_, ?_, fun old => (reads old).new numbered before read⟩
    simp only [writeEntityChanges, if_neg differ, if_pos less]
    exact out.seq emits
  | case6 o os n ns differ notLess ih =>
    -- the source's next entity is below the next new one: it is gone
    have numbered := oldsNumbered o List.mem_cons_self
    obtain ⟨B, emits, reads⟩ := ih oldsOrdered.of_cons newsOrdered
      (fun x mem => oldsNumbered x (List.mem_cons_of_mem o mem)) newsWire
    refine ⟨_, ?_, fun old => (reads old).removal numbered⟩
    simp only [writeEntityChanges, if_neg differ, if_neg notLess]
    exact (removal_roundTrip numbered none 0).1.seq emits

end Steps

end Protocol

end Netcode
