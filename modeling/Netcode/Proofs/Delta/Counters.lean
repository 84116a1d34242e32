import Netcode.Proofs.Delta.FieldDelta
import Netcode.Delta.Player

set_option autoImplicit false

namespace Netcode

namespace PlayerState

/-- What one counter array comes back as: an element that changed returns as its low 16 bits in
two's complement, any other keeps the base's value. -/
def receivedCounter (old new : List Int32) : List Int32 :=
  List.zipWith (fun a b => if a = b then a else Wire.fitInt (-16) b) old new

def receiveCounters (base new s : PlayerState) : PlayerState :=
  counters.foldl (fun s c => c.set s (receivedCounter (c.get base) (c.get new))) s

theorem receivedCounter_self (xs : List Int32) : receivedCounter xs xs = xs := by
  simp [receivedCounter]

theorem one_shiftLeft_toNat (i : Nat) (below : i < 32) : ((1 : UInt32) <<< i.toUInt32).toNat = 2 ^ i := by
  simp only [UInt32.toNat_shiftLeft, UInt32.toNat_one, Nat.toUInt32_eq, UInt32.toNat_ofNat',
    Nat.mod_eq_of_lt (Nat.lt_trans below (by decide : 32 < 2 ^ 32)), Nat.mod_eq_of_lt below, Nat.one_shiftLeft]
  exact Nat.mod_eq_of_lt (Nat.pow_lt_pow_right (by decide) below)

theorem and_shiftLeft_ne_zero_iff (mask : UInt32) (i : Nat) (below : i < 32) :
    mask &&& ((1 : UInt32) <<< i.toUInt32) ≠ 0 ↔ mask.toNat.testBit i = true := by
  rw [ne_eq, ← UInt32.toNat_inj, UInt32.toNat_and, one_shiftLeft_toNat i below, Nat.and_two_pow,
    UInt32.toNat_zero]
  cases mask.toNat.testBit i <;> simp

theorem testBit_foldl_or {α : Type} (l : List (α × Nat)) (bounded : ∀ x ∈ l, x.2 < 32)
    (mask : UInt32) (j : Nat) :
    (l.foldl (fun mask x => mask ||| ((1 : UInt32) <<< x.2.toUInt32)) mask).toNat.testBit j =
      (mask.toNat.testBit j || l.any fun x => x.2 = j) := by
  induction l generalizing mask with
  | nil => simp
  | cons x rest ih =>
    rw [List.foldl_cons, ih (fun y mem => bounded y (List.mem_cons_of_mem x mem)), UInt32.toNat_or,
      Nat.testBit_or, one_shiftLeft_toNat x.2 (bounded x List.mem_cons_self), Nat.testBit_two_pow,
      List.any_cons]
    cases mask.toNat.testBit j <;> cases decide (x.2 = j) <;> simp

/-- The changed mask of two arrays of at most 32 elements has bit `i` set exactly when they
differ at position `i`. -/
theorem testBit_changedMask (old new : List Int32) (short : old.length ≤ 32) (i : Nat) :
    (changedMask old new).toNat.testBit i = true ↔
      ∃ a b, old[i]? = some a ∧ new[i]? = some b ∧ a ≠ b := by
  have unfolded : changedMask old new =
      ((old.zip new).zipIdx.filter fun x => decide (x.1.1 ≠ x.1.2)).foldl
        (fun mask x => mask ||| ((1 : UInt32) <<< x.2.toUInt32)) 0 := rfl
  have bounded : ∀ x ∈ (old.zip new).zipIdx.filter (fun x => decide (x.1.1 ≠ x.1.2)), x.2 < 32 := by
    intro x mem
    have inside := List.mem_zipIdx_iff_getElem?.mp (List.mem_filter.mp mem).1
    have short' : (old.zip new).length ≤ 32 := by simp; omega
    have := (List.getElem?_eq_some_iff.mp inside).1
    omega
  rw [unfolded, testBit_foldl_or _ bounded 0 i]
  simp only [UInt32.toNat_zero, Nat.zero_testBit, Bool.false_or, List.any_eq_true, List.mem_filter,
    List.mem_zipIdx_iff_getElem?, decide_eq_true_eq]
  constructor
  · rintro ⟨⟨⟨a, b⟩, j⟩, ⟨found, differ⟩, rfl⟩
    obtain ⟨inOld, inNew⟩ := List.getElem?_zip_eq_some.mp found
    exact ⟨a, b, inOld, inNew, differ⟩
  · rintro ⟨a, b, inOld, inNew, differ⟩
    exact ⟨⟨⟨a, b⟩, i⟩, ⟨List.getElem?_zip_eq_some.mpr ⟨inOld, inNew⟩, differ⟩, rfl⟩

theorem changedMask_marks (old new : List Int32) (short : old.length ≤ 32) {i : Nat} {a b : Int32}
    (inOld : old[i]? = some a) (inNew : new[i]? = some b) :
    changedMask old new &&& ((1 : UInt32) <<< i.toUInt32) ≠ 0 ↔ a ≠ b := by
  have below : i < 32 := by
    have := (List.getElem?_eq_some_iff.mp inOld).1
    omega
  rw [and_shiftLeft_ne_zero_iff _ i below, testBit_changedMask old new short i]
  constructor
  · rintro ⟨a', b', inOld', inNew', differ⟩
    rw [inOld, Option.some_inj] at inOld'
    rw [inNew, Option.some_inj] at inNew'
    rwa [inOld', inNew']
  · intro differ
    exact ⟨a, b, inOld, inNew, differ⟩

theorem eq_of_changedMask_eq_zero (old new : List Int32) (same : old.length = new.length)
    (short : old.length ≤ 32) (zero : changedMask old new = 0) : old = new := by
  apply List.ext_getElem same
  intro i inOld inNew
  by_contra differ
  have set := (testBit_changedMask old new short i).mpr
    ⟨old[i], new[i], List.getElem?_eq_getElem inOld, List.getElem?_eq_getElem inNew, differ⟩
  simp [zero] at set

theorem changedMask_lt (old new : List Int32) (n : Nat) (length : old.length = n) (short : n ≤ 32) :
    (changedMask old new).toNat < 2 ^ n := by
  apply Nat.lt_pow_two_of_testBit
  intro i beyond
  cases bit : (changedMask old new).toNat.testBit i
  · rfl
  · obtain ⟨a, b, inOld, -, -⟩ := (testBit_changedMask old new (by omega) i).mp bit
    have := (List.getElem?_eq_some_iff.mp inOld).1
    omega

/-- A counter array the codec carries: 1 to 32 elements, as many as its mask has bits, and a
setter that puts back what the getter reads without change. -/
structure Counters.Lawful (c : Counters) : Prop where
  positive : 0 < c.size
  narrow : c.size ≤ 32
  length : ∀ s, (c.get s).length = c.size
  set_get : ∀ s, c.set s (c.get s) = s

theorem refill_toList {n : Nat} (v w : Vector Int32 n) : refill v w.toList = w := by
  apply Vector.ext
  intro i below
  simp [refill]

theorem counters_lawful : ∀ c ∈ counters, c.Lawful := by
  intro c mem
  simp only [counters, List.mem_cons, List.not_mem_nil, or_false] at mem
  rcases mem with rfl | rfl | rfl | rfl | rfl <;>
    exact ⟨by decide, by decide, fun s => by simp, fun s => by simp [refill_toList]⟩

theorem counters_separated :
    counters.Pairwise fun c c' => ∀ s xs, c'.get (c.set s xs) = c'.get s := by
  simp [counters]

end PlayerState

namespace Protocol

open Wire PlayerState

theorem parses_counterElement (v : Int32) :
    Parses (readBits (-16) >>= fun r => pure r.toInt32) (Bits.ofNat 16 v.toInt64.toUInt64.toNat)
      (fitInt (-16) v) := by
  have width : (widthOf (-16)).toNat = 16 := by decide
  have parses := parses_readBits (-16) (by decide) (Bits.ofNat 16 v.toInt64.toUInt64.toNat)
    (by rw [Bits.length_ofNat, width])
  rw [Bits.toNat_ofNat, ← width] at parses
  refine (parses.map _).of_eq (by rw [width]) ?_
  exact toInt32_extendSign_low (-16) (by decide) (by decide) v

theorem counterValues_roundTrip (mask : UInt32) (old : List Int32) :
    ∀ (new : List Int32) (k : Nat), old.length = new.length →
      (∀ i a b, old[i]? = some a → new[i]? = some b →
        (mask &&& ((1 : UInt32) <<< (k + i).toUInt32) ≠ 0 ↔ a ≠ b)) →
      ∃ B, Emits (writeCounterValues mask (new.zipIdx k)) () B ∧
        Parses (readCounterValues mask (old.zipIdx k)) B (receivedCounter old new) := by
  induction old with
  | nil =>
    intro new k same _
    rw [List.eq_nil_of_length_eq_zero same.symm]
    exact ⟨[], emits_pure (), parses_pure []⟩
  | cons a old ih =>
    intro new k same marks
    obtain ⟨b, new, rfl⟩ := List.exists_cons_of_length_eq_add_one same.symm
    -- the rest of the array is marked from position `k + 1` on
    obtain ⟨B, emits, parses⟩ := ih new (k + 1) (by simpa using same) fun i a' b' inOld inNew => by
      have shifted := marks (i + 1) a' b' inOld inNew
      rwa [← Nat.add_assoc, Nat.add_right_comm] at shifted
    have here := marks 0 a b rfl rfl
    rw [Nat.add_zero] at here
    have received : receivedCounter (a :: old) (b :: new) =
        (if a = b then a else fitInt (-16) b) :: receivedCounter old new := rfl
    by_cases equal : a = b
    · have clear : ¬ (mask &&& ((1 : UInt32) <<< k.toUInt32) ≠ 0) := fun set => here.mp set equal
      refine ⟨B, ?_, ?_⟩
      · rw [List.zipIdx_cons, writeCounterValues, if_neg clear]
        exact emits
      · rw [List.zipIdx_cons, readCounterValues, if_neg clear, received, if_pos equal]
        exact (parses_pure a).bind (parses.map (a :: ·))
    · have set : mask &&& ((1 : UInt32) <<< k.toUInt32) ≠ 0 := here.mpr equal
      refine ⟨Bits.ofNat 16 b.toInt64.toUInt64.toNat ++ B, ?_, ?_⟩
      · rw [List.zipIdx_cons, writeCounterValues, if_pos set]
        exact (emits_writeBits b.toInt64 (-16) (by decide)).bind emits
      · rw [List.zipIdx_cons, readCounterValues, if_pos set, received, if_neg equal]
        exact (parses_counterElement b).bind (parses.map (fitInt (-16) b :: ·))

theorem toInt32_not_neg (n : Nat) (narrow : n ≤ 32) : ¬ n.toInt32 < 0 := by
  rw [Int32.lt_iff_toInt_lt]
  simp [Int.bmod_def, Int32.size]
  omega

theorem widthOf_toInt32 (n : Nat) (positive : 0 < n) (narrow : n ≤ 32) : (widthOf n.toInt32).toNat = n := by
  simp only [widthOf, if_neg (toInt32_not_neg n narrow)]
  simp
  omega

/-- One counter array: a clear bit when nothing changed, else a set bit, its mask and its changed
elements; it reads back as `receivedCounter` says. -/
theorem array_roundTrip (c : Counters) (lawful : c.Lawful) (base new s : PlayerState)
    (start : c.get s = c.get base) :
    ∃ B, Emits (if changedMask (c.get base) (c.get new) = 0 then
          writeBool false >>= fun _ => pure (ForInStep.yield PUnit.unit)
        else
          writeBool true >>= fun _ =>
            writeBits (changedMask (c.get base) (c.get new)).toUInt64.toInt64 c.size.toInt32 >>= fun _ =>
              writeCounterValues (changedMask (c.get base) (c.get new)) (c.get new).zipIdx >>= fun _ =>
                pure (ForInStep.yield PUnit.unit)) (ForInStep.yield PUnit.unit) B ∧
      ∀ rest Brest r,
        Parses (readCounters (c.set s (receivedCounter (c.get base) (c.get new))) rest) Brest r →
          Parses (readCounters s (c :: rest)) (B ++ Brest) r := by
  obtain ⟨mask, maskDef⟩ : ∃ m, changedMask (c.get base) (c.get new) = m := ⟨_, rfl⟩
  have baseLength := lawful.length base
  have newLength := lawful.length new
  have stateLength := lawful.length s
  have positive := lawful.positive
  have narrow := lawful.narrow
  rw [maskDef]
  by_cases zero : mask = 0
  · -- nothing changed: the arrays agree, and the reader leaves the state as it is
    have same := eq_of_changedMask_eq_zero _ _ (by omega) (by omega) (maskDef.trans zero)
    refine ⟨[false], ?_, fun rest Brest r next => ?_⟩
    · rw [if_pos zero]
      exact (emits_writeBool false).seq (emits_pure _)
    · rw [← same, receivedCounter_self, ← start, lawful.set_get] at next
      rw [readCounters]
      exact (parses_readBool false).bind next
  · obtain ⟨B, emits, parses⟩ := counterValues_roundTrip mask (c.get s) (c.get new) 0 (by omega)
      fun i a b inOld inNew => by
        rw [start] at inOld
        rw [Nat.zero_add, ← maskDef]
        exact changedMask_marks _ _ (by omega) inOld inNew
    have width := widthOf_toInt32 c.size lawful.positive lawful.narrow
    have fits : mask.toNat < 2 ^ c.size := maskDef ▸ changedMask_lt _ _ c.size baseLength lawful.narrow
    have maskWord : mask.toUInt64.toInt64.toUInt64.toNat = mask.toNat := by simp
    refine ⟨[true] ++ (Bits.ofNat c.size mask.toNat ++ B), ?_, fun rest Brest r next => ?_⟩
    · rw [if_neg zero]
      have emitsMask := emits_writeBits mask.toUInt64.toInt64 c.size.toInt32 ⟨by omega, by omega⟩
      rw [width, maskWord] at emitsMask
      exact ((emits_writeBool true).seq (emitsMask.seq (emits.seq (emits_pure _)))).of_eq (by simp)
    · -- the mask comes back whole: it is non-negative and fits its width
      have parsesMask := parses_readBits c.size.toInt32 ⟨by omega, by omega⟩ (Bits.ofNat c.size mask.toNat)
        (by rw [Bits.length_ofNat, width])
      have back : (extendSign c.size.toInt32
          (UInt64.ofNat (Bits.toNat (Bits.ofNat c.size mask.toNat)))).toUInt64.toUInt32 = mask := by
        rw [extendSign_of_not_neg (toInt32_not_neg c.size narrow), Bits.toNat_ofNat, Nat.mod_eq_of_lt fits]
        apply UInt32.toNat_inj.mp
        simp
      rw [readCounters]
      simp only [List.append_assoc]
      refine (parses_readBool true).bind (parsesMask.bind ?_)
      simp only [back]
      rw [← start] at next
      exact parses.bind next

theorem arrays_roundTrip (F : Counters × UInt32 → PUnit → Wire (ForInStep PUnit))
    (base new : PlayerState) (cs : List Counters)
    (step : ∀ c ∈ cs, ∀ s, c.get s = c.get base →
      ∃ B, Emits (F (c, changedMask (c.get base) (c.get new)) PUnit.unit) (ForInStep.yield PUnit.unit) B ∧
        ∀ rest Brest r,
          Parses (readCounters (c.set s (receivedCounter (c.get base) (c.get new))) rest) Brest r →
            Parses (readCounters s (c :: rest)) (B ++ Brest) r)
    (separated : cs.Pairwise fun c c' => ∀ s xs, c'.get (c.set s xs) = c'.get s)
    (s : PlayerState) (start : ∀ c ∈ cs, c.get s = c.get base) :
    ∃ B, Emits (forIn (cs.map fun c => (c, changedMask (c.get base) (c.get new))) PUnit.unit F) PUnit.unit B ∧
      Parses (readCounters s cs) B (cs.foldl (fun s c => c.set s (receivedCounter (c.get base) (c.get new))) s) := by
  induction cs generalizing s with
  | nil =>
    rw [List.map_nil, List.forIn_nil]
    exact ⟨[], emits_pure _, parses_pure s⟩
  | cons c rest ih =>
    obtain ⟨earlier, separatedRest⟩ := List.pairwise_cons.mp separated
    obtain ⟨Bc, emitsC, next⟩ := step c List.mem_cons_self s (start c List.mem_cons_self)
    -- the arrays after this one are still the base's once it is set
    have startRest : ∀ c' ∈ rest,
        c'.get (c.set s (receivedCounter (c.get base) (c.get new))) = c'.get base := fun c' mem => by
      rw [earlier c' mem, start c' (List.mem_cons_of_mem c mem)]
    obtain ⟨Brest, emitsRest, parsesRest⟩ :=
      ih (fun c' mem => step c' (List.mem_cons_of_mem c mem)) separatedRest _ startRest
    refine ⟨Bc ++ Brest, ?_, next rest Brest _ parsesRest⟩
    rw [List.map_cons, List.forIn_cons]
    exact emitsC.bind emitsRest

theorem receiveCounters_of_unchanged (base new s : PlayerState)
    (unchanged : ∀ c ∈ counters, c.get base = c.get new) (start : ∀ c ∈ counters, c.get s = c.get base) :
    receiveCounters base new s = s := by
  unfold receiveCounters
  have lawful := counters_lawful
  generalize counters = cs at unchanged start lawful ⊢
  induction cs with
  | nil => rfl
  | cons c rest ih =>
    rw [List.foldl_cons, ← unchanged c List.mem_cons_self, receivedCounter_self, ← start c List.mem_cons_self,
      (lawful c List.mem_cons_self).set_get]
    exact ih (fun c' mem => unchanged c' (List.mem_cons_of_mem c mem))
      (fun c' mem => start c' (List.mem_cons_of_mem c mem)) (fun c' mem => lawful c' (List.mem_cons_of_mem c mem))

theorem changedArrays_roundTrip {F : Counters × UInt32 → PUnit → Wire (ForInStep PUnit)}
    {base new s : PlayerState} (start : ∀ c ∈ counters, c.get s = c.get base)
    (step : ∀ c ∈ counters, ∀ s, c.get s = c.get base →
      ∃ B, Emits (F (c, changedMask (c.get base) (c.get new)) PUnit.unit) (ForInStep.yield PUnit.unit) B ∧
        ∀ rest Brest r,
          Parses (readCounters (c.set s (receivedCounter (c.get base) (c.get new))) rest) Brest r →
            Parses (readCounters s (c :: rest)) (B ++ Brest) r) :
    ∃ B, Emits (writeBool true >>= fun _ =>
        forIn (counters.map fun c => (c, changedMask (c.get base) (c.get new))) PUnit.unit F >>= fun _ =>
          pure PUnit.unit) () B ∧
      Parses (readBool >>= fun b => if b = true then readCounters s counters else pure s) B
        (receiveCounters base new s) := by
  obtain ⟨B, emits, parses⟩ := arrays_roundTrip F base new counters step counters_separated s start
  exact ⟨[true] ++ (B ++ []), (emits_writeBool true).seq (emits.seq (emits_pure ())),
    (parses_readBool true).bind (parses.of_eq (List.append_nil B).symm rfl)⟩

/-- The counter arrays read back, into a state holding the base's, as they come back: a changed
element as its low 16 bits in two's complement, any other as the base's. -/
theorem counters_roundTrip (base new s : PlayerState) (start : ∀ c ∈ counters, c.get s = c.get base) :
    ∃ B, Emits (writeCounters base new) () B ∧
      Parses (readBool >>= fun b => if b = true then readCounters s counters else pure s) B
        (receiveCounters base new s) := by
  simp only [writeCounters]
  by_cases quiet : ((counters.map fun c => (c, changedMask (c.get base) (c.get new))).all
      fun x => decide (x.2 = 0)) = true
  · -- no array changed: one clear bit, and the state stays as it is
    have unchanged : ∀ c ∈ counters, c.get base = c.get new := by
      intro c mem
      have zero : changedMask (c.get base) (c.get new) = 0 := by
        simpa using List.all_eq_true.mp quiet _ (List.mem_map_of_mem mem)
      have lawful := counters_lawful c mem
      exact eq_of_changedMask_eq_zero _ _ (by rw [lawful.length, lawful.length])
        (by rw [lawful.length]; exact lawful.narrow) zero
    rw [if_pos quiet, receiveCounters_of_unchanged base new s unchanged start]
    exact ⟨[false], emits_writeBool false, (parses_readBool false).bind (parses_pure s)⟩
  · rw [if_neg quiet]
    apply changedArrays_roundTrip start
    intro c mem s' start'
    exact array_roundTrip c (counters_lawful c mem) base new s' start'

end Protocol

end Netcode
