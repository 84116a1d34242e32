import Mathlib
import Netcode.Channel.Reliable

set_option autoImplicit false

namespace Netcode

theorem ringCapacity_eq_two_pow (requested : Nat) :
    ∃ k, ringCapacity requested = 2 ^ k ∧ (requested ≤ 2 ^ 31 → k ≤ 31) := by
  unfold ringCapacity
  split
  · exact ⟨0, rfl, fun _ => Nat.zero_le 31⟩
  · refine ⟨(requested - 1).log2 + 1, Nat.one_shiftLeft _, fun fits => ?_⟩
    have below : (requested - 1).log2 < 31 := (Nat.log2_lt (by omega)).mpr (by omega)
    omega

theorem getD_set!_default {α : Type} (a : Array α) (j i : Nat) (d : α) :
    (a.set! j d).getD i d = if j = i then d else a.getD i d := by
  simp only [Array.set!, Array.getD_eq_getD_getElem?, Array.getElem?_setIfInBounds]
  split_ifs <;> simp_all

theorem getD_set!_of_lt {α : Type} (a : Array α) (j i : Nat) (v d : α) (inside : j < a.size) :
    (a.set! j v).getD i d = if j = i then v else a.getD i d := by
  simp only [Array.set!, Array.getD_eq_getD_getElem?, Array.getElem?_setIfInBounds]
  split_ifs <;> simp_all

namespace CommandSequence

variable {c : CommandSequence}

/-- What every ring keeps: a stored sequence for each slot, a power of two of at most 2 ^ 31
slots, and the executed counter not past the newest sequence. -/
structure Shaped (c : CommandSequence) : Prop where
  stored_size : c.stored.size = c.capacity
  power : ∃ k ≤ 31, c.capacity = 2 ^ k
  executed_le : c.executed ≤ c.sequence

theorem Shaped.capacity_pos (shaped : c.Shaped) : 0 < c.capacity := by
  obtain ⟨k, -, eq⟩ := shaped.power
  rw [eq]
  exact Nat.two_pow_pos k

theorem Shaped.capacity_le (shaped : c.Shaped) : c.capacity ≤ 2 ^ 31 := by
  obtain ⟨k, small, eq⟩ := shaped.power
  rw [eq]
  exact Nat.pow_le_pow_right (by decide) small

theorem Shaped.toNat_capacity (shaped : c.Shaped) : c.capacity.toUInt32.toNat = c.capacity := by
  have := shaped.capacity_le
  simp only [Nat.toUInt32_eq, UInt32.toNat_ofNat']
  omega

/-- The sequences a store of s empties: those it skips, within a lap of s. -/
def Skips (c : CommandSequence) (s : UInt32) (n : Nat) : Prop :=
  c.sequence.toNat < n ∧ n < s.toNat ∧ s.toNat ≤ n + c.capacity

def skipTo (c : CommandSequence) (s : UInt32) : CommandSequence :=
  if s > c.sequence + 1 then
    let skipped := min (s - c.sequence - 1) c.capacity.toUInt32
    (List.range skipped.toNat).foldl (fun c k => c.clearSlot (s - skipped + k.toUInt32)) c
  else c

theorem store_of_lt {s : UInt32} (cmd : String) (newer : c.sequence < s) :
    c.store s cmd = (true, let d := c.skipTo s
      { d with sequence := s, commands := d.commands.set! (d.slotOf s) cmd, stored := d.stored.set! (d.slotOf s) s }) := by
  simp only [store, skipTo, if_neg (UInt32.not_le.mpr newer)]

theorem store_of_le {s : UInt32} (cmd : String) (older : s ≤ c.sequence) : c.store s cmd = (false, c) := by
  simp only [store, if_pos older]

theorem skips_iff (shaped : c.Shaped) {s : UInt32} (newer : c.sequence < s) (jump : c.sequence + 1 < s)
    (n : Nat) :
    (∃ k < (min (s - c.sequence - 1) c.capacity.toUInt32).toNat,
      (s - min (s - c.sequence - 1) c.capacity.toUInt32 + k.toUInt32).toNat = n) ↔ c.Skips s n := by
  have newer' := UInt32.lt_iff_toNat_lt.mp newer
  have below : c.sequence.toNat + 1 < s.toNat := by
    have := s.toNat_lt
    rw [UInt32.lt_iff_toNat_lt, UInt32.toNat_add, UInt32.toNat_one, Nat.mod_eq_of_lt (by omega)] at jump
    exact jump
  have gap : (s - c.sequence - 1).toNat = s.toNat - c.sequence.toNat - 1 := by
    have first : (s - c.sequence).toNat = s.toNat - c.sequence.toNat :=
      UInt32.toNat_sub_of_le _ _ (UInt32.le_of_lt newer)
    rw [UInt32.toNat_sub_of_le _ _ (UInt32.le_iff_toNat_le.mpr (by simp only [first, UInt32.toNat_one]; omega)),
      first, UInt32.toNat_one]
  set skipped := min (s - c.sequence - 1) c.capacity.toUInt32 with def_skipped
  have width : skipped.toNat = min (s.toNat - c.sequence.toNat - 1) c.capacity := by
    rw [def_skipped, UInt32.toNat_min, gap, shaped.toNat_capacity]
  have entry : ∀ k < skipped.toNat, (s - skipped + k.toUInt32).toNat = s.toNat - skipped.toNat + k := by
    intro k small
    have within : skipped ≤ s := UInt32.le_iff_toNat_le.mpr (by omega)
    have := s.toNat_lt
    rw [UInt32.toNat_add, UInt32.toNat_sub_of_le _ _ within, Nat.toUInt32_eq, UInt32.toNat_ofNat',
      Nat.mod_eq_of_lt (show k < 2 ^ 32 by omega), Nat.mod_eq_of_lt (by omega)]
  constructor
  · rintro ⟨k, small, rfl⟩
    rw [entry k small]
    unfold Skips
    omega
  · rintro ⟨after, before, within⟩
    refine ⟨n - (s.toNat - skipped.toNat), by omega, ?_⟩
    rw [entry _ (by omega)]
    omega

theorem foldl_clearSlot_frame (ts : List UInt32) (c : CommandSequence) :
    (ts.foldl (fun c t => c.clearSlot t) c).capacity = c.capacity ∧
      (ts.foldl (fun c t => c.clearSlot t) c).stored.size = c.stored.size ∧
      (ts.foldl (fun c t => c.clearSlot t) c).sequence = c.sequence ∧
      (ts.foldl (fun c t => c.clearSlot t) c).executed = c.executed := by
  induction ts generalizing c with
  | nil => simp
  | cons t rest ih =>
    obtain ⟨capacity, size, sequence, executed⟩ := ih (c.clearSlot t)
    simp only [List.foldl_cons]
    refine ⟨?_, ?_, sequence, executed⟩
    · rw [capacity]
      simp [clearSlot, CommandSequence.capacity]
    · rw [size]
      simp [clearSlot]

theorem getD_foldl_clearSlot (ts : List UInt32) (c : CommandSequence) (i : Nat) :
    (ts.foldl (fun c t => c.clearSlot t) c).stored.getD i 0 =
        (if ∃ t ∈ ts, c.slotOf t = i then 0 else c.stored.getD i 0) ∧
      (ts.foldl (fun c t => c.clearSlot t) c).commands.getD i "" =
        if ∃ t ∈ ts, c.slotOf t = i then "" else c.commands.getD i "" := by
  induction ts generalizing c with
  | nil => simp
  | cons t rest ih =>
    obtain ⟨stored, commands⟩ := ih (c.clearSlot t)
    have sameSlot : ∀ u, (c.clearSlot t).slotOf u = c.slotOf u := fun u => by
      simp [slotOf, clearSlot, CommandSequence.capacity]
    have storedHere : (c.clearSlot t).stored.getD i 0 = if c.slotOf t = i then 0 else c.stored.getD i 0 :=
      getD_set!_default _ _ _ _
    have commandsHere : (c.clearSlot t).commands.getD i "" =
        if c.slotOf t = i then "" else c.commands.getD i "" :=
      getD_set!_default _ _ _ _
    simp only [List.foldl_cons]
    rw [stored, commands, storedHere, commandsHere]
    simp only [sameSlot]
    by_cases hit : c.slotOf t = i <;> simp [hit]

theorem Shaped.slotOf_eq (shaped : c.Shaped) (s : UInt32) : c.slotOf s = s.toNat % c.capacity := by
  obtain ⟨k, small, eq⟩ := shaped.power
  have one : (1 : UInt32) ≤ c.capacity.toUInt32 := by
    rw [UInt32.le_iff_toNat_le, shaped.toNat_capacity]
    exact shaped.capacity_pos
  rw [slotOf, UInt32.toNat_and, UInt32.toNat_sub_of_le _ _ one, shaped.toNat_capacity, eq]
  exact Nat.and_two_pow_sub_one_eq_mod _ _

theorem skipTo_eq_foldl {s : UInt32} (jump : s > c.sequence + 1) :
    c.skipTo s = ((List.range (min (s - c.sequence - 1) c.capacity.toUInt32).toNat).map
      (fun k => s - min (s - c.sequence - 1) c.capacity.toUInt32 + k.toUInt32)).foldl
        (fun c t => c.clearSlot t) c := by
  rw [skipTo, if_pos jump, List.foldl_map]

theorem skipTo_frame (c : CommandSequence) (s : UInt32) :
    (c.skipTo s).capacity = c.capacity ∧ (c.skipTo s).stored.size = c.stored.size ∧
      (c.skipTo s).sequence = c.sequence ∧ (c.skipTo s).executed = c.executed := by
  by_cases jump : s > c.sequence + 1
  · rw [skipTo_eq_foldl jump]
    exact foldl_clearSlot_frame _ c
  · simp [skipTo, if_neg jump]

theorem not_skips_of_next {s : UInt32} (newer : c.sequence < s) (noJump : ¬ s > c.sequence + 1) (n : Nat) :
    ¬ c.Skips s n := by
  have newer' := UInt32.lt_iff_toNat_lt.mp newer
  have next := UInt32.le_iff_toNat_le.mp (UInt32.not_lt.mp noJump)
  have := s.toNat_lt
  rw [UInt32.toNat_add, UInt32.toNat_one, Nat.mod_eq_of_lt (by omega)] at next
  rintro ⟨after, before, -⟩
  omega

theorem skipTo_cleared_iff (shaped : c.Shaped) {s : UInt32} (newer : c.sequence < s) (jump : s > c.sequence + 1)
    (i : Nat) :
    (∃ t ∈ (List.range (min (s - c.sequence - 1) c.capacity.toUInt32).toNat).map
        (fun k => s - min (s - c.sequence - 1) c.capacity.toUInt32 + k.toUInt32), c.slotOf t = i) ↔
      ∃ n, c.Skips s n ∧ n % c.capacity = i := by
  simp only [List.mem_map, List.mem_range, shaped.slotOf_eq]
  constructor
  · rintro ⟨t, ⟨k, small, rfl⟩, hit⟩
    exact ⟨_, (skips_iff shaped newer jump _).mp ⟨k, small, rfl⟩, hit⟩
  · rintro ⟨n, skips, hit⟩
    obtain ⟨k, small, eq⟩ := (skips_iff shaped newer jump n).mpr skips
    exact ⟨_, ⟨k, small, rfl⟩, by rw [eq, hit]⟩

theorem skipTo_getD_of_skips (shaped : c.Shaped) {s : UInt32} (newer : c.sequence < s) {i n : Nat}
    (skips : c.Skips s n) (hit : n % c.capacity = i) :
    (c.skipTo s).stored.getD i 0 = 0 ∧ (c.skipTo s).commands.getD i "" = "" := by
  by_cases jump : s > c.sequence + 1
  · have cleared := (skipTo_cleared_iff shaped newer jump i).mpr ⟨n, skips, hit⟩
    rw [skipTo_eq_foldl jump, (getD_foldl_clearSlot _ c i).1, (getD_foldl_clearSlot _ c i).2]
    simp only [if_pos cleared, and_self]
  · exact absurd skips (not_skips_of_next newer jump n)

theorem skipTo_getD_of_not_skips (shaped : c.Shaped) {s : UInt32} (newer : c.sequence < s) (i : Nat)
    (kept : ∀ n, c.Skips s n → n % c.capacity ≠ i) :
    (c.skipTo s).stored.getD i 0 = c.stored.getD i 0 ∧
      (c.skipTo s).commands.getD i "" = c.commands.getD i "" := by
  by_cases jump : s > c.sequence + 1
  · have cleared : ¬ ∃ n, c.Skips s n ∧ n % c.capacity = i := fun ⟨n, skips, eq⟩ => kept n skips eq
    rw [← skipTo_cleared_iff shaped newer jump i] at cleared
    rw [skipTo_eq_foldl jump, (getD_foldl_clearSlot _ c i).1, (getD_foldl_clearSlot _ c i).2]
    simp only [if_neg cleared, and_self]
  · simp [skipTo, if_neg jump]

theorem toNat_add_one_of_lt {a b : UInt32} (below : a < b) : (a + 1).toNat = a.toNat + 1 := by
  have := UInt32.lt_iff_toNat_lt.mp below
  have := b.toNat_lt
  rw [UInt32.toNat_add, UInt32.toNat_one, Nat.mod_eq_of_lt (by omega)]

theorem withExecuted_sequence (caughtUp : c.executed = c.sequence) : { c with executed := c.sequence } = c := by
  obtain ⟨commands, stored, sequence, executed⟩ := c
  dsimp only at caughtUp
  subst caughtUp
  rfl

theorem not_after_of_caughtUp (caughtUp : c.executed = c.sequence) {t : UInt32} (after : c.executed < t) :
    ¬ t ≤ c.sequence := fun upTo =>
  UInt32.lt_irrefl _ (UInt32.lt_of_lt_of_le after (caughtUp ▸ upTo))

/-- The executed counter steps forward to the first sequence whose slot still holds it, or to
the newest sequence if none does. -/
theorem advance_spec (c : CommandSequence) (fuel : Nat) (enough : c.sequence.toNat - c.executed.toNat ≤ fuel)
    (le : c.executed ≤ c.sequence) :
    (∃ e : UInt32, c.executed < e ∧ e ≤ c.sequence ∧ c.stored.getD (c.slotOf e) 0 = e ∧
        (∀ t : UInt32, c.executed < t → t < e → c.stored.getD (c.slotOf t) 0 ≠ t) ∧
        c.advance fuel = (some (e, c.commands.getD (c.slotOf e) ""), { c with executed := e })) ∨
      ((∀ t : UInt32, c.executed < t → t ≤ c.sequence → c.stored.getD (c.slotOf t) 0 ≠ t) ∧
        c.advance fuel = (none, { c with executed := c.sequence })) := by
  induction fuel generalizing c with
  | zero =>
    -- no fuel is left only when nothing is left to execute
    have caughtUp : c.executed = c.sequence := by
      have := UInt32.le_iff_toNat_le.mp le
      exact UInt32.toNat_inj.mp (by omega)
    refine .inr ⟨fun t after upTo => absurd upTo (not_after_of_caughtUp caughtUp after), ?_⟩
    rw [withExecuted_sequence caughtUp]
    rfl
  | succ fuel ih =>
    rw [advance]
    split
    · rename_i behind
      have step := toNat_add_one_of_lt behind
      have onward : c.executed < c.executed + 1 := UInt32.lt_iff_toNat_lt.mpr (by omega)
      dsimp only
      split
      · rename_i hit
        refine .inl ⟨c.executed + 1, onward, UInt32.le_iff_toNat_le.mpr (by have := UInt32.lt_iff_toNat_lt.mp behind; omega),
          hit, fun t after before => ?_, rfl⟩
        have := UInt32.lt_iff_toNat_lt.mp after
        have := UInt32.lt_iff_toNat_lt.mp before
        omega
      · rename_i miss
        have rest := ih { c with executed := c.executed + 1 }
          (by have := UInt32.lt_iff_toNat_lt.mp behind; dsimp only; omega)
          (UInt32.le_iff_toNat_le.mpr (by have := UInt32.lt_iff_toNat_lt.mp behind; dsimp only; omega))
        -- the first sequence skipped is the one just passed over
        have passed : ∀ t : UInt32, c.executed < t → t ≤ c.executed + 1 → t = c.executed + 1 := by
          intro t after upTo
          have := UInt32.lt_iff_toNat_lt.mp after
          have := UInt32.le_iff_toNat_le.mp upTo
          exact UInt32.toNat_inj.mp (by omega)
        rcases rest with ⟨e, after, upTo, hit, before, ran⟩ | ⟨none, ran⟩
        · refine .inl ⟨e, UInt32.lt_trans onward after, upTo, hit, fun t after' before' => ?_, ran⟩
          by_cases early : t ≤ c.executed + 1
          · rw [passed t after' early]
            exact miss
          · exact before t (UInt32.not_le.mp early) before'
        · refine .inr ⟨fun t after' upTo' => ?_, ran⟩
          by_cases early : t ≤ c.executed + 1
          · rw [passed t after' early]
            exact miss
          · exact none t (UInt32.not_le.mp early) upTo'
    · rename_i caughtUp
      have same : c.executed = c.sequence := UInt32.le_antisymm le (UInt32.not_lt.mp caughtUp)
      refine .inr ⟨fun t after upTo => absurd upTo (not_after_of_caughtUp same after), ?_⟩
      rw [withExecuted_sequence same]

/-- Where a call for the next command starts looking: past the executed counter, and past every
sequence more than a lap behind the newest. -/
def lookFrom (c : CommandSequence) : Nat :=
  max c.executed.toNat (c.sequence.toNat - c.capacity)

/-- The next command is the first one past lookFrom whose slot still holds it; the executed
counter moves to it, or to the newest sequence when there is none. -/
theorem nextPending_spec (shaped : c.Shaped) :
    (∃ e : UInt32, c.lookFrom < e.toNat ∧ e ≤ c.sequence ∧ c.stored.getD (c.slotOf e) 0 = e ∧
        (∀ t : UInt32, c.lookFrom < t.toNat → t < e → c.stored.getD (c.slotOf t) 0 ≠ t) ∧
        c.nextPending = (some (e, c.commands.getD (c.slotOf e) ""), { c with executed := e })) ∨
      ((∀ t : UInt32, c.lookFrom < t.toNat → t ≤ c.sequence → c.stored.getD (c.slotOf t) 0 ≠ t) ∧
        c.nextPending = (none, { c with executed := c.sequence })) := by
  have le := UInt32.le_iff_toNat_le.mp shaped.executed_le
  -- the search from any start at lookFrom, restated for the ring itself
  have search : ∀ x : UInt32, x.toNat = c.lookFrom → x ≤ c.sequence →
      (∃ e : UInt32, c.lookFrom < e.toNat ∧ e ≤ c.sequence ∧ c.stored.getD (c.slotOf e) 0 = e ∧
        (∀ t : UInt32, c.lookFrom < t.toNat → t < e → c.stored.getD (c.slotOf t) 0 ≠ t) ∧
        ({ c with executed := x }.advance (c.sequence - x).toNat =
          (some (e, c.commands.getD (c.slotOf e) ""), { c with executed := e }))) ∨
      ((∀ t : UInt32, c.lookFrom < t.toNat → t ≤ c.sequence → c.stored.getD (c.slotOf t) 0 ≠ t) ∧
        { c with executed := x }.advance (c.sequence - x).toNat = (none, { c with executed := c.sequence })) := by
    intro x start upTo
    have found := advance_spec { c with executed := x } (c.sequence - x).toNat
      (by rw [UInt32.toNat_sub_of_le _ _ upTo]) upTo
    simp only [UInt32.lt_iff_toNat_lt, start] at found ⊢
    exact found
  unfold nextPending
  split
  · rename_i caughtUp
    have same : c.executed = c.sequence := UInt32.le_antisymm shaped.executed_le caughtUp
    refine .inr ⟨fun t after upTo => ?_, ?_⟩
    · have := UInt32.le_iff_toNat_le.mp upTo
      have := UInt32.toNat_inj.mpr same
      unfold lookFrom at after
      omega
    · rw [withExecuted_sequence same]
  · rename_i behind
    have behind' := UInt32.lt_iff_toNat_lt.mp (UInt32.not_le.mp behind)
    have gap : (c.sequence - c.executed).toNat = c.sequence.toNat - c.executed.toNat :=
      UInt32.toNat_sub_of_le _ _ shaped.executed_le
    dsimp only
    split
    · rename_i far
      rw [gap] at far
      have lap : c.capacity.toUInt32 ≤ c.sequence := by
        rw [UInt32.le_iff_toNat_le, shaped.toNat_capacity]
        omega
      have start : (c.sequence - c.capacity.toUInt32).toNat = c.lookFrom := by
        rw [UInt32.toNat_sub_of_le _ _ lap, shaped.toNat_capacity, lookFrom]
        omega
      exact search _ start (UInt32.le_iff_toNat_le.mpr (by rw [UInt32.toNat_sub_of_le _ _ lap]; omega))
    · rename_i near
      rw [gap] at near
      exact search c.executed (by unfold lookFrom; omega) shaped.executed_le

theorem slotOf_congr {d : CommandSequence} (same : d.capacity = c.capacity) : d.slotOf = c.slotOf := by
  funext s
  simp only [slotOf, same]

theorem store_frame {s : UInt32} (cmd : String) (newer : c.sequence < s) :
    (c.store s cmd).2.capacity = c.capacity ∧ (c.store s cmd).2.stored.size = c.stored.size ∧
      (c.store s cmd).2.sequence = s ∧ (c.store s cmd).2.executed = c.executed := by
  obtain ⟨capacity, size, -, executed⟩ := skipTo_frame c s
  rw [store_of_lt cmd newer]
  refine ⟨?_, ?_, rfl, executed⟩
  · rw [← capacity]
    simp [CommandSequence.capacity]
  · simp [size]

theorem store_getD (shaped : c.Shaped) {s : UInt32} (cmd : String) (newer : c.sequence < s) (i : Nat) :
    (c.store s cmd).2.stored.getD i 0 = (if s.toNat % c.capacity = i then s else (c.skipTo s).stored.getD i 0) ∧
      (c.store s cmd).2.commands.getD i "" =
        if s.toNat % c.capacity = i then cmd else (c.skipTo s).commands.getD i "" := by
  obtain ⟨capacity, size, -, -⟩ := skipTo_frame c s
  have slot : (c.skipTo s).slotOf s = s.toNat % c.capacity := by
    rw [slotOf_congr capacity, shaped.slotOf_eq]
  have inside : s.toNat % c.capacity < c.capacity := Nat.mod_lt _ shaped.capacity_pos
  rw [store_of_lt cmd newer]
  dsimp only
  rw [slot, getD_set!_of_lt _ _ _ _ _ (by rw [size, shaped.stored_size]; exact inside),
    getD_set!_of_lt _ _ _ _ _ (by rw [← CommandSequence.capacity, capacity]; exact inside)]
  exact ⟨rfl, rfl⟩

theorem Shaped.store (shaped : c.Shaped) (s : UInt32) (cmd : String) : (c.store s cmd).2.Shaped := by
  by_cases newer : c.sequence < s
  · obtain ⟨capacity, size, sequence, executed⟩ := store_frame cmd newer
    refine ⟨by rw [size, capacity, shaped.stored_size], by rw [capacity]; exact shaped.power, ?_⟩
    rw [sequence, executed]
    exact UInt32.le_of_lt (UInt32.lt_of_le_of_lt shaped.executed_le newer)
  · rw [store_of_le cmd (UInt32.not_lt.mp newer)]
    exact shaped

theorem mod_ne_of_lt_of_lt_add {a b m : Nat} (lt : a < b) (lap : b < a + m) : a % m ≠ b % m := by
  intro same
  have multiple := Nat.sub_mod_eq_zero_of_mod_eq same.symm
  rw [Nat.mod_eq_of_lt (by omega)] at multiple
  omega

theorem exists_skips_mod (shaped : c.Shaped) {s : UInt32} {t : Nat} (after : c.sequence.toNat < t)
    (before : t < s.toNat) : ∃ n, c.Skips s n ∧ n % c.capacity = t % c.capacity := by
  -- the last sequence before s in the slot of t
  have laps := Nat.div_add_mod (s.toNat - 1 - t) c.capacity
  have short := Nat.mod_lt (s.toNat - 1 - t) shaped.capacity_pos
  refine ⟨t + c.capacity * ((s.toNat - 1 - t) / c.capacity), ⟨?_, ?_, ?_⟩,
    Nat.add_mul_mod_self_left _ _ _⟩ <;> omega

/-- After a store, a sequence up to the new one whose slot holds it is the new one, or one the slot
held before with the same command. -/
theorem store_holds (shaped : c.Shaped) {s : UInt32} (cmd : String) (newer : c.sequence < s) {t : UInt32}
    (positive : t ≠ 0) (upTo : t ≤ s) (holds : (c.store s cmd).2.stored.getD (t.toNat % c.capacity) 0 = t) :
    t = s ∨ (t ≤ c.sequence ∧ c.stored.getD (t.toNat % c.capacity) 0 = t ∧
      (c.store s cmd).2.commands.getD (t.toNat % c.capacity) "" = c.commands.getD (t.toNat % c.capacity) "") := by
  obtain ⟨stored, commands⟩ := store_getD shaped cmd newer (t.toNat % c.capacity)
  rw [stored] at holds
  rw [commands]
  split at holds
  · exact .inl holds.symm
  · rename_i other
    by_cases cleared : ∃ n, c.Skips s n ∧ n % c.capacity = t.toNat % c.capacity
    · obtain ⟨n, skips, hit⟩ := cleared
      rw [(skipTo_getD_of_skips shaped newer skips hit).1] at holds
      exact absurd holds.symm positive
    · have kept := skipTo_getD_of_not_skips shaped newer (t.toNat % c.capacity)
        fun n skips hit => cleared ⟨n, skips, hit⟩
      rw [kept.1] at holds
      rw [if_neg other, kept.2]
      refine .inr ⟨?_, holds, rfl⟩
      -- a sequence the jump passed over would have shared a slot it emptied
      by_contra passed
      have after := UInt32.lt_iff_toNat_lt.mp (UInt32.not_le.mp passed)
      have before : t.toNat < s.toNat := by
        have := UInt32.le_iff_toNat_le.mp upTo
        have : t.toNat ≠ s.toNat := fun same => other (by rw [same])
        omega
      exact cleared (exists_skips_mod shaped after before)

theorem store_keeps_slot (shaped : c.Shaped) {s : UInt32} (cmd : String) (newer : c.sequence < s) {p : UInt32}
    (old : p ≤ c.sequence) (lap : s.toNat < p.toNat + c.capacity) :
    (c.store s cmd).2.stored.getD (p.toNat % c.capacity) 0 = c.stored.getD (p.toNat % c.capacity) 0 ∧
      (c.store s cmd).2.commands.getD (p.toNat % c.capacity) "" = c.commands.getD (p.toNat % c.capacity) "" := by
  have old' := UInt32.le_iff_toNat_le.mp old
  have newer' := UInt32.lt_iff_toNat_lt.mp newer
  have apart : s.toNat % c.capacity ≠ p.toNat % c.capacity :=
    (mod_ne_of_lt_of_lt_add (by omega) lap).symm
  obtain ⟨stored, commands⟩ := store_getD shaped cmd newer (p.toNat % c.capacity)
  rw [stored, commands, if_neg apart, if_neg apart]
  exact skipTo_getD_of_not_skips shaped newer _ fun n ⟨after, before, _⟩ hit =>
    mod_ne_of_lt_of_lt_add (show p.toNat < n by omega) (show n < p.toNat + c.capacity by omega) hit.symm

theorem Shaped.nextPending (shaped : c.Shaped) : c.nextPending.2.Shaped ∧ c.nextPending.2.capacity = c.capacity := by
  rcases nextPending_spec shaped with ⟨e, -, upTo, -, -, ran⟩ | ⟨-, ran⟩
  · rw [ran]
    exact ⟨⟨shaped.stored_size, shaped.power, upTo⟩, rfl⟩
  · rw [ran]
    exact ⟨⟨shaped.stored_size, shaped.power, UInt32.le_refl _⟩, rfl⟩

/-- A ring whose size is a multiple of 2 ^ 32 sees its capacity as zero in 32-bit arithmetic. -/
def Wide (c : CommandSequence) : Prop :=
  c.capacity.toUInt32 = 0

theorem Wide.slotOf_eq (wide : c.Wide) (s : UInt32) : c.slotOf s = s.toNat := by
  rw [slotOf, wide]
  simp

theorem Wide.skipTo_eq (wide : c.Wide) (s : UInt32) : c.skipTo s = c := by
  unfold skipTo
  split
  · have nothing : min (s - c.sequence - 1) c.capacity.toUInt32 = 0 :=
      UInt32.toNat_inj.mp (by rw [UInt32.toNat_min, wide]; simp)
    simp only [nothing, UInt32.toNat_zero, List.range_zero, List.foldl_nil]
  · rfl

theorem ringCapacity_two_pow_32 : ringCapacity 4294967296 = 4294967296 := by
  have log : (4294967296 - 1).log2 = 31 := (Nat.log2_eq_iff (by decide)).mpr (by decide)
  rw [ringCapacity, if_neg (by decide), log, Nat.one_shiftLeft]
end CommandSequence

end Netcode
