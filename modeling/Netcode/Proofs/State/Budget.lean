import Mathlib
import Netcode.Proofs.State.Message

set_option autoImplicit false

namespace Netcode

namespace Wire

section Yields

variable {α β : Type}

/-- Every value that `r` returns, from any message, satisfies `P`. -/
def Yields (r : Wire α) (P : α → Prop) : Prop :=
  ∀ (m : Message) (a : α), (m.run r).1 = .ok a → P a

variable {P : α → Prop} {Q : β → Prop}

theorem yields_pure {a : α} (holds : P a) : Yields (pure a) P :=
  fun _ _ ran => Except.ok.inj ran ▸ holds

theorem yields_fail (e : NetError) : Yields (fail e) P :=
  fun _ _ ran => nomatch ran

theorem yields_true (r : Wire α) : Yields r fun _ => True :=
  fun _ _ _ => trivial

theorem yields_ofExcept {r : Except NetError α} (holds : ∀ a, r = .ok a → P a) : Yields (ofExcept r) P := by
  cases r with
  | error e => exact yields_fail e
  | ok a => exact yields_pure (holds a rfl)

theorem Yields.bind {x : Wire α} {f : α → Wire β} (first : Yields x P) (next : ∀ a, P a → Yields (f a) Q) :
    Yields (x >>= f) Q := by
  intro m b ran
  rw [Message.run_bind] at ran
  rcases ran_x : m.run x with ⟨_ | a, m'⟩
  · rw [ran_x] at ran
    exact nomatch ran
  · rw [ran_x] at ran
    exact next a (first m a (by rw [ran_x])) m' b ran

theorem Yields.mono {r : Wire α} {P' : α → Prop} (yields : Yields r P) (weaker : ∀ a, P a → P' a) :
    Yields r P' :=
  fun m a ran => weaker a (yields m a ran)

end Yields

end Wire

namespace GameState

def chars (g : GameState) : Nat :=
  (g.nonEmpty.map fun e => e.2.utf8ByteSize + 1).sum

def withConfigString (g : GameState) (i : Nat) (value : String) : GameState :=
  { g with configStrings := g.configStrings.set! i value }

/-- The account of a game state's characters: a slot for every config string its limits allow, and
a count that is the characters its strings take and lies within its budget. -/
structure Accounted (g : GameState) : Prop where
  slots : g.configStrings.size = g.limits.maxConfigStrings
  count : g.dataCount = g.chars
  budget : g.dataCount ≤ g.limits.maxChars

def setAll (g : GameState) (calls : List (Nat × String)) : GameState :=
  calls.foldl (fun g c => ((g.setConfigString c.1 c.2).toOption).getD g) g

theorem chars_eq_sum_cost (g : GameState) : g.chars = (g.configStrings.toList.map cost).sum :=
  sum_cost_nonEmpty g

theorem chars_withConfigString (g : GameState) {i : Nat} (inside : i < g.configStrings.size) (value : String) :
    (g.withConfigString i value).chars + cost (g.configStrings[i]?.getD "") = g.chars + cost value := by
  have listed : i < (g.configStrings.toList.map cost).length := by simpa using inside
  have old : cost (g.configStrings[i]?.getD "") = (g.configStrings.toList.map cost)[i] := by
    simp [Array.getElem?_eq_getElem inside]
  rw [chars_eq_sum_cost, chars_eq_sum_cost, old, withConfigString, Array.set!_eq_setIfInBounds,
    Array.toList_setIfInBounds, List.map_set]
  exact sum_set_add_getElem _ _ listed

theorem cost_le_chars (g : GameState) (i : Nat) : cost (g.configStrings[i]?.getD "") ≤ g.chars := by
  rw [chars_eq_sum_cost]
  cases stored : g.configStrings[i]? with
  | none => exact Nat.zero_le _
  | some s =>
    apply List.le_sum_of_mem
    exact List.mem_map.mpr ⟨s, Array.mem_toList_iff.mpr (Array.mem_of_getElem? stored), rfl⟩

theorem accounted_new (limits : GameStateLimits) : (GameState.new limits).Accounted where
  slots := by simp [GameState.new]
  count := by simp [chars_eq_sum_cost, GameState.new, cost_empty]
  budget := Nat.zero_le _

theorem Accounted.congr {g g' : GameState} (accounted : g.Accounted) (strings : g'.configStrings = g.configStrings)
    (count : g'.dataCount = g.dataCount) (limits : g'.limits = g.limits) : g'.Accounted where
  slots := by rw [strings, limits, accounted.slots]
  count := by rw [count, chars_eq_sum_cost, strings, ← chars_eq_sum_cost, accounted.count]
  budget := by rw [count, limits]; exact accounted.budget

/-- On an accounted state, the count arithmetic of a change gives the characters of the strings after
it: the old string's cost never exceeds the count. -/
theorem Accounted.setConfigString_eq {g : GameState} (accounted : g.Accounted) (i : Nat) (value : String) :
    g.setConfigString i value =
      if g.limits.maxConfigStrings ≤ i then .error (.badConfigString i)
      else if g.limits.maxChars < (g.withConfigString i value).chars then
        .error (.gameStateOverflow g.limits.maxChars)
      else .ok { g.withConfigString i value with dataCount := (g.withConfigString i value).chars } := by
  unfold setConfigString
  dsimp only
  by_cases beyond : g.limits.maxConfigStrings ≤ i
  · rw [if_pos beyond, if_pos beyond]
  · have inside : i < g.configStrings.size := by rw [accounted.slots]; omega
    have traded := g.chars_withConfigString inside value
    have freed := g.cost_le_chars i
    have exact : g.dataCount - cost (g.configStrings[i]?.getD "") + cost value = (g.withConfigString i value).chars := by
      rw [accounted.count]
      omega
    rw [if_neg beyond, if_neg beyond, exact]
    rfl

theorem Accounted.setConfigString {g g' : GameState} (accounted : g.Accounted) {i : Nat} {value : String}
    (set : g.setConfigString i value = .ok g') : g'.Accounted := by
  rw [accounted.setConfigString_eq] at set
  split_ifs at set with beyond overBudget
  obtain rfl := (Except.ok.inj set).symm
  refine ⟨?_, rfl, Nat.le_of_not_lt overBudget⟩
  simp [withConfigString, Array.set!_eq_setIfInBounds, accounted.slots]

theorem Accounted.badConfigString_iff {g : GameState} (accounted : g.Accounted) (i : Nat) (value : String) :
    g.setConfigString i value = .error (.badConfigString i) ↔ g.limits.maxConfigStrings ≤ i := by
  rw [accounted.setConfigString_eq]
  by_cases beyond : g.limits.maxConfigStrings ≤ i
  · simp [beyond]
  · by_cases overBudget : g.limits.maxChars < (g.withConfigString i value).chars <;> simp [beyond, overBudget]

theorem Accounted.gameStateOverflow_iff {g : GameState} (accounted : g.Accounted) (i : Nat) (value : String) :
    g.setConfigString i value = .error (.gameStateOverflow g.limits.maxChars) ↔
      i < g.limits.maxConfigStrings ∧ g.limits.maxChars < (g.withConfigString i value).chars := by
  rw [accounted.setConfigString_eq]
  by_cases beyond : g.limits.maxConfigStrings ≤ i
  · simp [beyond]
  · by_cases overBudget : g.limits.maxChars < (g.withConfigString i value).chars <;>
      simp [beyond, overBudget, Nat.lt_of_not_le beyond]

/-- A call is refused for its index or for the budget, and for nothing else. -/
theorem Accounted.refusal {g : GameState} (accounted : g.Accounted) {i : Nat} {value : String} {e : NetError}
    (refused : g.setConfigString i value = .error e) :
    e = .badConfigString i ∨ e = .gameStateOverflow g.limits.maxChars := by
  rw [accounted.setConfigString_eq] at refused
  split_ifs at refused
  · exact .inl (Except.error.inj refused).symm
  · exact .inr (Except.error.inj refused).symm

theorem setConfigString_limits {g g' : GameState} {i : Nat} {value : String}
    (set : g.setConfigString i value = .ok g') : g'.limits = g.limits := by
  obtain ⟨-, -, rfl⟩ := setConfigString_ok set
  rfl

theorem Accounted.setAll {g : GameState} (accounted : g.Accounted) (calls : List (Nat × String)) :
    (g.setAll calls).Accounted := by
  induction calls generalizing g with
  | nil => exact accounted
  | cons c rest ih =>
    -- a call either leaves a new accounted state or, refused, the old one
    apply ih
    show ((g.setConfigString c.1 c.2).toOption.getD g).Accounted
    cases set : g.setConfigString c.1 c.2 with
    | error e => exact accounted
    | ok g' => exact accounted.setConfigString set

end GameState

namespace Protocol

open Wire

variable (p : Protocol)

theorem yields_readGameStateParts (fuel : Nat) (g : GameState) (accounted : g.Accounted) :
    Yields (p.readGameStateParts fuel g) fun g' => g'.Accounted ∧ g'.limits = g.limits := by
  induction fuel generalizing g with
  | zero => exact yields_fail _
  | succ fuel ih =>
    rw [readGameStateParts_succ]
    refine (yields_true _).bind fun code _ => ?_
    split
    · exact yields_pure ⟨accounted, rfl⟩
    · refine (yields_true _).bind fun _ _ => (yields_true _).bind fun _ _ =>
        (yields_ofExcept (P := fun g' => g'.Accounted ∧ g'.limits = g.limits) fun g' set =>
          ⟨accounted.setConfigString set, GameState.setConfigString_limits set⟩).bind fun g' kept => ?_
      exact (ih g' kept.1).mono fun g'' ⟨accounted'', limits''⟩ => ⟨accounted'', limits''.trans kept.2⟩
    · -- a baseline touches neither the strings nor the count
      refine (yields_true _).bind fun number _ => ?_
      dsimp only
      split
      · exact (yields_fail (P := fun _ => False) _).bind fun _ refused => refused.elim
      · exact (yields_true _).bind fun _ _ => ih _ (accounted.congr rfl rfl rfl)
    · exact yields_fail _

theorem yields_readGameState : Yields p.readGameState fun g => g.Accounted ∧ g.limits = p.limits := by
  unfold readGameState
  refine (yields_true _).bind fun sequence _ => (yields_true _).bind fun fuel _ =>
    Yields.bind (p.yields_readGameStateParts fuel _ ((GameState.accounted_new p.limits).congr rfl rfl rfl))
      fun g kept => ?_
  exact (yields_true _).bind fun _ _ => (yields_true _).bind fun _ _ => (yields_true _).bind fun _ _ =>
    yields_pure ⟨kept.1.congr rfl rfl rfl, kept.2⟩

end Protocol

namespace GameState

/-- The character count of every game state built by calls or read from a message is the characters
of its strings, within budget; a call is refused exactly for a missing slot or the budget. -/
theorem configStrings_withinBudget :
    (∀ limits : GameStateLimits, (GameState.new limits).Accounted) ∧
    (∀ (g : GameState) (calls : List (Nat × String)), g.Accounted → (g.setAll calls).Accounted) ∧
    (∀ (g : GameState) (i : Nat) (value : String), g.Accounted →
      (g.setConfigString i value = .error (.badConfigString i) ↔ g.limits.maxConfigStrings ≤ i) ∧
      (g.setConfigString i value = .error (.gameStateOverflow g.limits.maxChars) ↔
        i < g.limits.maxConfigStrings ∧ g.limits.maxChars < (g.withConfigString i value).chars) ∧
      (∀ e, g.setConfigString i value = .error e →
        e = .badConfigString i ∨ e = .gameStateOverflow g.limits.maxChars) ∧
      (∀ g', g.setConfigString i value = .ok g' →
        g' = { g.withConfigString i value with dataCount := (g.withConfigString i value).chars })) ∧
    (∀ (p : Protocol) (m : Message) (g : GameState), (m.run p.readGameState).1 = .ok g →
      g.Accounted ∧ g.limits = p.limits) := by
  refine ⟨accounted_new, fun g calls accounted => accounted.setAll calls, fun g i value accounted => ?_,
    fun p m g read => p.yields_readGameState m g read⟩
  refine ⟨accounted.badConfigString_iff i value, accounted.gameStateOverflow_iff i value,
    fun e refused => accounted.refusal refused, fun g' set => ?_⟩
  rw [accounted.setConfigString_eq] at set
  split_ifs at set
  exact (Except.ok.inj set).symm

theorem configStrings_withinBudget_charBudget :
    ((GameState.new ⟨16, 10, 4⟩).setAll [(5, "abcd"), (6, "efgh"), (7, "i"), (6, ""), (7, "ijk")]).Accounted :=
  configStrings_withinBudget.2.1 _ _ (configStrings_withinBudget.1 _)

end GameState

end Netcode
