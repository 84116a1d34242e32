import Netcode.Proofs.State.Budget

set_option autoImplicit false

namespace Netcode

namespace GameState

/-- The tables a game state's limits promise: a slot for every config string and baseline they
allow, and a character count within the budget. -/
structure Sized (g : GameState) : Prop where
  accounted : g.Accounted
  baselines : g.baselines.size = g.limits.maxBaselines

/-- A call that changes a game state. -/
inductive Call where
  | setConfigString (i : Nat) (value : String)
  | setBaseline (s : EntityState)

def call (g : GameState) : Call → GameState
  | .setConfigString i value => ((g.setConfigString i value).toOption).getD g
  | .setBaseline s => ((g.setBaseline s).toOption).getD g

def callAll (g : GameState) (calls : List Call) : GameState :=
  calls.foldl call g

theorem sized_new (limits : GameStateLimits) : (GameState.new limits).Sized :=
  ⟨accounted_new limits, by simp [GameState.new]⟩

theorem setBaseline_ok {g g' : GameState} {s : EntityState} (set : g.setBaseline s = .ok g') :
    s.number.toNatClampNeg < g.limits.maxBaselines ∧
      g' = { g with baselines := g.baselines.set! s.number.toNatClampNeg (some s) } := by
  unfold setBaseline at set
  split_ifs at set with refused
  obtain rfl := (Except.ok.inj set).symm
  exact ⟨by omega, rfl⟩

theorem Sized.setConfigString {g g' : GameState} (sized : g.Sized) {i : Nat} {value : String}
    (set : g.setConfigString i value = .ok g') : g'.Sized := by
  have accounted := sized.accounted.setConfigString set
  obtain ⟨-, -, rfl⟩ := setConfigString_ok set
  exact ⟨accounted, sized.baselines⟩

theorem Sized.setBaseline {g g' : GameState} (sized : g.Sized) {s : EntityState} (set : g.setBaseline s = .ok g') :
    g'.Sized := by
  obtain ⟨-, rfl⟩ := setBaseline_ok set
  exact ⟨sized.accounted.congr rfl rfl rfl, by simpa [Array.set!_eq_setIfInBounds] using sized.baselines⟩

/-- What every accepted change keeps, a call keeps: a refused call leaves the state as it was. -/
theorem call_of {P : GameState → Prop} {g : GameState} (kept : P g)
    (set : ∀ i value g', g.setConfigString i value = .ok g' → P g')
    (declare : ∀ s g', g.setBaseline s = .ok g' → P g') : ∀ c : Call, P (g.call c)
  | .setConfigString i value => by
    show P ((g.setConfigString i value).toOption.getD g)
    cases changed : g.setConfigString i value with
    | error e => exact kept
    | ok g' => exact set i value g' changed
  | .setBaseline s => by
    show P ((g.setBaseline s).toOption.getD g)
    cases declared : g.setBaseline s with
    | error e => exact kept
    | ok g' => exact declare s g' declared

theorem callAll_of {P : GameState → Prop} (step : ∀ g c, P g → P (g.call c)) {g : GameState} (start : P g)
    (calls : List Call) : P (g.callAll calls) := by
  induction calls generalizing g with
  | nil => exact start
  | cons c rest ih => exact ih (step g c start)

theorem Sized.call {g : GameState} (sized : g.Sized) (c : Call) : (g.call c).Sized :=
  call_of sized (fun _ _ _ changed => sized.setConfigString changed) (fun _ _ declared => sized.setBaseline declared) c

theorem Sized.callAll {g : GameState} (sized : g.Sized) (calls : List Call) : (g.callAll calls).Sized :=
  callAll_of (fun _ c sized => sized.call c) sized calls

theorem limits_call (g : GameState) (c : Call) : (g.call c).limits = g.limits :=
  call_of (P := fun g' => g'.limits = g.limits) rfl (fun _ _ _ changed => setConfigString_limits changed)
    (fun _ _ declared => by obtain ⟨-, rfl⟩ := setBaseline_ok declared; rfl) c

theorem limits_callAll (g : GameState) (calls : List Call) : (g.callAll calls).limits = g.limits :=
  callAll_of (P := fun g' => g'.limits = g.limits) (fun g' c same => (limits_call g' c).trans same) rfl calls

/-- The string a config string change frees is in the table, and the count covers its cost, so
freeing it never takes the count below zero. -/
theorem Sized.freed_within {g : GameState} (sized : g.Sized) {i : Nat} (inside : i < g.limits.maxConfigStrings) :
    ∃ s, g.configStrings[i]? = some s ∧ cost s ≤ g.dataCount := by
  have present : i < g.configStrings.size := by rw [sized.accounted.slots]; exact inside
  refine ⟨g.configStrings[i], Array.getElem?_eq_getElem present, ?_⟩
  have within := g.cost_le_chars i
  rw [Array.getElem?_eq_getElem present, Option.getD_some] at within
  rw [sized.accounted.count]
  exact within

theorem Sized.baseline_inside {g : GameState} (sized : g.Sized) {n : Nat} (inside : n < g.limits.maxBaselines) :
    n < g.baselines.size := by
  rw [sized.baselines]
  exact inside

theorem slot_eq_error_iff (g : GameState) (i : Nat) :
    g.slot i = .error ⟨g.configStrings.size, i⟩ ↔ g.configStrings.size ≤ i := by
  unfold slot
  by_cases past : g.configStrings.size ≤ i
  · rw [Array.getElem?_eq_none past]
    exact ⟨fun _ => past, fun _ => rfl⟩
  · rw [Array.getElem?_eq_getElem (Nat.lt_of_not_le past)]
    exact ⟨(fun wrong => nomatch wrong), fun beyond => absurd beyond past⟩

theorem map_eq_error_iff {α β : Type} (f : α → β) (x : Except IndexOutOfBounds α) (e : IndexOutOfBounds) :
    f <$> x = .error e ↔ x = .error e := by
  cases x <;> simp [Functor.map, Except.map]

theorem Sized.serverInfo_eq_error_iff {g : GameState} (sized : g.Sized) :
    g.serverInfo = .error ⟨g.limits.maxConfigStrings, ConfigKind.serverInfoIndex⟩ ↔
      g.limits.maxConfigStrings ≤ ConfigKind.serverInfoIndex := by
  rw [serverInfo, map_eq_error_iff, ← sized.accounted.slots, slot_eq_error_iff]

theorem Sized.systemInfo_eq_error_iff {g : GameState} (sized : g.Sized) :
    g.systemInfo = .error ⟨g.limits.maxConfigStrings, ConfigKind.systemInfoIndex⟩ ↔
      g.limits.maxConfigStrings ≤ ConfigKind.systemInfoIndex := by
  rw [systemInfo, map_eq_error_iff, ← sized.accounted.slots, slot_eq_error_iff]

theorem Sized.serverId_eq_error_iff {g : GameState} (sized : g.Sized) :
    g.serverId = .error ⟨g.limits.maxConfigStrings, ConfigKind.systemInfoIndex⟩ ↔
      g.limits.maxConfigStrings ≤ ConfigKind.systemInfoIndex := by
  rw [serverId, map_eq_error_iff, ← sized.accounted.slots, slot_eq_error_iff]

end GameState

namespace Protocol

open Wire

variable (p : Protocol)

/-- The parts of a game state, read into a sized state, leave it sized and under the same limits:
a baseline is written only after its number passes the check against the limits. -/
theorem yields_sized_readGameStateParts (fuel : Nat) (g : GameState) (sized : g.Sized) :
    Yields (p.readGameStateParts fuel g) fun g' => g'.Sized ∧ g'.limits = g.limits := by
  induction fuel generalizing g with
  | zero => exact yields_fail _
  | succ fuel ih =>
    rw [readGameStateParts_succ]
    refine (yields_true _).bind fun code _ => ?_
    split
    · exact yields_pure ⟨sized, rfl⟩
    · refine (yields_true _).bind fun _ _ => (yields_true _).bind fun _ _ =>
        (yields_ofExcept (P := fun g' => g'.Sized ∧ g'.limits = g.limits) fun g' set =>
          ⟨sized.setConfigString set, GameState.setConfigString_limits set⟩).bind fun g' kept => ?_
      exact (ih g' kept.1).mono fun g'' ⟨sized'', limits''⟩ => ⟨sized'', limits''.trans kept.2⟩
    · refine (yields_true _).bind fun number _ => ?_
      dsimp only
      split
      · exact (yields_fail (P := fun _ => False) _).bind fun _ refused => refused.elim
      · -- the number passed its check, so the write lands in the table and keeps its size
        refine (yields_true _).bind fun _ _ => ih _ ⟨sized.accounted.congr rfl rfl rfl, ?_⟩
        simpa [Array.set!_eq_setIfInBounds] using sized.baselines
    · exact yields_fail _

theorem yields_sized_readGameState : Yields p.readGameState GameState.Sized := by
  unfold readGameState
  refine (yields_true _).bind fun sequence _ => (yields_true _).bind fun fuel _ =>
    Yields.bind (p.yields_sized_readGameStateParts fuel _
      ⟨(GameState.accounted_new p.limits).congr rfl rfl rfl, by simp [GameState.new]⟩) fun g kept => ?_
  exact (yields_true _).bind fun _ _ => (yields_true _).bind fun _ _ => (yields_true _).bind fun _ _ =>
    yields_pure ⟨kept.1.accounted.congr rfl rfl rfl, kept.1.baselines⟩

end Protocol

namespace GameState

/-- Every game state built by calls or read from a message keeps the table sizes its limits give,
and the unchecked info reads fail with an index out of bounds exactly when the limits leave no slot.
-/
theorem infoReads_panicWithoutSlots (limits : GameStateLimits) (calls : List Call) (p : Protocol) :
    let g := (GameState.new limits).callAll calls
    (∀ i < limits.maxConfigStrings, ∃ s, g.configStrings[i]? = some s ∧ cost s ≤ g.dataCount) ∧
      (∀ n < limits.maxBaselines, n < g.baselines.size) ∧ Wire.Yields p.readGameState Sized ∧
      (g.serverInfo = .error ⟨limits.maxConfigStrings, ConfigKind.serverInfoIndex⟩ ↔
        limits.maxConfigStrings ≤ ConfigKind.serverInfoIndex) ∧
      (g.systemInfo = .error ⟨limits.maxConfigStrings, ConfigKind.systemInfoIndex⟩ ↔
        limits.maxConfigStrings ≤ ConfigKind.systemInfoIndex) ∧
      (g.serverId = .error ⟨limits.maxConfigStrings, ConfigKind.systemInfoIndex⟩ ↔
        limits.maxConfigStrings ≤ ConfigKind.systemInfoIndex) := by
  intro g
  have sized : g.Sized := (sized_new limits).callAll calls
  have kept : g.limits = limits := limits_callAll _ calls
  have server := sized.serverInfo_eq_error_iff
  have system := sized.systemInfo_eq_error_iff
  have id := sized.serverId_eq_error_iff
  rw [kept] at server system id
  refine ⟨fun i inside => sized.freed_within (kept ▸ inside), fun n inside => sized.baseline_inside (kept ▸ inside),
    p.yields_sized_readGameState, server, system, id⟩

end GameState

end Netcode
