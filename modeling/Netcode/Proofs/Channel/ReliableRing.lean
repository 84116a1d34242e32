import Netcode.Proofs.Channel.CommandRing

set_option autoImplicit false

namespace Netcode

inductive ReliableOp where
  | add (text : String)
  | acknowledge (a : UInt32)
  | reset (s : UInt32)

/-- What a ring of outgoing commands was given since it was made or last reset: the sequence it
started from, and the commands it accepted, each with the sequence it got. -/
structure ReliableLog where
  base : UInt32 := 0
  added : List (UInt32 × String) := []

namespace ReliableOp

def run : ReliableOp → ReliableSequence × ReliableLog → ReliableSequence × ReliableLog
  | .add text, (r, log) =>
    let (accepted, r) := r.add text
    (r, if accepted then { log with added := log.added ++ [(r.sequence, text)] } else log)
  | .acknowledge a, (r, log) => (r.updateAcknowledge a, log)
  | .reset s, (r, _) => (r.reset s, { base := s })

def runAll (ops : List ReliableOp) (start : ReliableSequence × ReliableLog) :
    ReliableSequence × ReliableLog :=
  ops.foldl (fun st op => op.run st) start

@[simp] theorem runAll_nil (start : ReliableSequence × ReliableLog) : runAll [] start = start := rfl

@[simp] theorem runAll_cons (op : ReliableOp) (ops : List ReliableOp)
    (start : ReliableSequence × ReliableLog) : runAll (op :: ops) start = runAll ops (op.run start) :=
  rfl

end ReliableOp

namespace ReliableSequence

variable {r : ReliableSequence}

/-- A ring of a power of two of slots keeps a sequence in the slot of its residue; a ring too
large for 32-bit arithmetic masks with all ones, and every sequence has a slot of its own. -/
theorem slotOf_eq (power : ∃ k, r.capacity = 2 ^ k) (s : UInt32) :
    r.slotOf s = s.toNat % r.capacity := by
  obtain ⟨k, eq⟩ := power
  by_cases narrow : k < 32
  · have fits : r.capacity < 2 ^ 32 := by
      rw [eq]
      exact Nat.pow_lt_pow_right (by decide) narrow
    have toNat_capacity : r.capacity.toUInt32.toNat = r.capacity := by
      simp only [Nat.toUInt32_eq, UInt32.toNat_ofNat']
      exact Nat.mod_eq_of_lt fits
    have one : (1 : UInt32) ≤ r.capacity.toUInt32 := by
      rw [UInt32.le_iff_toNat_le, toNat_capacity, eq]
      exact Nat.one_le_two_pow
    rw [slotOf, UInt32.toNat_and, UInt32.toNat_sub_of_le _ _ one, toNat_capacity, eq]
    exact Nat.and_two_pow_sub_one_eq_mod _ _
  · -- the capacity is a multiple of 2 ^ 32: it wraps to zero and the mask keeps every bit
    have wraps : r.capacity.toUInt32 = 0 := by
      rw [eq, ← Nat.add_sub_cancel' (Nat.le_of_not_lt narrow), Nat.pow_add]
      simp
    have below : s.toNat < r.capacity := by
      rw [eq]
      exact Nat.lt_of_lt_of_le s.toNat_lt (Nat.pow_le_pow_right (by decide) (Nat.le_of_not_lt narrow))
    rw [slotOf, wraps, Nat.mod_eq_of_lt below]
    simp

theorem commandAt_eq (power : ∃ k, r.capacity = 2 ^ k) (s : UInt32) :
    r.commandAt s = r.commands.getD (s.toNat % r.capacity) "" := by
  rw [commandAt, slotOf_eq power]

theorem add_of_full (full : r.capacity ≤ (r.sequence - r.acknowledge).toNat) (text : String) :
    r.add text = (false, r) := by
  simp only [add, if_pos full]

theorem add_of_room (room : (r.sequence - r.acknowledge).toNat < r.capacity) (text : String) :
    r.add text = (true, { r with
      sequence := r.sequence + 1
      commands := r.commands.set! (r.slotOf (r.sequence + 1)) text }) := by
  simp only [add, if_neg (Nat.not_le.mpr room)]

@[simp] theorem updateAcknowledge_sequence (a : UInt32) :
    (r.updateAcknowledge a).sequence = r.sequence := by
  simp only [updateAcknowledge]
  split_ifs <;> rfl

@[simp] theorem updateAcknowledge_commands (a : UInt32) :
    (r.updateAcknowledge a).commands = r.commands := by
  simp only [updateAcknowledge]
  split_ifs <;> rfl

@[simp] theorem updateAcknowledge_capacity (a : UInt32) :
    (r.updateAcknowledge a).capacity = r.capacity := by
  rw [capacity, updateAcknowledge_commands, capacity]

/-- The acknowledge a call aims at: the argument clamped to the sequence, or the sequence when the
argument lags more than a lap behind it. -/
theorem updateAcknowledge_acknowledge (a : UInt32) :
    (r.updateAcknowledge a).acknowledge =
      let target := if r.capacity < r.sequence.toNat - a.toNat then r.sequence else min a r.sequence
      if target > r.acknowledge then target else r.acknowledge := by
  have clamp : (if a > r.sequence then r.sequence else a) = min a r.sequence := by
    by_cases ahead : a > r.sequence
    · rw [if_pos ahead, UInt32.min_def, if_neg (UInt32.not_le.mpr ahead)]
    · rw [if_neg ahead, UInt32.min_def, if_pos (UInt32.not_lt.mp ahead)]
  have clamped : min a r.sequence ≤ r.sequence :=
    UInt32.le_iff_toNat_le.mpr (by rw [UInt32.toNat_min]; exact Nat.min_le_right _ _)
  have lag : (r.sequence - min a r.sequence).toNat = r.sequence.toNat - a.toNat := by
    rw [UInt32.toNat_sub_of_le _ _ clamped, UInt32.toNat_min]
    omega
  simp only [updateAcknowledge, clamp, lag, gt_iff_lt]
  generalize (if r.capacity < r.sequence.toNat - a.toNat then r.sequence else min a r.sequence) = target
  by_cases moves : r.acknowledge < target
  · rw [if_pos moves, if_pos moves]
  · rw [if_neg moves, if_neg moves]

theorem le_updateAcknowledge (a : UInt32) : r.acknowledge ≤ (r.updateAcknowledge a).acknowledge := by
  rw [updateAcknowledge_acknowledge]
  dsimp only
  split_ifs with lags moves moves
  · exact UInt32.le_of_lt moves
  · exact UInt32.le_refl _
  · exact UInt32.le_of_lt moves
  · exact UInt32.le_refl _

theorem updateAcknowledge_le (behind : r.acknowledge ≤ r.sequence) (a : UInt32) :
    (r.updateAcknowledge a).acknowledge ≤ r.sequence := by
  have clamped : min a r.sequence ≤ r.sequence :=
    UInt32.le_iff_toNat_le.mpr (by rw [UInt32.toNat_min]; exact Nat.min_le_right _ _)
  rw [updateAcknowledge_acknowledge]
  dsimp only
  split_ifs
  · exact UInt32.le_refl _
  · exact behind
  · exact clamped
  · exact behind

theorem updateAcknowledge_moves (a : UInt32) :
    (r.updateAcknowledge a).acknowledge = r.acknowledge ∨
      (r.updateAcknowledge a).acknowledge = min a r.sequence ∨
      ((r.updateAcknowledge a).acknowledge = r.sequence ∧ r.capacity < r.sequence.toNat - a.toNat) := by
  rw [updateAcknowledge_acknowledge]
  dsimp only
  split_ifs with lags
  · exact .inr (.inr ⟨rfl, lags⟩)
  · exact .inl rfl
  · exact .inr (.inl rfl)
  · exact .inl rfl

@[simp] theorem add_acknowledge (text : String) : (r.add text).2.acknowledge = r.acknowledge := by
  unfold add
  split <;> rfl

@[simp] theorem add_capacity (text : String) : (r.add text).2.capacity = r.capacity := by
  unfold add
  split
  · rfl
  · simp [capacity]

theorem add_sequence (room : (r.sequence - r.acknowledge).toNat < r.capacity) (text : String) :
    (r.add text).2.sequence = r.sequence + 1 := by
  rw [add_of_room room]

theorem add_commandAt (power : ∃ k, r.capacity = 2 ^ k)
    (room : (r.sequence - r.acknowledge).toNat < r.capacity) (text : String) (s : UInt32) :
    (r.add text).2.commandAt s =
      if (r.sequence + 1).toNat % r.capacity = s.toNat % r.capacity then text else r.commandAt s := by
  obtain ⟨k, eq⟩ := power
  have inside : (r.sequence + 1).toNat % r.capacity < r.commands.size := by
    apply Nat.mod_lt
    rw [eq]
    exact Nat.two_pow_pos k
  have power' : ∃ k, (r.add text).2.capacity = 2 ^ k := ⟨k, by rw [add_capacity, eq]⟩
  rw [commandAt_eq power', add_capacity, add_of_room room, commandAt_eq ⟨k, eq⟩]
  dsimp only
  rw [slotOf_eq ⟨k, eq⟩]
  exact getD_set!_of_lt _ _ _ _ _ inside

@[simp] theorem reset_capacity (s : UInt32) : (r.reset s).capacity = r.capacity := by
  simp [reset, capacity]

/-- What a ring of outgoing commands keeps over a run: a power of two of slots, the acknowledge at
most a lap behind the sequence, and each recorded command in its slot while less than a lap behind.
-/
structure Queued (r : ReliableSequence) (log : ReliableLog) : Prop where
  power : ∃ k, r.capacity = 2 ^ k
  base_le : log.base ≤ r.acknowledge
  acknowledge_le : r.acknowledge ≤ r.sequence
  within : r.sequence.toNat ≤ r.acknowledge.toNat + r.capacity
  sequences : log.added.map (·.1.toNat) =
    List.range' (log.base.toNat + 1) (r.sequence.toNat - log.base.toNat)
  held : ∀ x ∈ log.added, r.sequence.toNat < x.1.toNat + r.capacity → r.commandAt x.1 = x.2

variable {log : ReliableLog}

theorem Queued.mem_added (queued : Queued r log) {x : UInt32 × String} (mem : x ∈ log.added) :
    log.base.toNat < x.1.toNat ∧ x.1.toNat ≤ r.sequence.toNat := by
  have listed : x.1.toNat ∈ log.added.map (·.1.toNat) := List.mem_map_of_mem mem
  rw [queued.sequences, List.mem_range'_1] at listed
  have := UInt32.le_iff_toNat_le.mp (UInt32.le_trans queued.base_le queued.acknowledge_le)
  omega

theorem queued_new (requested : Nat) : Queued (new requested) {} where
  power := by
    obtain ⟨k, eq, -⟩ := ringCapacity_eq_two_pow requested
    exact ⟨k, by simp [new, capacity, eq]⟩
  base_le := UInt32.le_refl _
  acknowledge_le := UInt32.le_refl _
  within := Nat.le_add_right _ _
  sequences := rfl
  held x mem := absurd mem List.not_mem_nil

theorem Queued.reset (queued : Queued r log) (s : UInt32) : Queued (r.reset s) { base := s } where
  power := by rw [reset_capacity]; exact queued.power
  base_le := UInt32.le_refl _
  acknowledge_le := UInt32.le_refl _
  within := Nat.le_add_right _ _
  sequences := by simp [ReliableSequence.reset]
  held x mem := absurd mem List.not_mem_nil

theorem Queued.updateAcknowledge (queued : Queued r log) (a : UInt32) :
    Queued (r.updateAcknowledge a) log where
  power := by rw [updateAcknowledge_capacity]; exact queued.power
  base_le := UInt32.le_trans queued.base_le (le_updateAcknowledge a)
  acknowledge_le := by
    rw [updateAcknowledge_sequence]
    exact updateAcknowledge_le queued.acknowledge_le a
  within := by
    have := UInt32.le_iff_toNat_le.mp (le_updateAcknowledge (r := r) a)
    rw [updateAcknowledge_sequence, updateAcknowledge_capacity]
    exact Nat.le_trans queued.within (by omega)
  sequences := by
    rw [updateAcknowledge_sequence]
    exact queued.sequences
  held x mem lap := by
    rw [updateAcknowledge_sequence, updateAcknowledge_capacity] at lap
    rw [commandAt, slotOf, updateAcknowledge_commands, updateAcknowledge_capacity]
    exact queued.held x mem lap

/-- A full ring refuses a command and changes nothing; otherwise the command takes the next
sequence and its slot, and the record gains it. The next sequence must not wrap. -/
theorem Queued.add (queued : Queued r log) (fits : r.sequence.toNat < 2 ^ 32 - 1) (text : String) :
    Queued (ReliableOp.run (.add text) (r, log)).1 (ReliableOp.run (.add text) (r, log)).2 := by
  have gap : (r.sequence - r.acknowledge).toNat = r.sequence.toNat - r.acknowledge.toNat :=
    UInt32.toNat_sub_of_le _ _ queued.acknowledge_le
  by_cases full : r.capacity ≤ (r.sequence - r.acknowledge).toNat
  · simp only [ReliableOp.run, add_of_full full]
    exact queued
  have room := Nat.lt_of_not_le full
  have accepted : (r.add text).1 = true := by rw [add_of_room room]
  have behind := UInt32.le_iff_toNat_le.mp queued.acknowledge_le
  have base := UInt32.le_iff_toNat_le.mp queued.base_le
  have next : (r.sequence + 1).toNat = r.sequence.toNat + 1 := by
    rw [UInt32.toNat_add, UInt32.toNat_one, Nat.mod_eq_of_lt (by omega)]
  have sequence := add_sequence room text
  show Queued (r.add text).2 (if (r.add text).1 then { log with added := log.added ++ [((r.add text).2.sequence, text)] } else log)
  rw [if_pos accepted, sequence]
  refine ⟨?_, ?_, ?_, ?_, ?_, ?_⟩
  · rw [add_capacity]
    exact queued.power
  · rw [add_acknowledge]
    exact queued.base_le
  · rw [add_acknowledge, sequence]
    exact UInt32.le_iff_toNat_le.mpr (by rw [next]; omega)
  · rw [add_acknowledge, sequence, add_capacity, next]
    omega
  · dsimp only
    rw [List.map_append, queued.sequences, List.map_singleton, sequence, next,
      show r.sequence.toNat + 1 - log.base.toNat = (r.sequence.toNat - log.base.toNat) + 1 by omega,
      List.range'_concat]
    congr 2
    omega
  · intro x mem lap
    rw [sequence, add_capacity, next] at lap
    rw [add_commandAt queued.power room, next]
    rcases List.mem_append.mp mem with old | new
    · -- an older command less than a lap behind the new one has another slot
      have before := (queued.mem_added old).2
      rw [if_neg (CommandSequence.mod_ne_of_lt_of_lt_add (by omega) (by omega)).symm]
      exact queued.held x old (by omega)
    · rw [List.mem_singleton.mp new, next, if_pos rfl]

theorem Queued.run (queued : Queued r log) (fits : r.sequence.toNat < 2 ^ 32 - 1) (op : ReliableOp) :
    Queued (op.run (r, log)).1 (op.run (r, log)).2 := by
  cases op with
  | add text => exact queued.add fits text
  | acknowledge a => exact queued.updateAcknowledge a
  | reset s => exact queued.reset s

theorem Queued.runAll {ops : List ReliableOp} :
    ∀ {start : ReliableSequence × ReliableLog}, Queued start.1 start.2 →
      (∀ k < ops.length, (ReliableOp.runAll (ops.take k) start).1.sequence.toNat < 2 ^ 32 - 1) →
      Queued (ReliableOp.runAll ops start).1 (ReliableOp.runAll ops start).2 := by
  induction ops with
  | nil => exact fun queued _ => queued
  | cons op rest ih =>
    intro start queued below
    have first : start.1.sequence.toNat < 2 ^ 32 - 1 := below 0 (Nat.succ_pos _)
    rw [ReliableOp.runAll_cons]
    refine ih (queued.run first op) fun k small => ?_
    have later := below (k + 1) (by simp only [List.length_cons]; omega)
    rwa [List.take_succ_cons, ReliableOp.runAll_cons] at later

theorem Queued.length_added (queued : Queued r log) :
    log.added.length = r.sequence.toNat - log.base.toNat := by
  simpa using congrArg List.length queued.sequences

theorem Queued.getElem_added (queued : Queued r log) (i : Nat) (lt : i < log.added.length) :
    log.added[i].1.toNat = log.base.toNat + 1 + i := by
  have listed := List.getElem_of_eq queued.sequences (by rw [List.length_map]; exact lt)
  rw [List.getElem_map, List.getElem_range'] at listed
  simpa using listed

theorem Queued.filter_added (queued : Queued r log) :
    log.added.filter (fun x => r.acknowledge < x.1) =
      log.added.drop (r.acknowledge.toNat - log.base.toNat) := by
  have base := UInt32.le_iff_toNat_le.mp queued.base_le
  have behind := UInt32.le_iff_toNat_le.mp queued.acknowledge_le
  have length := queued.length_added
  -- the commands up to the acknowledge are dropped and those after it kept
  conv_lhs => rw [← List.take_append_drop (r.acknowledge.toNat - log.base.toNat) log.added]
  rw [List.filter_append, List.filter_eq_nil_iff.mpr, List.filter_eq_self.mpr, List.nil_append]
  · intro x mem
    obtain ⟨i, lt, rfl⟩ := List.getElem_of_mem mem
    rw [List.length_drop] at lt
    rw [List.getElem_drop, decide_eq_true_iff, UInt32.lt_iff_toNat_lt,
      queued.getElem_added _ (by omega)]
    omega
  · intro x mem
    obtain ⟨i, lt, rfl⟩ := List.getElem_of_mem mem
    rw [List.length_take] at lt
    rw [List.getElem_take, decide_eq_true_iff, UInt32.lt_iff_toNat_lt,
      queued.getElem_added _ (by omega)]
    omega

/-- The pending commands are the recorded ones past the acknowledge, with their own texts. -/
theorem Queued.pending_eq (queued : Queued r log) :
    r.pending = log.added.filter (fun x => r.acknowledge < x.1) := by
  have base := UInt32.le_iff_toNat_le.mp queued.base_le
  have behind := UInt32.le_iff_toNat_le.mp queued.acknowledge_le
  have within := queued.within
  have gap : (r.sequence - r.acknowledge).toNat = r.sequence.toNat - r.acknowledge.toNat :=
    UInt32.toNat_sub_of_le _ _ queued.acknowledge_le
  have length := queued.length_added
  rw [queued.filter_added]
  apply List.ext_getElem
  · rw [pending, List.length_map, List.length_range, List.length_drop, gap, length]
    omega
  · intro j inPending inDrop
    rw [List.length_drop] at inDrop
    have sequenceOf := queued.getElem_added (r.acknowledge.toNat - log.base.toNat + j) (by omega)
    -- the j-th pending sequence is the acknowledge plus j + 1, with no wrap below the sequence
    have pendingOf : (r.acknowledge + 1 + j.toUInt32).toNat = r.acknowledge.toNat + 1 + j := by
      have := r.sequence.toNat_lt
      rw [UInt32.toNat_add, UInt32.toNat_add, UInt32.toNat_one, Nat.toUInt32_eq, UInt32.toNat_ofNat',
        Nat.mod_eq_of_lt (show j < 2 ^ 32 by omega), Nat.mod_eq_of_lt (by omega), Nat.mod_eq_of_lt (by omega)]
    have same : r.acknowledge + 1 + j.toUInt32 = (log.added[r.acknowledge.toNat - log.base.toNat + j]).1 :=
      UInt32.toNat_inj.mp (by rw [pendingOf, sequenceOf]; omega)
    simp only [pending, List.getElem_map, List.getElem_range, List.getElem_drop]
    rw [same, queued.held _ (List.getElem_mem _) (by rw [sequenceOf]; omega)]

theorem commandAt_acknowledge_of_full (power : ∃ k, r.capacity = 2 ^ k)
    (full : r.sequence.toNat = r.acknowledge.toNat + r.capacity) :
    r.commandAt r.acknowledge = r.commandAt r.sequence := by
  rw [commandAt_eq power, commandAt_eq power, full, Nat.add_mod_right]

/-- The outgoing ring keeps every command until it is acknowledged: the pending commands are the
recorded ones past the acknowledge, in order; an add fails exactly on a full ring, and the
acknowledge never moves back. -/
theorem runAll_keepsPending (requested : Nat) (ops : List ReliableOp)
    (below : ∀ k < ops.length,
      (ReliableOp.runAll (ops.take k) (new requested, {})).1.sequence.toNat < 2 ^ 32 - 1) :
    let r := (ReliableOp.runAll ops (new requested, {})).1
    let log := (ReliableOp.runAll ops (new requested, {})).2
    (log.base ≤ r.acknowledge ∧ r.acknowledge ≤ r.sequence ∧
      r.sequence.toNat ≤ r.acknowledge.toNat + r.capacity) ∧
    log.added.map (·.1.toNat) = List.range' (log.base.toNat + 1) (r.sequence.toNat - log.base.toNat) ∧
    r.pending = log.added.filter (fun x => r.acknowledge < x.1) ∧
    (∀ x ∈ log.added, r.sequence.toNat < x.1.toNat + r.capacity → r.commandAt x.1 = x.2) ∧
    (r.sequence.toNat = r.acknowledge.toNat + r.capacity →
      ∀ x ∈ log.added, x.1 = r.sequence → r.commandAt r.acknowledge = x.2) ∧
    (∀ text, (r.add text).1 = decide (r.sequence.toNat - r.acknowledge.toNat < r.capacity) ∧
      ((r.add text).1 = false → (r.add text).2 = r)) ∧
    (∀ a, r.acknowledge ≤ (r.updateAcknowledge a).acknowledge ∧
      ((r.updateAcknowledge a).acknowledge = r.acknowledge ∨
        (r.updateAcknowledge a).acknowledge = min a r.sequence ∨
        ((r.updateAcknowledge a).acknowledge = r.sequence ∧ r.capacity < r.sequence.toNat - a.toNat))) := by
  intro r log
  have queued : Queued r log := Queued.runAll (queued_new requested) below
  have gap : (r.sequence - r.acknowledge).toNat = r.sequence.toNat - r.acknowledge.toNat :=
    UInt32.toNat_sub_of_le _ _ queued.acknowledge_le
  refine ⟨⟨queued.base_le, queued.acknowledge_le, queued.within⟩, queued.sequences, queued.pending_eq,
    queued.held, ?_, fun text => ?_, fun a => ⟨le_updateAcknowledge a, updateAcknowledge_moves a⟩⟩
  · intro full x mem newest
    rw [commandAt_acknowledge_of_full queued.power full, ← newest]
    exact queued.held x mem (by rw [newest]; exact Nat.lt_add_of_pos_right (by
      obtain ⟨k, eq⟩ := queued.power
      rw [eq]
      exact Nat.two_pow_pos k))
  · by_cases full : r.capacity ≤ (r.sequence - r.acknowledge).toNat
    · rw [add_of_full full]
      exact ⟨by rw [gap] at full; simp [Nat.not_lt.mpr full], fun _ => rfl⟩
    · rw [add_of_room (Nat.lt_of_not_le full)]
      rw [gap] at full
      exact ⟨by simp [Nat.lt_of_not_le full], fun refused => Bool.noConfusion refused⟩

/-- A ring of four slots runs a whole lap ahead of its acknowledge: the fifth command takes the
slot of the acknowledged first one. -/
theorem runAll_keepsPending_fullLap :
    let ops : List ReliableOp := [.add "a", .add "b", .add "c", .add "d", .acknowledge 1, .add "e"]
    (∀ k < ops.length, (ReliableOp.runAll (ops.take k) (new 4, {})).1.sequence.toNat < 2 ^ 32 - 1) ∧
    (ReliableOp.runAll ops (new 4, {})).1.commandAt 1 = "e" ∧
    let r := (ReliableOp.runAll ops (new 4, {})).1
    let log := (ReliableOp.runAll ops (new 4, {})).2
    (log.base ≤ r.acknowledge ∧ r.acknowledge ≤ r.sequence ∧
      r.sequence.toNat ≤ r.acknowledge.toNat + r.capacity) ∧
    log.added.map (·.1.toNat) = List.range' (log.base.toNat + 1) (r.sequence.toNat - log.base.toNat) ∧
    r.pending = log.added.filter (fun x => r.acknowledge < x.1) ∧
    (∀ x ∈ log.added, r.sequence.toNat < x.1.toNat + r.capacity → r.commandAt x.1 = x.2) ∧
    (r.sequence.toNat = r.acknowledge.toNat + r.capacity →
      ∀ x ∈ log.added, x.1 = r.sequence → r.commandAt r.acknowledge = x.2) ∧
    (∀ text, (r.add text).1 = decide (r.sequence.toNat - r.acknowledge.toNat < r.capacity) ∧
      ((r.add text).1 = false → (r.add text).2 = r)) ∧
    (∀ a, r.acknowledge ≤ (r.updateAcknowledge a).acknowledge ∧
      ((r.updateAcknowledge a).acknowledge = r.acknowledge ∨
        (r.updateAcknowledge a).acknowledge = min a r.sequence ∨
        ((r.updateAcknowledge a).acknowledge = r.sequence ∧ r.capacity < r.sequence.toNat - a.toNat))) :=
  ⟨by decide, by decide, runAll_keepsPending 4 _ (by decide)⟩

end ReliableSequence

end Netcode
