import Netcode.Proofs.Channel.CommandRing

set_option autoImplicit false

namespace Netcode

inductive CommandOp where
  | store (s : UInt32) (text : String)
  | next
  | reset (s : UInt32)

/-- What a ring has done since it was made or last reset: the stores it accepted and the commands
it handed out, each in order. -/
structure CommandLog where
  accepted : List (UInt32 × String) := []
  handed : List (UInt32 × String) := []

namespace CommandOp

def run : CommandOp → CommandSequence × CommandLog → CommandSequence × CommandLog
  | .store s text, (c, log) =>
    let (accepted, c) := c.store s text
    (c, if accepted then { log with accepted := log.accepted ++ [(s, text)] } else log)
  | .next, (c, log) =>
    let (handed, c) := c.nextPending
    (c, { log with handed := log.handed ++ handed.toList })
  | .reset s, (c, _) => (c.reset s, {})

def runAll (ops : List CommandOp) (start : CommandSequence × CommandLog) : CommandSequence × CommandLog :=
  ops.foldl (fun st op => op.run st) start

@[simp] theorem runAll_nil (start : CommandSequence × CommandLog) : runAll [] start = start := rfl

@[simp] theorem runAll_cons (op : CommandOp) (ops : List CommandOp) (start : CommandSequence × CommandLog) :
    runAll (op :: ops) start = runAll ops (op.run start) := rfl

theorem runAll_append (first second : List CommandOp) (start : CommandSequence × CommandLog) :
    runAll (first ++ second) start = runAll second (runAll first start) := by
  simp [runAll, List.foldl_append]

/-- An operation that keeps a stored sequence s in reach: no reset, and no store a lap or more
past it. -/
def Keeps (s : UInt32) (capacity : Nat) : CommandOp → Prop
  | .store t _ => t.toNat < s.toNat + capacity
  | .next => True
  | .reset _ => False

end CommandOp

namespace CommandSequence

variable {c : CommandSequence}

/-- What a ring and its record keep over a run: stores and hand-outs in increasing order, and every
sequence still due that its slot holds, with the command stored since the last reset. -/
structure Tracks (c : CommandSequence) (log : CommandLog) : Prop where
  shaped : c.Shaped
  accepted_increasing : log.accepted.Pairwise (·.1 < ·.1)
  accepted_le : ∀ x ∈ log.accepted, x.1 ≤ c.sequence
  handed_increasing : log.handed.Pairwise (·.1 < ·.1)
  handed_le : ∀ x ∈ log.handed, x.1 ≤ c.executed
  held : ∀ t : UInt32, c.executed < t → t ≤ c.sequence → c.stored.getD (t.toNat % c.capacity) 0 = t →
    (t, c.commands.getD (t.toNat % c.capacity) "") ∈ log.accepted

theorem tracks_new {requested : Nat} (fits : requested ≤ 2 ^ 31) : Tracks (new requested) {} where
  shaped := by
    obtain ⟨k, eq, small⟩ := ringCapacity_eq_two_pow requested
    refine ⟨by simp [new, capacity], ⟨k, small fits, by simp [new, capacity, eq]⟩, UInt32.le_refl _⟩
  accepted_increasing := List.Pairwise.nil
  accepted_le := by simp
  handed_increasing := List.Pairwise.nil
  handed_le := by simp
  held t after upTo := absurd (UInt32.lt_of_lt_of_le after upTo) (UInt32.lt_irrefl _)

theorem Tracks.reset (shaped : c.Shaped) (r : UInt32) : Tracks (c.reset r) {} where
  shaped := ⟨shaped.stored_size, shaped.power, UInt32.le_refl _⟩
  accepted_increasing := List.Pairwise.nil
  accepted_le := by simp
  handed_increasing := List.Pairwise.nil
  handed_le := by simp
  held t after upTo := absurd (UInt32.lt_of_lt_of_le after upTo) (UInt32.lt_irrefl _)

theorem Tracks.store {log : CommandLog} (tracks : Tracks c log) (s : UInt32) (text : String) :
    Tracks (c.store s text).2 (if (c.store s text).1 then { log with accepted := log.accepted ++ [(s, text)] } else log) := by
  by_cases newer : c.sequence < s
  · obtain ⟨capacity, -, sequence, executed⟩ := store_frame text newer
    have accepted : (c.store s text).1 = true := by rw [store_of_lt text newer]
    rw [if_pos accepted]
    refine ⟨tracks.shaped.store s text, ?_, ?_, tracks.handed_increasing, ?_, ?_⟩
    · refine List.pairwise_append.mpr ⟨tracks.accepted_increasing, List.pairwise_singleton _ _, ?_⟩
      intro x old y new
      rw [List.mem_singleton.mp new]
      exact UInt32.lt_of_le_of_lt (tracks.accepted_le x old) newer
    · intro x mem
      rw [sequence]
      rcases List.mem_append.mp mem with old | new
      · exact UInt32.le_of_lt (UInt32.lt_of_le_of_lt (tracks.accepted_le x old) newer)
      · rw [List.mem_singleton.mp new]
        exact UInt32.le_refl _
    · intro x mem
      rw [executed]
      exact tracks.handed_le x mem
    · intro t after upTo holds
      rw [executed] at after
      rw [sequence] at upTo
      rw [capacity] at holds ⊢
      have positive : t ≠ 0 := fun zero => by
        rw [zero] at after
        exact UInt32.not_lt_zero after
      rcases store_holds tracks.shaped text newer positive upTo holds with rfl | ⟨old, before, same⟩
      · have slot := (store_getD tracks.shaped text newer (t.toNat % c.capacity)).2
        rw [if_pos rfl] at slot
        rw [slot]
        exact List.mem_append_right _ (List.mem_singleton_self _)
      · rw [same]
        exact List.mem_append_left _ (tracks.held t after old before)
  · have older := UInt32.not_lt.mp newer
    have refused : (c.store s text).1 = false := by rw [store_of_le text older]
    rw [if_neg (by rw [refused]; decide), store_of_le text older]
    exact tracks

theorem Tracks.nextPending_some {log : CommandLog} (tracks : Tracks c log) {s : UInt32} {text : String}
    (handed : c.nextPending.1 = some (s, text)) :
    (∀ x ∈ log.handed, x.1 < s) ∧ s ≤ c.nextPending.2.sequence ∧ (s, text) ∈ log.accepted := by
  rcases nextPending_spec tracks.shaped with ⟨e, after, upTo, holds, -, ran⟩ | ⟨-, ran⟩
  · rw [ran] at handed ⊢
    obtain ⟨same, rfl⟩ := Prod.mk.inj (Option.some.inj handed)
    subst same
    have past : c.executed < e := UInt32.lt_iff_toNat_lt.mpr (by unfold lookFrom at after; omega)
    refine ⟨fun x mem => UInt32.lt_of_le_of_lt (tracks.handed_le x mem) past, upTo, ?_⟩
    rw [tracks.shaped.slotOf_eq] at holds ⊢
    exact tracks.held e past upTo holds
  · rw [ran] at handed
    cases handed

theorem Tracks.next {log : CommandLog} (tracks : Tracks c log) :
    Tracks c.nextPending.2 { log with handed := log.handed ++ c.nextPending.1.toList } := by
  rcases nextPending_spec tracks.shaped with ⟨e, after, upTo, holds, -, ran⟩ | ⟨-, ran⟩
  · have output := tracks.nextPending_some (show c.nextPending.1 = some (e, c.commands.getD (c.slotOf e) "") by
      rw [ran])
    rw [ran]
    dsimp only
    refine ⟨⟨tracks.shaped.stored_size, tracks.shaped.power, upTo⟩, tracks.accepted_increasing,
      tracks.accepted_le, ?_, ?_, ?_⟩
    · refine List.pairwise_append.mpr ⟨tracks.handed_increasing, List.pairwise_singleton _ _, ?_⟩
      intro x old y new
      rw [List.mem_singleton.mp new]
      exact output.1 x old
    · intro x mem
      rcases List.mem_append.mp mem with old | new
      · exact UInt32.le_of_lt (output.1 x old)
      · rw [List.mem_singleton.mp new]
        exact UInt32.le_refl _
    · intro t later upTo' holds'
      have past : c.executed < e := UInt32.lt_iff_toNat_lt.mpr (by unfold lookFrom at after; omega)
      exact tracks.held t (UInt32.lt_trans past later) upTo' holds'
  · rw [ran]
    dsimp only
    refine ⟨⟨tracks.shaped.stored_size, tracks.shaped.power, UInt32.le_refl _⟩, tracks.accepted_increasing,
      tracks.accepted_le, by simpa using tracks.handed_increasing, ?_, ?_⟩
    · intro x mem
      simp only [Option.toList_none, List.append_nil] at mem
      exact UInt32.le_trans (tracks.handed_le x mem) tracks.shaped.executed_le
    · intro t after upTo holds
      exact absurd (UInt32.lt_of_lt_of_le after upTo) (UInt32.lt_irrefl _)

theorem Tracks.run {log : CommandLog} (tracks : Tracks c log) (op : CommandOp) :
    Tracks (op.run (c, log)).1 (op.run (c, log)).2 := by
  cases op with
  | store s text => exact tracks.store s text
  | next => exact tracks.next
  | reset r => exact Tracks.reset tracks.shaped r

theorem Tracks.runAll {log : CommandLog} (tracks : Tracks c log) (ops : List CommandOp) :
    Tracks (CommandOp.runAll ops (c, log)).1 (CommandOp.runAll ops (c, log)).2 := by
  induction ops generalizing c log with
  | nil => exact tracks
  | cons op rest ih => exact ih (tracks.run op)

/-- A command waiting for its turn: past the executed counter, less than a lap behind the newest
sequence, and still in its slot. -/
structure Awaits (c : CommandSequence) (s : UInt32) (text : String) : Prop where
  shaped : c.Shaped
  after : c.executed < s
  upTo : s ≤ c.sequence
  lap : c.sequence.toNat < s.toNat + c.capacity
  stored : c.stored.getD (s.toNat % c.capacity) 0 = s
  command : c.commands.getD (s.toNat % c.capacity) "" = text

/-- The calls that can still pass before a waiting command's turn: one for each sequence between
it and the executed counter, and never more than a lap of them. -/
def turnsBefore (c : CommandSequence) (s : UInt32) : Nat :=
  min (s.toNat - c.executed.toNat) c.capacity

variable {s : UInt32} {text : String}

theorem awaits_store (shaped : c.Shaped) (newer : c.sequence < s) : Awaits (c.store s text).2 s text := by
  obtain ⟨capacity, -, sequence, executed⟩ := store_frame text newer
  obtain ⟨stored, command⟩ := store_getD shaped text newer (s.toNat % c.capacity)
  rw [if_pos rfl] at stored command
  refine ⟨shaped.store s text, ?_, ?_, ?_, ?_, ?_⟩
  · rw [executed]
    exact UInt32.lt_of_le_of_lt shaped.executed_le newer
  · rw [sequence]
    exact UInt32.le_refl _
  · rw [sequence, capacity]
    have := shaped.capacity_pos
    omega
  · rw [capacity, stored]
  · rw [capacity, command]

theorem Awaits.store (awaits : Awaits c s text) (t : UInt32) (cmd : String) (lap : t.toNat < s.toNat + c.capacity) :
    Awaits (c.store t cmd).2 s text := by
  by_cases newer : c.sequence < t
  · obtain ⟨capacity, -, sequence, executed⟩ := store_frame cmd newer
    obtain ⟨stored, command⟩ := store_keeps_slot awaits.shaped cmd newer awaits.upTo lap
    refine ⟨awaits.shaped.store t cmd, by rw [executed]; exact awaits.after, ?_, ?_, ?_, ?_⟩
    · rw [sequence]
      exact UInt32.le_of_lt (UInt32.lt_of_le_of_lt awaits.upTo newer)
    · rw [sequence, capacity]
      exact lap
    · rw [capacity, stored, awaits.stored]
    · rw [capacity, command, awaits.command]
  · rw [store_of_le cmd (UInt32.not_lt.mp newer)]
    exact awaits

theorem Awaits.next (awaits : Awaits c s text) :
    c.nextPending.1 = some (s, text) ∨
      (Awaits c.nextPending.2 s text ∧ c.nextPending.2.turnsBefore s < c.turnsBefore s) := by
  have shaped := awaits.shaped
  have held : c.stored.getD (c.slotOf s) 0 = s := by rw [shaped.slotOf_eq]; exact awaits.stored
  have ahead : c.lookFrom < s.toNat := by
    have := UInt32.lt_iff_toNat_lt.mp awaits.after
    have := awaits.lap
    unfold lookFrom
    omega
  rcases nextPending_spec shaped with ⟨e, after, -, -, first, ran⟩ | ⟨none, -⟩
  · rw [ran]
    -- the search stops at the waiting command at the latest
    have upTo : e ≤ s := UInt32.not_lt.mp fun later => first s ahead later held
    rcases UInt32.le_iff_lt_or_eq.mp upTo with before | same
    · refine .inr ⟨⟨⟨shaped.stored_size, shaped.power, UInt32.le_trans upTo awaits.upTo⟩, before, awaits.upTo,
        awaits.lap, awaits.stored, awaits.command⟩, ?_⟩
      have := UInt32.lt_iff_toNat_lt.mp before
      have := UInt32.le_iff_toNat_le.mp awaits.upTo
      unfold lookFrom at after
      unfold turnsBefore
      dsimp only
      omega
    · subst same
      left
      rw [shaped.slotOf_eq, awaits.command]
  · exact absurd held (none s ahead awaits.upTo)

/-- Operations that keep a stored command in reach leave it waiting or hand it out, and keep the
ring's shape and size. -/
theorem due_runAll (log : CommandLog) (ops : List CommandOp) (keeps : ∀ op ∈ ops, op.Keeps s c.capacity)
    (shaped : c.Shaped) (due : Awaits c s text ∨ (s, text) ∈ log.handed) :
    (CommandOp.runAll ops (c, log)).1.Shaped ∧ (CommandOp.runAll ops (c, log)).1.capacity = c.capacity ∧
      (Awaits (CommandOp.runAll ops (c, log)).1 s text ∨ (s, text) ∈ (CommandOp.runAll ops (c, log)).2.handed) := by
  induction ops generalizing c log with
  | nil => exact ⟨shaped, rfl, due⟩
  | cons op rest ih =>
    -- one operation keeps the shape, the size and the command's place
    have step : (op.run (c, log)).1.Shaped ∧ (op.run (c, log)).1.capacity = c.capacity ∧
        (Awaits (op.run (c, log)).1 s text ∨ (s, text) ∈ (op.run (c, log)).2.handed) := by
      cases op with
      | store t cmd =>
        have lap : t.toNat < s.toNat + c.capacity := keeps _ List.mem_cons_self
        have handed : (if (c.store t cmd).1 then { log with accepted := log.accepted ++ [(t, cmd)] }
            else log).handed = log.handed := by
          split <;> rfl
        have capacity : (c.store t cmd).2.capacity = c.capacity := by
          by_cases newer : c.sequence < t
          · exact (store_frame cmd newer).1
          · rw [store_of_le cmd (UInt32.not_lt.mp newer)]
        refine ⟨shaped.store t cmd, capacity, ?_⟩
        simp only [CommandOp.run, handed]
        exact due.imp (·.store t cmd lap) id
      | next =>
        obtain ⟨shaped', capacity⟩ := shaped.nextPending
        refine ⟨shaped', capacity, ?_⟩
        simp only [CommandOp.run]
        rcases due with awaits | handed
        · rcases awaits.next with out | ⟨waiting, -⟩
          · rw [out]
            exact .inr (List.mem_append_right _ (by simp))
          · exact .inl waiting
        · exact .inr (List.mem_append_left _ handed)
      | reset r => exact absurd (keeps _ List.mem_cons_self) id
    obtain ⟨shaped', capacity, due'⟩ := step
    rw [CommandOp.runAll_cons]
    obtain ⟨shaped'', capacity', due''⟩ :=
      ih _ (fun op mem => by rw [capacity]; exact keeps op (List.mem_cons_of_mem _ mem)) shaped' due'
    exact ⟨shaped'', capacity'.trans capacity, due''⟩

theorem mem_handed_runAll {log : CommandLog} {x : UInt32 × String} (ops : List CommandOp)
    (noReset : ∀ op ∈ ops, ∀ r, op ≠ .reset r) (handed : x ∈ log.handed) :
    x ∈ (CommandOp.runAll ops (c, log)).2.handed := by
  induction ops generalizing c log with
  | nil => exact handed
  | cons op rest ih =>
    rw [CommandOp.runAll_cons]
    refine ih (fun op mem => noReset op (List.mem_cons_of_mem _ mem)) ?_
    cases op with
    | store t cmd =>
      show x ∈ (if (c.store t cmd).1 then { log with accepted := log.accepted ++ [(t, cmd)] } else log).handed
      split <;> exact handed
    | next => exact List.mem_append_left _ handed
    | reset r => exact absurd rfl (noReset _ List.mem_cons_self r)

theorem Awaits.handed_within {log : CommandLog} (awaits : Awaits c s text) (n : Nat) (enough : c.turnsBefore s ≤ n) :
    (s, text) ∈ (CommandOp.runAll (List.replicate n .next) (c, log)).2.handed := by
  induction n generalizing c log with
  | zero =>
    have := UInt32.lt_iff_toNat_lt.mp awaits.after
    have := awaits.shaped.capacity_pos
    unfold turnsBefore at enough
    omega
  | succ n ih =>
    rw [List.replicate_succ, CommandOp.runAll_cons]
    simp only [CommandOp.run]
    rcases awaits.next with out | ⟨waiting, closer⟩
    · -- handed out now, and kept by the calls after
      refine mem_handed_runAll _ (fun op mem r => by rw [List.eq_of_mem_replicate mem]; exact CommandOp.noConfusion) ?_
      rw [out]
      exact List.mem_append_right _ (by simp)
    · exact ih waiting (by omega)

theorem lookup_of_mem {l : List (UInt32 × String)} (increasing : l.Pairwise (·.1 < ·.1)) {s : UInt32}
    {text : String} (mem : (s, text) ∈ l) : l.lookup s = some text := by
  induction l with
  | nil => cases mem
  | cons a rest ih =>
    obtain ⟨k, b⟩ := a
    obtain ⟨first, tail⟩ := List.pairwise_cons.mp increasing
    rcases List.mem_cons.mp mem with same | later
    · obtain ⟨rfl, rfl⟩ := Prod.mk.inj same
      simp
    · have before : k < s := first _ later
      have differ : (s == k) = false := beq_false_of_ne fun same => by
        rw [same] at before
        exact UInt32.lt_irrefl _ before
      rw [List.lookup_cons, differ]
      exact ih tail later

/-- Commands run once each, in order, and never from a stale slot, in a ring of at most `2 ^ 31`
slots; a command just stored is handed out within `capacity` calls unless overtaken or reset. -/
theorem nextPending_exactlyOnce {requested : Nat} (fits : requested ≤ 2 ^ 31) (ops : List CommandOp) :
    let run := CommandOp.runAll ops (new requested, {})
    (∀ s text, run.1.nextPending.1 = some (s, text) →
        (∀ x ∈ run.2.handed, x.1 < s) ∧ s ≤ run.1.nextPending.2.sequence ∧
          run.2.accepted.lookup s = some text) ∧
      run.2.handed.Pairwise (·.1 < ·.1) ∧
      ∀ s text (rest : List CommandOp), (run.1.store s text).1 = true →
        (∀ op ∈ rest, op.Keeps s run.1.capacity) →
        (s, text) ∈ (CommandOp.runAll (.store s text :: rest ++ List.replicate run.1.capacity .next) run).2.handed := by
  intro run
  have tracks := (tracks_new fits).runAll ops
  refine ⟨fun s text out => ?_, tracks.handed_increasing, fun s text rest accepted keeps => ?_⟩
  · obtain ⟨newer, upTo, mem⟩ := tracks.nextPending_some out
    exact ⟨newer, upTo, lookup_of_mem tracks.accepted_increasing mem⟩
  · have newer : run.1.sequence < s := UInt32.not_le.mp fun older => by
      rw [store_of_le text older] at accepted
      cases accepted
    have awaits : Awaits (run.1.store s text).2 s text := awaits_store tracks.shaped newer
    have capacity := (store_frame text newer).1
    rw [List.cons_append, CommandOp.runAll_cons, CommandOp.runAll_append]
    obtain ⟨-, capacity', due⟩ := due_runAll (CommandOp.run (.store s text) run).2 rest
      (by rw [capacity]; exact keeps) awaits.shaped (.inl awaits)
    rcases due with waiting | handed
    · refine waiting.handed_within _ ?_
      unfold turnsBefore
      rw [capacity', capacity]
      omega
    · exact mem_handed_runAll _ (fun op mem r => by rw [List.eq_of_mem_replicate mem]; exact CommandOp.noConfusion) handed

/-- A ring of the session's 64 slots, through a jump of more than a lap, a reset backwards and a
store again. -/
theorem nextPending_exactlyOnce_sessionRing :
    64 ≤ 2 ^ 31 ∧
      let run := CommandOp.runAll [.store 1 "a", .store 70 "b", .reset 0, .store 1 "c"] (new 64, {})
      (∀ s text, run.1.nextPending.1 = some (s, text) →
          (∀ x ∈ run.2.handed, x.1 < s) ∧ s ≤ run.1.nextPending.2.sequence ∧
            run.2.accepted.lookup s = some text) ∧
        run.2.handed.Pairwise (·.1 < ·.1) ∧
        ∀ s text (rest : List CommandOp), (run.1.store s text).1 = true →
          (∀ op ∈ rest, op.Keeps s run.1.capacity) →
          (s, text) ∈ (CommandOp.runAll (.store s text :: rest ++ List.replicate run.1.capacity .next) run).2.handed :=
  ⟨by decide, nextPending_exactlyOnce (by decide) _⟩

/-- In a ring of `2 ^ 32` slots the capacity wraps to zero, so after a reset backwards a call hands
out command 5, stored before the reset. -/
theorem nextPending_staleAfterReset :
    let run := CommandOp.runAll [.store 5 "a", .reset 0, .store 6 "b"] (new 4294967296, {})
    run.1.nextPending.1 = some (5, "a") ∧ run.2.accepted.lookup 5 = none := by
  have size : (new 4294967296).stored.size = 4294967296 :=
    (Array.size_replicate ..).trans ringCapacity_two_pow_32
  have size' : (new 4294967296).commands.size = 4294967296 :=
    (Array.size_replicate ..).trans ringCapacity_two_pow_32
  have blank : ∀ i, (new 4294967296).stored.getD i 0 = 0 := fun i => by
    simp only [new, Array.getD_eq_getD_getElem?, Array.getElem?_replicate]
    split <;> rfl
  have wide : (new 4294967296).Wide := by
    rw [Wide, capacity, size']
    decide
  have first : (new 4294967296).store 5 "a" =
      (true, ⟨(new 4294967296).commands.set! 5 "a", (new 4294967296).stored.set! 5 5, 5, 0⟩) := by
    rw [store_of_lt "a" (by decide), wide.skipTo_eq]
    dsimp only
    rw [wide.slotOf_eq]
    rfl
  have wide' : (⟨(new 4294967296).commands.set! 5 "a", (new 4294967296).stored.set! 5 5, 0, 0⟩ : CommandSequence).Wide := by
    rw [Wide, capacity, Array.size_set!, size']
    decide
  have second : (⟨(new 4294967296).commands.set! 5 "a", (new 4294967296).stored.set! 5 5, 0, 0⟩ : CommandSequence).store 6 "b" =
      (true, ⟨((new 4294967296).commands.set! 5 "a").set! 6 "b", ((new 4294967296).stored.set! 5 5).set! 6 6, 6, 0⟩) := by
    rw [store_of_lt "b" (by decide), wide'.skipTo_eq]
    dsimp only
    rw [wide'.slotOf_eq]
    rfl
  have reset : (⟨(new 4294967296).commands.set! 5 "a", (new 4294967296).stored.set! 5 5, 5, 0⟩ : CommandSequence).reset 0 =
      ⟨(new 4294967296).commands.set! 5 "a", (new 4294967296).stored.set! 5 5, 0, 0⟩ := by
    simp only [CommandSequence.reset]
  simp only [CommandOp.runAll, List.foldl, CommandOp.run]
  rw [first]
  dsimp only
  rw [reset, second]
  dsimp only
  refine ⟨?_, rfl⟩
  -- the ring after the run: command 5 from before the reset is still in its slot
  set c : CommandSequence :=
    ⟨((new 4294967296).commands.set! 5 "a").set! 6 "b", ((new 4294967296).stored.set! 5 5).set! 6 6, 6, 0⟩
    with def_c
  have wideRun : c.Wide := by
    rw [Wide, capacity, Array.size_set!, Array.size_set!, size']
    decide
  have pending : c.nextPending = c.advance 6 := by
    rw [nextPending, if_neg (by decide), if_neg (by rw [capacity, Array.size_set!, Array.size_set!, size']; decide)]
    exact congrArg c.advance (show ((6 : UInt32) - 0).toNat = 6 from rfl)
  have holds : ∀ t : UInt32, c.stored.getD (c.slotOf t) 0 = if t = 6 then 6 else if t = 5 then 5 else 0 := by
    intro t
    rw [wideRun.slotOf_eq, def_c]
    dsimp only
    rw [getD_set!_of_lt _ _ _ _ _ (by rw [Array.size_set!, size]; decide),
      getD_set!_of_lt _ _ _ _ _ (by rw [size]; decide), blank]
    have six : (6 = t.toNat) ↔ t = 6 := ⟨fun h => UInt32.toNat_inj.mp h.symm, fun h => by rw [h]; rfl⟩
    have five : (5 = t.toNat) ↔ t = 5 := ⟨fun h => UInt32.toNat_inj.mp h.symm, fun h => by rw [h]; rfl⟩
    simp only [six, five]
  rw [pending]
  rcases advance_spec c 6 (by decide) (by decide) with ⟨e, after, -, hit, first, ran⟩ | ⟨none, -⟩
  · -- the first sequence past the executed counter whose slot holds it is 5, stored before the reset
    have five : e = 5 := by
      rw [holds] at hit
      by_cases six : e = 6
      · have held := holds 5
        rw [if_neg (by decide), if_pos rfl] at held
        exact absurd held (first 5 (by decide) (by rw [six]; decide))
      · by_cases five : e = 5
        · exact five
        · rw [if_neg six, if_neg five] at hit
          rw [← hit] at after
          exact absurd after (by decide)
    rw [ran, five, wideRun.slotOf_eq, def_c]
    dsimp only
    rw [getD_set!_of_lt _ _ _ _ _ (by rw [Array.size_set!, size']; decide),
      getD_set!_of_lt _ _ _ _ _ (by rw [size']; decide)]
    rfl
  · have held := holds 5
    rw [if_neg (by decide), if_pos rfl] at held
    exact absurd held (none 5 (by decide) (by decide))

end CommandSequence

end Netcode
