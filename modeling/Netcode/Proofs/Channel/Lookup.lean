import Netcode.Proofs.Channel.Commands

set_option autoImplicit false

namespace Netcode

namespace CommandOp

def accepts : CommandOp → CommandSequence → List (UInt32 × String)
  | .store s text, c => if (c.store s text).1 then [(s, text)] else []
  | _, _ => []

/-- The stores a run accepts, in order, across resets. -/
def acceptedBy : List CommandOp → CommandSequence × CommandLog → List (UInt32 × String)
  | [], _ => []
  | op :: ops, st => op.accepts st.1 ++ acceptedBy ops (op.run st)

theorem mem_acceptedBy {s : UInt32} {text : String} (ops : List CommandOp) (st : CommandSequence × CommandLog)
    (mem : (s, text) ∈ acceptedBy ops st) :
    ∃ before after, ops = before ++ .store s text :: after ∧ ((runAll before st).1.store s text).1 = true := by
  induction ops generalizing st with
  | nil => cases mem
  | cons op rest ih =>
    rcases List.mem_append.mp mem with now | later
    · cases op with
      | store u cmd =>
        simp only [accepts] at now
        split at now
        · rename_i accepted
          obtain ⟨rfl, rfl⟩ := Prod.mk.inj (List.mem_singleton.mp now)
          exact ⟨[], rest, rfl, accepted⟩
        · cases now
      | next => cases now
      | reset r => cases now
    · obtain ⟨before, after, split, accepted⟩ := ih (op.run st) later
      exact ⟨op :: before, after, by rw [split]; rfl, accepted⟩

end CommandOp

namespace CommandSequence

variable {c : CommandSequence}

/-- What the lookup relies on in a ring of any size: a stored sequence for each slot, a power of two
of slots, and the executed counter not past the newest sequence. -/
structure Slotted (c : CommandSequence) : Prop where
  stored_size : c.stored.size = c.capacity
  power : ∃ k, c.capacity = 2 ^ k
  executed_le : c.executed ≤ c.sequence

theorem slotted_new (requested : Nat) : (new requested).Slotted where
  stored_size := by simp [new, capacity]
  power := by
    obtain ⟨k, eq, -⟩ := ringCapacity_eq_two_pow requested
    exact ⟨k, by simp [new, capacity, eq]⟩
  executed_le := UInt32.le_refl _

theorem Slotted.shaped (slotted : c.Slotted) (small : c.capacity ≤ 2 ^ 31) : c.Shaped := by
  obtain ⟨k, eq⟩ := slotted.power
  have bound : k ≤ 31 := (Nat.pow_le_pow_iff_right (by decide)).mp (eq ▸ small)
  exact ⟨slotted.stored_size, ⟨k, bound, eq⟩, slotted.executed_le⟩

theorem Slotted.large (slotted : c.Slotted) (big : ¬ c.capacity ≤ 2 ^ 31) : 2 ^ 32 ≤ c.capacity := by
  obtain ⟨k, eq⟩ := slotted.power
  rw [eq] at big ⊢
  have bound : 32 ≤ k := by
    by_contra small
    exact big (Nat.pow_le_pow_right (by decide) (by omega))
  exact Nat.pow_le_pow_right (by decide) bound

theorem Slotted.wide (slotted : c.Slotted) (big : ¬ c.capacity ≤ 2 ^ 31) : c.Wide := by
  obtain ⟨k, eq⟩ := slotted.power
  have bound : 32 ≤ k := by
    by_contra small
    exact big (eq ▸ Nat.pow_le_pow_right (by decide) (by omega))
  have multiple : c.capacity % 2 ^ 32 = 0 := by
    rw [eq]
    exact Nat.mod_eq_zero_of_dvd (Nat.pow_dvd_pow 2 bound)
  apply UInt32.toNat_inj.mp
  simp only [Nat.toUInt32_eq, UInt32.toNat_ofNat', multiple, UInt32.toNat_zero]

theorem Slotted.slotOf_eq (slotted : c.Slotted) (s : UInt32) : c.slotOf s = s.toNat % c.capacity := by
  by_cases small : c.capacity ≤ 2 ^ 31
  · exact (slotted.shaped small).slotOf_eq s
  · rw [(slotted.wide small).slotOf_eq, Nat.mod_eq_of_lt (lt_of_lt_of_le s.toNat_lt (slotted.large small))]

theorem Slotted.store_getD (slotted : c.Slotted) {s : UInt32} (text : String) (newer : c.sequence < s) (i : Nat) :
    (c.store s text).2.stored.getD i 0 = (if s.toNat % c.capacity = i then s else (c.skipTo s).stored.getD i 0) ∧
      (c.store s text).2.commands.getD i "" =
        if s.toNat % c.capacity = i then text else (c.skipTo s).commands.getD i "" := by
  by_cases small : c.capacity ≤ 2 ^ 31
  · exact CommandSequence.store_getD (slotted.shaped small) text newer i
  · -- a wide ring empties nothing and keeps s in slot s
    have wide := slotted.wide small
    have inside : s.toNat < c.capacity := lt_of_lt_of_le s.toNat_lt (slotted.large small)
    rw [store_of_lt text newer, wide.skipTo_eq]
    dsimp only
    rw [wide.slotOf_eq, Nat.mod_eq_of_lt inside, getD_set!_of_lt _ _ _ _ _ (by rw [slotted.stored_size]; exact inside),
      getD_set!_of_lt _ _ _ _ _ (by rw [← capacity]; exact inside)]
    exact ⟨rfl, rfl⟩

theorem skipTo_getD_cases (c : CommandSequence) (s : UInt32) (i : Nat) :
    ((c.skipTo s).stored.getD i 0 = 0 ∧ (c.skipTo s).commands.getD i "" = "") ∨
      ((c.skipTo s).stored.getD i 0 = c.stored.getD i 0 ∧ (c.skipTo s).commands.getD i "" = c.commands.getD i "") := by
  by_cases jump : s > c.sequence + 1
  · rw [skipTo_eq_foldl jump, (getD_foldl_clearSlot _ c i).1, (getD_foldl_clearSlot _ c i).2]
    split
    · exact .inl ⟨rfl, rfl⟩
    · exact .inr ⟨rfl, rfl⟩
  · simp [skipTo, if_neg jump]

theorem Slotted.store_keeps_slot (slotted : c.Slotted) {s : UInt32} (text : String) (newer : c.sequence < s)
    {p : UInt32} (old : p ≤ c.sequence) (lap : s.toNat < p.toNat + c.capacity) :
    (c.store s text).2.stored.getD (p.toNat % c.capacity) 0 = c.stored.getD (p.toNat % c.capacity) 0 ∧
      (c.store s text).2.commands.getD (p.toNat % c.capacity) "" = c.commands.getD (p.toNat % c.capacity) "" := by
  by_cases small : c.capacity ≤ 2 ^ 31
  · exact CommandSequence.store_keeps_slot (slotted.shaped small) text newer old lap
  · -- a wide ring empties nothing, and s and p have slots of their own
    have fits : ∀ u : UInt32, u.toNat % c.capacity = u.toNat := fun u =>
      Nat.mod_eq_of_lt (lt_of_lt_of_le u.toNat_lt (slotted.large small))
    have apart : s.toNat % c.capacity ≠ p.toNat % c.capacity := by
      rw [fits, fits]
      have := UInt32.lt_iff_toNat_lt.mp (UInt32.lt_of_le_of_lt old newer)
      omega
    obtain ⟨stored, commands⟩ := slotted.store_getD text newer (p.toNat % c.capacity)
    rw [stored, commands, if_neg apart, if_neg apart, (slotted.wide small).skipTo_eq]
    exact ⟨rfl, rfl⟩

theorem advance_frame (c : CommandSequence) (fuel : Nat) :
    ∃ e, (c.advance fuel).2 = { c with executed := e } ∧ (c.executed ≤ c.sequence → e ≤ c.sequence) := by
  induction fuel generalizing c with
  | zero => exact ⟨c.executed, rfl, id⟩
  | succ fuel ih =>
    rw [advance]
    split
    · rename_i behind
      have step : c.executed + 1 ≤ c.sequence :=
        UInt32.le_iff_toNat_le.mpr (by rw [toNat_add_one_of_lt behind]; exact UInt32.lt_iff_toNat_lt.mp behind)
      dsimp only
      split
      · exact ⟨c.executed + 1, rfl, fun _ => step⟩
      · obtain ⟨e, ran, within⟩ := ih { c with executed := c.executed + 1 }
        exact ⟨e, ran, fun _ => within step⟩
    · exact ⟨c.executed, rfl, id⟩

theorem nextPending_frame (c : CommandSequence) :
    ∃ e, c.nextPending.2 = { c with executed := e } ∧ (c.executed ≤ c.sequence → e ≤ c.sequence) := by
  unfold nextPending
  split
  · exact ⟨c.executed, rfl, id⟩
  · rename_i behind
    dsimp only
    split
    · -- the counter first jumps to a lap behind the newest sequence, which is no wrap
      rename_i far
      obtain ⟨e, ran, within⟩ := advance_frame { c with executed := c.sequence - c.capacity.toUInt32 } _
      refine ⟨e, ran, fun le => within ?_⟩
      have lap : c.capacity.toUInt32 ≤ c.sequence := by
        rw [UInt32.toNat_sub_of_le _ _ le] at far
        rw [UInt32.le_iff_toNat_le, Nat.toUInt32_eq, UInt32.toNat_ofNat']
        exact le_trans (Nat.mod_le _ _) (by omega)
      exact UInt32.le_iff_toNat_le.mpr (by
        rw [UInt32.toNat_sub_of_le _ _ lap]
        exact Nat.sub_le _ _)
    · exact advance_frame c _

theorem Slotted.store (slotted : c.Slotted) (s : UInt32) (text : String) :
    (c.store s text).2.Slotted ∧ (c.store s text).2.capacity = c.capacity := by
  by_cases newer : c.sequence < s
  · obtain ⟨capacity, size, sequence, executed⟩ := store_frame text newer
    refine ⟨⟨by rw [size, capacity, slotted.stored_size], by rw [capacity]; exact slotted.power, ?_⟩, capacity⟩
    rw [sequence, executed]
    exact UInt32.le_of_lt (UInt32.lt_of_le_of_lt slotted.executed_le newer)
  · rw [store_of_le text (UInt32.not_lt.mp newer)]
    exact ⟨slotted, rfl⟩

theorem Slotted.run {st : CommandSequence × CommandLog} (slotted : st.1.Slotted) (op : CommandOp) :
    (op.run st).1.Slotted ∧ (op.run st).1.capacity = st.1.capacity := by
  obtain ⟨c, log⟩ := st
  cases op with
  | store s text => exact slotted.store s text
  | next =>
    obtain ⟨e, ran, within⟩ := nextPending_frame c
    show c.nextPending.2.Slotted ∧ c.nextPending.2.capacity = c.capacity
    rw [ran]
    exact ⟨⟨slotted.stored_size, slotted.power, within slotted.executed_le⟩, rfl⟩
  | reset r => exact ⟨⟨slotted.stored_size, slotted.power, UInt32.le_refl _⟩, rfl⟩

theorem Slotted.runAll {st : CommandSequence × CommandLog} (slotted : st.1.Slotted) (ops : List CommandOp) :
    (CommandOp.runAll ops st).1.Slotted ∧ (CommandOp.runAll ops st).1.capacity = st.1.capacity := by
  induction ops generalizing st with
  | nil => exact ⟨slotted, rfl⟩
  | cons op rest ih =>
    obtain ⟨slotted', capacity⟩ := slotted.run op
    obtain ⟨slotted'', capacity'⟩ := ih slotted'
    exact ⟨slotted'', capacity'.trans capacity⟩

/-- Every slot holding a sequence other than 0 was last written by the latest store accepted for
that sequence, with the text the slot holds. -/
structure Owns (c : CommandSequence) (accepted : List (UInt32 × String)) : Prop where
  slotted : c.Slotted
  latest : ∀ u : UInt32, u ≠ 0 → c.stored.getD (u.toNat % c.capacity) 0 = u →
    accepted.reverse.lookup u = some (c.commands.getD (u.toNat % c.capacity) "")

theorem owns_new (requested : Nat) : (new requested).Owns [] where
  slotted := slotted_new requested
  latest u positive holds := by
    have blank : (new requested).stored.getD (u.toNat % (new requested).capacity) 0 = 0 := by
      simp only [new, Array.getD_eq_getD_getElem?, Array.getElem?_replicate]
      split <;> rfl
    exact absurd (blank.symm.trans holds) (Ne.symm positive)

theorem lookup_reverse_append_of_ne {accepted : List (UInt32 × String)} {u s : UInt32} (text : String)
    (other : u ≠ s) : (accepted ++ [(s, text)]).reverse.lookup u = accepted.reverse.lookup u := by
  rw [List.reverse_append, List.reverse_singleton, List.singleton_append, List.lookup_cons,
    beq_false_of_ne other]

theorem Owns.store {accepted : List (UInt32 × String)} (owns : c.Owns accepted) (s : UInt32) (text : String) :
    (c.store s text).2.Owns (accepted ++ (CommandOp.store s text).accepts c) := by
  obtain ⟨slotted, capacity⟩ := owns.slotted.store s text
  by_cases newer : c.sequence < s
  · have accepted' : (c.store s text).1 = true := by rw [store_of_lt text newer]
    simp only [CommandOp.accepts, accepted', if_true]
    refine ⟨slotted, fun u positive holds => ?_⟩
    rw [capacity] at holds ⊢
    obtain ⟨stored, commands⟩ := owns.slotted.store_getD text newer (u.toNat % c.capacity)
    rw [stored] at holds
    rw [commands]
    split at holds
    · -- the slot of the new store: it holds s, with its text
      subst holds
      rw [if_pos ‹_›, List.reverse_append, List.reverse_singleton, List.singleton_append, List.lookup_cons,
        beq_self_eq_true]
    · -- another slot was emptied by the jump, or kept with the sequence it held
      rename_i other
      have differ : u ≠ s := fun same => other (by rw [same])
      rw [if_neg other, lookup_reverse_append_of_ne text differ]
      rcases skipTo_getD_cases c s (u.toNat % c.capacity) with ⟨emptied, -⟩ | ⟨kept, keptText⟩
      · exact absurd (emptied.symm.trans holds) (Ne.symm positive)
      · rw [keptText]
        exact owns.latest u positive (kept ▸ holds)
  · rw [store_of_le text (UInt32.not_lt.mp newer)] at slotted ⊢
    have refused : (c.store s text).1 = false := by rw [store_of_le text (UInt32.not_lt.mp newer)]
    simp only [CommandOp.accepts, refused, Bool.false_eq_true, if_false, List.append_nil]
    exact owns

theorem Owns.run {st : CommandSequence × CommandLog} {accepted : List (UInt32 × String)} (owns : st.1.Owns accepted)
    (op : CommandOp) : (op.run st).1.Owns (accepted ++ op.accepts st.1) := by
  obtain ⟨c, log⟩ := st
  cases op with
  | store s text => exact owns.store s text
  | next =>
    obtain ⟨e, ran, within⟩ := nextPending_frame c
    show c.nextPending.2.Owns (accepted ++ [])
    rw [ran, List.append_nil]
    exact ⟨⟨owns.slotted.stored_size, owns.slotted.power, within owns.slotted.executed_le⟩, owns.latest⟩
  | reset r =>
    show (c.reset r).Owns (accepted ++ [])
    rw [List.append_nil]
    exact ⟨⟨owns.slotted.stored_size, owns.slotted.power, UInt32.le_refl _⟩, owns.latest⟩

theorem Owns.runAll {st : CommandSequence × CommandLog} {accepted : List (UInt32 × String)}
    (owns : st.1.Owns accepted) (ops : List CommandOp) :
    (CommandOp.runAll ops st).1.Owns (accepted ++ CommandOp.acceptedBy ops st) := by
  induction ops generalizing st accepted with
  | nil => simpa [CommandOp.acceptedBy] using owns
  | cons op rest ih =>
    rw [CommandOp.runAll_cons, CommandOp.acceptedBy, ← List.append_assoc]
    exact ih (owns.run op)

/-- A ring whose slot for s holds s with its text, s not past the newest sequence. -/
structure Retains (c : CommandSequence) (s : UInt32) (text : String) : Prop where
  stored : c.stored.getD (s.toNat % c.capacity) 0 = s
  command : c.commands.getD (s.toNat % c.capacity) "" = text
  upTo : s ≤ c.sequence

variable {s : UInt32} {text : String}

theorem retains_store (slotted : c.Slotted) (newer : c.sequence < s) : (c.store s text).2.Retains s text := by
  obtain ⟨capacity, -, sequence, -⟩ := store_frame text newer
  obtain ⟨stored, command⟩ := slotted.store_getD text newer (s.toNat % c.capacity)
  rw [if_pos rfl] at stored command
  exact ⟨by rw [capacity, stored], by rw [capacity, command], by rw [sequence]; exact UInt32.le_refl _⟩

theorem Retains.store (retains : c.Retains s text) (slotted : c.Slotted) (t : UInt32) (cmd : String)
    (lap : (c.store t cmd).2.sequence.toNat < s.toNat + c.capacity) : (c.store t cmd).2.Retains s text := by
  by_cases newer : c.sequence < t
  · obtain ⟨capacity, -, sequence, -⟩ := store_frame cmd newer
    rw [sequence] at lap
    obtain ⟨stored, command⟩ := slotted.store_keeps_slot cmd newer retains.upTo lap
    refine ⟨by rw [capacity, stored, retains.stored], by rw [capacity, command, retains.command], ?_⟩
    rw [sequence]
    exact UInt32.le_of_lt (UInt32.lt_of_le_of_lt retains.upTo newer)
  · rw [store_of_le cmd (UInt32.not_lt.mp newer)]
    exact retains

theorem sequence_le_runAll (st : CommandSequence × CommandLog) (ops : List CommandOp)
    (noReset : ∀ op ∈ ops, ∀ r, op ≠ .reset r) : st.1.sequence ≤ (CommandOp.runAll ops st).1.sequence := by
  induction ops generalizing st with
  | nil => exact UInt32.le_refl _
  | cons op rest ih =>
    obtain ⟨c, log⟩ := st
    rw [CommandOp.runAll_cons]
    have step : c.sequence ≤ (op.run (c, log)).1.sequence := by
      cases op with
      | store t cmd =>
        show c.sequence ≤ (c.store t cmd).2.sequence
        by_cases newer : c.sequence < t
        · rw [(store_frame cmd newer).2.2.1]
          exact UInt32.le_of_lt newer
        · rw [store_of_le cmd (UInt32.not_lt.mp newer)]
          exact UInt32.le_refl _
      | next =>
        obtain ⟨e, ran, -⟩ := nextPending_frame c
        show c.sequence ≤ c.nextPending.2.sequence
        rw [ran]
        exact UInt32.le_refl _
      | reset r => exact absurd rfl (noReset _ List.mem_cons_self r)
    exact UInt32.le_trans step (ih _ fun op mem => noReset op (List.mem_cons_of_mem _ mem))

/-- Without a reset, a stored command stays in its slot while the newest sequence stays less than a
lap past it. -/
theorem Retains.runAll {st : CommandSequence × CommandLog} (retains : st.1.Retains s text) (slotted : st.1.Slotted)
    (ops : List CommandOp) (noReset : ∀ op ∈ ops, ∀ r, op ≠ .reset r)
    (lap : (CommandOp.runAll ops st).1.sequence.toNat < s.toNat + st.1.capacity) :
    (CommandOp.runAll ops st).1.Retains s text := by
  induction ops generalizing st with
  | nil => exact retains
  | cons op rest ih =>
    rw [CommandOp.runAll_cons] at lap ⊢
    obtain ⟨slotted', capacity⟩ := slotted.run op
    have restNoReset : ∀ op ∈ rest, ∀ r, op ≠ .reset r := fun op mem => noReset op (List.mem_cons_of_mem _ mem)
    -- the ring after this operation is no further along than the ring at the end
    have early := UInt32.le_iff_toNat_le.mp (sequence_le_runAll (op.run st) rest restNoReset)
    have step : (op.run st).1.Retains s text := by
      obtain ⟨c, log⟩ := st
      cases op with
      | store t cmd => exact retains.store slotted t cmd (lt_of_le_of_lt early lap)
      | next =>
        obtain ⟨e, ran, -⟩ := nextPending_frame c
        show c.nextPending.2.Retains s text
        rw [ran]
        exact ⟨retains.stored, retains.command, retains.upTo⟩
      | reset r => exact absurd rfl (noReset _ List.mem_cons_self r)
    exact ih step slotted' restNoReset (by rw [capacity]; exact lap)

theorem Retains.of_mem_acceptedBy {st : CommandSequence × CommandLog} (slotted : st.1.Slotted) (ops : List CommandOp)
    (noReset : ∀ op ∈ ops, ∀ r, op ≠ .reset r) (stored : (s, text) ∈ CommandOp.acceptedBy ops st)
    (lap : (CommandOp.runAll ops st).1.sequence.toNat < s.toNat + st.1.capacity) :
    (CommandOp.runAll ops st).1.Retains s text := by
  obtain ⟨before, after, split, accepted⟩ := CommandOp.mem_acceptedBy ops st stored
  subst split
  have afterNoReset : ∀ op ∈ after, ∀ r, op ≠ .reset r := fun op mem r =>
    noReset op (List.mem_append_right _ (List.mem_cons_of_mem _ mem)) r
  rw [CommandOp.runAll_append, CommandOp.runAll_cons] at lap ⊢
  obtain ⟨slottedMid, capacityMid⟩ := slotted.runAll before
  have newer : (CommandOp.runAll before st).1.sequence < s := UInt32.not_le.mp fun older => by
    rw [store_of_le text older] at accepted
    cases accepted
  obtain ⟨slottedStored, capacityStored⟩ := slottedMid.run (.store s text)
  exact Retains.runAll (retains_store slottedMid newer) slottedStored after afterNoReset
    (by rw [capacityStored, capacityMid]; exact lap)

/-- The lookup answers exactly for a sequence held in its slot and less than a lap behind the newest. -/
theorem Slotted.commandAt_eq_some (slotted : c.Slotted) (u : UInt32) (found : String) :
    c.commandAt u = some found ↔ u ≤ c.sequence ∧ c.sequence.toNat < u.toNat + c.capacity ∧
      c.stored.getD (u.toNat % c.capacity) 0 = u ∧ c.commands.getD (u.toNat % c.capacity) "" = found := by
  unfold commandAt
  rw [slotted.slotOf_eq]
  by_cases upTo : u ≤ c.sequence
  · have gap : (c.sequence - u).toNat = c.sequence.toNat - u.toNat := UInt32.toNat_sub_of_le _ _ upTo
    have := UInt32.le_iff_toNat_le.mp upTo
    by_cases near : c.sequence.toNat < u.toNat + c.capacity
    · rw [if_neg (by rw [gap, not_or]; exact ⟨UInt32.not_lt.mpr upTo, by omega⟩)]
      split <;> simp_all
    · rw [if_pos (.inr (by omega))]
      simp [near]
  · rw [if_pos (.inl (UInt32.not_le.mp upTo))]
    simp [upTo]

end CommandSequence

/-- The incoming ring's lookup answers only with the latest store accepted for a sequence, and
answers for a store made since the last reset while it is less than a lap behind the newest. -/
theorem CommandSequence.commandAt_answersOnlyStored {requested : Nat} (ops : List CommandOp) (s : UInt32)
    (t : String) :
    let start : CommandSequence × CommandLog := (new requested, {})
    let ring := (CommandOp.runAll ops start).1
    (ring.commandAt s = some t → s ≠ 0 → (CommandOp.acceptedBy ops start).reverse.lookup s = some t) ∧
      ∀ pre post, ops = pre ++ post → (∀ op ∈ post, ∀ r, op ≠ .reset r) →
        (s, t) ∈ CommandOp.acceptedBy post (CommandOp.runAll pre start) →
        ring.sequence.toNat < s.toNat + ring.capacity → s ≤ ring.sequence → ring.commandAt s = some t := by
  intro start ring
  have owns : ring.Owns ([] ++ CommandOp.acceptedBy ops start) :=
    Owns.runAll (show start.1.Owns [] from owns_new requested) ops
  rw [List.nil_append] at owns
  refine ⟨fun answer positive => ?_, fun pre post split noReset stored near upTo => ?_⟩
  · obtain ⟨-, -, holds, text⟩ := (owns.slotted.commandAt_eq_some s t).mp answer
    rw [← text]
    exact owns.latest s positive holds
  · -- from the store of s on, the run keeps s in its slot
    have reached : ring = (CommandOp.runAll post (CommandOp.runAll pre start)).1 := by
      show (CommandOp.runAll ops start).1 = _
      rw [split, CommandOp.runAll_append]
    obtain ⟨slottedPre, -⟩ := Slotted.runAll (show start.1.Slotted from slotted_new requested) pre
    obtain ⟨slottedPost, capacityPost⟩ := slottedPre.runAll post
    rw [reached] at near upTo ⊢
    rw [capacityPost] at near
    have kept := Retains.of_mem_acceptedBy slottedPre post noReset stored near
    exact (slottedPost.commandAt_eq_some s t).mpr ⟨upTo, by rw [capacityPost]; exact near, kept.stored, kept.command⟩

/-- A ring of four slots through a jump: the store of 4 empties the slot of 3 only, so the lookup of
2 still answers with its text. -/
theorem CommandSequence.commandAt_answersOnlyStored_jump :
    let start : CommandSequence × CommandLog := (CommandSequence.new 4, {})
    let ops := [CommandOp.store 1 "a", .store 2 "b", .next, .store 4 "c"]
    let ring := (CommandOp.runAll ops start).1
    ring.commandAt 2 = some "b" ∧ (CommandOp.acceptedBy ops start).reverse.lookup 2 = some "b" :=
  have answer := (CommandSequence.commandAt_answersOnlyStored _ 2 "b").2 [] _ rfl (by simp) (by decide)
    (by decide) (by decide)
  ⟨answer, (CommandSequence.commandAt_answersOnlyStored _ 2 "b").1 answer (by decide)⟩

/-- A reset back below a stored sequence lets a later store reuse its slot: in a ring of four slots,
5 and then 1 across a reset to 0, and the lookup of 5 misses after a reset to 5. -/
theorem CommandSequence.commandAt_forgetsAcrossReset :
    let start : CommandSequence × CommandLog := (CommandSequence.new 4, {})
    let ops := [CommandOp.store 5 "a", .reset 0, .store 1 "b", .reset 5]
    let ring := (CommandOp.runAll ops start).1
    (CommandOp.acceptedBy ops start).reverse.lookup 5 = some "a" ∧
      (CommandOp.runAll [.store 5 "a", .reset 0] start).1.sequence = 0 ∧
      ring.sequence.toNat < 5 + ring.capacity ∧ 5 ≤ ring.sequence ∧ ring.commandAt 5 = none := by
  decide

end Netcode
