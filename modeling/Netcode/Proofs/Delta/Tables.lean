import Netcode.Proofs.Delta.Counters

set_option autoImplicit false

namespace Netcode

/-- Setting the field never changes what `view` sees of a state. -/
def NetField.Keeps {S α : Type} (view : S → α) (f : NetField S) : Prop :=
  match f.access with
  | .int _ set => ∀ s v, view (set s v) = view s
  | .float _ set => ∀ s v, view (set s v) = view s

namespace Wire

variable {S α : Type}

theorem transmit_keeps (zs : Bool) (f : NetField S) (valid : f.Valid) {view : S → α}
    (keeps : f.Keeps view) (source acc : S) : view (f.transmit zs source acc) = view acc := by
  cases access : f.access with
  | int get set =>
    simp only [NetField.Valid, access] at valid
    simp only [NetField.Keeps, access] at keeps
    rw [transmit_int zs f access valid.1 valid.2]
    exact keeps acc _
  | float get set =>
    simp only [NetField.Valid, access] at valid
    simp only [NetField.Keeps, access] at keeps
    obtain ⟨B, y, emits, parses⟩ := floatValue_aligned f.bits f.kind (get source) valid
    obtain ⟨B', emits', parses'⟩ := float_roundTrip zs f access source emits parses
    rw [transmit_eq_of_parses emits' (parses' acc)]
    exact keeps acc _

/-- A patch through fields that all keep a view leaves the view as the base has it. -/
theorem patch_keeps (t : FieldTable S) (valid : ∀ f ∈ t.fields, f.Valid) {view : S → α}
    (keeps : ∀ f ∈ t.fields, f.Keeps view) (base target : S) :
    view (t.patch base target) = view base := by
  unfold FieldTable.patch
  -- the fold runs over the table with the state it patches as its only moving part
  suffices along : ∀ (fs : List (NetField S)) (acc : S), (∀ f ∈ fs, f.Valid ∧ f.Keeps view) →
      view (fs.foldl (fun acc f => f.patch t.zeroShortcut base target acc) acc) = view acc from
    along t.fields base fun f mem => ⟨valid f mem, keeps f mem⟩
  intro fs
  induction fs with
  | nil => intro acc _; rfl
  | cons f rest ih =>
    intro acc carried
    rw [List.foldl_cons, ih _ fun g mem => carried g (List.mem_cons_of_mem f mem)]
    unfold NetField.patch
    split
    · exact transmit_keeps _ f (carried f List.mem_cons_self).1 (carried f List.mem_cons_self).2 _ _
    · rfl

end Wire

namespace EntityState

set_option maxRecDepth 4000 in
theorem fields_valid (expanded : Bool) : ∀ f ∈ fields expanded, f.Valid := by
  cases expanded <;> decide

theorem fields_length (expanded : Bool) : (fields expanded).length < 256 := by
  cases expanded <;> decide

theorem fields_keep_number (expanded : Bool) : ∀ f ∈ fields expanded, f.Keeps (·.number) := by
  delta fields
  simp only [List.forall_mem_append, List.forall_mem_cons, List.forall_mem_map, List.forall_mem_flatMap,
    List.not_mem_nil, false_imp_iff, forall_const, NetField.floatComponents, frameFields, boneTagField, boneAngleFields, NetField.intComponent, NetField.Keeps, NetField.int,
    NetField.float, implies_true, and_self]

end EntityState

namespace PlayerState

theorem fields_valid (expanded : Bool) : ∀ f ∈ fields expanded, f.Valid := by
  cases expanded <;> decide

theorem fields_length (expanded : Bool) : (fields expanded).length < 256 := by
  cases expanded <;> decide

theorem fields_keep_counters (expanded : Bool) : ∀ c ∈ counters, ∀ f ∈ fields expanded, f.Keeps c.get := by
  simp only [counters, List.forall_mem_cons, List.not_mem_nil, false_imp_iff]
  delta fields
  simp only [List.forall_mem_append, List.forall_mem_cons, List.forall_mem_map, List.not_mem_nil,
    false_imp_iff, forall_const, true_and, and_true, NetField.floatComponents, deltaAngleFields, regular,
    NetField.intComponent, NetField.Keeps, NetField.int, NetField.float, implies_true, and_self]
  split <;> simp

theorem classic_keeps_radar : ∀ f ∈ fields false, f.Keeps fun s => (s.radarInfo, s.voted) := by
  delta fields
  simp only [List.forall_mem_append, List.forall_mem_cons, List.forall_mem_map, List.not_mem_nil,
    false_imp_iff, forall_const, true_and, NetField.floatComponents, deltaAngleFields, regular,
    NetField.intComponent, NetField.Keeps, NetField.int, NetField.float, implies_true, and_self]
  simp

end PlayerState

namespace Protocol

open Wire PlayerState

theorem entityTable_valid (p : Protocol) : ∀ f ∈ p.entityTable.fields, f.Valid := by
  unfold entityTable
  split
  · exact EntityState.fields_valid false
  · exact EntityState.fields_valid true

theorem entityTable_length (p : Protocol) : p.entityTable.fields.length < 256 := by
  unfold entityTable
  split
  · exact EntityState.fields_length false
  · exact EntityState.fields_length true

theorem entityTable_keeps_number (p : Protocol) : ∀ f ∈ p.entityTable.fields, f.Keeps (·.number) := by
  unfold entityTable
  split
  · exact EntityState.fields_keep_number false
  · exact EntityState.fields_keep_number true

theorem playerTable_valid (p : Protocol) : ∀ f ∈ p.playerTable.fields, f.Valid := by
  unfold playerTable
  split
  · exact PlayerState.fields_valid false
  · exact PlayerState.fields_valid true

theorem playerTable_length (p : Protocol) : p.playerTable.fields.length < 256 := by
  unfold playerTable
  split
  · exact PlayerState.fields_length false
  · exact PlayerState.fields_length true

theorem playerTable_keeps_counters (p : Protocol) (base target : PlayerState) :
    ∀ c ∈ counters, c.get (p.playerTable.patch base target) = c.get base := by
  intro c mem
  apply patch_keeps _ (playerTable_valid p)
  unfold playerTable
  split
  · exact PlayerState.fields_keep_counters false c mem
  · exact PlayerState.fields_keep_counters true c mem

/-- A player delta is its forced field delta and the counter arrays; it reads back, against the
same base, as the patch of its fields with the counter arrays as they come back. -/
theorem deltaPlayer_roundTrip (p : Protocol) (old : Option PlayerState) (new : PlayerState) :
    ∃ bits, Emits (p.writeDeltaPlayer old new) () bits ∧
      Parses (p.readDeltaPlayer old) bits (receiveCounters (old.getD {}) new (p.playerTable.patch (old.getD {}) new)) := by
  obtain ⟨fieldBits, emitsFields, parsesFields⟩ := deltaFields_roundTrip p.playerTable (playerTable_valid p)
    (playerTable_length p) (old.getD {}) new true (fun quiet => quiet.2 rfl)
  obtain ⟨counterBits, emitsCounters, parsesCounters⟩ := counters_roundTrip (old.getD {}) new
    (p.playerTable.patch (old.getD {}) new) (playerTable_keeps_counters p (old.getD {}) new)
  exact ⟨_, emitsFields.bind emitsCounters, parsesFields.bind parsesCounters⟩

theorem readDeltaPlayer_encode (p : Protocol) (old : Option PlayerState) (new : PlayerState) :
    ((Message.ofBytes (Message.encode (p.writeDeltaPlayer old new)).2).run (p.readDeltaPlayer old)).1 =
      .ok (receiveCounters (old.getD {}) new (p.playerTable.patch (old.getD {}) new)) := by
  obtain ⟨bits, emits, parses⟩ := deltaPlayer_roundTrip p old new
  exact (parses_encode emits parses).2

/-- Entity and player deltas read back, under every protocol, as the patch from the base to the
target: each differing field takes the value it travels with, and members outside the table keep the
base's. -/
theorem delta_roundTrip (p : Protocol) :
    (∀ (base target : EntityState) (force : Bool),
      (Message.encode (writeDeltaFields p.entityTable base target force)).1 = .ok true →
        ((Message.ofBytes (Message.encode (writeDeltaFields p.entityTable base target force)).2).run
          (readDeltaFields p.entityTable base)).1 = .ok (p.entityTable.patch base target) ∧
        (p.entityTable.patch base target).number = base.number) ∧
    (∀ (base target : PlayerState) (force : Bool),
      (Message.encode (writeDeltaFields p.playerTable base target force)).1 = .ok true →
        ((Message.ofBytes (Message.encode (writeDeltaFields p.playerTable base target force)).2).run
          (readDeltaFields p.playerTable base)).1 = .ok (p.playerTable.patch base target) ∧
        ∀ c ∈ counters, c.get (p.playerTable.patch base target) = c.get base) ∧
    (p.family = .classic → ∀ base target : PlayerState,
      (p.playerTable.patch base target).radarInfo = base.radarInfo ∧
        (p.playerTable.patch base target).voted = base.voted) ∧
    (∀ (old : Option PlayerState) (new : PlayerState),
      ((Message.ofBytes (Message.encode (p.writeDeltaPlayer old new)).2).run (p.readDeltaPlayer old)).1 =
        .ok (receiveCounters (old.getD {}) new (p.playerTable.patch (old.getD {}) new))) ∧
    (∀ {S : Type} (zs : Bool) (f : NetField S) (get : S → Int32) (set : S → Int32 → S),
      f.access = .int get set → f.Valid →
        ∀ source acc, f.transmit zs source acc = set acc (fitInt f.bits (get source))) ∧
    (∀ {S : Type} (zs : Bool) (f : NetField S) (get : S → Single) (set : S → Single → S),
      f.access = .float get set → f.kind = .regular →
        ∀ source acc, f.transmit zs source acc = set acc (get source)) := by
  refine ⟨fun base target force wrote => ⟨?_, ?_⟩, fun base target force wrote => ⟨?_, ?_⟩,
    fun classic base target => ?_, readDeltaPlayer_encode p, ?_, ?_⟩
  · exact readDeltaFields_encode _ (entityTable_valid p) (entityTable_length p) base target force wrote
  · exact patch_keeps _ (entityTable_valid p) (entityTable_keeps_number p) base target
  · exact readDeltaFields_encode _ (playerTable_valid p) (playerTable_length p) base target force wrote
  · exact playerTable_keeps_counters p base target
  · have table : p.playerTable = PlayerState.classicTable := by simp [playerTable, classic]
    have kept := patch_keeps _ (table ▸ playerTable_valid p) PlayerState.classic_keeps_radar base target
    rw [table]
    exact Prod.mk.inj kept
  · intro S zs f get set access valid source acc
    simp only [NetField.Valid, access] at valid
    exact transmit_int zs f access valid.1 valid.2 source acc
  · intro S zs f get set access regular source acc
    exact transmit_regular zs f access regular source acc

/-- An entity delta that changes an integer member and a regular float, and a player delta from
nothing with a moved origin and a stat, each read back as the state sent. -/
theorem delta_roundTrip_moved :
    let p : Protocol := ⟨5, .classic, true⟩
    let base : EntityState := { number := 3 }
    let target : EntityState := { number := 3, eType := 2, loopSoundPitch := ⟨0x3FC00000⟩ }
    let player : PlayerState :=
      { commandTime := 7, origin := Vec3.zero.set 0 ⟨0x3FC00000⟩, stats := (Vector.replicate 32 0).set 2 100 }
    ((Message.ofBytes (Message.encode (writeDeltaFields p.entityTable base target false)).2).run
        (readDeltaFields p.entityTable base)).1 = .ok target ∧
      ((Message.ofBytes (Message.encode (p.writeDeltaPlayer none player)).2).run (p.readDeltaPlayer none)).1 =
        .ok player := by
  intro p base target player
  have wrote : (Message.encode (writeDeltaFields p.entityTable base target false)).1 = .ok true := by
    decide +kernel
  obtain ⟨entity, -, -, delta, -⟩ := delta_roundTrip p
  -- every member the deltas carry is one the wire holds exactly
  have patched : p.entityTable.patch base target = target := by decide +kernel
  have received : receiveCounters {} player (p.playerTable.patch {} player) = player := by decide +kernel
  refine ⟨?_, ?_⟩
  · rw [(entity base target false wrote).1, patched]
  · rw [delta none player]
    exact congrArg Except.ok received

end Protocol

end Netcode
