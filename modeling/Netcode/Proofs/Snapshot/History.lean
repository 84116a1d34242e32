import Mathlib
import Netcode.Proofs.Snapshot.Message

set_option autoImplicit false

namespace Netcode

namespace SnapshotManager

section Gap

theorem foldl_invalidate (slotAt : Nat → Nat) (ks : List Nat) (mgr : SnapshotManager) :
    ks.foldl (fun m k => { m with snapshots := m.snapshots.modify (slotAt k) fun s => { s with valid := false } })
        mgr =
      { mgr with
        snapshots := (ks.foldl (fun a k => a.modify (slotAt k) fun s => { s with valid := false }) mgr.snapshots) } := by
  induction ks generalizing mgr with
  | nil => rfl
  | cons k ks ih => exact ih _

theorem invalidateGap_eq (mgr : SnapshotManager) (n : UInt32) :
    mgr.invalidateGap n = { mgr with snapshots := (mgr.invalidateGap n).snapshots } := by
  simp only [invalidateGap]
  rw [foldl_invalidate]

variable (mgr : SnapshotManager) (n : UInt32)

@[simp] theorem invalidateGap_parseEntities : (mgr.invalidateGap n).parseEntities = mgr.parseEntities := by
  rw [invalidateGap_eq]

@[simp] theorem invalidateGap_parseEntitiesNum :
    (mgr.invalidateGap n).parseEntitiesNum = mgr.parseEntitiesNum := by
  rw [invalidateGap_eq]

@[simp] theorem invalidateGap_state : (mgr.invalidateGap n).state = mgr.state := by
  rw [invalidateGap_eq]

@[simp] theorem invalidateGap_current : (mgr.invalidateGap n).current = mgr.current := by
  rw [invalidateGap_eq]

theorem size_foldl_invalidate (slotAt : Nat → Nat) (ks : List Nat) (snapshots : Array RawSnapshot) :
    (ks.foldl (fun a k => a.modify (slotAt k) fun s => { s with valid := false }) snapshots).size =
      snapshots.size := by
  induction ks generalizing snapshots with
  | nil => rfl
  | cons k ks ih => rw [List.foldl_cons, ih, Array.size_modify]

theorem getD_foldl_invalidate (slotAt : Nat → Nat) (ks : List Nat) (snapshots : Array RawSnapshot) (j : Nat)
    (valid : ((ks.foldl (fun a k => a.modify (slotAt k) fun s => { s with valid := false }) snapshots).getD j
      {}).valid = true) :
    (ks.foldl (fun a k => a.modify (slotAt k) fun s => { s with valid := false }) snapshots).getD j {} =
      snapshots.getD j {} := by
  induction ks generalizing snapshots with
  | nil => rfl
  | cons k ks ih =>
    have later := ih (snapshots.modify (slotAt k) fun s => { s with valid := false }) valid
    rw [List.foldl_cons, later] at valid ⊢
    -- the slot is not the one this step invalidated
    by_cases hit : slotAt k = j
    · rcases entry : snapshots[j]? with _ | s <;>
        simp [Array.getD_eq_getD_getElem?, Array.getElem?_modify, hit, entry] at valid ⊢
    · simp [Array.getD_eq_getD_getElem?, Array.getElem?_modify, hit]

@[simp] theorem size_invalidateGap : (mgr.invalidateGap n).snapshots.size = mgr.snapshots.size := by
  simp only [invalidateGap]
  rw [foldl_invalidate, size_foldl_invalidate]

theorem invalidateGap_getD {j : Nat} (valid : ((mgr.invalidateGap n).snapshots.getD j {}).valid = true) :
    (mgr.invalidateGap n).snapshots.getD j {} = mgr.snapshots.getD j {} := by
  simp only [invalidateGap] at valid ⊢
  rw [foldl_invalidate] at valid ⊢
  exact getD_foldl_invalidate _ _ _ j valid

end Gap

section Record

variable (mgr : SnapshotManager) (snap : RawSnapshot)

@[simp] theorem record_current : (mgr.record snap).current = snap := rfl

@[simp] theorem record_parseEntities : (mgr.record snap).parseEntities = mgr.parseEntities := by
  simp [record]

@[simp] theorem record_parseEntitiesNum : (mgr.record snap).parseEntitiesNum = mgr.parseEntitiesNum := by
  simp [record]

@[simp] theorem record_ringEntity (i : Nat) : (mgr.record snap).ringEntity i = mgr.ringEntity i := by
  simp [ringEntity]

theorem record_snapshots :
    (mgr.record snap).snapshots = (mgr.invalidateGap snap.messageNum).snapshots.set! (slotOf snap.messageNum) snap :=
  rfl

theorem record_state_ne : (mgr.record snap).state ≠ .inactive := by
  simp only [record]
  split <;> (try split) <;> simp

theorem Sized.record {mgr : SnapshotManager} (sized : mgr.Sized) : (mgr.record snap).Sized :=
  ⟨by simp [record_snapshots, sized.snapshots], by simp [sized.parseEntities]⟩

theorem slotOf_lt (n : UInt32) : slotOf n < Snapshot.backup :=
  Nat.mod_lt _ (by decide)

/-- The recorded snapshot sits in its own slot; every other slot is as the invalidation left it. -/
theorem record_getD {mgr : SnapshotManager} (sized : mgr.Sized) (j : Nat) :
    (mgr.record snap).snapshots.getD j {} =
      if slotOf snap.messageNum = j then snap else (mgr.invalidateGap snap.messageNum).snapshots.getD j {} := by
  rw [record_snapshots, Array.getD_eq_getD_getElem?, Array.set!_eq_setIfInBounds, Array.getElem?_setIfInBounds]
  split
  · -- the slot is in bounds, so the store took
    simp only [size_invalidateGap, sized.snapshots, slotOf_lt, if_true, Option.getD_some]
  · rw [Array.getD_eq_getD_getElem?]

theorem record_slot_self {mgr : SnapshotManager} (sized : mgr.Sized) : (mgr.record snap).slot snap.messageNum = snap := by
  rw [slot, record_getD snap sized, if_pos rfl]

end Record

section Keeps

/-- The stored snapshot `raw` holds the frame `F`: its player state, and its entities in the
ring as far as they have not been overwritten. -/
def Keeps (mgr : SnapshotManager) (raw : RawSnapshot) (F : Frame) : Prop :=
  raw.ps = F.ps ∧ raw.numEntities = F.entities.length ∧
    raw.parseEntitiesNum + raw.numEntities ≤ mgr.parseEntitiesNum ∧
    ∀ i (below : i < F.entities.length), mgr.parseEntitiesNum ≤ raw.parseEntitiesNum + i + Snapshot.maxParseEntities →
      mgr.ringEntity (raw.parseEntitiesNum + i) = F.entities[i]

variable {mgr : SnapshotManager} {raw : RawSnapshot} {F : Frame}

theorem Keeps.pushAll (keeps : mgr.Keeps raw F) (es : List EntityState) : (es.foldl push mgr).Keeps raw F := by
  obtain ⟨ps, count, behind, ring⟩ := keeps
  refine ⟨ps, count, by simp; omega, fun i below fresh => ?_⟩
  -- the pushes stayed within a ring's worth of the entry
  simp only [pushAll_parseEntitiesNum] at fresh
  rw [ringEntity_pushAll_of_lt _ _ (by omega) fresh]
  exact ring i below (by omega)

theorem keeps_record (snap : RawSnapshot) : (mgr.record snap).Keeps raw F ↔ mgr.Keeps raw F := by
  simp only [Keeps, record_parseEntitiesNum, record_ringEntity]

theorem keeps_stored (sized : mgr.Sized) (messageNum : UInt32) (deltaNum : Option UInt32) (cmd : UInt32) :
    (F.entities.foldl push mgr).Keeps (F.stored messageNum deltaNum cmd mgr.parseEntitiesNum) F := by
  refine ⟨rfl, rfl, by simp [Frame.stored], fun i below late => ?_⟩
  simp only [pushAll_parseEntitiesNum, Frame.stored] at late
  exact ringEntity_pushAll mgr sized F.entities i below (by omega)

end Keeps

/-- A frame read back right after it is recorded, with its entities just pushed, is the frame. -/
theorem get?_record_stored {mgr : SnapshotManager} (sized : mgr.Sized) (F : Frame)
    (few : F.entities.length < Snapshot.maxParseEntities) (messageNum : UInt32) (deltaNum : Option UInt32)
    (cmd : UInt32) :
    ((F.entities.foldl push mgr).record (F.stored messageNum deltaNum cmd mgr.parseEntitiesNum)).get? messageNum =
      some { messageNum := messageNum, deltaNum := deltaNum, ping := 0, serverCommandNum := cmd, frame := F } := by
  have pushed := sized.pushAll F.entities
  have slotted := record_slot_self (F.stored messageNum deltaNum cmd mgr.parseEntitiesNum) pushed
  simp only [Frame.stored] at slotted
  -- the ring still holds every entity of the frame, in push order
  have entities : (List.range F.entities.length).map (fun i => (F.entities.foldl push mgr).ringEntity
      (mgr.parseEntitiesNum + i)) = F.entities := by
    apply List.ext_getElem (by simp)
    intro i below _
    simp only [List.getElem_map, List.getElem_range]
    exact ringEntity_pushAll mgr sized F.entities i (by simpa using below) (by omega)
  have fresh : ¬ (F.entities.foldl push mgr).parseEntitiesNum - mgr.parseEntitiesNum ≥
      Snapshot.maxParseEntities := by
    simp only [pushAll_parseEntitiesNum]
    omega
  have current : ¬ ((0 : UInt32).toInt32 < 0 ∨ (0 : UInt32).toInt32.toNatClampNeg ≥ Snapshot.backup) := by decide
  simp only [get?, record_state_ne, if_false, record_current, Frame.stored, sub_self, slotted,
    record_parseEntitiesNum, current, Bool.not_true, Bool.false_eq_true, ne_eq, not_true_eq_false, or_self, fresh,
    record_ringEntity, entities]

end SnapshotManager

end Netcode
