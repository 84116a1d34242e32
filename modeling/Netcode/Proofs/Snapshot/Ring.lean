import Mathlib
import Netcode.State.Snapshot

set_option autoImplicit false

namespace Netcode

namespace SnapshotManager

/-- The history's rings have their full sizes. -/
structure Sized (mgr : SnapshotManager) : Prop where
  snapshots : mgr.snapshots.size = Snapshot.backup
  parseEntities : mgr.parseEntities.size = Snapshot.maxParseEntities

theorem sized_default : ({} : SnapshotManager).Sized :=
  ⟨by simp [Snapshot.backup], by simp [Snapshot.maxParseEntities]⟩

variable (mgr : SnapshotManager) (e : EntityState)

@[simp] theorem push_parseEntitiesNum : (mgr.push e).parseEntitiesNum = mgr.parseEntitiesNum + 1 := rfl

@[simp] theorem push_snapshots : (mgr.push e).snapshots = mgr.snapshots := rfl

@[simp] theorem push_current : (mgr.push e).current = mgr.current := rfl

@[simp] theorem push_state : (mgr.push e).state = mgr.state := rfl

theorem Sized.push {mgr : SnapshotManager} (sized : mgr.Sized) (e : EntityState) : (mgr.push e).Sized :=
  ⟨sized.snapshots, by simp [SnapshotManager.push, sized.parseEntities]⟩

theorem ringEntity_push_self (sized : mgr.Sized) : (mgr.push e).ringEntity mgr.parseEntitiesNum = e := by
  have inRing : mgr.parseEntitiesNum % Snapshot.maxParseEntities < mgr.parseEntities.size := by
    rw [sized.parseEntities]
    exact Nat.mod_lt _ (by decide)
  simp [ringEntity, SnapshotManager.push, Array.getD_eq_getD_getElem?, inRing]

theorem ringEntity_push_of_ne {i : Nat}
    (apart : i % Snapshot.maxParseEntities ≠ mgr.parseEntitiesNum % Snapshot.maxParseEntities) :
    (mgr.push e).ringEntity i = mgr.ringEntity i := by
  simp [ringEntity, SnapshotManager.push, Array.getD_eq_getD_getElem?, Array.getElem?_setIfInBounds_ne (Ne.symm apart)]

theorem ringEntity_pushAll_of_lt (es : List EntityState) {i : Nat} (before : i < mgr.parseEntitiesNum)
    (room : mgr.parseEntitiesNum + es.length ≤ i + Snapshot.maxParseEntities) :
    (es.foldl push mgr).ringEntity i = mgr.ringEntity i := by
  induction es generalizing mgr with
  | nil => rfl
  | cons x rest ih =>
    rw [List.foldl_cons, ih (mgr.push x) (by simp; omega) (by simp at room ⊢; omega)]
    apply ringEntity_push_of_ne
    simp only [Snapshot.maxParseEntities] at room ⊢
    simp at room
    omega

/-- The entries pushed within the last 2048 read back in push order. -/
theorem ringEntity_pushAll (sized : mgr.Sized) (es : List EntityState) (k : Nat) (below : k < es.length)
    (late : es.length ≤ k + Snapshot.maxParseEntities) :
    (es.foldl push mgr).ringEntity (mgr.parseEntitiesNum + k) = es[k] := by
  induction es generalizing mgr k with
  | nil => simp at below
  | cons x rest ih =>
    rw [List.foldl_cons]
    cases k with
    | zero =>
      rw [Nat.add_zero, ringEntity_pushAll_of_lt _ _ (by simp) (by simp at late ⊢; omega),
        ringEntity_push_self _ _ sized]
      rfl
    | succ k =>
      have shifted := ih (mgr.push x) (sized.push x) k (by simpa using below) (by simp at late; omega)
      simpa [Nat.add_assoc, Nat.add_comm 1 k] using shifted

theorem Sized.pushAll {mgr : SnapshotManager} (sized : mgr.Sized) (es : List EntityState) :
    (es.foldl SnapshotManager.push mgr).Sized := by
  induction es generalizing mgr with
  | nil => exact sized
  | cons x rest ih => exact ih (sized.push x)

@[simp] theorem pushAll_snapshots (es : List EntityState) : (es.foldl push mgr).snapshots = mgr.snapshots := by
  induction es generalizing mgr with
  | nil => rfl
  | cons x rest ih => exact ih (mgr.push x)

@[simp] theorem pushAll_parseEntitiesNum (es : List EntityState) :
    (es.foldl push mgr).parseEntitiesNum = mgr.parseEntitiesNum + es.length := by
  induction es generalizing mgr with
  | nil => rfl
  | cons x rest ih => simp [ih]; omega

/-- The entities of the source `old` from its `index`th on are `rest`, and they stay in the ring
for `room` more pushes. Without a source there is nothing to hold. -/
def Holds (old : Option RawSnapshot) (index : Nat) (rest : List EntityState) (room : Nat) : Prop :=
  match old with
  | none => rest = []
  | some o =>
    index + rest.length = o.numEntities ∧ o.parseEntitiesNum + o.numEntities ≤ mgr.parseEntitiesNum ∧
      mgr.parseEntitiesNum + room ≤ o.parseEntitiesNum + index + Snapshot.maxParseEntities ∧
      ∀ k (below : k < rest.length), mgr.ringEntity (o.parseEntitiesNum + index + k) = rest[k]

variable {mgr} {old : Option RawSnapshot} {index room : Nat} {rest : List EntityState}

theorem Holds.oldEntity (holds : mgr.Holds old index rest room) : mgr.oldEntity old index = rest.head? := by
  cases old with
  | none =>
    have empty : rest = [] := holds
    simp [SnapshotManager.oldEntity, empty]
  | some o =>
    obtain ⟨count, -, -, ring⟩ := holds
    cases rest with
    | nil =>
      simp at count
      simp [SnapshotManager.oldEntity, count]
    | cons x rest =>
      have inside : ¬ index ≥ o.numEntities := by simp at count; omega
      have first : mgr.ringEntity (o.parseEntitiesNum + index + 0) = (x :: rest)[0] := ring 0 (by simp)
      simp only [Nat.add_zero, List.getElem_cons_zero] at first
      simp [SnapshotManager.oldEntity, inside, first]

theorem Holds.next {x : EntityState} (holds : mgr.Holds old index (x :: rest) room) :
    mgr.Holds old (index + 1) rest room := by
  cases old with
  | none => cases holds
  | some o =>
    obtain ⟨count, behind, ahead, ring⟩ := holds
    refine ⟨by simp at count; omega, behind, by omega, fun k below => ?_⟩
    have bound : k + 1 < (x :: rest).length := by simpa using below
    have later : mgr.ringEntity (o.parseEntitiesNum + index + (k + 1)) = (x :: rest)[k + 1] := ring (k + 1) bound
    simp only [List.getElem_cons_succ] at later
    rw [← later]
    congr 1
    omega

theorem Holds.advance {c : OldCursor} {x : EntityState} (holds : mgr.Holds old c.index (x :: rest) room) :
    mgr.Holds old (c.next mgr old).index rest room ∧ (c.next mgr old).state = rest.head? :=
  ⟨holds.next, holds.next.oldEntity⟩

theorem Holds.pushAll (es : List EntityState) (holds : mgr.Holds old index rest (es.length + room)) :
    (es.foldl push mgr).Holds old index rest room := by
  cases old with
  | none => exact holds
  | some o =>
    obtain ⟨count, behind, ahead, ring⟩ := holds
    refine ⟨count, by simp; omega, by simp; omega, fun k below => ?_⟩
    rw [ringEntity_pushAll_of_lt _ _ (by omega) (by omega)]
    exact ring k below

theorem Holds.push (e : EntityState) (holds : mgr.Holds old index rest (room + 1)) :
    (mgr.push e).Holds old index rest room :=
  Holds.pushAll [e] (by simpa [Nat.add_comm] using holds)

theorem Holds.length_le (holds : mgr.Holds old index rest room) :
    rest.length ≤ (old.map (·.numEntities)).getD 0 := by
  cases old with
  | none =>
    have empty : rest = [] := holds
    simp [empty]
  | some o =>
    obtain ⟨count, -, -, -⟩ := holds
    simp
    omega

theorem Holds.skip (pending : List EntityState)
    (holds : mgr.Holds old index (pending ++ rest) (pending.length + room)) :
    (pending.foldl SnapshotManager.push mgr).Holds old (index + pending.length) rest room := by
  induction pending generalizing mgr index with
  | nil => simpa using holds
  | cons x pending ih =>
    have moved := (Holds.push x (by simpa [Nat.add_right_comm] using holds)).next
    simpa [Nat.add_assoc, Nat.add_comm 1] using ih moved

end SnapshotManager

end Netcode
