import Mathlib
import Netcode.Proofs.Delta.Tables

set_option autoImplicit false

namespace Netcode

section Adopt

variable {S : Type}

/-- The member of `s` comes back from its single-field round trip as it went, into every state. -/
def NetField.Fixed (zs : Bool) (f : NetField S) (s : S) : Prop :=
  ∀ acc, f.transmit zs s acc = f.copy s acc

def FieldTable.Fixed (t : FieldTable S) (s : S) : Prop :=
  ∀ f ∈ t.fields, f.Fixed t.zeroShortcut s

/-- A field's part of a patch whose target comes back unchanged: a member that differs takes the
target's value. -/
def NetField.adopt (f : NetField S) (base target acc : S) : S :=
  if f.differs base target then f.copy target acc else acc

theorem NetField.patch_eq_adopt {zs : Bool} {f : NetField S} {target : S} (fixed : f.Fixed zs target)
    (base acc : S) : f.patch zs base target acc = f.adopt base target acc := by
  unfold NetField.patch NetField.adopt
  split
  · exact fixed acc
  · rfl

theorem FieldTable.patch_eq_adopt {t : FieldTable S} {target : S} (fixed : t.Fixed target) (base : S) :
    t.patch base target = t.fields.foldl (fun acc f => f.adopt base target acc) base :=
  List.foldl_ext _ _ base fun acc f mem => NetField.patch_eq_adopt (fixed f mem) base acc

theorem adopt_int (name : String) (bits : Int32) {get : S → Int32} {set : S → Int32 → S}
    (setGet : ∀ x, set x (get x) = x) {base target acc : S} (agree : get acc = get base) :
    (NetField.int name bits get set).adopt base target acc = set acc (get target) := by
  unfold NetField.adopt
  split
  · rfl
  · next same =>
    have unchanged : get base = get target := by
      simpa [NetField.differs, NetField.int] using same
    rw [← unchanged, ← agree, setGet]

theorem adopt_float (name : String) (kind : FieldKind) (bits : Int32) {get : S → Single}
    {set : S → Single → S} (setGet : ∀ x, set x (get x) = x) {base target acc : S}
    (agree : get acc = get base) :
    (NetField.float name kind bits get set).adopt base target acc = set acc (get target) := by
  unfold NetField.adopt
  split
  · rfl
  · next same =>
    have unchanged : get base = get target := by
      have sameBits : (get base).bits = (get target).bits := by
        simpa [NetField.differs, NetField.float] using same
      calc get base = ⟨(get base).bits⟩ := rfl
        _ = ⟨(get target).bits⟩ := by rw [sameBits]
        _ = get target := rfl
    rw [← unchanged, ← agree, setGet]

end Adopt

section Components

variable {S α : Type} {n : Nat}

theorem setComponent_get_self (v : Vector α n) (i : Fin n) : NetField.setComponent v i (v.get i) = v := by
  simp [NetField.setComponent, Vector.get_eq_getElem, Vector.set_getElem_self]

@[simp] theorem get_setComponent_self (v : Vector α n) (i : Fin n) (a : α) :
    (NetField.setComponent v i a).get i = a := by
  simp [NetField.setComponent, Vector.get_eq_getElem]

theorem get_setComponent_of_ne (v : Vector α n) {i j : Fin n} (a : α) (distinct : i ≠ j) :
    (NetField.setComponent v i a).get j = v.get j := by
  have apart : (i : Nat) ≠ j := fun h => distinct (Fin.ext h)
  simp [NetField.setComponent, Vector.get_eq_getElem, Vector.getElem_set_ne _ _ apart]

@[simp] theorem setComponent_setComponent (v : Vector α n) (i : Fin n) (a b : α) :
    NetField.setComponent (NetField.setComponent v i a) i b = NetField.setComponent v i b := by
  simp [NetField.setComponent, Vector.set_set]

theorem foldl_setComponent (w u : Vector α n) (is : List (Fin n)) (j : Fin n) :
    (is.foldl (fun v i => NetField.setComponent v i (w.get i)) u).get j =
      if j ∈ is then w.get j else u.get j := by
  induction is generalizing u with
  | nil => simp
  | cons i rest ih =>
    rw [List.foldl_cons, ih]
    by_cases later : j ∈ rest
    · simp [later]
    · by_cases here : i = j
      · subst here
        simp [later]
      · simp [later, Ne.symm here, get_setComponent_of_ne _ _ here]

theorem foldl_setComponent_finRange (w u : Vector α n) :
    (List.finRange n).foldl (fun v i => NetField.setComponent v i (w.get i)) u = w := by
  apply Vector.ext
  intro j bound
  have component := foldl_setComponent w u (List.finRange n) ⟨j, bound⟩
  simpa [List.mem_finRange, Vector.get_eq_getElem] using component

/-- Steps that each write one component of a vector member with the target's write them all; the
invariant is that every component still to come holds the base's. -/
theorem foldl_components (get : S → Vector α n) (set : S → Vector α n → S)
    (getSet : ∀ x v, get (set x v) = v) (setSet : ∀ x v v', set (set x v) v' = set x v')
    (step : Fin n → S → S) (w u : Vector α n)
    (writes : ∀ i x, (get x).get i = u.get i → step i x = set x (NetField.setComponent (get x) i (w.get i)))
    (is : List (Fin n)) (nodup : is.Nodup) (acc : S) (v : Vector α n)
    (untouched : ∀ i ∈ is, v.get i = u.get i) :
    is.foldl (fun x i => step i x) (set acc v) =
      set acc (is.foldl (fun v i => NetField.setComponent v i (w.get i)) v) := by
  induction is generalizing v with
  | nil => rfl
  | cons i rest ih =>
    obtain ⟨fresh, nodupRest⟩ := List.nodup_cons.mp nodup
    have first : step i (set acc v) = set acc (NetField.setComponent v i (w.get i)) := by
      rw [writes i _ (by rw [getSet]; exact untouched i List.mem_cons_self), getSet, setSet]
    rw [List.foldl_cons, List.foldl_cons, first]
    apply ih nodupRest
    intro k later
    have distinct : i ≠ k := fun same => fresh (same ▸ later)
    rw [get_setComponent_of_ne _ _ distinct, untouched k (List.mem_cons_of_mem i later)]

theorem foldl_components_finRange (get : S → Vector α n) (set : S → Vector α n → S)
    (getSet : ∀ x v, get (set x v) = v) (setSet : ∀ x v v', set (set x v) v' = set x v')
    (setGet : ∀ x, set x (get x) = x) (step : Fin n → S → S) {base target : S}
    (writes : ∀ i x, (get x).get i = (get base).get i →
      step i x = set x (NetField.setComponent (get x) i ((get target).get i)))
    (acc : S) (agree : get acc = get base) :
    (List.finRange n).foldl (fun x i => step i x) acc = set acc (get target) := by
  calc (List.finRange n).foldl (fun x i => step i x) acc
      = (List.finRange n).foldl (fun x i => step i x) (set acc (get acc)) := by rw [setGet]
    _ = set acc ((List.finRange n).foldl (fun v i => NetField.setComponent v i ((get target).get i)) (get acc)) :=
        foldl_components get set getSet setSet step _ _ writes _ (List.nodup_finRange n) acc _
          (fun i _ => by rw [agree])
    _ = set acc (get target) := by rw [foldl_setComponent_finRange]

theorem foldl_adopt_floatComponents (name : String) (kind : FieldKind) (bits : Int32)
    {get : S → Vector Single n} {set : S → Vector Single n → S}
    (getSet : ∀ x v, get (set x v) = v) (setSet : ∀ x v v', set (set x v) v' = set x v')
    (setGet : ∀ x, set x (get x) = x) {base target acc : S} (agree : get acc = get base) :
    (NetField.floatComponents name kind bits get set).foldl (fun x f => f.adopt base target x) acc =
      set acc (get target) := by
  rw [NetField.floatComponents, List.foldl_map]
  refine foldl_components_finRange get set getSet setSet setGet _ (fun i x untouched => ?_) acc agree
  exact adopt_float _ kind bits (fun x => by rw [setComponent_get_self, setGet]) untouched

theorem foldl_adopt_intComponents (name : String) (bits : Int32)
    {get : S → Vector Int32 n} {set : S → Vector Int32 n → S}
    (getSet : ∀ x v, get (set x v) = v) (setSet : ∀ x v v', set (set x v) v' = set x v')
    (setGet : ∀ x, set x (get x) = x) {base target acc : S} (agree : get acc = get base) :
    ((List.finRange n).map (NetField.intComponent name bits get set)).foldl
      (fun x f => f.adopt base target x) acc = set acc (get target) := by
  rw [List.foldl_map]
  refine foldl_components_finRange get set getSet setSet setGet _ (fun i x untouched => ?_) acc agree
  exact adopt_int _ bits (fun x => by rw [setComponent_get_self, setGet]) untouched

end Components

namespace EntityState

theorem foldl_adopt_frameFields (k : Fin 16) {base target acc : EntityState}
    (agree : acc.frameInfo.get k = base.frameInfo.get k) :
    (frameFields k).foldl (fun x f => f.adopt base target x) acc =
      { acc with frameInfo := NetField.setComponent acc.frameInfo k (target.frameInfo.get k) } := by
  -- each of the channel's fields writes the channel back with one part replaced, and a channel
  -- rewritten with its own parts is the same channel
  have putGet : ∀ x : EntityState, { x with frameInfo := NetField.setComponent x.frameInfo k (x.frameInfo.get k) } = x :=
    fun x => congrArg (fun v => { x with frameInfo := v }) (setComponent_get_self x.frameInfo k)
  simp (disch := first | exact fun x => putGet x | simp only [get_setComponent_self, agree]) only
    [frameFields, List.foldl_cons, List.foldl_nil, adopt_int, adopt_float]
  simp only [get_setComponent_self, setComponent_setComponent]

theorem foldl_adopt_frameInfo {base target acc : EntityState} (agree : acc.frameInfo = base.frameInfo) :
    ((List.finRange 16).flatMap frameFields).foldl (fun x f => f.adopt base target x) acc =
      { acc with frameInfo := target.frameInfo } := by
  rw [List.foldl_flatMap]
  exact foldl_components_finRange (·.frameInfo) (fun s v => { s with frameInfo := v }) (fun _ _ => rfl)
    (fun _ _ _ => rfl) (fun _ => rfl) _ (fun k _ untouched => foldl_adopt_frameFields k untouched) acc agree

theorem foldl_adopt_boneTag {base target acc : EntityState} (agree : acc.boneTag = base.boneTag) :
    ((List.finRange 5).map boneTagField).foldl (fun x f => f.adopt base target x) acc =
      { acc with boneTag := target.boneTag } := by
  unfold boneTagField
  refine foldl_adopt_intComponents _ _ ?_ ?_ ?_ agree <;> intros <;> rfl

theorem foldl_adopt_boneAngles (bits : Int32) {base target acc : EntityState}
    (agree : acc.boneAngles = base.boneAngles) :
    ((List.finRange 5).flatMap (boneAngleFields bits)).foldl (fun x f => f.adopt base target x) acc =
      { acc with boneAngles := target.boneAngles } := by
  rw [List.foldl_flatMap]
  refine foldl_components_finRange (·.boneAngles) (fun s v => { s with boneAngles := v }) (fun _ _ => rfl)
    (fun _ _ _ => rfl) (fun _ => rfl) _ (fun i x untouched => ?_) acc agree
  exact foldl_adopt_floatComponents _ _ _ (fun x v => get_setComponent_self _ _ _)
    (fun x v v' => by simp only [setComponent_setComponent])
    (fun x => congrArg (fun v => { x with boneAngles := v }) (setComponent_get_self x.boneAngles i)) untouched

/-- An entity update whose target's fields are all fixed rebuilds the target from any base: the
table covers every member but the number, which the update carries apart. -/
theorem patch_of_fixed (expanded : Bool) (base target : EntityState)
    (fixed : (⟨fields expanded, true⟩ : FieldTable EntityState).Fixed target) :
    { (⟨fields expanded, true⟩ : FieldTable EntityState).patch base target with number := target.number } =
      target := by
  rw [FieldTable.patch_eq_adopt fixed]
  delta fields
  simp (disch := (intros; rfl)) only [List.foldl_append, List.foldl_cons, List.foldl_nil, adopt_int, adopt_float,
    foldl_adopt_floatComponents, foldl_adopt_frameInfo, foldl_adopt_boneTag, foldl_adopt_boneAngles]

end EntityState

namespace PlayerState

theorem receivedCounter_of_fixed (old new : List Int32) (length : old.length = new.length)
    (fixed : ∀ x ∈ new, Wire.fitInt (-16) x = x) : receivedCounter old new = new := by
  apply List.ext_getElem (by simp [receivedCounter, length])
  intro i inZip inNew
  simp only [receivedCounter, List.getElem_zipWith]
  split
  · assumption
  · exact fixed _ (List.getElem_mem inNew)

/-- A player delta whose fields and counters are fixed rebuilds the target from any base that agrees
with it on the radar blip and the vote the classic table leaves out. -/
theorem receive_of_fixed (expanded : Bool) (base target : PlayerState)
    (fixed : (⟨fields expanded, false⟩ : FieldTable PlayerState).Fixed target)
    (fixedCounters : ∀ c ∈ counters, ∀ x ∈ c.get target, Wire.fitInt (-16) x = x)
    (untransmitted : expanded = false → base.radarInfo = target.radarInfo ∧ base.voted = target.voted) :
    receiveCounters base target ((⟨fields expanded, false⟩ : FieldTable PlayerState).patch base target) = target := by
  have arrays : ∀ c ∈ counters, receivedCounter (c.get base) (c.get target) = c.get target := fun c mem =>
    receivedCounter_of_fixed _ _ (by rw [(counters_lawful c mem).length, (counters_lawful c mem).length])
      (fixedCounters c mem)
  simp only [counters, List.forall_mem_cons, List.not_mem_nil, false_imp_iff, implies_true, and_true] at arrays
  obtain ⟨stats, items, names, amounts, maxima⟩ := arrays
  rw [FieldTable.patch_eq_adopt fixed]
  delta fields
  simp only [receiveCounters, counters, List.foldl_cons, List.foldl_nil, stats, items, names, amounts, maxima]
  cases expanded with
  | false =>
    obtain ⟨radar, vote⟩ := untransmitted rfl
    simp (disch := intros; rfl) only [deltaAngleFields, regular, List.foldl_append, List.foldl_cons,
      List.foldl_nil, adopt_int, adopt_float, foldl_adopt_floatComponents, foldl_adopt_intComponents,
      Bool.false_eq_true, if_false, refill_toList]
    rw [radar, vote]
  | true =>
    simp (disch := intros; rfl) only [deltaAngleFields, regular, List.foldl_append, List.foldl_cons,
      List.foldl_nil, adopt_int, adopt_float, foldl_adopt_floatComponents, foldl_adopt_intComponents,
      if_true, refill_toList]

end PlayerState

end Netcode
