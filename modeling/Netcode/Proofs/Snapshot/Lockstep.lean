import Mathlib
import Netcode.Proofs.Wire.Stateful
import Netcode.Proofs.Delta.Counters
import Netcode.State.Snapshot

set_option autoImplicit false

namespace Netcode

namespace Wire

variable {α β γ δ : Type}

/-- Two outcomes that fail alike: the same error on both sides, or success on both, the answers
related by `R`. -/
def Agree (R : α → β → Prop) : Except NetError α → Except NetError β → Prop
  | .ok a, .ok b => R a b
  | .error e, .error e' => e = e'
  | _, _ => False

theorem Agree.mono {R S : α → β → Prop} {r₁ : Except NetError α} {r₂ : Except NetError β}
    (agree : Agree R r₁ r₂) (weaker : ∀ a b, R a b → S a b) : Agree S r₁ r₂ := by
  cases r₁ with
  | error e =>
    cases r₂ with
    | error e' => exact agree
    | ok b => exact agree.elim
  | ok a =>
    cases r₂ with
    | error e' => exact agree.elim
    | ok b => exact weaker a b agree

theorem Agree.error_iff {R : α → β → Prop} {r₁ : Except NetError α} {r₂ : Except NetError β}
    (agree : Agree R r₁ r₂) (e : NetError) : r₁ = .error e ↔ r₂ = .error e := by
  cases r₁ with
  | error e₁ =>
    cases r₂ with
    | error e₂ =>
      have same : e₁ = e₂ := agree
      simp [same]
    | ok b => exact agree.elim
  | ok a =>
    cases r₂ with
    | error e₂ => exact agree.elim
    | ok b => simp

/-- Two readers in lockstep: from any message both leave the same message and fail alike, their
answers related by `R`. -/
def Lockstep (R : α → β → Prop) (w₁ : Wire α) (w₂ : Wire β) : Prop :=
  ∀ m : Message, (m.run w₁).2 = (m.run w₂).2 ∧ Agree R (m.run w₁).1 (m.run w₂).1

theorem lockstep_self (w : Wire α) : Lockstep Eq w w := by
  intro m
  refine ⟨rfl, ?_⟩
  rcases m.run w with ⟨_ | a, m'⟩
  · exact rfl
  · exact rfl

theorem lockstep_pure {R : α → β → Prop} {a : α} {b : β} (related : R a b) :
    Lockstep R (pure a) (pure b) :=
  fun _ => ⟨rfl, related⟩

theorem lockstep_fail {R : α → β → Prop} (e : NetError) : Lockstep R (fail e) (fail e) :=
  fun _ => ⟨rfl, rfl⟩

theorem Lockstep.bind {R : α → β → Prop} {S : γ → δ → Prop} {x₁ : Wire α} {x₂ : Wire β}
    {f₁ : α → Wire γ} {f₂ : β → Wire δ} (first : Lockstep R x₁ x₂)
    (next : ∀ a b, R a b → Lockstep S (f₁ a) (f₂ b)) : Lockstep S (x₁ >>= f₁) (x₂ >>= f₂) := by
  intro m
  obtain ⟨same, agree⟩ := first m
  rw [Message.run_bind, Message.run_bind]
  rcases ran₁ : m.run x₁ with ⟨_ | a, m₁⟩ <;> rcases ran₂ : m.run x₂ with ⟨_ | b, m₂⟩ <;>
    rw [ran₁, ran₂] at same agree <;> dsimp only at same agree ⊢
  · exact ⟨same, agree⟩
  · exact agree.elim
  · exact agree.elim
  · rw [same]
    exact next a b agree m₂

theorem Lockstep.bind_self {S : γ → δ → Prop} (w : Wire α) {f₁ : α → Wire γ} {f₂ : α → Wire δ}
    (next : ∀ a, Lockstep S (f₁ a) (f₂ a)) : Lockstep S (w >>= f₁) (w >>= f₂) :=
  (lockstep_self w).bind fun a _ same => same ▸ next a

theorem Lockstep.ite {R : α → β → Prop} {c : Prop} [Decidable c] {a₁ b₁ : Wire α} {a₂ b₂ : Wire β}
    (yes : c → Lockstep R a₁ a₂) (no : ¬ c → Lockstep R b₁ b₂) :
    Lockstep R (if c then a₁ else b₁) (if c then a₂ else b₂) := by
  by_cases holds : c
  · rw [if_pos holds, if_pos holds]
    exact yes holds
  · rw [if_neg holds, if_neg holds]
    exact no holds

section Readers

variable {S : Type}

/-- A field's value takes the same bits whatever state it is read into: only the shortcut bit
and the field's own width decide them. -/
theorem lockstep_readField (zeroShortcut : Bool) (f : NetField S) (t₁ t₂ : S) :
    Lockstep (fun _ _ => True) (readField zeroShortcut f t₁) (readField zeroShortcut f t₂) := by
  unfold readField
  dsimp only
  refine Lockstep.ite (fun _ => Lockstep.bind_self _ fun nonzero => ?_) (fun _ => Lockstep.bind_self _ fun nonzero => ?_)
  -- with a shortcut bit or without, the value after it takes the field's own width
  all_goals
    split
    all_goals
      exact Lockstep.ite (fun _ => Lockstep.bind_self _ fun _ => lockstep_pure trivial) fun _ => lockstep_pure trivial

theorem lockstep_readChanges (zeroShortcut : Bool) :
    ∀ (fields : List (NetField S)) (t₁ t₂ : S),
      Lockstep (fun _ _ => True) (readChanges zeroShortcut t₁ fields) (readChanges zeroShortcut t₂ fields)
  | [], _, _ => lockstep_pure trivial
  | f :: rest, t₁, t₂ => by
    simp only [readChanges]
    refine Lockstep.bind_self _ fun changed => ?_
    exact Lockstep.ite
      (fun _ => (lockstep_readField zeroShortcut f t₁ t₂).bind fun u₁ u₂ _ => lockstep_readChanges zeroShortcut rest u₁ u₂)
      fun _ => (lockstep_pure (R := fun _ _ => True) trivial).bind fun u₁ u₂ _ =>
        lockstep_readChanges zeroShortcut rest u₁ u₂

theorem lockstep_readDeltaFields (t : FieldTable S) (b₁ b₂ : S) :
    Lockstep (fun _ _ => True) (readDeltaFields t b₁) (readDeltaFields t b₂) := by
  unfold readDeltaFields
  refine Lockstep.bind_self _ fun count => ?_
  exact Lockstep.ite (fun _ => lockstep_fail _) fun _ => lockstep_readChanges _ _ b₁ b₂

theorem lockstep_readCounterValues (mask : UInt32) :
    ∀ old₁ old₂ : List (Int32 × Nat), old₁.map Prod.snd = old₂.map Prod.snd →
      Lockstep (fun _ _ => True) (Protocol.readCounterValues mask old₁) (Protocol.readCounterValues mask old₂)
  | [], [], _ => lockstep_pure trivial
  | [], _ :: _, positions => by simp at positions
  | _ :: _, [], positions => by simp at positions
  | e₁ :: rest₁, e₂ :: rest₂, positions => by
    obtain ⟨v₁, i⟩ := e₁
    obtain ⟨v₂, j⟩ := e₂
    simp only [List.map_cons, List.cons.injEq] at positions
    obtain ⟨rfl, positions⟩ := positions
    have later : ∀ v₁ v₂ : Int32, Lockstep (fun _ _ => True)
        (Protocol.readCounterValues mask rest₁ >>= fun rest => pure (v₁ :: rest))
        (Protocol.readCounterValues mask rest₂ >>= fun rest => pure (v₂ :: rest)) :=
      fun _ _ => (lockstep_readCounterValues mask rest₁ rest₂ positions).bind fun _ _ _ => lockstep_pure trivial
    simp only [Protocol.readCounterValues]
    -- a position the mask sets is read on both sides, one it clears on neither
    exact Lockstep.ite
      (fun _ => (Lockstep.bind_self _ fun _ => lockstep_pure (R := fun _ _ => True) trivial).bind fun v₁ v₂ _ => later v₁ v₂)
      fun _ => (lockstep_pure (R := fun _ _ => True) trivial).bind fun v₁ v₂ _ => later v₁ v₂

theorem lockstep_readCounters :
    ∀ (arrays : List PlayerState.Counters), (∀ c ∈ arrays, c.Lawful) → ∀ s₁ s₂ : PlayerState,
      Lockstep (fun _ _ => True) (Protocol.readCounters s₁ arrays) (Protocol.readCounters s₂ arrays)
  | [], _, _, _ => lockstep_pure trivial
  | c :: rest, lawful, s₁, s₂ => by
    have positions : (c.get s₁).zipIdx.map Prod.snd = (c.get s₂).zipIdx.map Prod.snd := by
      rw [List.zipIdx_map_snd, List.zipIdx_map_snd, (lawful c (by simp)).length, (lawful c (by simp)).length]
    have later : ∀ t₁ t₂, Lockstep (fun _ _ => True) (Protocol.readCounters t₁ rest) (Protocol.readCounters t₂ rest) :=
      lockstep_readCounters rest fun c' mem => lawful c' (by simp [mem])
    simp only [Protocol.readCounters]
    refine Lockstep.bind_self _ fun present => Lockstep.ite (fun _ => ?_) fun _ => later s₁ s₂
    exact Lockstep.bind_self _ fun mask =>
      (lockstep_readCounterValues _ _ _ positions).bind fun values₁ values₂ _ => later _ _

theorem lockstep_readDeltaPlayer (p : Protocol) (old₁ old₂ : Option PlayerState) :
    Lockstep (fun _ _ => True) (p.readDeltaPlayer old₁) (p.readDeltaPlayer old₂) := by
  unfold Protocol.readDeltaPlayer
  refine (lockstep_readDeltaFields _ _ _).bind fun s₁ s₂ _ => Lockstep.bind_self _ fun present => ?_
  exact Lockstep.ite (fun _ => lockstep_readCounters _ PlayerState.counters_lawful s₁ s₂)
    fun _ => lockstep_pure trivial

theorem lockstep_readDeltaEntity (p : Protocol) (old₁ old₂ : Option EntityState) (number : UInt32) :
    Lockstep (fun _ _ => True) (p.readDeltaEntity old₁ number) (p.readDeltaEntity old₂ number) := by
  unfold Protocol.readDeltaEntity
  refine Lockstep.bind_self _ fun removed => Lockstep.ite (fun _ => lockstep_pure trivial) fun _ => ?_
  refine Lockstep.bind_self _ fun changed => ?_
  dsimp only
  exact Lockstep.ite (fun _ => (lockstep_readDeltaFields _ _ _).bind fun _ _ _ => lockstep_pure trivial)
    fun _ => (lockstep_pure (R := fun _ _ => True) trivial).bind fun _ _ _ => lockstep_pure trivial

end Readers

end Wire

namespace SnapshotStep

variable {α β γ δ : Type}

/-- Two steps in lockstep on the message: from any message and any two histories, both leave the
same message and fail alike, their answers related by `R`. -/
def Lockstep (R : α → β → Prop) (r₁ : SnapshotStep α) (r₂ : SnapshotStep β) : Prop :=
  ∀ (m : Message) (mgr₁ mgr₂ : SnapshotManager),
    (r₁.run m mgr₁).2.1 = (r₂.run m mgr₂).2.1 ∧ Wire.Agree R (r₁.run m mgr₁).1 (r₂.run m mgr₂).1

/-- A step that reads nothing and cannot fail, whatever the history. -/
def Quiet (r : SnapshotStep α) : Prop :=
  ∀ (m : Message) (mgr : SnapshotManager), (r.run m mgr).2.1 = m ∧ ∃ a, (r.run m mgr).1 = .ok a

section Quiet

theorem quiet_pure (a : α) : Quiet (pure a) :=
  fun _ _ => ⟨rfl, a, rfl⟩

theorem quiet_manager : Quiet manager :=
  fun _ mgr => ⟨rfl, mgr, rfl⟩

theorem quiet_update (f : SnapshotManager → SnapshotManager) : Quiet (update f) :=
  fun _ _ => ⟨rfl, (), rfl⟩

theorem Quiet.run_eq {x : SnapshotStep α} (quiet : Quiet x) (m : Message) (mgr : SnapshotManager) :
    ∃ a mgr', x.run m mgr = (.ok a, m, mgr') := by
  obtain ⟨same, a, answered⟩ := quiet m mgr
  rcases ran : x.run m mgr with ⟨r, m', mgr'⟩
  rw [ran] at same answered
  dsimp only at same answered
  rw [same, answered]
  exact ⟨a, mgr', rfl⟩

theorem Quiet.bind {x : SnapshotStep α} {f : α → SnapshotStep β} (first : Quiet x) (next : ∀ a, Quiet (f a)) :
    Quiet (x >>= f) := by
  intro m mgr
  obtain ⟨a, mgr', ran⟩ := first.run_eq m mgr
  rw [WireWith.run_bind_ok m mgr ran]
  exact next a m mgr'

theorem Quiet.ite {c : Prop} [Decidable c] {a b : SnapshotStep α} (yes : c → Quiet a) (no : ¬ c → Quiet b) :
    Quiet (if c then a else b) := by
  by_cases holds : c
  · rw [if_pos holds]
    exact yes holds
  · rw [if_neg holds]
    exact no holds

theorem carryOver_quiet (old : Option RawSnapshot) (bound : Option UInt32) :
    ∀ fuel c count, Quiet (Protocol.carryOver old bound fuel c count)
  | 0, _, _ => quiet_pure _
  | fuel + 1, c, count => by
    simp only [Protocol.carryOver]
    split
    · exact quiet_pure _
    · split
      · exact quiet_pure _
      · exact (quiet_update _).bind fun _ => quiet_manager.bind fun _ =>
          carryOver_quiet old bound fuel _ (count + 1)

end Quiet

section Lockstep

theorem Quiet.lockstep {x₁ : SnapshotStep α} {x₂ : SnapshotStep β} (quiet₁ : Quiet x₁) (quiet₂ : Quiet x₂) :
    Lockstep (fun _ _ => True) x₁ x₂ := by
  intro m mgr₁ mgr₂
  obtain ⟨a, after₁, ran₁⟩ := quiet₁.run_eq m mgr₁
  obtain ⟨b, after₂, ran₂⟩ := quiet₂.run_eq m mgr₂
  rw [ran₁, ran₂]
  exact ⟨rfl, trivial⟩

theorem lockstep_wire {R : α → β → Prop} {w₁ : Wire α} {w₂ : Wire β} (lockstep : Wire.Lockstep R w₁ w₂) :
    Lockstep R (wire w₁) (wire w₂) := by
  intro m mgr₁ mgr₂
  rw [wire, wire, WireWith.run_wire m mgr₁ (Prod.mk.eta (p := m.run w₁)).symm,
    WireWith.run_wire m mgr₂ (Prod.mk.eta (p := m.run w₂)).symm]
  exact lockstep m

theorem lockstep_throw {R : α → β → Prop} (e : NetError) : Lockstep R (throw e) (throw e) :=
  fun _ _ _ => ⟨rfl, rfl⟩

theorem lockstep_throw_bind {R : γ → δ → Prop} (e : NetError) {f₁ : α → SnapshotStep γ} {f₂ : β → SnapshotStep δ} :
    Lockstep R (throw e >>= f₁) (throw e >>= f₂) :=
  fun _ _ _ => ⟨rfl, rfl⟩

theorem Lockstep.bind {R : α → β → Prop} {S : γ → δ → Prop} {x₁ : SnapshotStep α} {x₂ : SnapshotStep β}
    {f₁ : α → SnapshotStep γ} {f₂ : β → SnapshotStep δ} (first : Lockstep R x₁ x₂)
    (next : ∀ a b, R a b → Lockstep S (f₁ a) (f₂ b)) : Lockstep S (x₁ >>= f₁) (x₂ >>= f₂) := by
  intro m mgr₁ mgr₂
  obtain ⟨same, agree⟩ := first m mgr₁ mgr₂
  rw [WireWith.run_bind, WireWith.run_bind]
  rcases ran₁ : x₁.run m mgr₁ with ⟨_ | a, m₁, after₁⟩ <;> rcases ran₂ : x₂.run m mgr₂ with ⟨_ | b, m₂, after₂⟩ <;>
    rw [ran₁, ran₂] at same agree <;> dsimp only at same agree ⊢
  · exact ⟨same, agree⟩
  · exact agree.elim
  · exact agree.elim
  · rw [same]
    exact next a b agree m₂ after₁ after₂

theorem Lockstep.quiet_left {R : γ → β → Prop} {x : SnapshotStep α} {f : α → SnapshotStep γ}
    {y : SnapshotStep β} (quiet : Quiet x) (next : ∀ a, Lockstep R (f a) y) : Lockstep R (x >>= f) y := by
  intro m mgr₁ mgr₂
  obtain ⟨a, after, ran⟩ := quiet.run_eq m mgr₁
  rw [WireWith.run_bind_ok m mgr₁ ran]
  exact next a m after mgr₂

theorem Lockstep.quiet_right {R : α → γ → Prop} {x : SnapshotStep β} {f : β → SnapshotStep γ}
    {y : SnapshotStep α} (quiet : Quiet x) (next : ∀ b, Lockstep R y (f b)) : Lockstep R y (x >>= f) := by
  intro m mgr₁ mgr₂
  obtain ⟨b, after, ran⟩ := quiet.run_eq m mgr₂
  rw [WireWith.run_bind_ok m mgr₂ ran]
  exact next b m mgr₁ after

theorem Lockstep.bind_wire {S : γ → δ → Prop} (w : Wire α) {f₁ : α → SnapshotStep γ} {f₂ : α → SnapshotStep δ}
    (next : ∀ a, Lockstep S (f₁ a) (f₂ a)) : Lockstep S (wire w >>= f₁) (wire w >>= f₂) :=
  (lockstep_wire (Wire.lockstep_self w)).bind fun a _ same => same ▸ next a

theorem Lockstep.bind_manager {S : γ → δ → Prop} {f₁ : SnapshotManager → SnapshotStep γ}
    {f₂ : SnapshotManager → SnapshotStep δ} (next : ∀ mgr₁ mgr₂, Lockstep S (f₁ mgr₁) (f₂ mgr₂)) :
    Lockstep S (manager >>= f₁) (manager >>= f₂) :=
  (quiet_manager.lockstep quiet_manager).bind fun mgr₁ mgr₂ _ => next mgr₁ mgr₂

theorem Lockstep.ite {R : α → β → Prop} {c : Prop} [Decidable c] {a₁ b₁ : SnapshotStep α}
    {a₂ b₂ : SnapshotStep β} (yes : c → Lockstep R a₁ a₂) (no : ¬ c → Lockstep R b₁ b₂) :
    Lockstep R (if c then a₁ else b₁) (if c then a₂ else b₂) := by
  by_cases holds : c
  · rw [if_pos holds, if_pos holds]
    exact yes holds
  · rw [if_neg holds, if_neg holds]
    exact no holds

end Lockstep

end SnapshotStep

namespace Protocol

open SnapshotStep

/-- The entity updates of a snapshot take the same bits whatever the source and the baselines hold:
carried-over entities read nothing. -/
theorem readPacketEntities_lockstep (p : Protocol) (g₁ g₂ : GameState) (old₁ old₂ : Option RawSnapshot) :
    ∀ fuel c₁ c₂ count₁ count₂, Lockstep (fun _ _ => True)
      (p.readPacketEntities g₁ old₁ fuel c₁ count₁) (p.readPacketEntities g₂ old₂ fuel c₂ count₂)
  | 0, _, _, _, _ => lockstep_throw _
  | fuel + 1, c₁, c₂, count₁, count₂ => by
    simp only [readPacketEntities]
    have later := readPacketEntities_lockstep p g₁ g₂ old₁ old₂ fuel
    refine Lockstep.bind_wire _ fun number => Lockstep.ite (fun _ => ?_) fun _ => ?_
    · -- the end marker: each side carries the rest of its source over and stops
      exact Quiet.lockstep ((carryOver_quiet _ _ _ _ _).bind fun _ => quiet_pure _)
        ((carryOver_quiet _ _ _ _ _).bind fun _ => quiet_pure _)
    · refine Lockstep.bind (Quiet.lockstep (carryOver_quiet _ _ _ _ _) (carryOver_quiet _ _ _ _ _))
        fun carried₁ carried₂ _ => Lockstep.bind_manager fun mgr₁ mgr₂ => ?_
      refine (lockstep_wire (Wire.lockstep_readDeltaEntity p _ _ number)).bind fun decoded₁ decoded₂ _ => ?_
      -- an entity the update keeps is pushed on its side, which reads nothing
      cases decoded₁ <;> cases decoded₂
      · exact later _ _ _ _
      · exact Lockstep.quiet_right (quiet_update _) fun _ => later _ _ _ _
      · exact Lockstep.quiet_left (quiet_update _) fun _ => later _ _ _ _
      · exact Lockstep.quiet_left (quiet_update _) fun _ => Lockstep.quiet_right (quiet_update _) fun _ =>
          later _ _ _ _

theorem parseSnapshot_lockstep (p : Protocol) (g₁ g₂ : GameState) (n cmd : UInt32) :
    Lockstep (fun _ _ => True) (p.parseSnapshot g₁ n cmd) (p.parseSnapshot g₂ n cmd) := by
  simp only [parseSnapshot]
  refine Lockstep.bind_wire _ fun serverTime => Lockstep.bind_wire _ fun back => Lockstep.bind_wire _ fun flags => ?_
  -- the two histories choose different sources, and the source's validity, from here on
  refine Lockstep.bind_manager fun mgr₁ mgr₂ => ?_
  refine Lockstep.bind_wire _ fun len => Lockstep.ite (fun _ => lockstep_throw_bind _) fun _ => ?_
  refine Lockstep.bind_wire _ fun areamask => ?_
  refine (lockstep_wire (Wire.lockstep_readDeltaPlayer p _ _)).bind fun ps₁ ps₂ _ => ?_
  refine Lockstep.bind_manager fun _ _ => Lockstep.bind_wire _ fun fuel => ?_
  refine (readPacketEntities_lockstep p g₁ g₂ _ _ fuel _ _ 0 0).bind fun count₁ count₂ _ => ?_
  refine Lockstep.bind_wire _ fun sounds => ?_
  -- stored or not, what is left reads nothing
  exact Quiet.lockstep (Quiet.ite (fun _ => quiet_pure _) fun _ => (quiet_update _).bind fun _ => quiet_pure _)
    (Quiet.ite (fun _ => quiet_pure _) fun _ => (quiet_update _).bind fun _ => quiet_pure _)

/-- Two parses of one message, from any two histories and any two game states, leave the message
in the same place, and fail with the same error or not at all. -/
theorem parseSnapshot_aligned (p : Protocol) (g₁ g₂ : GameState) (n cmd : UInt32) (m : Message)
    (mgr₁ mgr₂ : SnapshotManager) :
    ((p.parseSnapshot g₁ n cmd).run m mgr₁).2.1 = ((p.parseSnapshot g₂ n cmd).run m mgr₂).2.1 ∧
      ∀ e : NetError, ((p.parseSnapshot g₁ n cmd).run m mgr₁).1 = .error e ↔
        ((p.parseSnapshot g₂ n cmd).run m mgr₂).1 = .error e := by
  obtain ⟨same, agree⟩ := parseSnapshot_lockstep p g₁ g₂ n cmd m mgr₁ mgr₂
  exact ⟨same, agree.error_iff⟩

end Protocol

end Netcode
