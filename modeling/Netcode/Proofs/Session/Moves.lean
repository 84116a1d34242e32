import Mathlib
import Netcode.Client.Session.Incoming

set_option autoImplicit false

namespace Netcode

namespace ClientError

def endsConnection : ClientError → Bool
  | .connectionRejected _ | .invalidConnectResponse | .noResponse | .disconnected _ => true
  | _ => false

end ClientError

namespace ClientSession

/-- What the handshake decides of a session: how far the connection has come, the challenge the
server gave, and the challenge that keys the channel; with the datagrams waiting to be handled. -/
def link (s : ClientSession) : ConnectionState × UInt32 × UInt32 × List (List UInt8) :=
  (s.state, s.challenge, s.encoding, s.inbox)

@[simp] theorem link_emit (s : ClientSession) (e : SessionEvent) : (s.emit e).link = s.link := rfl

@[simp] theorem link_send (s : ClientSession) (packet : List UInt8) : (s.send packet).link = s.link := rfl

@[simp] theorem link_addReliable (s : ClientSession) (cmd : String) : (s.addReliable cmd).2.link = s.link :=
  rfl

@[simp] theorem link_systemInfoChanged (s : ClientSession) : s.systemInfoChanged.link = s.link := by
  unfold systemInfoChanged
  dsimp only
  split_ifs <;> rfl

@[simp] theorem reset_state (s : ClientSession) : s.reset.state = .disconnected := rfl

theorem link_reset (s : ClientSession) : s.reset.link = (.disconnected, 0, 0, s.inbox) := rfl

@[simp] theorem reset_reset (s : ClientSession) : s.reset.reset = s.reset := rfl

theorem state_eq_of_link {s t : ClientSession} (same : t.link = s.link) : t.state = s.state :=
  congrArg Prod.fst same

theorem link_eq_iff {t : ClientSession} {state : ConnectionState} {challenge encoding : UInt32}
    {inbox : List (List UInt8)} : t.link = (state, challenge, encoding, inbox) ↔
      t.state = state ∧ t.challenge = challenge ∧ t.encoding = encoding ∧ t.inbox = inbox := by
  simp only [link, Prod.mk.injEq]

/-- The step reported a game state: one of the events it added is a game state. -/
def ReportsGameState (s t : ClientSession) : Prop :=
  ∃ g new, t.events.toList = s.events.toList ++ new ∧ SessionEvent.gamestate g ∈ new

/-- The link is as it was, and the events reported so far stay, with any new ones after them. -/
def Steady (s t : ClientSession) : Prop :=
  t.link = s.link ∧ s.events.toList <+: t.events.toList

/-- How a server message may move the connection: not at all; to primed, by a game state that
arrives once connected and is reported; or to its end. -/
def InBand (s t : ClientSession) : Prop :=
  Steady s t ∨
    (s.atLeast .connected ∧ t.link = (.primed, s.challenge, s.encoding, s.inbox) ∧ ReportsGameState s t) ∨
    t.link = (.disconnected, 0, 0, s.inbox)

/-- The link is as it was, or the connection ended. -/
def StaysOrEnds (s t : ClientSession) : Prop :=
  t.link = s.link ∨ t.link = (.disconnected, 0, 0, s.inbox)

section Events

variable {s u t : ClientSession}

theorem ReportsGameState.isPrefix (reported : ReportsGameState s t) : s.events.toList <+: t.events.toList := by
  obtain ⟨-, new, added, -⟩ := reported
  exact ⟨new, added.symm⟩

theorem ReportsGameState.of_prefix (before : s.events.toList <+: u.events.toList) (reported : ReportsGameState u t) :
    ReportsGameState s t := by
  obtain ⟨more, grown⟩ := before
  obtain ⟨g, new, added, mem⟩ := reported
  exact ⟨g, more ++ new, by rw [added, ← grown, List.append_assoc], List.mem_append_right _ mem⟩

theorem ReportsGameState.prefix_right (reported : ReportsGameState s u) (after : u.events.toList <+: t.events.toList) :
    ReportsGameState s t := by
  obtain ⟨g, new, added, mem⟩ := reported
  obtain ⟨more, grown⟩ := after
  exact ⟨g, new ++ more, by rw [← grown, added, List.append_assoc], List.mem_append_left _ mem⟩

theorem events_emit (s : ClientSession) (e : SessionEvent) : (s.emit e).events.toList = s.events.toList ++ [e] :=
  Array.toList_push

theorem steady_emit (s : ClientSession) (e : SessionEvent) : Steady s (s.emit e) :=
  ⟨rfl, by rw [events_emit]; exact List.prefix_append _ _⟩

theorem reportsGameState_emit (same : u.events = s.events) (g : GameState) :
    ReportsGameState s (u.emit (.gamestate g)) :=
  ⟨g, [.gamestate g], by rw [events_emit, same], List.mem_singleton_self _⟩

theorem steady_systemInfoChanged (s : ClientSession) : Steady s s.systemInfoChanged := by
  unfold systemInfoChanged
  dsimp only
  split_ifs
  · exact ⟨rfl, List.prefix_refl _⟩
  · exact ⟨rfl, (steady_emit s _).2⟩
  · exact ⟨rfl, List.prefix_refl _⟩

theorem steady_foldl {β : Type} (f : ClientSession → β → ClientSession) (steady : ∀ s b, Steady s (f s b))
    (bs : List β) (s : ClientSession) : Steady s (bs.foldl f s) := by
  induction bs generalizing s with
  | nil => exact ⟨rfl, List.prefix_refl _⟩
  | cons b bs ih =>
    rw [List.foldl_cons]
    exact ⟨(ih (f s b)).1.trans (steady s b).1, (steady s b).2.trans (ih (f s b)).2⟩

end Events

instance : Std.Refl Steady := ⟨fun _ => ⟨rfl, List.prefix_refl _⟩⟩

instance : IsTrans ClientSession Steady := ⟨fun _ _ _ first next => ⟨next.1.trans first.1, first.2.trans next.2⟩⟩

instance : Std.Refl InBand := ⟨fun s => .inl (Std.Refl.refl s)⟩

instance : IsTrans ClientSession InBand where
  trans s u t first next := by
    rcases first with steady | ⟨connected, primed, reported⟩ | gone
    · obtain ⟨state, challenge, encoding, inbox⟩ := link_eq_iff.mp steady.1
      rcases next with steady' | ⟨connected', primed', reported'⟩ | gone'
      · exact .inl (trans_of Steady steady steady')
      · refine .inr (.inl ⟨by rwa [atLeast, ← state], ?_, reported'.of_prefix steady.2⟩)
        rw [primed', challenge, encoding, inbox]
      · exact .inr (.inr (by rw [gone', inbox]))
    · obtain ⟨-, challenge, encoding, inbox⟩ := link_eq_iff.mp primed
      rcases next with steady' | ⟨-, primed', reported'⟩ | gone'
      · exact .inr (.inl ⟨connected, steady'.1.trans primed, reported.prefix_right steady'.2⟩)
      · exact .inr (.inl ⟨connected, by rw [primed', challenge, encoding, inbox], reported.prefix_right reported'.isPrefix⟩)
      · exact .inr (.inr (by rw [gone', inbox]))
    · obtain ⟨state, -, -, inbox⟩ := link_eq_iff.mp gone
      rcases next with steady' | ⟨connected', -, -⟩ | gone'
      · exact .inr (.inr (steady'.1.trans gone))
      · rw [atLeast, state] at connected'
        cases connected'
      · exact .inr (.inr (by rw [gone', inbox]))

instance : Std.Refl StaysOrEnds := ⟨fun _ => .inl rfl⟩

instance : IsTrans ClientSession StaysOrEnds where
  trans s u t first next := by
    simp only [StaysOrEnds, link, Prod.mk.injEq] at first next ⊢
    rcases first with ⟨su, sc, se, si⟩ | ⟨u_gone, sc, se, si⟩ <;> grind

theorem inBand_of_steady {s t : ClientSession} (steady : Steady s t) : InBand s t :=
  .inl steady

theorem inBand_prime {s v u : ClientSession} (after : Steady v u) (reported : ReportsGameState s v)
    (same : v.link = s.link) : InBand s (if u.atLeast .connected then { u with state := .primed } else u) := by
  have linked : u.link = s.link := after.1.trans same
  have state : u.state = s.state := state_eq_of_link linked
  split_ifs with connected
  · refine .inr (.inl ⟨by rwa [atLeast, ← state], ?_, reported.prefix_right after.2⟩)
    simp only [link, Prod.mk.injEq] at linked ⊢
    exact ⟨trivial, linked.2⟩
  · exact .inl ⟨linked, (reported.prefix_right after.2).isPrefix⟩

end ClientSession

open ClientSession

namespace ParseStep

variable {α β : Type}

def run (step : ParseStep α) (m : Message) (s : ClientSession) :
    Except ClientError α × Message × ClientSession :=
  (ExceptT.run step).run (m, s)

section Run

variable (m : Message) (s : ClientSession)

theorem run_pure (a : α) : (pure a : ParseStep α).run m s = (.ok a, m, s) := rfl

theorem run_current_bind (f : ClientSession → ParseStep β) : (current >>= f).run m s = (f s).run m s :=
  rfl

theorem run_change (f : ClientSession → ClientSession) : (change f).run m s = (.ok (), m, f s) := rfl

theorem run_failNet (e : NetError) : (failNet e : ParseStep α).run m s = (.error (.net e), m, s) := rfl

theorem run_wire (w : Wire α) : (wire w).run m s = ((m.run w).1.mapError .net, (m.run w).2, s) := rfl

theorem run_snapshots (step : SnapshotStep α) : (snapshots step).run m s =
    ((step.run m s.snapshots).1.mapError .net, (step.run m s.snapshots).2.1,
      { s with snapshots := (step.run m s.snapshots).2.2 }) := rfl

theorem run_download (d : Download) (step : WireWith Download α) : (download d step).run m s =
    (.ok ((step.run m d).1, (step.run m d).2.2), (step.run m d).2.1, s) := rfl

theorem run_bind (x : ParseStep α) (f : α → ParseStep β) :
    (x >>= f).run m s = match x.run m s with
      | (.ok a, m', s') => (f a).run m' s'
      | (.error e, m', s') => (.error e, m', s') := by
  simp only [run, bind, ExceptT.bind, ExceptT.run, ExceptT.mk, StateT.bind, StateT.run]
  rcases x (m, s) with ⟨_ | _, _, _⟩ <;> rfl

end Run

/-- Every run of `step` moves the session within `R`, and fails only with a network error. -/
def Within (R : ClientSession → ClientSession → Prop) (step : ParseStep α) : Prop :=
  ∀ m s, R s (step.run m s).2.2 ∧ ∀ e, (step.run m s).1 = .error e → ∃ n, e = .net n

variable {R : ClientSession → ClientSession → Prop}

theorem within_pure [Std.Refl R] (a : α) : Within R (pure a) :=
  fun _ s => ⟨Std.Refl.refl s, fun _ failed => nomatch failed⟩

theorem within_current [Std.Refl R] : Within R current :=
  fun _ s => ⟨Std.Refl.refl s, fun _ failed => nomatch failed⟩

theorem within_change (f : ClientSession → ClientSession) (moves : ∀ s, R s (f s)) : Within R (change f) :=
  fun _ s => ⟨moves s, fun _ failed => nomatch failed⟩

theorem within_failNet [Std.Refl R] (e : NetError) : Within R (failNet e : ParseStep α) :=
  fun _ s => ⟨Std.Refl.refl s, fun _ failed => ⟨e, by cases failed; rfl⟩⟩

theorem within_wire [Std.Refl R] (w : Wire α) : Within R (wire w) := by
  intro m s
  refine ⟨Std.Refl.refl s, fun e failed => ?_⟩
  rw [run_wire] at failed
  rcases ran : (m.run w).1 with n | a <;> rw [ran] at failed <;> cases failed
  exact ⟨n, rfl⟩

theorem within_download [Std.Refl R] (d : Download) (step : WireWith Download α) :
    Within R (download d step) :=
  fun _ s => ⟨Std.Refl.refl s, fun _ failed => nomatch failed⟩

theorem Within.bind [IsTrans ClientSession R] {x : ParseStep α} {f : α → ParseStep β}
    (first : Within R x) (next : ∀ a, Within R (f a)) : Within R (x >>= f) := by
  intro m s
  rw [run_bind]
  obtain ⟨moved, failed⟩ := first m s
  rcases ran : x.run m s with ⟨_ | a, m', s'⟩ <;> rw [ran] at moved failed
  · exact ⟨moved, by simpa using failed⟩
  · obtain ⟨moved', failed'⟩ := next a m' s'
    exact ⟨trans_of R moved moved', failed'⟩

theorem Within.mono {R' : ClientSession → ClientSession → Prop} {step : ParseStep α}
    (within : Within R step) (sub : ∀ s t, R s t → R' s t) : Within R' step :=
  fun m s => ⟨sub _ _ (within m s).1, (within m s).2⟩

theorem within_current_bind {f : ClientSession → ParseStep β}
    (pointwise : ∀ m s, R s ((f s).run m s).2.2 ∧ ∀ e, ((f s).run m s).1 = .error e → ∃ n, e = .net n) :
    Within R (current >>= f) :=
  pointwise

end ParseStep

namespace SessionStep

variable {α β : Type}

section Run

variable (s : ClientSession)

theorem run_pure (a : α) : (pure a : SessionStep α).run s = (.ok a, s) := rfl

theorem run_throw (e : ClientError) : (throw e : SessionStep α).run s = (.error e, s) := rfl

theorem run_get_bind (f : ClientSession → SessionStep β) : (get >>= f).run s = (f s).run s := rfl

theorem run_set_bind (t : ClientSession) (f : PUnit → SessionStep β) : (set t >>= f).run s = (f ⟨⟩).run t :=
  rfl

theorem run_change (f : ClientSession → ClientSession) : (change f).run s = (.ok (), f s) := rfl

theorem run_bind (x : SessionStep α) (f : α → SessionStep β) :
    (x >>= f).run s = match x.run s with
      | (.ok a, t) => (f a).run t
      | (.error e, t) => (.error e, t) := by
  simp only [run, bind, ExceptT.bind, ExceptT.run, ExceptT.mk, StateT.bind, StateT.run]
  rcases x s with ⟨_ | _, _⟩ <;> rfl

theorem run_tryCatch (x : SessionStep α) (handle : ClientError → SessionStep α) :
    (tryCatch x handle).run s = match x.run s with
      | (.ok a, t) => (.ok a, t)
      | (.error e, t) => (handle e).run t := by
  change (ExceptT.run (ExceptT.tryCatch x handle)).run s = _
  simp only [run, ExceptT.tryCatch, ExceptT.run, ExceptT.mk, StateT.bind, StateT.run, bind]
  rcases x s with ⟨_ | _, _⟩ <;> rfl

end Run

/-- The run of `step` from `s` ends on a session related to `s` by `R`, and if it fails with the end
of the connection, it leaves nothing of the connection behind. -/
def WithinAt (R : ClientSession → ClientSession → Prop) (step : SessionStep α) (s : ClientSession) : Prop :=
  R s (step.run s).2 ∧
    ∀ e, (step.run s).1 = .error e → e.endsConnection → (step.run s).2.reset = (step.run s).2

/-- Every run of `step` moves the session within `R`, and a run that fails with the end of the
connection leaves nothing of the connection behind. -/
def Within (R : ClientSession → ClientSession → Prop) (step : SessionStep α) : Prop :=
  ∀ s, WithinAt R step s

variable {R : ClientSession → ClientSession → Prop}

theorem within_pure [Std.Refl R] (a : α) : Within R (pure a) :=
  fun s => ⟨Std.Refl.refl s, fun _ failed => nomatch failed⟩

theorem within_throw [Std.Refl R] (e : ClientError) (goesOn : e.endsConnection = false) :
    Within R (throw e : SessionStep α) := by
  intro s
  refine ⟨Std.Refl.refl s, fun e' failed ends => ?_⟩
  cases failed
  rw [goesOn] at ends
  cases ends

theorem within_change (f : ClientSession → ClientSession) (moves : ∀ s, R s (f s)) :
    Within R (change f) :=
  fun s => ⟨moves s, fun _ failed => nomatch failed⟩

theorem within_get [Std.Refl R] : Within R get :=
  fun s => ⟨Std.Refl.refl s, fun _ failed => nomatch failed⟩

theorem within_get_bind {f : ClientSession → SessionStep β} (pointwise : ∀ s, WithinAt R (f s) s) :
    Within R (get >>= f) :=
  pointwise

theorem within_throw_bind [Std.Refl R] {f : α → SessionStep β} (e : ClientError)
    (goesOn : e.endsConnection = false) : Within R (throw e >>= f) :=
  within_throw e goesOn

theorem withinAt_get_bind {f : ClientSession → SessionStep β} {s : ClientSession} (next : WithinAt R (f s) s) :
    WithinAt R (get >>= f) s :=
  next

theorem withinAt_change_bind [IsTrans ClientSession R] {f : Unit → SessionStep β} {g : ClientSession → ClientSession}
    {s : ClientSession} (moved : R s (g s)) (next : WithinAt R (f ()) (g s)) : WithinAt R (change g >>= f) s :=
  ⟨trans_of R moved next.1, next.2⟩

theorem withinAt_bind_of_run {x : SessionStep α} {f : α → SessionStep β} {s : ClientSession} {a : α}
    (ran : x.run s = (.ok a, s)) (next : WithinAt R (f a) s) : WithinAt R (x >>= f) s := by
  unfold WithinAt
  rw [run_bind, ran]
  exact next

theorem withinAt_set (s t : ClientSession) (moved : R s t) : WithinAt R (set t) s :=
  ⟨moved, fun _ failed => nomatch failed⟩

theorem withinAt_set_bind [IsTrans ClientSession R] {f : PUnit → SessionStep β} {s t : ClientSession}
    (moved : R s t) (next : WithinAt R (f ⟨⟩) t) : WithinAt R (set t >>= f) s :=
  ⟨trans_of R moved next.1, next.2⟩

theorem Within.bind [IsTrans ClientSession R] {x : SessionStep α} {f : α → SessionStep β}
    (first : Within R x) (next : ∀ a, Within R (f a)) : Within R (x >>= f) := by
  intro s
  unfold WithinAt
  rw [run_bind]
  obtain ⟨moved, clean⟩ := first s
  rcases ran : x.run s with ⟨_ | a, t⟩ <;> rw [ran] at moved clean
  · exact ⟨moved, by simpa using clean⟩
  · obtain ⟨moved', clean'⟩ := next a t
    exact ⟨trans_of R moved moved', clean'⟩

theorem Within.mono {R' : ClientSession → ClientSession → Prop} {step : SessionStep α}
    (within : Within R step) (sub : ∀ s t, R s t → R' s t) : Within R' step :=
  fun s => ⟨sub _ _ (within s).1, (within s).2⟩

/-- A failure that the handler rethrows keeps what the failed step left, clean if it ended the
connection; a failure it swallows ends the run where the handler does. -/
theorem Within.tryCatch [IsTrans ClientSession R] {x : SessionStep α} {handle : ClientError → SessionStep α}
    (first : Within R x) (handled : ∀ s e, (x.run s).1 = .error e → WithinAt R (handle e) (x.run s).2) :
    Within R (tryCatch x handle) := by
  intro s
  unfold WithinAt
  rw [run_tryCatch]
  obtain ⟨moved, clean⟩ := first s
  rcases ran : x.run s with ⟨e | a, t⟩ <;> rw [ran] at moved clean
  · obtain ⟨moved', clean'⟩ := handled s e (by rw [ran])
    rw [ran] at moved' clean'
    exact ⟨trans_of R moved moved', clean'⟩
  · exact ⟨moved, clean⟩

end SessionStep

end Netcode
