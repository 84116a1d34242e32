import Mathlib
import Netcode.Proofs.Session.Moves

set_option autoImplicit false

namespace Netcode

namespace ClientSession

/-- How a datagram may move the connection: challenge and connect answers move the handshake on, an
in-band message that reports a game state primes it, and any datagram may end it. -/
def Receives (p : List UInt8) (s t : ClientSession) : Prop :=
  t.link = s.link ∨
    (∃ c, OutOfBand.Response.ofBytes p = .ok (.challenge c) ∧ s.state = .challenging ∧
      t.link = (.connecting, c, s.encoding, s.inbox)) ∨
    (OutOfBand.Response.ofBytes p = .ok .connect ∧ s.state = .connecting ∧
      t.link = (.connected, s.challenge, s.challenge, s.inbox)) ∨
    (OutOfBand.isOutOfBand p = false ∧ s.atLeast .connected ∧
      t.link = (.primed, s.challenge, s.encoding, s.inbox) ∧ ReportsGameState s t) ∨
    t.link = (.disconnected, 0, 0, s.inbox)

/-- How a frame may move the connection: unanswered requests end a connection that waits, and a
primed session with a fresh valid snapshot becomes active. -/
def Frames (s t : ClientSession) : Prop :=
  (t.link = s.link ∧ (s.state = .primed → t.snapshots = s.snapshots ∧ t.newSnapshots = s.newSnapshots)) ∨
    ((s.state = .challenging ∨ s.state = .connecting) ∧ t.link = (.disconnected, 0, 0, s.inbox)) ∨
    (s.state = .primed ∧ s.newSnapshots = true ∧ (∃ snap, s.snapshots.latest? = some snap) ∧
      t.link = (.active, s.challenge, s.encoding, s.inbox))

/-- A step that only sends: the link, the events and the snapshots stay. -/
def Quiet (s t : ClientSession) : Prop :=
  t.link = s.link ∧ t.events = s.events ∧ t.snapshots = s.snapshots ∧ t.newSnapshots = s.newSnapshots

instance : Std.Refl Quiet := ⟨fun _ => ⟨rfl, rfl, rfl, rfl⟩⟩

instance : IsTrans ClientSession Quiet :=
  ⟨fun _ _ _ first next => ⟨next.1.trans first.1, next.2.1.trans first.2.1, next.2.2.1.trans first.2.2.1,
    next.2.2.2.trans first.2.2.2⟩⟩

theorem Quiet.frames {s t : ClientSession} (quiet : Quiet s t) : Frames s t :=
  .inl ⟨quiet.1, fun _ => ⟨quiet.2.2.1, quiet.2.2.2⟩⟩

theorem quiet_sendAll (packets : List (List UInt8)) {s u : ClientSession} (start : Quiet s u) :
    Quiet s (packets.foldl send u) := by
  induction packets generalizing u with
  | nil => exact start
  | cons p packets ih => exact ih (trans_of Quiet start ⟨rfl, rfl, rfl, rfl⟩)

theorem quiet_createCommand (s : ClientSession) : Quiet s s.createCommand := by
  unfold createCommand
  split_ifs <;> exact ⟨rfl, rfl, rfl, rfl⟩

/-- The session once slot `i` of its game state took its new value, leaving the game state `g`:
the change announced, and a new system info checked for a new server. -/
def configStringSet (s : ClientSession) (i : Nat) (g : GameState) : ClientSession :=
  let t := { s with gamestate := g }.emit (.configString i ((g.configString i).getD ""))
  if i = ConfigKind.systemInfoIndex then t.systemInfoChanged else t

theorem steady_configStringSet (s : ClientSession) (i : Nat) (g : GameState) :
    Steady s (s.configStringSet i g) := by
  have set : Steady s ({ s with gamestate := g }.emit (.configString i ((g.configString i).getD ""))) :=
    ⟨rfl, (steady_emit _ _).2⟩
  unfold configStringSet
  split_ifs
  · exact trans_of Steady set (steady_systemInfoChanged _)
  · exact set

/-- Everything a config string change can come to: the session as it was, when the slot already
holds the value; the game state's refusal, as a network error; or the slot set. -/
theorem configStringModified_cases (s : ClientSession) (n : Nat) (value : String) :
    s.configStringModified n value = .ok s ∨
      (∃ e, s.gamestate.setConfigString (s.protocol.configStringFromNet n) value = .error e ∧
        s.configStringModified n value = .error (.net e)) ∨
      (∃ g, s.gamestate.setConfigString (s.protocol.configStringFromNet n) value = .ok g ∧
        s.configStringModified n value = .ok (s.configStringSet (s.protocol.configStringFromNet n) g)) := by
  unfold configStringModified
  dsimp only
  split
  · exact .inl rfl
  · cases set : s.gamestate.setConfigString (s.protocol.configStringFromNet n) value with
    | error e => exact .inr (.inl ⟨e, rfl, rfl⟩)
    | ok g => exact .inr (.inr ⟨g, rfl, rfl⟩)

end ClientSession

open ClientSession

namespace ParseStep

variable {α : Type}

section Parts

theorem within_snapshots (step : SnapshotStep α) : Within Steady (snapshots step) := by
  intro m s
  refine ⟨⟨rfl, List.prefix_refl _⟩, fun e failed => ?_⟩
  rw [run_snapshots] at failed
  rcases ran : (step.run m s.snapshots).1 with n | a <;> rw [ran] at failed <;> cases failed
  exact ⟨n, rfl⟩

theorem within_snapshot : Within Steady snapshot := by
  unfold snapshot
  refine within_current.bind fun _ => (within_snapshots _).bind fun valid => ?_
  split
  · exact within_pure _
  · refine within_current_bind fun m s => ?_
    split
    · dsimp only
      rw [run_change]
      -- the stored snapshot gets its ping and is reported; nothing of the link changes
      refine ⟨⟨?_, ?_⟩, fun _ failed => nomatch failed⟩
      · show ClientSession.link _ = s.link
        split <;> split_ifs <;> rfl
      · split <;> split_ifs <;> simp [events_emit]
    · exact within_pure _ m s

theorem within_downloadBlock : Within Steady downloadBlock := by
  unfold downloadBlock
  refine within_current.bind fun s => ?_
  split
  · refine Within.bind (R := Steady) (within_change _ fun s => ⟨link_addReliable s _, List.prefix_refl _⟩) fun _ =>
      Within.bind (R := Steady) (within_download _ _) fun ⟨r, _⟩ => ?_
    dsimp only
    split
    · exact within_pure _
    · exact within_pure _
    · exact within_failNet _
  · refine Within.bind (R := Steady) (within_change _ fun _ => ⟨rfl, List.prefix_refl _⟩) fun _ =>
      Within.bind (R := Steady) (within_download _ _) fun ⟨r, d⟩ => ?_
    dsimp only
    split
    · exact within_change _ fun _ => ⟨rfl, List.prefix_refl _⟩
    · exact within_change _ fun _ => ⟨rfl, (steady_emit _ _).2⟩
    · exact within_change _ fun s => steady_emit s _
    · refine Within.bind (within_change _ fun _ => ⟨rfl, List.prefix_refl _⟩) fun _ => ?_
      split
      · exact within_pure _
      · exact within_failNet _

theorem within_gameState : Within InBand gameState := by
  unfold gameState
  refine within_current.bind fun _ => (within_wire _).bind fun g => within_change _ fun s => ?_
  dsimp only
  -- the game state is the first event the step reports; its config strings and a new server follow
  exact inBand_prime (trans_of Steady (steady_foldl _ (fun s _ => steady_emit s _) _ _) (steady_systemInfoChanged _))
    (reportsGameState_emit rfl g) rfl

theorem within_part (code : UInt8) (op : ServerOp) : Within InBand (part code op) := by
  have steady : ∀ {α} {step : ParseStep α}, Within Steady step → Within InBand step :=
    fun within => within.mono fun _ _ => inBand_of_steady
  cases op with
  | nop => exact within_pure _
  | gameState => exact within_gameState
  | serverCommand =>
    exact steady (Within.bind (within_wire _) fun _ => within_current.bind fun _ =>
      Within.bind (within_wire _) fun _ => within_change _ fun _ => ⟨rfl, List.prefix_refl _⟩)
  | download => exact steady within_downloadBlock
  | snapshot => exact steady within_snapshot
  | centerPrint =>
    exact steady (within_current.bind fun _ => Within.bind (within_wire _) fun _ =>
      within_change _ fun s => steady_emit s _)
  | locPrint =>
    exact steady (Within.bind (within_wire _) fun _ => Within.bind (within_wire _) fun _ =>
      within_current.bind fun _ => Within.bind (within_wire _) fun _ => within_change _ fun s => steady_emit s _)
  | bad | configString | baseline | cgameMessage | eof => exact within_failNet _

theorem within_parts (fuel : Nat) : Within InBand (parts fuel) := by
  induction fuel with
  | zero => exact within_failNet _
  | succ fuel ih =>
    refine Within.bind (within_wire _) fun code => ?_
    split
    · exact within_failNet _
    · exact within_pure _
    · exact Within.bind (within_part code _) fun _ => ih

end Parts

end ParseStep

namespace SessionStep

variable {α : Type} {R : ClientSession → ClientSession → Prop}

section Commands

open ClientSession

theorem within_dropConnection (reason : String)
    (ends : ∀ s t, t.link = (.disconnected, 0, 0, s.inbox) → R s t) :
    Within R (dropConnection reason : SessionStep α) :=
  fun _ => ⟨ends _ _ rfl, fun _ _ _ => reset_reset _⟩

theorem within_attempt (f : ClientSession → Except ClientError ClientSession)
    (keeps : ∀ s t, f s = .ok t → Steady s t)
    (goesOn : ∀ s e, f s = .error e → e.endsConnection = false) : Within Steady (attempt f) := by
  unfold attempt
  refine within_get_bind fun s => ?_
  split
  · rename_i t made
    exact ⟨keeps s t made, fun _ failed => nomatch failed⟩
  · rename_i e failed
    exact within_throw e (goesOn s e failed) s

theorem configStringModified_steady {s t : ClientSession} {index : Nat} {value : String}
    (made : s.configStringModified index value = .ok t) : Steady s t := by
  rcases configStringModified_cases s index value with kept | ⟨e, -, refused⟩ | ⟨g, -, set⟩
  · rw [kept, Except.ok.injEq] at made
    rw [← made]
    exact Std.Refl.refl s
  · rw [refused] at made
    cases made
  · rw [set, Except.ok.injEq] at made
    rw [← made]
    exact steady_configStringSet s _ g

theorem configStringModified_goesOn {s : ClientSession} {index : Nat} {value : String} {e : ClientError}
    (failed : s.configStringModified index value = .error e) : e.endsConnection = false := by
  rcases configStringModified_cases s index value with kept | ⟨e', -, refused⟩ | ⟨g, -, set⟩
  · rw [kept] at failed
    cases failed
  · rw [refused, Except.error.injEq] at failed
    rw [← failed]
    rfl
  · rw [set] at failed
    cases failed

theorem within_executeServerCommand (text : String) : Within InBand (executeServerCommand text) := by
  have configString : ∀ i v, Within InBand (attempt (·.configStringModified i v)) := fun i v =>
    (within_attempt _ (fun _ _ made => configStringModified_steady made)
      fun _ _ failed => configStringModified_goesOn failed).mono fun _ _ => inBand_of_steady
  unfold executeServerCommand
  split
  · exact within_pure _
  · dsimp only
    -- one case per command name: only a disconnect moves the connection
    split
    · exact within_dropConnection _ fun _ _ => .inr ∘ .inr
    · exact within_pure _
    · exact within_pure _
    · exact within_pure _
    · exact within_pure _
    · exact configString _ _
    · exact within_change _ fun _ => .inl ⟨rfl, List.prefix_refl _⟩
    · exact within_change _ fun _ => .inl ⟨rfl, List.prefix_refl _⟩
    · refine within_get_bind fun s => ?_
      refine withinAt_set_bind (.inl ⟨rfl, List.prefix_refl _⟩) ?_
      split
      · exact configString _ _ _
      · exact within_pure _ _
    · exact within_change _ fun s => .inl (steady_emit s _)
    · exact within_change _ fun s => .inl (steady_emit s _)

theorem within_executeServerCommands (fuel : Nat) : Within InBand (executeServerCommands fuel) := by
  induction fuel with
  | zero => exact within_pure _
  | succ fuel ih =>
    refine within_get_bind fun s => withinAt_set_bind (.inl ⟨rfl, List.prefix_refl _⟩) ?_
    split
    · exact Within.bind (within_executeServerCommand _) (fun _ => ih) _
    · exact within_pure _ _

/-- A server message leaves the connection as it was, primes it, or ends it; and it reports that
the connection ended only after forgetting it. -/
theorem within_parseServerMessage (message : List UInt8) : Within InBand (parseServerMessage message) := by
  have read : ParseStep.Within InBand (do
      let _ ← ParseStep.wire Wire.readLong
      let _ ← ParseStep.wire Wire.readLong
      ParseStep.parts (← ParseStep.wire Wire.readBudget)) :=
    ParseStep.Within.bind (ParseStep.within_wire _) fun _ => ParseStep.Within.bind (ParseStep.within_wire _)
      fun _ => ParseStep.Within.bind (ParseStep.within_wire _) fun fuel => ParseStep.within_parts fuel
  unfold parseServerMessage
  dsimp only
  split
  · exact within_throw_bind _ rfl
  · refine within_get_bind fun s => withinAt_set_bind (.inl ⟨rfl, List.prefix_refl _⟩) ?_
    show WithinAt InBand (get >>= _) _
    refine within_get_bind (fun s => ?_) _
    split
    rename_i r m s' ran
    obtain ⟨moved, net⟩ := read _ s
    refine withinAt_set_bind (by rwa [ParseStep.run, ran] at moved) ?_
    split
    · rename_i e
      obtain ⟨n, rfl⟩ := net e (by rw [ParseStep.run, ran])
      exact within_throw _ rfl _
    · exact within_get_bind (fun _ => within_executeServerCommands _ _) _

end Commands

section Sending

open ClientSession

theorem within_writePacket : Within Quiet writePacket := by
  unfold writePacket
  refine within_get_bind fun s => ?_
  dsimp only
  split
  · exact within_throw _ rfl s
  · refine withinAt_set_bind ⟨rfl, rfl, rfl, rfl⟩ ?_
    split
    · exact within_throw _ rfl _
    · exact withinAt_set _ _ (quiet_sendAll _ ⟨rfl, rfl, rfl, rfl⟩)

theorem run_checkForResend_settled (s : ClientSession) (settled : ¬(s.state = .challenging ∨ s.state = .connecting)) :
    checkForResend.run s = (.ok (), s) := by
  unfold checkForResend
  rw [run_get_bind]
  dsimp only
  rw [if_pos (not_or.mp settled)]
  rfl

theorem run_checkForResend (s : ClientSession) :
    ((checkForResend.run s).1 = .ok () ∧ (checkForResend.run s).2.link = s.link) ∨
      ((s.state = .challenging ∨ s.state = .connecting) ∧ maxConnectAttempts ≤ s.connectAttempts ∧
        checkForResend.run s = (.error .noResponse, s.reset)) := by
  unfold checkForResend
  rw [run_get_bind]
  dsimp only
  by_cases waiting : s.state = .challenging ∨ s.state = .connecting
  swap
  · rw [if_pos (not_or.mp waiting)]
    exact .inl ⟨rfl, rfl⟩
  rw [if_neg (by tauto)]
  -- a request goes out unless the last one is recent; the last attempt gives up instead
  by_cases full : maxConnectAttempts ≤ s.connectAttempts
  · simp only [ge_iff_le, if_pos full]
    split
    · split
      · exact .inl ⟨rfl, rfl⟩
      · exact .inr ⟨waiting, full, rfl⟩
    · exact .inr ⟨waiting, full, rfl⟩
  · simp only [ge_iff_le, if_neg full]
    split
    · split <;> exact .inl ⟨rfl, rfl⟩
    · exact .inl ⟨rfl, rfl⟩

theorem advance_goesOn {c : ClientClock} {realTime snapTime nudge : Int32} {fresh : Bool} {e : ClientError}
    (failed : c.advance realTime snapTime fresh nudge = .error e) : e.endsConnection = false := by
  unfold ClientClock.advance at failed
  dsimp only at failed
  split_ifs at failed
  cases failed
  rfl

instance : Std.Refl Frames := ⟨fun _ => .inl ⟨rfl, fun _ => ⟨rfl, rfl⟩⟩⟩

/-- Moving the clock makes a primed session active when it holds a valid snapshot no frame has
seen, and keeps the link otherwise; it fails only when the server clock runs backward. -/
theorem run_updateTime (s : ClientSession) :
    (∀ e, (updateTime.run s).1 = .error e → e.endsConnection = false) ∧ Frames s (updateTime.run s).2 := by
  unfold updateTime
  rw [run_get_bind]
  dsimp only
  split
  · rename_i current latest
    split
    · rename_i primed
      split
      · rename_i fresh
        exact ⟨(fun _ failed => nomatch failed), .inr (.inr ⟨primed, fresh, ⟨current, latest⟩, rfl⟩)⟩
      · exact ⟨(fun _ failed => nomatch failed), Std.Refl.refl s⟩
    · rename_i active
      -- an active session may take its snapshots; it is past primed
      have unprimed : s.state ≠ .primed := by
        rw [active]
        decide
      split
      · exact ⟨(fun _ failed => nomatch failed), .inl ⟨rfl, fun primed => absurd primed unprimed⟩⟩
      · rename_i e failed
        exact ⟨fun _ thrown => by cases thrown; exact advance_goesOn failed,
          .inl ⟨rfl, fun primed => absurd primed unprimed⟩⟩
    · exact ⟨(fun _ failed => nomatch failed), Std.Refl.refl s⟩
  · exact ⟨(fun _ failed => nomatch failed), Std.Refl.refl s⟩

theorem within_disconnect : Within StaysOrEnds disconnect := by
  have send : Within StaysOrEnds writePacket := within_writePacket.mono fun _ _ quiet => .inl quiet.1
  have forget : Within StaysOrEnds (change ClientSession.reset) := within_change _ fun _ => .inr rfl
  unfold disconnect
  refine Within.bind within_get fun s => ?_
  dsimp only
  split
  · exact Within.bind (within_change _ fun _ => .inl rfl) fun _ => Within.bind send fun _ =>
      Within.bind send fun _ => Within.bind send fun _ => forget
  · exact forget

end Sending

section Receiving

open ClientSession

theorem within_handleResponse (p : List UInt8) (r : OutOfBand.Response)
    (answer : OutOfBand.Response.ofBytes p = .ok r) : Within (Receives p) (handleResponse r) := by
  cases r with
  | challenge c =>
    refine within_get_bind fun s => ?_
    split_ifs with challenging
    · -- the connect request goes out at once, since no attempt was made yet
      unfold WithinAt
      rw [run_set_bind]
      rcases run_checkForResend
          { s with challenge := c, state := .connecting, connectTime := none, connectAttempts := 0 } with
        ⟨sent, keeps⟩ | ⟨-, full, -⟩
      · rw [sent]
        exact ⟨.inr (.inl ⟨c, answer, challenging, keeps⟩), fun _ failed => nomatch failed⟩
      · exact absurd full (show ¬maxConnectAttempts ≤ 0 by decide)
    · exact ⟨.inl rfl, fun _ failed => nomatch failed⟩
  | connect =>
    refine within_get_bind fun s => ?_
    split
    · rename_i connecting
      exact withinAt_set _ _ (.inr (.inr (.inl ⟨answer, connecting, rfl⟩)))
    · -- a connect answer before the challenge was answered ends the attempt
      unfold WithinAt
      rw [run_set_bind]
      exact ⟨.inr (.inr (.inr (.inr (link_reset s)))), fun _ _ _ => reset_reset s⟩
    · exact ⟨.inl rfl, fun _ failed => nomatch failed⟩
  | print message => exact within_change _ fun _ => .inl rfl
  | dropError message =>
    refine within_get_bind fun s => ?_
    split_ifs
    · unfold WithinAt
      rw [run_set_bind]
      exact ⟨.inr (.inr (.inr (.inr rfl))), fun _ _ _ => reset_reset _⟩
    · exact ⟨.inl rfl, fun _ failed => nomatch failed⟩
  | info info => exact within_change _ fun _ => .inl rfl
  | status info players => exact within_change _ fun _ => .inl rfl
  | disconnect =>
    refine within_get_bind fun s => ?_
    split
    · exact within_dropConnection _ (fun _ _ => .inr ∘ .inr ∘ .inr ∘ .inr) s
    · exact ⟨.inl rfl, fun _ failed => nomatch failed⟩

instance (p : List UInt8) : Std.Refl (Receives p) := ⟨fun _ => .inl rfl⟩

/-- A datagram moves the connection only as `Receives` allows; the channel drops what it cannot
read, and a network error drops the message only. -/
theorem within_handleDatagram (p : List UInt8) : Within (Receives p) (handleDatagram p) := by
  unfold handleDatagram
  split
  · split
    · rename_i r answer
      exact within_handleResponse p r answer
    · exact within_pure _
  · rename_i inBand
    refine Within.mono (R := InBand) ?_ fun s t moved => ?_
    · refine within_get_bind fun s => ?_
      split
      · refine withinAt_set_bind (.inl ⟨rfl, List.prefix_refl _⟩) ?_
        split
        · refine Within.tryCatch (within_parseServerMessage _) (fun s e failed => ?_) _
          -- a network error drops the message; any other failure is passed on as it came
          split
          · exact ⟨Std.Refl.refl _, fun _ swallowed => nomatch swallowed⟩
          · refine ⟨Std.Refl.refl _, fun _ thrown ends => ?_⟩
            cases thrown
            exact (within_parseServerMessage _ s).2 e failed ends
        · exact ⟨Std.Refl.refl _, fun _ failed => nomatch failed⟩
      · exact ⟨Std.Refl.refl _, fun _ failed => nomatch failed⟩
    · rcases moved with same | ⟨connected, primed, reported⟩ | gone
      · exact .inl same.1
      · exact .inr (.inr (.inr (.inl ⟨by simpa using inBand, connected, primed, reported⟩)))
      · exact .inr (.inr (.inr (.inr gone)))

end Receiving

section Frame

open ClientSession

instance : IsTrans ClientSession Frames where
  trans s u t first next := by
    rcases first with ⟨same, kept⟩ | ⟨waiting, gone⟩ | ⟨primed, fresh, valid, active⟩
    · obtain ⟨state, challenge, encoding, inbox⟩ := link_eq_iff.mp same
      rcases next with ⟨same', kept'⟩ | ⟨waiting', gone'⟩ | ⟨primed', fresh', valid', active'⟩
      · refine .inl ⟨same'.trans same, fun primed => ?_⟩
        obtain ⟨snapshots, news⟩ := kept primed
        obtain ⟨snapshots', news'⟩ := kept' (state.trans primed)
        exact ⟨snapshots'.trans snapshots, news'.trans news⟩
      · exact .inr (.inl ⟨by rwa [state] at waiting', by rw [gone', inbox]⟩)
      · -- the snapshot that activates was there when the frame began
        have primed : s.state = .primed := state.symm.trans primed'
        obtain ⟨snapshots, news⟩ := kept primed
        refine .inr (.inr ⟨primed, by rwa [← news], by rwa [← snapshots], ?_⟩)
        rw [active', challenge, encoding, inbox]
    · obtain ⟨state, -, -, inbox⟩ := link_eq_iff.mp gone
      rcases next with ⟨same', -⟩ | ⟨-, gone'⟩ | ⟨primed', -⟩
      · exact .inr (.inl ⟨waiting, same'.trans gone⟩)
      · exact .inr (.inl ⟨waiting, by rw [gone', inbox]⟩)
      · rw [state] at primed'
        cases primed'
    · obtain ⟨state, -, -, -⟩ := link_eq_iff.mp active
      rcases next with ⟨same', -⟩ | ⟨waiting', -⟩ | ⟨primed', -⟩
      · exact .inr (.inr ⟨primed, fresh, valid, same'.trans active⟩)
      · rw [state] at waiting'
        rcases waiting' with waiting' | waiting' <;> cases waiting'
      · rw [state] at primed'
        cases primed'

theorem within_checkForResend : Within Frames checkForResend := by
  intro s
  by_cases primed : s.state = .primed
  · unfold WithinAt
    rw [run_checkForResend_settled s (by rw [primed]; decide)]
    exact ⟨Std.Refl.refl s, fun _ failed => nomatch failed⟩
  rcases run_checkForResend s with ⟨sent, keeps⟩ | ⟨waiting, -, gaveUp⟩
  · exact ⟨.inl ⟨keeps, fun primed' => absurd primed' primed⟩, fun _ failed => by rw [sent] at failed; cases failed⟩
  · unfold WithinAt
    rw [gaveUp]
    exact ⟨.inr (.inl ⟨waiting, rfl⟩), fun _ _ _ => reset_reset s⟩

theorem within_updateTime : Within Frames updateTime := by
  intro s
  obtain ⟨goesOn, moved⟩ := run_updateTime s
  refine ⟨moved, fun e failed ends => ?_⟩
  rw [goesOn e failed] at ends
  cases ends

theorem run_processInbox_idle (s : ClientSession) (idle : s.inbox = []) :
    (processInbox s.inbox.length).run s = (.ok (), s) := by
  rw [idle]
  rfl

/-- A frame with no datagram waiting gives up a connection whose requests went unanswered, or
makes a primed session active; nothing else of the link changes. -/
theorem withinAt_frame (time : Int64) (s : ClientSession) (idle : s.inbox = []) :
    WithinAt Frames (frame time) s := by
  have send : Within Frames writePacket := within_writePacket.mono fun _ _ => Quiet.frames
  unfold frame
  refine withinAt_change_bind (Quiet.frames ⟨rfl, rfl, rfl, rfl⟩) (withinAt_get_bind ?_)
  refine withinAt_bind_of_run (run_processInbox_idle _ (by exact idle)) ?_
  refine Within.bind within_checkForResend (fun _ => Within.bind within_get fun t => ?_) _
  split
  · refine Within.bind within_updateTime fun _ =>
      Within.bind (within_change _ fun s => (quiet_createCommand s).frames) fun _ => Within.bind within_get fun u => ?_
    split
    · exact send
    · exact within_pure _
  · exact within_pure _

end Frame

end SessionStep

end Netcode
