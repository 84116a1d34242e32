import Mathlib
import Netcode.Proofs.Session.Steps

set_option autoImplicit false

namespace Netcode

/-- An operation that the embedding program performs on a client session. -/
inductive SessionOp where
  | connect
  | disconnect
  | frame (realTime : Int64)
  | datagram (packet : List UInt8)
  | addReliable (cmd : String)
  | setUserinfo (info : InfoString)
  | startDownload (name : String)
  | setInput (cmd : UserCmd) (eyes : UserEyes)

theorem ClientSession.steady_setUserinfo (s : ClientSession) (info : InfoString) :
    ClientSession.Steady s (s.setUserinfo info) := by
  unfold ClientSession.setUserinfo
  dsimp only
  split_ifs <;> exact ⟨rfl, List.prefix_refl _⟩

/-- The moves of the handshake, each with the operation that makes it and what it needs of the
session; priming needs a reported game state, activation a valid snapshot no frame has taken. -/
inductive Handshake : SessionOp → ClientSession → ClientSession → Prop
  | connect {s t : ClientSession} (started : t.state = .challenging) : Handshake .connect s t
  | challenged {p : List UInt8} {s t : ClientSession} (c : UInt32)
      (answer : OutOfBand.Response.ofBytes p = .ok (.challenge c)) (waiting : s.state = .challenging)
      (moved : t.state = .connecting) : Handshake (.datagram p) s t
  | accepted {p : List UInt8} {s t : ClientSession} (answer : OutOfBand.Response.ofBytes p = .ok .connect)
      (waiting : s.state = .connecting) (moved : t.state = .connected) : Handshake (.datagram p) s t
  | primed {p : List UInt8} {s t : ClientSession} (inBand : OutOfBand.isOutOfBand p = false)
      (connected : s.atLeast .connected) (moved : t.state = .primed) (reported : ClientSession.ReportsGameState s t) :
      Handshake (.datagram p) s t
  | activated {time : Int64} {s t : ClientSession} (primed : s.state = .primed) (fresh : s.newSnapshots = true)
      (valid : ∃ snap, s.snapshots.latest? = some snap) (moved : t.state = .active) : Handshake (.frame time) s t
  | left {s t : ClientSession} (moved : t.state = .disconnected) : Handshake .disconnect s t
  | gaveUp {time : Int64} {s t : ClientSession} (waiting : s.state = .challenging ∨ s.state = .connecting)
      (moved : t.state = .disconnected) : Handshake (.frame time) s t
  | dropped {p : List UInt8} {s t : ClientSession} (moved : t.state = .disconnected) : Handshake (.datagram p) s t

theorem ClientSession.new_idle {settings : ClientSettings} {userinfo : InfoString} {s : ClientSession}
    (made : ClientSession.new settings userinfo = .ok s) : s.inbox = [] ∧ s.state = .disconnected := by
  unfold ClientSession.new at made
  split at made
  · cases made
  · cases made
    exact ⟨rfl, rfl⟩

theorem SessionStep.run_handleDatagram_unconnected (p : List UInt8) (s : ClientSession)
    (inBand : OutOfBand.isOutOfBand p = false) (early : s.atLeast .connected = false) :
    (SessionStep.handleDatagram p).run s = (.ok (), s) := by
  unfold SessionStep.handleDatagram
  rw [if_neg (by rw [inBand]; decide), SessionStep.run_get_bind, if_neg (by rw [early]; decide)]
  rfl

namespace SessionOp

open ClientSession

/-- Performs the operation. The operations that cannot fail answer `.ok ()`, and a download the
session refuses leaves it as it was. -/
def apply : SessionOp → ClientSession → Except ClientError Unit × ClientSession
  | .connect, s => (.ok (), s.connect)
  | .disconnect, s => SessionStep.disconnect.run s
  | .frame time, s => (SessionStep.frame time).run s
  | .datagram p, s => (SessionStep.handleDatagram p).run s
  | .addReliable cmd, s => (.ok (), (s.addReliable cmd).2)
  | .setUserinfo info, s => (.ok (), s.setUserinfo info)
  | .startDownload name, s =>
    match s.startDownload name with
    | .ok t => (.ok (), t)
    | .error e => (.error e, s)
  | .setInput cmd eyes, s => (.ok (), s.setInput cmd eyes)

def runAll (ops : List SessionOp) (s : ClientSession) : ClientSession :=
  ops.foldl (fun s op => (op.apply s).2) s

@[simp] theorem runAll_nil (s : ClientSession) : runAll [] s = s := rfl

theorem runAll_append_singleton (ops : List SessionOp) (op : SessionOp) (s : ClientSession) :
    runAll (ops ++ [op]) s = (op.apply (runAll ops s)).2 := by
  rw [runAll, List.foldl_append]
  rfl

/-- How one operation may move the link of a session. -/
def Shifts : SessionOp → ClientSession → ClientSession → Prop
  | .connect, s, t => t.link = (.challenging, 0, 0, s.inbox)
  | .disconnect, s, t => StaysOrEnds s t
  | .frame _, s, t => Frames s t
  | .datagram p, s, t => Receives p s t
  | _, s, t => Steady s t

/-- One operation on a session with no datagram waiting moves its link only as `Shifts` allows,
and a failure of it that reports the end of the connection leaves nothing of the connection. -/
theorem apply_shifts (op : SessionOp) (s : ClientSession) (idle : s.inbox = []) :
    Shifts op s (op.apply s).2 ∧
      ∀ e, (op.apply s).1 = .error e → e.endsConnection → (op.apply s).2.reset = (op.apply s).2 := by
  cases op with
  | connect => exact ⟨rfl, fun _ failed => nomatch failed⟩
  | disconnect => exact SessionStep.within_disconnect s
  | frame time => exact SessionStep.withinAt_frame time s idle
  | datagram p => exact SessionStep.within_handleDatagram p s
  | addReliable cmd => exact ⟨⟨rfl, List.prefix_refl _⟩, fun _ failed => nomatch failed⟩
  | setUserinfo info => exact ⟨steady_setUserinfo s info, fun _ failed => nomatch failed⟩
  | startDownload name =>
    simp only [apply, ClientSession.startDownload]
    split_ifs
    · exact ⟨⟨rfl, List.prefix_refl _⟩, fun _ failed ends => by cases failed; cases ends⟩
    · exact ⟨⟨rfl, List.prefix_refl _⟩, fun _ failed => nomatch failed⟩
  | setInput cmd eyes => exact ⟨⟨rfl, List.prefix_refl _⟩, fun _ failed => nomatch failed⟩

theorem shifts_inbox {op : SessionOp} {s t : ClientSession} (shifts : Shifts op s t) : t.inbox = s.inbox := by
  cases op with
  | connect => exact (link_eq_iff.mp shifts).2.2.2
  | disconnect => rcases shifts with moved | moved <;> exact (link_eq_iff.mp moved).2.2.2
  | frame time =>
    rcases shifts with ⟨moved, -⟩ | ⟨-, moved⟩ | ⟨-, -, -, moved⟩ <;> exact (link_eq_iff.mp moved).2.2.2
  | datagram p =>
    rcases shifts with moved | ⟨c, -, -, moved⟩ | ⟨-, -, moved⟩ | ⟨-, -, moved, -⟩ | moved <;>
      exact (link_eq_iff.mp moved).2.2.2
  | _ => exact (link_eq_iff.mp shifts.1).2.2.2

theorem shifts_handshake {op : SessionOp} {s t : ClientSession} (shifts : Shifts op s t) :
    t.state = s.state ∨ Handshake op s t := by
  cases op with
  | connect => exact .inr (.connect (link_eq_iff.mp shifts).1)
  | disconnect =>
    rcases shifts with same | gone
    · exact .inl (state_eq_of_link same)
    · exact .inr (.left (link_eq_iff.mp gone).1)
  | frame time =>
    rcases shifts with ⟨same, -⟩ | ⟨waiting, gone⟩ | ⟨primed, fresh, valid, active⟩
    · exact .inl (state_eq_of_link same)
    · exact .inr (.gaveUp waiting (link_eq_iff.mp gone).1)
    · exact .inr (.activated primed fresh valid (link_eq_iff.mp active).1)
  | datagram p =>
    rcases shifts with same | ⟨c, answer, challenging, moved⟩ | ⟨answer, connecting, moved⟩ |
        ⟨inBand, connected, moved, reported⟩ | gone
    · exact .inl (state_eq_of_link same)
    · exact .inr (.challenged c answer challenging (link_eq_iff.mp moved).1)
    · exact .inr (.accepted answer connecting (link_eq_iff.mp moved).1)
    · exact .inr (.primed inBand connected (link_eq_iff.mp moved).1 reported)
    · exact .inr (.dropped (link_eq_iff.mp gone).1)
  | _ => exact .inl (state_eq_of_link shifts.1)

theorem atLeast_of_state {s : ClientSession} {state : ConnectionState} (same : s.state = state)
    (target : ConnectionState) : s.atLeast target = state.atLeast target := by
  rw [atLeast, same]

theorem atLeast_of_atLeast {s : ClientSession} {far near : ConnectionState} (further : s.atLeast far)
    (order : near.rank ≤ far.rank) : s.atLeast near := by
  simp only [atLeast, ConnectionState.atLeast, decide_eq_true_eq] at further ⊢
  omega

/-- Once connected, the channel is keyed by the challenge: an operation keeps this, since the only
move onto connected is the connect answer, which keys the channel with the challenge. -/
theorem shifts_keyed {op : SessionOp} {s t : ClientSession} (shifts : Shifts op s t)
    (keyed : s.atLeast .connected → s.encoding = s.challenge) :
    t.atLeast .connected → t.encoding = t.challenge := by
  have same : t.link = s.link → t.atLeast .connected → t.encoding = t.challenge := fun moved connected => by
    obtain ⟨state, challenge, encoding, -⟩ := link_eq_iff.mp moved
    rw [encoding, challenge]
    exact keyed (by rwa [atLeast_of_state state] at connected)
  intro connected
  cases op with
  | connect =>
    rw [atLeast_of_state (link_eq_iff.mp shifts).1] at connected
    cases connected
  | disconnect =>
    rcases shifts with moved | gone
    · exact same moved connected
    · rw [atLeast_of_state (link_eq_iff.mp gone).1] at connected
      cases connected
  | frame time =>
    rcases shifts with ⟨moved, -⟩ | ⟨-, gone⟩ | ⟨primed, -, -, active⟩
    · exact same moved connected
    · rw [atLeast_of_state (link_eq_iff.mp gone).1] at connected
      cases connected
    · obtain ⟨-, challenge, encoding, -⟩ := link_eq_iff.mp active
      rw [encoding, challenge]
      exact keyed (by rw [atLeast_of_state primed]; rfl)
  | datagram p =>
    rcases shifts with moved | ⟨c, -, -, moved⟩ | ⟨-, -, moved⟩ | ⟨-, primed, moved, -⟩ | gone
    · exact same moved connected
    · rw [atLeast_of_state (link_eq_iff.mp moved).1] at connected
      cases connected
    · -- the connect answer keys the channel with the challenge it was sent for
      obtain ⟨-, challenge, encoding, -⟩ := link_eq_iff.mp moved
      rw [encoding, challenge]
    · obtain ⟨-, challenge, encoding, -⟩ := link_eq_iff.mp moved
      rw [encoding, challenge]
      exact keyed primed
    · rw [atLeast_of_state (link_eq_iff.mp gone).1] at connected
      cases connected
  | _ => exact same shifts.1 connected

theorem shifts_answered {op : SessionOp} {s t : ClientSession} (shifts : Shifts op s t)
    (connecting : t.atLeast .connecting) :
    (s.atLeast .connecting ∧ t.challenge = s.challenge) ∨
      ∃ p c, op = .datagram p ∧ OutOfBand.Response.ofBytes p = .ok (.challenge c) ∧
        s.state = .challenging ∧ t.state = .connecting ∧ t.challenge = c := by
  have same : t.link = s.link → s.atLeast .connecting ∧ t.challenge = s.challenge := fun moved => by
    obtain ⟨state, challenge, -, -⟩ := link_eq_iff.mp moved
    exact ⟨by rwa [atLeast_of_state state] at connecting, challenge⟩
  cases op with
  | connect =>
    rw [atLeast_of_state (link_eq_iff.mp shifts).1] at connecting
    cases connecting
  | disconnect =>
    rcases shifts with moved | gone
    · exact .inl (same moved)
    · rw [atLeast_of_state (link_eq_iff.mp gone).1] at connecting
      cases connecting
  | frame time =>
    rcases shifts with ⟨moved, -⟩ | ⟨-, gone⟩ | ⟨primed, -, -, active⟩
    · exact .inl (same moved)
    · rw [atLeast_of_state (link_eq_iff.mp gone).1] at connecting
      cases connecting
    · exact .inl ⟨by rw [atLeast_of_state primed]; rfl, (link_eq_iff.mp active).2.1⟩
  | datagram p =>
    rcases shifts with moved | ⟨c, answer, challenging, moved⟩ | ⟨-, waiting, moved⟩ |
        ⟨-, connected, moved, -⟩ | gone
    · exact .inl (same moved)
    · obtain ⟨state, challenge, -, -⟩ := link_eq_iff.mp moved
      exact .inr ⟨p, c, rfl, answer, challenging, state, challenge⟩
    · exact .inl ⟨by rw [atLeast_of_state waiting]; rfl, (link_eq_iff.mp moved).2.1⟩
    · exact .inl ⟨atLeast_of_atLeast connected (by decide), (link_eq_iff.mp moved).2.1⟩
    · rw [atLeast_of_state (link_eq_iff.mp gone).1] at connecting
      cases connecting
  | _ => exact .inl (same shifts.1)

section Runs

variable (s : ClientSession) (idle : s.inbox = [])
include idle

theorem runAll_inbox (ops : List SessionOp) : (runAll ops s).inbox = [] := by
  induction ops using List.reverseRecOn with
  | nil => exact idle
  | append_singleton ops op ih =>
    rw [runAll_append_singleton]
    exact (shifts_inbox (apply_shifts op _ ih).1).trans ih

theorem runAll_keyed (ops : List SessionOp) (keyed : s.atLeast .connected → s.encoding = s.challenge) :
    (runAll ops s).atLeast .connected → (runAll ops s).encoding = (runAll ops s).challenge := by
  induction ops using List.reverseRecOn with
  | nil => exact keyed
  | append_singleton ops op ih =>
    rw [runAll_append_singleton]
    exact shifts_keyed (apply_shifts op _ (runAll_inbox s idle ops)).1 ih

/-- A run that brings a session to connecting or past holds the challenge answer that moved it
there, and the session has kept that answer's challenge since. -/
theorem runAll_answered (ops : List SessionOp) (start : s.atLeast .connecting = false)
    (connecting : (runAll ops s).atLeast .connecting) :
    ∃ pre p c post, ops = pre ++ .datagram p :: post ∧
      OutOfBand.Response.ofBytes p = .ok (.challenge c) ∧
      (runAll pre s).state = .challenging ∧ (runAll (pre ++ [.datagram p]) s).state = .connecting ∧
      (∀ k ≤ post.length, (runAll (pre ++ .datagram p :: post.take k) s).atLeast .connecting) ∧
      (runAll ops s).challenge = c := by
  induction ops using List.reverseRecOn with
  | nil =>
    rw [runAll_nil, start] at connecting
    cases connecting
  | append_singleton ops op ih =>
    rw [runAll_append_singleton] at connecting ⊢
    rcases shifts_answered (apply_shifts op _ (runAll_inbox s idle ops)).1 connecting with
      ⟨before, kept⟩ | ⟨p, c, rfl, answer, challenging, moved, taken⟩
    · -- the answer came earlier; this operation kept the session at or past connecting
      obtain ⟨pre, p, c, post, split, answer, challenging, moved, since, taken⟩ := ih before
      have whole : pre ++ .datagram p :: (post ++ [op]) = ops ++ [op] := by
        rw [split, List.append_assoc, List.cons_append]
      refine ⟨pre, p, c, post ++ [op], whole.symm, answer, challenging, moved, fun k bound => ?_,
        kept.trans taken⟩
      by_cases earlier : k ≤ post.length
      · rw [List.take_append_of_le_length earlier]
        exact since k earlier
      · have every : (post ++ [op]).length ≤ k := by
          rw [List.length_append, List.length_singleton]
          omega
        rw [List.take_of_length_le every, whole, runAll_append_singleton]
        exact connecting
    · -- this operation is the answer
      refine ⟨ops, p, c, [], by simp, answer, challenging, by rw [runAll_append_singleton]; exact moved,
        fun k bound => ?_, taken⟩
      rw [List.length_nil, Nat.le_zero] at bound
      rw [bound, List.take_zero, runAll_append_singleton]
      exact connecting

end Runs

/-- After every run from a new session, an operation moves the connection's state only by a move of
the handshake; once connected the channel is keyed by the answered challenge, and a failure that
ends the connection leaves nothing of it. -/
theorem handshake_moves (settings : ClientSettings) (userinfo : InfoString) (s₀ : ClientSession)
    (fresh : ClientSession.new settings userinfo = .ok s₀) (ops : List SessionOp) (op : SessionOp) :
    ((op.apply (runAll ops s₀)).2.state = (runAll ops s₀).state ∨
        Handshake op (runAll ops s₀) (op.apply (runAll ops s₀)).2) ∧
      (∀ p, OutOfBand.isOutOfBand p = false → (runAll ops s₀).atLeast .connected = false →
        (SessionOp.datagram p).apply (runAll ops s₀) = (.ok (), runAll ops s₀)) ∧
      ((runAll ops s₀).atLeast .connected →
        ∃ pre p c post, ops = pre ++ .datagram p :: post ∧
          OutOfBand.Response.ofBytes p = .ok (.challenge c) ∧
          (runAll pre s₀).state = .challenging ∧ (runAll (pre ++ [.datagram p]) s₀).state = .connecting ∧
          (∀ k ≤ post.length, (runAll (pre ++ .datagram p :: post.take k) s₀).atLeast .connecting) ∧
          (runAll ops s₀).encoding = c) ∧
      ∀ e, (op.apply (runAll ops s₀)).1 = .error e → e.endsConnection →
        (op.apply (runAll ops s₀)).2.state = .disconnected ∧
          (op.apply (runAll ops s₀)).2.reset = (op.apply (runAll ops s₀)).2 := by
  obtain ⟨idle, start⟩ := new_idle fresh
  obtain ⟨shifts, ends⟩ := apply_shifts op (runAll ops s₀) (runAll_inbox s₀ idle ops)
  refine ⟨shifts_handshake shifts, fun p inBand early => ?_, fun connected => ?_, fun e failed ending => ?_⟩
  · exact SessionStep.run_handleDatagram_unconnected p _ inBand early
  · -- the session started disconnected, so the run holds the answer that moved it to connecting
    obtain ⟨pre, p, c, post, split, answer, challenging, moved, since, taken⟩ :=
      runAll_answered s₀ idle ops (by rw [atLeast_of_state start]; rfl) (atLeast_of_atLeast connected (by decide))
    have keyed := runAll_keyed s₀ idle ops (fun connected => by rw [atLeast_of_state start] at connected; cases connected)
    exact ⟨pre, p, c, post, split, answer, challenging, moved, since, (keyed connected).trans taken⟩
  · have cleared := ends e failed ending
    exact ⟨by rw [← cleared, reset_state], cleared⟩

theorem handshake_moves_connecting :
    ∃ s₀, ClientSession.new {} {} = .ok s₀ ∧
      (((SessionOp.frame 0).apply (runAll [.connect] s₀)).2.state = (runAll [.connect] s₀).state ∨
          Handshake (.frame 0) (runAll [.connect] s₀) ((SessionOp.frame 0).apply (runAll [.connect] s₀)).2) ∧
        (∀ p, OutOfBand.isOutOfBand p = false → (runAll [.connect] s₀).atLeast .connected = false →
          (SessionOp.datagram p).apply (runAll [.connect] s₀) = (.ok (), runAll [.connect] s₀)) ∧
        ((runAll [.connect] s₀).atLeast .connected →
          ∃ pre p c post, [SessionOp.connect] = pre ++ .datagram p :: post ∧
            OutOfBand.Response.ofBytes p = .ok (.challenge c) ∧
            (runAll pre s₀).state = .challenging ∧ (runAll (pre ++ [.datagram p]) s₀).state = .connecting ∧
            (∀ k ≤ post.length, (runAll (pre ++ .datagram p :: post.take k) s₀).atLeast .connecting) ∧
            (runAll [.connect] s₀).encoding = c) ∧
        ∀ e, ((SessionOp.frame 0).apply (runAll [.connect] s₀)).1 = .error e → e.endsConnection →
          ((SessionOp.frame 0).apply (runAll [.connect] s₀)).2.state = .disconnected ∧
            ((SessionOp.frame 0).apply (runAll [.connect] s₀)).2.reset =
              ((SessionOp.frame 0).apply (runAll [.connect] s₀)).2 :=
  ⟨_, rfl, handshake_moves {} {} _ rfl [.connect] (.frame 0)⟩

end SessionOp

end Netcode
