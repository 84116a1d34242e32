import Mathlib
import Netcode.Proofs.Snapshot.History

set_option autoImplicit false

namespace Netcode

def Snapshot.raw (s : Snapshot) (start : Nat) : RawSnapshot :=
  { s.frame.stored s.messageNum s.deltaNum s.serverCommandNum start with ping := s.ping }

namespace SnapshotManager

open Protocol

variable {α β : Type}

section Pushes

/-- A step that does nothing to the history but push entities, whatever it reads and however it
ends. -/
def OnlyPushes (r : SnapshotStep α) : Prop :=
  ∀ (m : Message) (mgr : SnapshotManager), ∃ es : List EntityState, (r.run m mgr).2.2 = es.foldl push mgr

theorem onlyPushes_wire (w : Wire α) : OnlyPushes (SnapshotStep.wire w) := by
  intro m mgr
  rcases ran : m.run w with ⟨r, m'⟩
  exact ⟨[], by rw [SnapshotStep.wire, WireWith.run_wire m mgr ran]; rfl⟩

theorem onlyPushes_manager : OnlyPushes SnapshotStep.manager :=
  fun _ _ => ⟨[], rfl⟩

/-- A step that only pushes entities and, when it succeeds, answers through `tally` the count
`count` grown by the number it pushed. -/
def Counts (count : Nat) (tally : α → Nat) (r : SnapshotStep α) : Prop :=
  ∀ (m : Message) (mgr : SnapshotManager), ∃ es : List EntityState,
    (r.run m mgr).2.2 = es.foldl push mgr ∧ ∀ a, (r.run m mgr).1 = .ok a → tally a = count + es.length

variable {count : Nat} {tally : α → Nat}

theorem Counts.onlyPushes {r : SnapshotStep α} (counts : Counts count tally r) : OnlyPushes r :=
  fun m mgr => (counts m mgr).imp fun _ pushed => pushed.1

theorem counts_pure (a : α) (same : tally a = count) : Counts count tally (pure a) := by
  intro m mgr
  refine ⟨[], rfl, fun b ran => ?_⟩
  simp only [WireWith.run_pure, Except.ok.injEq] at ran
  subst ran
  simpa using same

theorem counts_throw (e : NetError) : Counts count tally (throw e : SnapshotStep α) :=
  fun _ _ => ⟨[], rfl, fun _ ran => by simp at ran⟩

theorem counts_manager : Counts count (fun _ => count) SnapshotStep.manager :=
  fun _ _ => ⟨[], rfl, fun _ _ => rfl⟩

theorem counts_wire (w : Wire α) : Counts count (fun _ => count) (SnapshotStep.wire w) := by
  intro m mgr
  rcases ran : m.run w with ⟨r, m'⟩
  exact ⟨[], by rw [SnapshotStep.wire, WireWith.run_wire m mgr ran]; rfl, fun _ _ => rfl⟩

theorem counts_push (e : EntityState) : Counts count (fun _ => count + 1) (SnapshotStep.update (·.push e)) :=
  fun _ _ => ⟨[e], rfl, fun _ _ => rfl⟩

theorem Counts.bind {tally' : β → Nat} {x : SnapshotStep α} {f : α → SnapshotStep β}
    (first : Counts count tally x) (next : ∀ a, Counts (tally a) tally' (f a)) : Counts count tally' (x >>= f) := by
  intro m mgr
  obtain ⟨es, pushed, counted⟩ := first m mgr
  rw [WireWith.run_bind]
  rcases ran : x.run m mgr with ⟨_ | a, m', mgr'⟩ <;> rw [ran] at pushed counted <;> dsimp only at pushed counted ⊢
  · exact ⟨es, pushed, fun _ failed => by cases failed⟩
  · obtain ⟨es', pushed', counted'⟩ := next a m' mgr'
    refine ⟨es ++ es', by rw [pushed', List.foldl_append, ← pushed], fun b answered => ?_⟩
    rw [counted' b answered, counted a rfl, List.length_append, Nat.add_assoc]

theorem carryOver_counts (old : Option RawSnapshot) (bound : Option UInt32) :
    ∀ fuel c count, Counts count Prod.snd (carryOver old bound fuel c count)
  | 0, c, count => counts_pure (c, count) rfl
  | fuel + 1, c, count => by
    simp only [carryOver]
    split
    · exact counts_pure _ rfl
    · split
      · exact counts_pure _ rfl
      · exact (counts_push _).bind fun _ => counts_manager.bind fun _ =>
          carryOver_counts old bound fuel _ (count + 1)

/-- Reading a delta's entities only pushes them, whatever the message holds, and answers how
many it pushed. -/
theorem readPacketEntities_counts (p : Protocol) (g : GameState) (old : Option RawSnapshot) :
    ∀ fuel c count, Counts count id (p.readPacketEntities g old fuel c count)
  | 0, _, _ => counts_throw _
  | fuel + 1, c, count => by
    simp only [readPacketEntities]
    refine (counts_wire _).bind fun number => ?_
    split
    · refine (carryOver_counts _ _ _ _ _).bind fun carried => ?_
      obtain ⟨c', count'⟩ := carried
      exact counts_pure count' rfl
    · refine (carryOver_counts _ _ _ _ _).bind fun carried => ?_
      obtain ⟨c', count'⟩ := carried
      refine counts_manager.bind fun _ => ?_
      -- whichever base the cursor gives, the update is read, and pushed unless it is a removal
      split
      all_goals
        refine (counts_wire _).bind fun decoded => ?_
        split
        · exact (counts_push _).bind fun _ => readPacketEntities_counts p g old fuel _ (count' + 1)
        · exact readPacketEntities_counts p g old fuel _ count'

end Pushes

section Refused

def Refuses (r : SnapshotStep Bool) : Prop :=
  ∀ (m : Message) (mgr : SnapshotManager),
    (r.run m mgr).1 ≠ .ok true ∧ ∃ es : List EntityState, (r.run m mgr).2.2 = es.foldl push mgr

theorem refuses_false : Refuses (pure false) :=
  fun _ _ => ⟨by simp, [], rfl⟩

theorem refuses_throw {f : α → SnapshotStep Bool} (e : NetError) : Refuses (throw e >>= f) :=
  fun _ _ => ⟨by simp, [], rfl⟩

theorem Refuses.bind {x : SnapshotStep α} {f : α → SnapshotStep Bool} (first : OnlyPushes x)
    (next : ∀ a, Refuses (f a)) : Refuses (x >>= f) := by
  intro m mgr
  obtain ⟨es, pushed⟩ := first m mgr
  rw [WireWith.run_bind]
  rcases ran : x.run m mgr with ⟨_ | a, m', mgr'⟩ <;> rw [ran] at pushed <;> dsimp only at pushed
  · exact ⟨by simp, es, pushed⟩
  · obtain ⟨answer, es', pushed'⟩ := next a m' mgr'
    exact ⟨answer, es ++ es', by rw [pushed', List.foldl_append, ← pushed]⟩

/-- A snapshot whose header names a source the history refuses is read to its end, pushing its
entities, but not stored. -/
theorem parseSnapshot_refused (p : Protocol) (g : GameState) {messageNum cmd : UInt32} {mgr : SnapshotManager}
    {serverTime : Int32} {back : UInt8}
    (refused : (mgr.sourceFor (if back = 0 then none else some (messageNum - back.toUInt32))).1 = false)
    {m : Message} {rest : List Bool} (reading : m.Reading)
    (unread : m.unread = Bits.ofNat 32 serverTime.toUInt32.toNat ++ (Bits.ofNat 8 back.toNat ++ rest)) :
    ((p.parseSnapshot g messageNum cmd).run m mgr).1 ≠ .ok true ∧
      ∃ es : List EntityState, ((p.parseSnapshot g messageNum cmd).run m mgr).2.2 = es.foldl push mgr := by
  -- the time and the distance back are the writer's
  obtain ⟨m₁, ran₁, reading₁, unread₁⟩ :=
    WireWith.parses_wire (Wire.parses_readLong serverTime) mgr m _ reading unread
  obtain ⟨m₂, ran₂, -, -⟩ := WireWith.parses_wire (Wire.parses_readByte back) mgr m₁ rest reading₁ unread₁
  simp only [parseSnapshot]
  rw [SnapshotStep.wire, WireWith.run_bind_ok m mgr ran₁, SnapshotStep.wire, WireWith.run_bind_ok m₁ mgr ran₂]
  -- then the flags, and the history as it stands, whose choice of source refuses
  rcases ran₃ : m₂.run Wire.readByte with ⟨_ | flags, m₃⟩
  · rw [WireWith.run_bind, SnapshotStep.wire, WireWith.run_wire m₂ mgr ran₃]
    exact ⟨by simp, [], rfl⟩
  rw [SnapshotStep.wire, WireWith.run_bind_ok m₂ mgr (WireWith.run_wire m₂ mgr ran₃), SnapshotStep.manager,
    WireWith.run_bind_ok m₃ mgr (WireWith.run_value m₃ mgr)]
  simp only [refused, Bool.not_false, if_true]
  -- what is left reads the rest, pushing the entities, and answers false
  refine Refuses.bind (onlyPushes_wire _) (fun len => ?_) m₃ mgr
  split
  · exact refuses_throw _
  exact Refuses.bind (onlyPushes_wire _) fun _ => Refuses.bind (onlyPushes_wire _) fun _ =>
    Refuses.bind onlyPushes_manager fun _ => Refuses.bind (onlyPushes_wire _) fun fuel =>
      Refuses.bind (readPacketEntities_counts p g _ fuel _ 0).onlyPushes fun _ =>
        Refuses.bind (onlyPushes_wire _) fun _ => refuses_false

end Refused

section Ends

variable {n cmd : UInt32} {base : SnapshotManager} {es : List EntityState}

/-- How a parse of message `n` from `base` may end: answering true with a snapshot of `n` stored
where the ring stood, or anything else having only pushed entities. -/
def ParseEnds (n cmd : UInt32) (base : SnapshotManager) : Except NetError Bool → SnapshotManager → Prop
  | .ok true, after => ∃ s : Snapshot, s.messageNum = n ∧ s.serverCommandNum = cmd ∧ s.ping = 0 ∧
      after = (s.frame.entities.foldl push base).record (s.raw base.parseEntitiesNum)
  | _, after => ∃ es : List EntityState, after = es.foldl push base

theorem parseEnds_pushed {answer : Except NetError Bool} (other : answer ≠ .ok true) (es : List EntityState) :
    ParseEnds n cmd base answer (es.foldl push base) := by
  unfold ParseEnds
  split
  · exact absurd rfl other
  · exact ⟨es, rfl⟩

/-- Run from `base` after the entities `es` were pushed, on any message, the step ends as a
parse of message `n` may. -/
def Settles (n cmd : UInt32) (base : SnapshotManager) (es : List EntityState) (r : SnapshotStep Bool) : Prop :=
  ∀ m : Message, ParseEnds n cmd base (r.run m (es.foldl push base)).1 (r.run m (es.foldl push base)).2.2

theorem settles_false : Settles n cmd base es (pure false) :=
  fun _ => parseEnds_pushed (by simp) es

theorem settles_throw {f : α → SnapshotStep Bool} (e : NetError) : Settles n cmd base es (throw e >>= f) :=
  fun _ => parseEnds_pushed (by simp) es

theorem Settles.bind_wire {w : Wire α} {f : α → SnapshotStep Bool} (next : ∀ a, Settles n cmd base es (f a)) :
    Settles n cmd base es (SnapshotStep.wire w >>= f) := by
  intro m
  rcases ran : m.run w with ⟨_ | a, m'⟩
  · rw [SnapshotStep.wire, WireWith.run_bind_error m _ (WireWith.run_wire m _ ran)]
    exact parseEnds_pushed (by simp) es
  · rw [SnapshotStep.wire, WireWith.run_bind_ok m _ (WireWith.run_wire m _ ran)]
    exact next a m'

theorem Settles.bind_manager {f : SnapshotManager → SnapshotStep Bool}
    (next : Settles n cmd base es (f (es.foldl push base))) : Settles n cmd base es (SnapshotStep.manager >>= f) := by
  intro m
  rw [SnapshotStep.manager, WireWith.run_bind_ok m _ (WireWith.run_value m _)]
  exact next m

theorem Settles.bind_counts {x : SnapshotStep Nat} {f : Nat → SnapshotStep Bool} (counts : Counts 0 id x)
    (next : ∀ more : List EntityState, Settles n cmd base (es ++ more) (f more.length)) :
    Settles n cmd base es (x >>= f) := by
  intro m
  obtain ⟨more, pushed, counted⟩ := counts m (es.foldl push base)
  rw [WireWith.run_bind]
  rcases ran : x.run m (es.foldl push base) with ⟨_ | k, m', mgr'⟩ <;> rw [ran] at pushed counted <;>
    dsimp only at pushed counted ⊢
  · rw [pushed, ← List.foldl_append]
    exact parseEnds_pushed (by simp) (es ++ more)
  · have answered : k = more.length := by simpa using counted k rfl
    have state : mgr' = (es ++ more).foldl push base := by rw [pushed, List.foldl_append]
    rw [answered, state]
    exact next more m'

theorem settles_record (s : Snapshot) (message : s.messageNum = n) (command : s.serverCommandNum = cmd)
    (unpinged : s.ping = 0) (entities : s.frame.entities = es) {raw : RawSnapshot}
    (stored : raw = s.raw base.parseEntitiesNum) :
    Settles n cmd base es (SnapshotStep.update (·.record raw) >>= fun _ => pure true) := by
  intro m
  rw [SnapshotStep.update, WireWith.run_bind_ok m _ (WireWith.run_update m _ _)]
  exact ⟨s, message, command, unpinged, by rw [WireWith.run_pure, stored, entities]⟩

/-- Every parse, on any message and from any history, ends as a parse may: it stores a snapshot
of its message, holding exactly the entities it pushed, or it only pushes. -/
theorem parseSnapshot_ends (p : Protocol) (g : GameState) (n cmd : UInt32) (m : Message) (mgr : SnapshotManager) :
    ParseEnds n cmd mgr ((p.parseSnapshot g n cmd).run m mgr).1 ((p.parseSnapshot g n cmd).run m mgr).2.2 := by
  suffices settles : Settles n cmd mgr [] (p.parseSnapshot g n cmd) from settles m
  simp only [parseSnapshot]
  refine Settles.bind_wire fun serverTime => Settles.bind_wire fun back => Settles.bind_wire fun flags => ?_
  refine Settles.bind_manager ?_
  rw [List.foldl_nil]
  -- the source and the validity are fixed here, from the history as it stands
  rcases source : mgr.sourceFor (if back = 0 then none else some (n - back.toUInt32)) with ⟨valid, old⟩
  refine Settles.bind_wire fun len => ?_
  split
  · exact settles_throw _
  refine Settles.bind_wire fun areamask => Settles.bind_wire fun ps => Settles.bind_manager ?_
  refine Settles.bind_wire fun fuel => Settles.bind_counts (readPacketEntities_counts p g _ fuel _ 0) fun es => ?_
  refine Settles.bind_wire fun sounds => ?_
  cases valid
  · exact settles_false
  · exact settles_record ⟨n, _, 0, cmd, ⟨serverTime, flags &&& Snapshot.knownFlags, areamask, ps, es, sounds⟩⟩
      rfl rfl rfl rfl rfl

end Ends

end SnapshotManager

end Netcode
