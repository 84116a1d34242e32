import Mathlib
import Netcode.Proofs.Snapshot.Parse

set_option autoImplicit false

namespace Netcode

/-- A snapshot message as the server sends it: its number, the frame it deltas from and how many
messages back, the frame, and the last server command. -/
structure SentSnapshot where
  num : UInt32
  source : Option (Frame × UInt8)
  frame : Frame
  command : UInt32

/-- A run of the server: increasing message numbers, every frame in wire form, and every source
a frame sent a nonzero number of messages back. -/
structure ServerRun (p : Protocol) (msgs : List SentSnapshot) : Prop where
  increasing : msgs.Pairwise (·.num < ·.num)
  onWire : ∀ x ∈ msgs, x.frame.OnWire p
  sources : ∀ x ∈ msgs, ∀ src ∈ x.source,
    src.2 ≠ 0 ∧ ∃ y ∈ msgs, y.num = x.num - src.2.toUInt32 ∧ y.frame = src.1

/-- An integer member that is zero, or a regular float member. -/
def NetField.Blank {S : Type} (f : NetField S) (s : S) : Prop :=
  match f.access with
  | .int get _ => get s = 0
  | .float _ _ => f.kind = .regular

instance {S : Type} (f : NetField S) (s : S) : Decidable (f.Blank s) := by
  unfold NetField.Blank
  split <;> infer_instance

theorem NetField.Blank.fixed {S : Type} {zs : Bool} {f : NetField S} {s : S} (valid : f.Valid)
    (blank : f.Blank s) : f.Fixed zs s := by
  intro acc
  cases access : f.access with
  | int get set =>
    simp only [NetField.Valid, access] at valid
    simp only [NetField.Blank, access] at blank
    rw [Wire.transmit_int zs f access valid.1 valid.2, blank, Wire.fitInt_zero]
    simp [NetField.copy, access, blank]
  | float get set =>
    simp only [NetField.Blank, access] at blank
    rw [Wire.transmit_regular zs f access blank]
    simp [NetField.copy, access]

/-- A member that is zero: an integer `0` or a float `+0.0`. -/
def NetField.Zero {S : Type} (f : NetField S) (s : S) : Prop :=
  match f.access with
  | .int get _ => get s = 0
  | .float get _ => (get s).bits = 0

instance {S : Type} (f : NetField S) (s : S) : Decidable (f.Zero s) := by
  unfold NetField.Zero
  split <;> infer_instance

theorem NetField.Zero.fixed {S : Type} {f : NetField S} {s : S} (valid : f.Valid) (zero : f.Zero s) :
    f.Fixed true s := by
  intro acc
  cases access : f.access with
  | int get set =>
    simp only [NetField.Valid, access] at valid
    simp only [NetField.Zero, access] at zero
    rw [Wire.transmit_int true f access valid.1 valid.2, zero, Wire.fitInt_zero]
    simp [NetField.copy, access, zero]
  | float get set =>
    simp only [NetField.Valid, access] at valid
    simp only [NetField.Zero, access] at zero
    obtain ⟨B, y, emits, parses⟩ := Wire.floatValue_aligned f.bits f.kind (get s) valid
    obtain ⟨B', emits', parses'⟩ := Wire.float_roundTrip true f access s emits parses
    rw [Wire.transmit_eq_of_parses emits' (parses' acc), if_pos ⟨rfl, zero⟩]
    -- the shortcut's zero is the member itself: a float is its bit pattern
    have eta : get s = ⟨(get s).bits⟩ := rfl
    simp only [NetField.copy, access]
    rw [eta, zero]
    rfl

theorem PlayerState.blank_onWire (p : Protocol) (classic : p.family = .classic) : ({} : PlayerState).OnWire p where
  fixed := by
    have blank : ∀ f ∈ fields false, f.Blank {} := by decide
    have table : p.playerTable = classicTable := by simp [Protocol.playerTable, classic]
    rw [table]
    intro f mem
    exact (blank f mem).fixed (fields_valid false f mem)
  counters := by
    intro c mem x member
    -- every counter array starts out zero
    have zero : x = 0 := by
      simp only [counters, List.mem_cons, List.not_mem_nil, or_false] at mem
      rcases mem with rfl | rfl | rfl | rfl | rfl <;> simpa using member
    rw [zero, Wire.fitInt_zero]
  untransmitted _ := ⟨rfl, rfl⟩

@[simp] theorem Protocol.entityTable_zeroShortcut (p : Protocol) : p.entityTable.zeroShortcut = true := by
  unfold Protocol.entityTable
  split <;> rfl

/-- A classic frame with a blank player state, no sounds, and entities in number order whose
members are all zero, is in wire form. -/
theorem Frame.zero_onWire (p : Protocol) (classic : p.family = .classic) (t : Int32) (es : List EntityState)
    (ordered : es.Pairwise (·.number < ·.number))
    (zero : ∀ e ∈ es, (0 ≤ e.number ∧ e.number.toInt < p.maxEntities - 1) ∧ ∀ f ∈ p.entityTable.fields, f.Zero e) :
    ({ serverTime := t, entities := es } : Frame).OnWire p :=
  { flags := UInt8.zero_and
    areamask := Nat.zero_le _
    ps := PlayerState.blank_onWire p classic
    ordered := ordered
    entities := fun e mem => ⟨(zero e mem).1, fun f member => by
      rw [p.entityTable_zeroShortcut]
      exact ((zero e mem).2 f member).fixed (Protocol.entityTable_valid p f member)⟩
    fewSounds := Nat.zero_le _
    sounds := by simp }

def SentSnapshot.snapshot (x : SentSnapshot) : Snapshot where
  messageNum := x.num
  deltaNum := x.source.map fun src => x.num - src.2.toUInt32
  ping := 0
  serverCommandNum := x.command
  frame := x.frame

theorem Frame.OnWire.length_lt {p : Protocol} {F : Frame} (wire : F.OnWire p) :
    F.entities.length < Snapshot.maxParseEntities := by
  have distinct : (F.entities.map (·.number.toNatClampNeg)).Nodup := by
    refine List.pairwise_map.mpr (wire.ordered.imp_of_mem fun {a b} first second less => ?_)
    have low := Int32.cast_toNatClampNeg a.number (wire.entities a first).1.1
    have high := Int32.cast_toNatClampNeg b.number (wire.entities b second).1.1
    rw [Int32.lt_iff_toInt_lt] at less
    omega
  have bounded : (F.entities.map (·.number.toNatClampNeg)).toFinset ⊆ Finset.range p.noneNumber := by
    intro k mem
    obtain ⟨e, member, rfl⟩ := List.mem_map.mp (List.mem_toFinset.mp mem)
    exact Finset.mem_range.mpr (wire.entities e member).1.toNat_lt
  have count := Finset.card_le_card bounded
  rw [List.toFinset_card_of_nodup distinct, List.length_map, Finset.card_range] at count
  have small : p.noneNumber < Snapshot.maxParseEntities := by
    cases family : p.family <;>
      simp [Protocol.noneNumber, Protocol.maxEntities, Protocol.numberBits, family, Snapshot.maxParseEntities]
  omega

def sentFrame (msgs : List SentSnapshot) (n : UInt32) : Option Frame :=
  (msgs.find? (·.num = n)).map (·.frame)

theorem sentFrame_of_mem {msgs : List SentSnapshot} (increasing : msgs.Pairwise (·.num < ·.num))
    {y : SentSnapshot} (mem : y ∈ msgs) : sentFrame msgs y.num = some y.frame := by
  induction msgs with
  | nil => cases mem
  | cons z rest ih =>
    rw [List.pairwise_cons] at increasing
    rcases List.mem_cons.mp mem with same | later
    · subst same
      simp [sentFrame]
    · -- an earlier message has a smaller number
      have before : z.num ≠ y.num := UInt32.ne_of_lt (increasing.1 y later)
      have found := ih increasing.2 later
      simp only [sentFrame] at found ⊢
      rw [List.find?_cons_of_neg (by simpa using before)]
      exact found

namespace Protocol

def receive (p : Protocol) (g : GameState) (mgr : SnapshotManager) (x : SentSnapshot) :
    Except NetError Bool × SnapshotManager :=
  let out := (p.parseSnapshot g x.num x.command).run
    (Message.ofBytes (Message.encode (p.writeSnapshot g x.source x.frame)).2) mgr
  (out.1, out.2.2)

def receiveAll (p : Protocol) (g : GameState) : SnapshotManager → List SentSnapshot → SnapshotManager
  | mgr, [] => mgr
  | mgr, x :: xs => receiveAll p g (p.receive g mgr x).2 xs

end Protocol

namespace SnapshotManager

/-- If the history accepts the source of a delta, the source's entities outlive the pushes of
the new frame. -/
def Roomy (mgr : SnapshotManager) (x : SentSnapshot) : Prop :=
  ∀ src ∈ x.source, mgr.isDeltaSource (x.num - src.2.toUInt32) = true →
    mgr.parseEntitiesNum + x.frame.entities.length ≤
      (mgr.slot (x.num - src.2.toUInt32)).parseEntitiesNum + Snapshot.maxParseEntities

/-- Every valid snapshot of the history holds the frame sent in its message. -/
def Faithful (sent : UInt32 → Option Frame) (mgr : SnapshotManager) : Prop :=
  ∀ j, (mgr.snapshots.getD j {}).valid = true →
    ∃ F, sent (mgr.snapshots.getD j {}).messageNum = some F ∧ mgr.Keeps (mgr.snapshots.getD j {}) F

variable {sent : UInt32 → Option Frame} {mgr : SnapshotManager} {raw : RawSnapshot} {F : Frame}

theorem faithful_default : Faithful sent {} := by
  intro j valid
  have blank : ({} : SnapshotManager).snapshots.getD j {} = {} := by
    simp only [Array.getD_eq_getD_getElem?, Array.getElem?_replicate]
    split <;> rfl
  rw [blank] at valid
  cases valid

theorem Faithful.pushAll (faithful : Faithful sent mgr) (es : List EntityState) :
    Faithful sent (es.foldl push mgr) := by
  intro j valid
  rw [pushAll_snapshots] at valid ⊢
  obtain ⟨F, sentF, keeps⟩ := faithful j valid
  exact ⟨F, sentF, keeps.pushAll es⟩

theorem Faithful.record (faithful : Faithful sent mgr) (sized : mgr.Sized) {snap : RawSnapshot}
    (sentF : sent snap.messageNum = some F) (keeps : mgr.Keeps snap F) : Faithful sent (mgr.record snap) := by
  intro j valid
  rw [record_getD snap sized] at valid ⊢
  split
  · exact ⟨F, sentF, (keeps_record snap).mpr keeps⟩
  · -- another slot still valid is the one that was there
    rename_i other
    rw [if_neg other] at valid
    have untouched := invalidateGap_getD mgr snap.messageNum valid
    rw [untouched] at valid ⊢
    obtain ⟨F', sentF', keeps'⟩ := faithful j valid
    exact ⟨F', sentF', (keeps_record snap).mpr keeps'⟩

theorem Faithful.serves (faithful : Faithful sent mgr) {messageNum : UInt32} {source : Frame} {back : UInt8}
    (nonzero : back ≠ 0) (sentSource : sent (messageNum - back.toUInt32) = some source)
    (accepted : mgr.isDeltaSource (messageNum - back.toUInt32) = true) {room : Nat}
    (roomy : mgr.parseEntitiesNum + room ≤
      (mgr.slot (messageNum - back.toUInt32)).parseEntitiesNum + Snapshot.maxParseEntities) :
    mgr.Serves messageNum room (some (source, back)) := by
  have stored : (mgr.slot (messageNum - back.toUInt32)).valid = true ∧
      (mgr.slot (messageNum - back.toUInt32)).messageNum = messageNum - back.toUInt32 := by
    simp only [isDeltaSource, Bool.and_eq_true, decide_eq_true_eq] at accepted
    exact ⟨accepted.1.1, accepted.1.2⟩
  obtain ⟨F, sentF, ps, count, behind, ring⟩ := faithful (slotOf (messageNum - back.toUInt32)) stored.1
  have inSlot : mgr.snapshots.getD (slotOf (messageNum - back.toUInt32)) {} = mgr.slot (messageNum - back.toUInt32) :=
    rfl
  rw [inSlot] at sentF ps count behind ring
  -- the slot's frame is the one sent in its message: the source
  have same : F = source := by
    rw [stored.2, sentSource] at sentF
    exact (Option.some.inj sentF).symm
  subst same
  refine ⟨nonzero, accepted, ps, by rw [count, Nat.zero_add], behind, by simpa using roomy, fun k below => ?_⟩
  have fresh : mgr.parseEntitiesNum ≤ (mgr.slot (messageNum - back.toUInt32)).parseEntitiesNum + k +
      Snapshot.maxParseEntities := by omega
  simpa using ring k below fresh

end SnapshotManager

namespace Protocol

open SnapshotManager

variable {p : Protocol} {g : GameState} {msgs : List SentSnapshot}

/-- What reading a message must leave: a sized history that is still faithful, and that gives
the message's snapshot back if it was stored. -/
def Received (msgs : List SentSnapshot) (x : SentSnapshot) (out : Except NetError Bool × SnapshotManager) :
    Prop :=
  out.2.Sized ∧ out.2.Faithful (sentFrame msgs) ∧ (out.1 = .ok true → out.2.get? x.num = some x.snapshot)

/-- One message read from a faithful history with room for it. -/
theorem receive_step (run : ServerRun p msgs) {x : SentSnapshot} (mem : x ∈ msgs) {mgr : SnapshotManager}
    (sized : mgr.Sized) (faithful : mgr.Faithful (sentFrame msgs)) (roomy : mgr.Roomy x) :
    Received msgs x (p.receive g mgr x) := by
  have wire := run.onWire x mem
  have sourceWire : ∀ src ∈ x.source, src.1.OnWire p := by
    intro src member
    obtain ⟨-, y, ymem, -, frame⟩ := run.sources x mem src member
    exact frame ▸ run.onWire y ymem
  obtain ⟨body, emits, parses⟩ := snapshot_roundTrip g x.source x.frame wire sourceWire x.num x.command
  -- a source the history serves: the frame is read back and stored
  have stored (serves : mgr.Serves x.num x.frame.entities.length x.source) : Received msgs x (p.receive g mgr x) := by
    obtain ⟨-, result, state⟩ := WireWith.parses_encode emits (parses mgr serves)
    have pushed := sized.pushAll x.frame.entities
    simp only [Received, receive, result, state]
    refine ⟨pushed.record _, (faithful.pushAll _).record pushed (sentFrame_of_mem run.increasing mem)
      (keeps_stored sized _ _ _), fun _ => ?_⟩
    exact get?_record_stored sized x.frame wire.length_lt _ _ _
  rcases source : x.source with _ | ⟨src, back⟩
  · exact stored (by rw [source]; trivial)
  obtain ⟨nonzero, y, ymem, ynum, yframe⟩ := run.sources x mem (src, back) source
  by_cases accepted : mgr.isDeltaSource (x.num - back.toUInt32) = true
  · have sentSource : sentFrame msgs (x.num - back.toUInt32) = some src := by
      rw [← ynum, sentFrame_of_mem run.increasing ymem, yframe]
    exact stored (by rw [source]; exact faithful.serves nonzero sentSource accepted (roomy (src, back) source accepted))
  · -- a source the history refuses: the message is read to its end, and only pushes
    have refused : (mgr.sourceFor (if back = 0 then none else some (x.num - back.toUInt32))).1 = false := by
      simp [SnapshotManager.sourceFor, nonzero, accepted]
    obtain ⟨-, reading, pad, unread⟩ := Wire.encode_unread emits
    have named : (x.source.map Prod.snd).getD 0 = back := by rw [source]; rfl
    rw [named] at unread
    obtain ⟨never, es, pushed⟩ := parseSnapshot_refused p g refused reading
      (unread.trans ((List.append_assoc _ _ _).trans (congrArg _ (List.append_assoc _ _ _))))
    simp only [Received, receive]
    rw [pushed]
    exact ⟨sized.pushAll es, faithful.pushAll es, fun stored => absurd stored never⟩

/-- Reading messages of the run one after another, each with room, keeps a sized history
faithful. -/
theorem receiveAll_faithful (run : ServerRun p msgs) :
    ∀ (pre : List SentSnapshot) (mgr : SnapshotManager), (∀ x ∈ pre, x ∈ msgs) → mgr.Sized →
      mgr.Faithful (sentFrame msgs) → (∀ a x b, pre = a ++ x :: b → (p.receiveAll g mgr a).Roomy x) →
      (p.receiveAll g mgr pre).Sized ∧ (p.receiveAll g mgr pre).Faithful (sentFrame msgs)
  | [], _, _, sized, faithful, _ => ⟨sized, faithful⟩
  | x :: rest, mgr, drawn, sized, faithful, roomy => by
    obtain ⟨sized', faithful', -⟩ :=
      receive_step (g := g) run (drawn x List.mem_cons_self) sized faithful (roomy [] x rest rfl)
    -- the rest of the run starts from the history this message left
    have roomyRest : ∀ a y b, rest = a ++ y :: b → (p.receiveAll g (p.receive g mgr x).2 a).Roomy y :=
      fun a y b split => roomy (x :: a) y b (by rw [split, List.cons_append])
    exact receiveAll_faithful run rest _ (fun y mem => drawn y (List.mem_cons_of_mem x mem)) sized' faithful'
      roomyRest

/-- Over any order of the server's messages, a client with room for every accepted source reads each
message it stores back right away as the snapshot the server sent. -/
theorem receiveAll_readsBack (p : Protocol) (g : GameState) (msgs : List SentSnapshot) (run : ServerRun p msgs)
    (recv : List SentSnapshot) (drawn : ∀ x ∈ recv, x ∈ msgs)
    (roomy : ∀ pre x post, recv = pre ++ x :: post → (p.receiveAll g {} pre).Roomy x) :
    ∀ pre x post, recv = pre ++ x :: post → (p.receive g (p.receiveAll g {} pre) x).1 = .ok true →
      (p.receive g (p.receiveAll g {} pre) x).2.get? x.num = some x.snapshot := by
  intro pre x post split stored
  have drawnPre : ∀ y ∈ pre, y ∈ msgs := fun y mem => drawn y (by rw [split]; exact List.mem_append_left _ mem)
  have roomyPre : ∀ a y b, pre = a ++ y :: b → (p.receiveAll g {} a).Roomy y :=
    fun a y b before => roomy a y (b ++ x :: post) (by rw [split, before]; simp)
  obtain ⟨sized, faithful⟩ := receiveAll_faithful run pre {} drawnPre sized_default faithful_default roomyPre
  have mem : x ∈ msgs := drawn x (by rw [split]; simp)
  exact (receive_step run mem sized faithful (roomy pre x post split)).2.2 stored

/-- A classic client reads a frame and then a delta from it that adds an entity, and serves the
delta back as sent. -/
theorem receiveAll_readsBack_delta :
    let p : Protocol := ⟨5, .classic, true⟩
    let first : SentSnapshot := ⟨1, none, { serverTime := 10, entities := [{ number := 5 }] }, 0⟩
    let second : SentSnapshot :=
      ⟨2, some (first.frame, 1), { serverTime := 20, entities := [{ number := 5 }, { number := 7 }] }, 0⟩
    (p.receiveAll default {} [first]).isDeltaSource 1 = true ∧ (p.receiveAll default {} [first]).Roomy second ∧
      (p.receive default (p.receiveAll default {} [first]) second).1 = .ok true ∧
      (p.receive default (p.receiveAll default {} [first]) second).2.get? second.num = some second.snapshot := by
  intro p first second
  -- both frames hold entities with only their numbers set, so every member is zero
  have wire : ∀ x ∈ [first, second], x.frame.OnWire p := by
    intro x mem
    simp only [List.mem_cons, List.not_mem_nil, or_false] at mem
    rcases mem with rfl | rfl
    · exact Frame.zero_onWire p rfl 10 _ (by decide) (by decide +kernel)
    · exact Frame.zero_onWire p rfl 20 _ (by decide) (by decide +kernel)
  have run : ServerRun p [first, second] := by
    refine ⟨by decide, wire, ?_⟩
    intro x mem src source
    simp only [List.mem_cons, List.not_mem_nil, or_false] at mem
    rcases mem with rfl | rfl
    · cases source
    · cases source
      exact ⟨by decide, first, by simp, by decide, rfl⟩
  have accepted : (p.receiveAll default {} [first]).isDeltaSource 1 = true := by decide +kernel
  have roomy : ∀ pre x post, [first, second] = pre ++ x :: post → (p.receiveAll default {} pre).Roomy x := by
    intro pre x post split
    rcases pre with _ | ⟨a, _ | ⟨b, rest⟩⟩
    · -- the first message is sent whole
      cases split
      intro src source
      cases source
    · cases split
      intro src source _
      cases source
      decide +kernel
    · simp at split
  have stored : (p.receive default (p.receiveAll default {} [first]) second).1 = .ok true := by
    decide +kernel
  exact ⟨accepted, roomy [first] second [] rfl, stored,
    receiveAll_readsBack p default _ run _ (fun _ mem => mem) roomy [first] second [] rfl stored⟩

end Protocol

end Netcode
