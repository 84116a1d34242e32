import Mathlib
import Netcode.Proofs.Wire.Values
import Netcode.Input.Command

set_option autoImplicit false

namespace Netcode

namespace Wire

section Lists

variable {α β γ : Type}

theorem parses_mapM (f : α → Wire β) (bits : α → γ → List Bool) (out : α → γ → β) :
    ∀ (l : List α) (targets : List γ), l.length = targets.length →
      (∀ p ∈ l.zip targets, Parses (f p.1) (bits p.1 p.2) (out p.1 p.2)) →
      Parses (l.mapM f) ((l.zip targets).flatMap fun p => bits p.1 p.2)
        ((l.zip targets).map fun p => out p.1 p.2)
  | [], [], _, _ => parses_pure []
  | a :: rest, c :: cs, same, each => by
    rw [List.mapM_cons, List.zip_cons_cons, List.flatMap_cons, List.map_cons]
    have head := each (a, c) (List.mem_cons_self ..)
    have tail := parses_mapM f bits out rest cs (by simpa using same)
      fun p mem => each p (List.mem_cons_of_mem _ mem)
    exact (head.bind (tail.bind (parses_pure (out a c :: (rest.zip cs).map fun p => out p.1 p.2)))).of_eq
      (by rw [List.append_nil]) rfl
  | [], _ :: _, same, _ => absurd same (by simp)
  | _ :: _, [], same, _ => absurd same (by simp)

theorem Parses.of_map {r : Wire α} {g : α → β} {bits : List Bool} {a : α} (injective : Function.Injective g)
    (parses : Parses (g <$> r) bits (g a)) : Parses r bits a := by
  intro m rest reading input
  obtain ⟨m', run, reading', unread'⟩ := parses m rest reading input
  rw [map_eq_pure_bind, Message.run_bind] at run
  rcases ran : m.run r with ⟨_ | b, m''⟩
  · rw [ran] at run
    cases run
  · rw [ran] at run
    obtain ⟨same, rfl⟩ := Prod.mk.inj run
    rw [injective (Except.ok.inj same)]
    exact ⟨m'', rfl, reading', unread'⟩

theorem parses_vector_mapM {n : Nat} (f : α → Wire β) (bits : α → γ → List Bool) (out : α → γ → β)
    (v : Vector α n) (targets : Vector γ n)
    (each : ∀ p ∈ v.toList.zip targets.toList, Parses (f p.1) (bits p.1 p.2) (out p.1 p.2)) :
    Parses (v.mapM f) ((v.toList.zip targets.toList).flatMap fun p => bits p.1 p.2)
      (Vector.zipWith out v targets) := by
  have listed := parses_mapM f bits out v.toList targets.toList (by simp) each
  have viaList : Vector.toList <$> v.mapM f = v.toList.mapM f := by
    rw [← Vector.toList_toArray, ← Array.toList_mapM, ← Vector.toArray_mapM, Functor.map_map]
    rfl
  refine Parses.of_map (g := Vector.toList) (fun _ _ same => Vector.toList_inj.mp same) ?_
  rw [List.map_zip_eq_zipWith] at listed
  rw [viaList, Vector.toList_zipWith]
  exact listed

end Lists

section Changes

variable {α : Type} (same : α → α → Bool) (write : α → Wire Unit) (read : Wire α) (layout : α → List Bool)

/-- The bits of one component of a set of changes: a clear bit when it is the same as before,
else a set bit and its value. -/
def changeBits (a b : α) : List Bool :=
  if same a b then [false] else true :: layout b

/-- A set of components written as changes and read back against the old values gives the new
ones, when a component counted the same is the same and each value reads back as written. -/
theorem changedComponents_roundTrip {n : Nat} (sound : ∀ a b, same a b = true → a = b)
    (value : ∀ b, Emits (write b) () (layout b) ∧ Parses read (layout b) b) (old new : Vector α n) :
    Emits (writeChangedComponents same write old new) ()
        ((old.toList.zip new.toList).flatMap fun p => changeBits same layout p.1 p.2) ∧
      Parses (readChangedComponents read old)
        ((old.toList.zip new.toList).flatMap fun p => changeBits same layout p.1 p.2) new := by
  refine ⟨emits_forM _ _ _ fun p _ => ?_, ?_⟩
  · obtain ⟨a, b⟩ := p
    unfold changeBits
    dsimp only
    split
    · exact emits_writeBool false
    · exact (emits_writeBool true).bind (value b).1
  · -- each component reads back as the new value, whether it changed or not
    have each : ∀ p ∈ old.toList.zip new.toList,
        Parses (do if ← readBool then read else pure p.1) (changeBits same layout p.1 p.2) p.2 := by
      rintro ⟨a, b⟩ -
      unfold changeBits
      dsimp only
      split
      · rename_i kept
        rw [← sound a b kept]
        exact (parses_readBool false).bind (parses_pure a)
      · exact (parses_readBool true).bind (value b).2
    have whole := parses_vector_mapM (fun a => do if ← readBool then read else pure a)
      (changeBits same layout) (fun _ b => b) old new each
    have picked : Vector.zipWith (fun _ b => b) old new = new := by
      apply Vector.toList_inj.mp
      rw [Vector.toList_zipWith, show (fun (_ b : α) => b) = Function.curry Prod.snd from rfl,
        ← List.map_zip_eq_zipWith, List.map_snd_zip (by simp)]
    exact whole.of_eq rfl picked

end Changes

section Eyes

def offsetBits (o : Int8) : List Bool :=
  Bits.ofNat 8 o.toInt64.toUInt64.toNat

theorem toInt8_lowBits (o : Int8) : (lowBits (-8) o.toInt64).toInt8 = o := by
  apply Int8.toInt_inj.mp
  have lo := Int8.le_toInt o
  have hi := Int8.toInt_lt o
  have byte : o.toInt.bmod (2 ^ 8) = o.toInt := Int.bmod_eq_of_le (by omega) (by omega)
  have word : o.toInt.bmod Int64.size = o.toInt :=
    Int.bmod_eq_of_le (by simp [Int64.size]; omega) (by simp [Int64.size]; omega)
  rw [Int64.toInt_toInt8, lowBits, if_pos (by decide), Int64.toInt_ofInt, Int8.toInt_toInt64,
    show (widthOf (-8)).toNat = 8 by decide, byte, word, byte]

theorem offset_roundTrip (o : Int8) :
    Emits (writeBits o.toInt64 (-8)) () (offsetBits o) ∧
      Parses (do let v ← readBits (-8); pure v.toInt8) (offsetBits o) o := by
  have width : (widthOf (-8)).toNat = 8 := by decide
  have written := emits_writeBits o.toInt64 (-8) (by decide)
  have read := parses_readBits (-8) (by decide) (offsetBits o) (by rw [offsetBits, Bits.length_ofNat, width])
  rw [width] at written
  refine ⟨written, (read.map Int64.toInt8).of_eq rfl ?_⟩
  rw [offsetBits, Bits.toNat_ofNat, ← width, extendSign_lowBits (-8) (by decide), toInt8_lowBits]

/-- The bits of eyes written as a delta from `old`: a clear bit when they are equal as values,
else a set bit and the changes of the offsets and of the angles. -/
def eyesBits (old new : UserEyes) : List Bool :=
  if old.sameValue new then [false]
  else true :: (((old.ofs.toList.zip new.ofs.toList).flatMap fun p =>
      changeBits (fun a b => decide (a = b)) offsetBits p.1 p.2) ++
    (old.angles.toList.zip new.angles.toList).flatMap fun p =>
      changeBits (fun a b => decide (a.bits = b.bits)) (fun x => Bits.ofNat 32 x.bits.toNat) p.1 p.2)

/-- Eyes read back against the ones before: the old eyes when the new ones are equal to them as
values, else exactly the new ones. -/
theorem eyes_delta_roundTrip (old new : UserEyes) :
    Emits (writeEyes old new) () (eyesBits old new) ∧
      Parses (readEyes old) (eyesBits old new) (if old.sameValue new then old else new) := by
  have offsets := changedComponents_roundTrip (fun a b : Int8 => decide (a = b)) (fun o => writeBits o.toInt64 (-8))
    (do let v ← readBits (-8); pure v.toInt8) offsetBits (fun _ _ kept => of_decide_eq_true kept)
    offset_roundTrip old.ofs new.ofs
  have angles := changedComponents_roundTrip (fun a b : Single => decide (a.bits = b.bits)) writeFloat readFloat
    (fun x => Bits.ofNat 32 x.bits.toNat) (fun _ _ kept => single_eq_of_bits_eq (of_decide_eq_true kept))
    (fun x => ⟨emits_writeFloat x, parses_readFloat x⟩) old.angles new.angles
  unfold writeEyes readEyes eyesBits
  by_cases equal : old.sameValue new = true
  · simp only [equal, if_true]
    exact ⟨emits_writeBool false, (parses_readBool false).bind (parses_pure old)⟩
  · simp only [equal, if_false, Bool.false_eq_true]
    refine ⟨(emits_writeBool true).bind (offsets.1.bind angles.1), ?_⟩
    exact ((parses_readBool true).bind (offsets.2.bind (angles.2.bind
      (parses_pure ({ ofs := new.ofs, angles := new.angles } : UserEyes))))).of_eq (by simp) rfl

theorem sameValue_spec {old new : UserEyes} (equal : old.sameValue new = true) :
    old.ofs = new.ofs ∧ ∀ p ∈ old.angles.toList.zip new.angles.toList,
      p.1.bits = p.2.bits ∨ (p.1.bits <<< 1 = 0 ∧ p.2.bits <<< 1 = 0) := by
  simp only [UserEyes.sameValue, Bool.decide_and, Bool.and_eq_true, decide_eq_true_eq, List.all_eq_true]
    at equal
  refine ⟨equal.1, fun p mem => ?_⟩
  have value := equal.2 p mem
  simp only [Single.eqValue, Bool.and_eq_true, Bool.or_eq_true, decide_eq_true_eq] at value
  exact value.2

/-- Eyes written as a delta read back as the new eyes, bit for bit, unless they equal the old ones
as values; then only a clear bit is sent and the old eyes stay. -/
theorem readEyes_writeEyes (old new : UserEyes) :
    (Message.encode (writeEyes old new)).1 = .ok () ∧
      ((Message.ofBytes (Message.encode (writeEyes old new)).2).run (readEyes old)).1 =
        .ok (if old.sameValue new then old else new) ∧
      (old.sameValue new = true → old.ofs = new.ofs ∧ ∀ p ∈ old.angles.toList.zip new.angles.toList,
        p.1.bits = p.2.bits ∨ (p.1.bits <<< 1 = 0 ∧ p.2.bits <<< 1 = 0)) := by
  obtain ⟨written, read⟩ := eyes_delta_roundTrip old new
  obtain ⟨wrote, parsed⟩ := parses_encode written read
  exact ⟨wrote, parsed, sameValue_spec⟩

end Eyes

section Commands

/-- The bits of a command's time: a set bit and the step from the old time in a byte when it lies in
`[0, 256)`, else a clear bit and the whole time. -/
def timeBits (old new : UserCmd) : List Bool :=
  if 0 ≤ new.serverTime - old.serverTime ∧ new.serverTime - old.serverTime < 256 then
    true :: Bits.ofNat 8 (new.serverTime - old.serverTime).toInt64.toUInt64.toNat
  else false :: Bits.ofNat 32 new.serverTime.toUInt32.toNat

/-- The bits of a command's input under `key`: a clear bit when it is the same as before, else a set
bit and a keyed change for each angle, each move and the buttons. -/
def inputBits (buttonBits : Int32) (key : UInt32) (old new : UserCmd) : List Bool :=
  if old.sameInput new then [false]
  else true :: (((old.angles.toList.zip new.angles.toList).flatMap fun p =>
      keyedChange key p.1.toUInt32 p.2.toUInt32 16) ++
    keyedChange key old.forwardMove.toUInt8.toUInt32 new.forwardMove.toUInt8.toUInt32 8 ++
    keyedChange key old.rightMove.toUInt8.toUInt32 new.rightMove.toUInt8.toUInt32 8 ++
    keyedChange key old.upMove.toUInt8.toUInt32 new.upMove.toUInt8.toUInt32 8 ++
    keyedChange key old.buttons.toUInt32 new.buttons.toUInt32 buttonBits)

def userCmdBits (buttonBits : Int32) (key : UInt32) (old new : UserCmd) : List Bool :=
  timeBits old new ++ inputBits buttonBits (key ^^^ new.serverTime.toUInt32) old new

theorem parses_keyed (key old new : UInt32) (bits : Int32) (carries : CodecMode.bitPacked.Carries (widthOf bits))
    (fits : new.toNat < 2 ^ (widthOf bits).toNat) :
    Parses (readDeltaKey key old bits) (keyedChange key old new bits) new := by
  refine (parsesIn_readDeltaKey key old new bits carries).bitPacked.of_eq rfl ?_
  split
  · assumption
  · rw [Nat.mod_eq_of_lt fits, UInt32.ofNat_toNat]

theorem parses_timeStep (old new : Int32) (step : 0 ≤ new - old ∧ new - old < 256) :
    Parses (do let dt ← readBits 8; pure (old + dt.toInt32)) (Bits.ofNat 8 (new - old).toInt64.toUInt64.toNat) new := by
  have width : (widthOf 8).toNat = 8 := by decide
  have read := parses_readBits 8 (by decide) (Bits.ofNat 8 (new - old).toInt64.toUInt64.toNat)
    (by rw [Bits.length_ofNat, width])
  refine (read.map _).of_eq rfl ?_
  have below := Int32.lt_iff_toInt_lt.mp step.2
  have bound : (256 : Int32).toInt = 256 := rfl
  rw [bound] at below
  rw [Bits.toNat_ofNat, ← width, toInt32_extendSign_low 8 (by decide) (by decide),
    fitInt_of_lt (by decide) _ step.1 (by rw [width]; omega), Int32.add_comm, Int32.sub_add_cancel]

theorem parses_timeWhole (t : Int32) :
    Parses (do let t ← readBits 32; pure t.toInt32) (Bits.ofNat 32 t.toUInt32.toNat) t := by
  have width : (widthOf 32).toNat = 32 := by decide
  have read := parses_readBits 32 (by decide) (Bits.ofNat 32 t.toUInt32.toNat) (by rw [Bits.length_ofNat, width])
  refine (read.map _).of_eq rfl ?_
  have word : UInt64.ofNat t.toUInt32.toNat = t.toUInt32.toUInt64 := UInt64.toNat_inj.mp (by simp)
  rw [extendSign_of_not_neg (by decide), Bits.toNat_ofNat, Nat.mod_eq_of_lt t.toUInt32.toNat_lt, word]
  apply Int32.toBitVec_inj.mp
  simp only [Int64.toBitVec_toInt32, UInt64.toBitVec_toInt64, UInt32.toBitVec_toUInt64, Int32.toBitVec_toUInt32]
  rw [BitVec.signExtend_eq_setWidth_of_le _ (by decide), BitVec.setWidth_setWidth_of_le _ (by decide),
    BitVec.setWidth_eq]

theorem emits_userCmd (buttonBits : Int32) (carries : CodecMode.bitPacked.Carries (widthOf buttonBits))
    (key : UInt32) (old new : UserCmd) :
    Emits (writeDeltaUserCmd buttonBits key old new) () (userCmdBits buttonBits key old new) := by
  have byte : (widthOf 8).toNat = 8 := by decide
  have word : (widthOf 32).toNat = 32 := by decide
  have keyed := fun (a b : UInt32) (bits : Int32) (carries : CodecMode.bitPacked.Carries (widthOf bits)) =>
    (emitsIn_writeDeltaKey (key ^^^ new.serverTime.toUInt32) a b bits carries).bitPacked
  unfold writeDeltaUserCmd userCmdBits timeBits
  dsimp only
  -- the time goes out in a byte or whole, and the input after it the same way either way
  split
  all_goals
    refine ((emits_writeBool _).bind ((emits_writeBits _ _ (by decide)).bind
      (?_ : Emits _ () (inputBits buttonBits (key ^^^ new.serverTime.toUInt32) old new)))).of_eq
      (by simp only [byte, word, UInt64.toUInt64_toInt64, UInt32.toNat_toUInt64, List.nil_append, List.cons_append])
    unfold inputBits
    split
    · exact emits_writeBool false
    · refine ((emits_writeBool true).bind ((emits_forM _ _ _ fun p _ => keyed _ _ 16 (by decide)).bind
        ((keyed _ _ 8 (by decide)).bind ((keyed _ _ 8 (by decide)).bind ((keyed _ _ 8 (by decide)).bind
          (keyed _ _ buttonBits carries)))))).of_eq ?_
      simp only [List.append_assoc, List.singleton_append]
theorem sameInput_with {old new : UserCmd} (same : old.sameInput new = true) :
    { old with serverTime := new.serverTime } = new := by
  simp only [UserCmd.sameInput, decide_eq_true_eq] at same
  obtain ⟨angles, forward, right, up, buttons⟩ := same
  cases new
  simp_all

/-- A command whose buttons fit the button width reads back against the command before it. -/
theorem parses_userCmd (buttonBits : Int32) (carries : CodecMode.bitPacked.Carries (widthOf buttonBits))
    (key : UInt32) (old new : UserCmd) (fits : new.buttons.toNat < 2 ^ (widthOf buttonBits).toNat) :
    Parses (readDeltaUserCmd buttonBits key old) (userCmdBits buttonBits key old new) new := by
  have keyed := fun (a b : UInt32) (bits : Int32) (carries : CodecMode.bitPacked.Carries (widthOf bits)) =>
    parses_keyed (key ^^^ new.serverTime.toUInt32) a b bits carries
  have angle := fun (a b : UInt16) => keyed a.toUInt32 b.toUInt32 16 (by decide) (by
    rw [UInt16.toNat_toUInt32, show (widthOf 16).toNat = 16 by decide]; exact b.toNat_lt)
  have move := fun (a b : Int8) => keyed a.toUInt8.toUInt32 b.toUInt8.toUInt32 8 (by decide) (by
    rw [UInt8.toNat_toUInt32, show (widthOf 8).toNat = 8 by decide]; exact b.toUInt8.toNat_lt)
  unfold readDeltaUserCmd userCmdBits timeBits
  split
  case' isTrue step =>
    refine ((parses_readBool true).bind ((parses_timeStep _ _ step).bind
      (?_ : Parses _ (inputBits buttonBits (key ^^^ new.serverTime.toUInt32) old new) new))).of_eq
      (by simp only [List.nil_append, List.cons_append]) rfl
  case' isFalse whole =>
    refine ((parses_readBool false).bind ((parses_timeWhole new.serverTime).bind
      (?_ : Parses _ (inputBits buttonBits (key ^^^ new.serverTime.toUInt32) old new) new))).of_eq
      (by simp only [List.nil_append, List.cons_append]) rfl
  -- the input reads back the same way after either form of the time
  all_goals
    beta_reduce
    unfold inputBits
    split
    case isTrue same =>
      exact ((parses_readBool false).bind (parses_pure { old with serverTime := new.serverTime })).of_eq rfl
        (sameInput_with same)
    case isFalse =>
      refine ((parses_readBool true).bind ((parses_vector_mapM _
        (fun a b => keyedChange (key ^^^ new.serverTime.toUInt32) a.toUInt32 b.toUInt32 16) (fun _ b => b.toUInt32)
        _ new.angles fun p _ => angle p.1 p.2).bind ((move _ new.forwardMove).bind ((move _ new.rightMove).bind
        ((move _ new.upMove).bind ((keyed _ new.buttons.toUInt32 buttonBits carries
          (by rwa [UInt16.toNat_toUInt32])).map _)))))).of_eq
        (by simp only [List.append_assoc, List.singleton_append]) ?_
      cases new
      simp only [UInt16.toUInt16_toUInt32, UInt8.toUInt8_toUInt32, Int8.toInt8_toUInt8, UserCmd.mk.injEq,
        and_true, true_and]
      ext i lt
      simp
end Commands

end Wire

namespace Protocol

def writeUserCmds (p : Protocol) (key : UInt32) : UserCmd → List UserCmd → Wire Unit
  | _, [] => pure ()
  | old, c :: rest => do
    p.writeUserCmd key old c
    writeUserCmds p key c rest

/-- Reads `n` commands one after another, each against the one read before, the first against
`old`. -/
def readUserCmds (p : Protocol) (key : UInt32) : Nat → UserCmd → Wire (List UserCmd)
  | 0, _ => pure []
  | n + 1, old => do
    let c ← p.readUserCmd key old
    return c :: (← readUserCmds p key n c)

def userCmdsBits (p : Protocol) (key : UInt32) : UserCmd → List UserCmd → List Bool
  | _, [] => []
  | old, c :: rest => Wire.userCmdBits p.buttonBits.toInt32 key old c ++ userCmdsBits p key c rest

theorem buttonBits_carries (p : Protocol) : CodecMode.bitPacked.Carries (Wire.widthOf p.buttonBits.toInt32) := by
  unfold buttonBits
  split <;> decide

theorem widthOf_buttonBits (p : Protocol) : (Wire.widthOf p.buttonBits.toInt32).toNat = p.buttonBits := by
  unfold buttonBits
  split <;> decide

theorem emits_writeUserCmds (p : Protocol) (key : UInt32) (cmds : List UserCmd) (old : UserCmd) :
    Wire.Emits (p.writeUserCmds key old cmds) () (p.userCmdsBits key old cmds) := by
  induction cmds generalizing old with
  | nil => exact Wire.emits_pure ()
  | cons c rest ih => exact (Wire.emits_userCmd _ p.buttonBits_carries key old c).bind (ih c)

theorem parses_readUserCmds (p : Protocol) (key : UInt32) (cmds : List UserCmd)
    (fit : ∀ c ∈ cmds, c.buttons.toNat < 2 ^ p.buttonBits) (old : UserCmd) :
    Wire.Parses (p.readUserCmds key cmds.length old) (p.userCmdsBits key old cmds) cmds := by
  induction cmds generalizing old with
  | nil => exact Wire.parses_pure []
  | cons c rest ih =>
    -- each command reads against the one read before it, which is the one written before it
    have head := Wire.parses_userCmd _ p.buttonBits_carries key old c
      (by rw [widthOf_buttonBits]; exact fit c (List.mem_cons_self ..))
    have tail := ih (fun c mem => fit c (List.mem_cons_of_mem _ mem)) c
    exact head.bind (tail.map (c :: ·))

/-- A chain of commands, each a delta from the one before, reads back whole when every command's
buttons fit the protocol's button width. -/
theorem readUserCmds_writeUserCmds (p : Protocol) (key : UInt32) (cmds : List UserCmd)
    (fit : ∀ c ∈ cmds, c.buttons.toNat < 2 ^ p.buttonBits) :
    (Message.encode (p.writeUserCmds key default cmds)).1 = .ok () ∧
      ((Message.ofBytes (Message.encode (p.writeUserCmds key default cmds)).2).run
        (p.readUserCmds key cmds.length default)).1 = .ok cmds :=
  Wire.parses_encode (p.emits_writeUserCmds key cmds default) (p.parses_readUserCmds key cmds fit default)

theorem readUserCmds_writeUserCmds_twoCommands :
    (∀ c ∈ [({ serverTime := 300, buttons := 200, forwardMove := -5 } : UserCmd),
        { serverTime := 310, buttons := 200, angles := #v[1, 2, 3] }],
      c.buttons.toNat < 2 ^ (⟨5, .classic, true⟩ : Protocol).buttonBits) ∧
    ((Message.ofBytes (Message.encode ((⟨5, .classic, true⟩ : Protocol).writeUserCmds 7 default
        [{ serverTime := 300, buttons := 200, forwardMove := -5 },
          { serverTime := 310, buttons := 200, angles := #v[1, 2, 3] }])).2).run
      ((⟨5, .classic, true⟩ : Protocol).readUserCmds 7 2 default)).1 =
      .ok [{ serverTime := 300, buttons := 200, forwardMove := -5 },
        { serverTime := 310, buttons := 200, angles := #v[1, 2, 3] }] :=
  ⟨by decide, (readUserCmds_writeUserCmds ⟨5, .classic, true⟩ 7 _ (by decide)).2⟩

end Protocol

end Netcode
