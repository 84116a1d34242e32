import Mathlib
import Netcode.Proofs.State.Tables
import Netcode.Proofs.Wire.Values

set_option autoImplicit false

namespace Netcode

open Wire

namespace Cipher

theorem size_scrambleTable : scrambleTable.size = 256 := by
  decide +kernel

theorem length_scrambleTable : (scrambleTable.toList.map UInt8.toNat).length = 256 := by
  rw [List.length_map, Array.length_toList, size_scrambleTable]

/-- The table holds every byte value. The check runs on `Bool`, where the kernel compares
numbers directly: deciding `Nodup` itself over the 256 entries is many times slower. -/
theorem range_subset_scrambleTable : List.range 256 ⊆ scrambleTable.toList.map UInt8.toNat := by
  have covers : ((List.range 256).all fun v => (scrambleTable.toList.map UInt8.toNat).contains v) = true := by
    decide +kernel
  intro v mem
  simpa using List.all_eq_true.mp covers v mem

theorem nodup_scrambleTable : (scrambleTable.toList.map UInt8.toNat).Nodup := by
  have sub := List.nodup_range.subperm range_subset_scrambleTable
  have perm := sub.perm_of_length_le (by rw [length_scrambleTable, List.length_range])
  exact perm.nodup_iff.mp List.nodup_range

theorem getElem?_scrambleTable (b : UInt8) :
    (scrambleTable.toList.map UInt8.toNat)[b.toNat]? = some (scramble b).toNat := by
  have inside : b.toNat < scrambleTable.size := by
    rw [size_scrambleTable]
    exact b.toNat_lt
  rw [List.getElem?_map, Array.getElem?_toList, scramble, Array.getElem?_eq_getElem inside, Option.map_some,
    Option.getD_some]

theorem scramble_injective : Function.Injective scramble := by
  intro a b same
  have inside : a.toNat < (scrambleTable.toList.map UInt8.toNat).length := by
    rw [length_scrambleTable]
    exact a.toNat_lt
  have slots := (getElem?_scrambleTable a).trans ((congrArg (some ∘ UInt8.toNat) same).trans
    (getElem?_scrambleTable b).symm)
  exact UInt8.toNat_inj.mp ((List.getElem?_inj inside nodup_scrambleTable).mp slots)

theorem unscrambleTable_eq : unscrambleTable =
    ((List.range 256).map fun plain => ((scramble (UInt8.ofNat plain)).toNat, UInt8.ofNat plain)).foldl
      (fun inv e => inv.set! e.1 e.2) (Array.replicate 256 0) := by
  rw [unscrambleTable, List.foldl_map]
  refine List.foldl_ext _ _ _ fun inv plain mem => ?_
  rw [scramble, UInt8.toNat_ofNat_of_lt' (List.mem_range.mp mem)]

theorem unscramble_scramble : ∀ b : UInt8, unscramble (scramble b) = b := by
  intro b
  -- every entry that lands in the slot of `scramble b` came from `b`
  have stored : unscrambleTable[(scramble b).toNat]? = some b := by
    rw [unscrambleTable_eq]
    refine getElem?_foldl_set!_of_agree _ _ ?_ ?_ (by simpa using (scramble b).toNat_lt)
    · exact List.mem_map.mpr ⟨b.toNat, List.mem_range.mpr b.toNat_lt, by simp only [UInt8.ofNat_toNat]⟩
    · simp only [List.mem_map, List.mem_range]
      rintro _ ⟨plain, -, rfl⟩ named
      dsimp only at named ⊢
      exact scramble_injective (UInt8.toNat_inj.mp named)
  rw [unscramble, stored, Option.getD_some]

theorem scramble_eq_zero : ∀ b : UInt8, scramble b = 0 → b = 0 := by
  intro b zero
  have kept : scramble 0 = 0 := by decide +kernel
  exact scramble_injective (zero.trans kept.symm)

end Cipher

namespace Protocol

variable (p : Protocol)

/-- A string free of NUL and shorter than the limit reads back as written, in either family. -/
theorem string_roundTrip (s : String) (max : Nat) (free : Char.ofNat 0 ∉ s.toList) (short : s.utf8ByteSize < max) :
    ∃ bits, Emits (p.writeString s max) () bits ∧ Parses (p.readString max) bits s := by
  have clear : (0 : UInt8) ∉ s.toUTF8.toList := fun zero => free ((Utf8.zero_mem_toUTF8_iff s).mp zero)
  have fits : s.toUTF8.toList.length < max := by rw [Utf8.length_toUTF8_toList]; exact short
  cases family : p.family with
  | classic =>
    refine ⟨Bits.ofBytes (s.toUTF8.toList ++ [0]), ?_, ?_⟩
    · simp only [writeString, family]
      exact (emitsIn_writeRawString .bitPacked _ max fits).bitPacked
    · simp only [readString, family]
      refine Parses.of_eq ?_ (List.append_nil _) (Utf8.decodeLossy_toUTF8 s)
      exact (parsesIn_readRawString .bitPacked _ max clear fits.le).bitPacked.bind (parses_pure _)
  | expanded =>
    have scrambled : (0 : UInt8) ∉ s.toUTF8.toList.map Cipher.scramble := fun zero => by
      obtain ⟨b, mem, sent⟩ := List.mem_map.mp zero
      exact clear (Cipher.scramble_eq_zero b sent ▸ mem)
    have back : ∀ bytes : List UInt8, (bytes.map Cipher.scramble).map Cipher.unscramble = bytes := fun bytes =>
      calc (bytes.map Cipher.scramble).map Cipher.unscramble
          = bytes.map (Cipher.unscramble ∘ Cipher.scramble) := List.map_map
        _ = bytes.map id := List.map_congr_left fun b _ => by
          rw [Function.comp_apply, Cipher.unscramble_scramble, id]
        _ = bytes := List.map_id bytes
    refine ⟨Bits.ofBytes (s.toUTF8.toList.map Cipher.scramble ++ [0]), ?_, ?_⟩
    · simp only [writeString, family]
      exact (emitsIn_writeRawString .bitPacked _ max (by simpa using fits)).bitPacked
    · simp only [readString, family]
      refine Parses.of_eq ?_ (List.append_nil _) (Utf8.decodeLossy_toUTF8 s)
      refine (parsesIn_readRawString .bitPacked _ max scrambled (by simpa using fits.le)).bitPacked.bind ?_
      rw [back]
      exact parses_pure _

end Protocol

/-- A part of a game state body: a config string under its wire index, or a baseline. -/
inductive GameStatePart where
  | configString (netIndex : Nat) (value : String)
  | baseline (state : EntityState)

namespace GameStatePart

variable (p : Protocol)

def op : GameStatePart → ServerOp
  | .configString .. => .configString
  | .baseline _ => .baseline

def write : GameStatePart → Wire Unit
  | .configString n value => do
    writeByte ServerOp.configString.code
    writeShort (UInt16.ofNat n).toInt16
    p.writeString value bigInfoString
  | .baseline b => do
    writeByte ServerOp.baseline.code
    p.writeDeltaEntity none (some b) true

def apply (g : GameState) : GameStatePart → Except NetError GameState
  | .configString n value => g.setConfigString (p.configStringFromNet n) value
  | .baseline b =>
    if (Protocol.slotNumber b).toNat ≥ g.limits.maxBaselines then .error (.badEntityNumber (Protocol.slotNumber b))
    else .ok { g with
      baselines := g.baselines.set! (Protocol.slotNumber b).toNat (some { p.entityTable.patch {} b with number := b.number }) }

/-- The parts the wire carries: a wire index that fits a short with a string free of NUL and
shorter than a big info string, or a baseline numbered below the end of an entity list. -/
def OnWire : GameStatePart → Prop
  | .configString n value => n < 2 ^ 16 ∧ Char.ofNat 0 ∉ value.toList ∧ value.utf8ByteSize < bigInfoString
  | .baseline b => p.Numbered b

end GameStatePart

namespace GameState

/-- What a reader makes of the message written for `g`: its header, its config strings with the
classic family's two unindexed slots blank, its baselines as the delta carries them, and the frame
time. -/
structure ReadBack (p : Protocol) (g g' : GameState) : Prop where
  limits : g'.limits = p.limits
  sequence : g'.serverCommandSequence = g.serverCommandSequence
  clientNum : g'.clientNum = g.clientNum
  checksumFeed : g'.checksumFeed = g.checksumFeed
  strings : g'.configStrings = g.configStrings.mapIdx fun i s => if p.family = .classic ∧ (i = 2 ∨ i = 3) then "" else s
  count : g'.dataCount = (g'.nonEmpty.map fun e => e.2.utf8ByteSize + 1).sum
  baselines : g'.baselines = g.baselines.map (Option.map fun b => { p.entityTable.patch {} b with number := b.number })
  frameTime : g'.serverFrameTime = match p.family with
    | .classic => none
    | .expanded => some (g.serverFrameTime.getD ⟨0x3D4CCCCD⟩)

theorem ReadBack.baseline_of_fixed {p : Protocol} {g g' : GameState} (read : ReadBack p g g') {n : Nat}
    {b : EntityState} (declared : g.baseline n = some b) (fixed : p.entityTable.Fixed b) : g'.baseline n = some b := by
  have stored : g.baselines[n]? = some (some b) := Option.join_eq_some_iff.mp declared
  rw [baseline, read.baselines, Array.getElem?_map, stored, Option.map_some, Option.map_some, Option.join_some,
    Protocol.patch_number fixed]

end GameState

namespace Protocol

variable (p : Protocol)

theorem readGameStateParts_succ (fuel : Nat) (g : GameState) :
    p.readGameStateParts (fuel + 1) g = (readByte >>= fun code =>
      match ServerOp.ofCode? code with
      | some .eof => pure g
      | some .configString => do
        let netIndex ← readShort
        let value ← p.readString bigInfoString
        let g ← Wire.ofExcept (g.setConfigString (p.configStringFromNet netIndex.toUInt16.toNat) value)
        p.readGameStateParts fuel g
      | some .baseline => do
        let number ← p.readNumber
        if number.toNat ≥ g.limits.maxBaselines then fail (.badEntityNumber number)
        let state ← p.readDeltaEntity none number
        p.readGameStateParts fuel { g with
          baselines := g.baselines.set! number.toNat (some (state.getD { number := number.toInt32 })) }
      | _ => fail (.badOpcode code)) :=
  rfl

theorem parses_readGameStateParts_eof (fuel : Nat) (g : GameState) :
    Parses (p.readGameStateParts (fuel + 1) g) (Bits.ofNat 8 ServerOp.eof.code.toNat) g := by
  rw [readGameStateParts_succ]
  refine ((parses_readByte _).bind ?_).of_eq (List.append_nil _) rfl
  exact parses_pure g

/-- A part reads back as the writer declared it: after its operation code, the reader makes of
its bits what the part makes of the state, and goes on with the next part. -/
theorem part_roundTrip (part : GameStatePart) (onWire : part.OnWire p) :
    ∃ body, Emits (part.write p) () (Bits.ofNat 8 part.op.code.toNat ++ body) ∧
      ∀ (fuel : Nat) (g g' final : GameState) (rest : List Bool), part.apply p g = .ok g' →
        Parses (p.readGameStateParts fuel g') rest final →
        Parses (p.readGameStateParts (fuel + 1) g) (Bits.ofNat 8 part.op.code.toNat ++ (body ++ rest)) final := by
  cases part with
  | configString n value =>
    obtain ⟨short, free, fits⟩ := onWire
    obtain ⟨S, stringOut, stringIn⟩ := p.string_roundTrip value bigInfoString free fits
    have index : (UInt16.ofNat n).toInt16.toUInt16.toNat = n := by
      rw [UInt16.toUInt16_toInt16, UInt16.toNat_ofNat', Nat.mod_eq_of_lt short]
    refine ⟨Bits.ofNat 16 (UInt16.ofNat n).toInt16.toUInt16.toNat ++ S, ?_, ?_⟩
    · exact (emits_writeByte _).seq ((emitsIn_writeShort .bitPacked _).bitPacked.seq stringOut)
    · intro fuel g g' final rest applied next
      rw [readGameStateParts_succ]
      refine (parses_readByte _).bind ?_
      refine ((parsesIn_readShort .bitPacked _).bitPacked.bind (stringIn.bind ?_)).of_eq
        (List.append_assoc _ _ _).symm rfl
      rw [index, show g.setConfigString (p.configStringFromNet n) value = .ok g' from applied]
      exact ((parses_pure g').bind next).of_eq (List.nil_append _) rfl
  | baseline b =>
    obtain ⟨B, entityOut, entityIn⟩ := @update_roundTrip p {} b true onWire (by simp)
    -- a baseline is written and read as an update of a blank entity
    have written : Emits (p.writeDeltaEntity none (some b) true) () (Bits.ofNat p.numberBits b.number.toNatClampNeg ++ B) :=
      entityOut
    have read : Parses (p.readDeltaEntity none (Protocol.slotNumber b)) B
        (some { p.entityTable.patch {} b with number := b.number }) := entityIn
    refine ⟨Bits.ofNat p.numberBits b.number.toNatClampNeg ++ B, (emits_writeByte _).seq written, ?_⟩
    intro fuel g g' final rest applied next
    simp only [GameStatePart.apply] at applied
    split_ifs at applied with beyond
    obtain rfl := (Except.ok.inj applied).symm
    rw [readGameStateParts_succ]
    refine (parses_readByte _).bind ?_
    refine ((number_roundTrip onWire).2.bind ?_).of_eq (List.append_assoc _ _ _).symm rfl
    simp only [if_neg beyond]
    exact read.bind next

/-- The parts of a game state's body in the order the writer sends them: the config strings that
have a wire index, in slot order, then the baselines in entity order. -/
def bodyParts (g : GameState) : List GameStatePart :=
  g.nonEmpty.filterMap (fun e => (p.configStringToNet e.1).map (.configString · e.2)) ++
    g.presentBaselines.map .baseline

theorem forIn_eq_forM_filterMap {β : Type} (l : List β) (f : β → PUnit → Wire (ForInStep PUnit))
    (toPart : β → Option GameStatePart)
    (step : ∀ x, f x PUnit.unit = match toPart x with
      | none => pure (.yield PUnit.unit)
      | some part => part.write p >>= fun _ => pure (.yield PUnit.unit)) :
    forIn l PUnit.unit f = forM (l.filterMap toPart) (·.write p) := by
  induction l with
  | nil => rfl
  | cons x rest ih =>
    rw [List.forIn_cons, step, List.filterMap_cons]
    cases toPart x with
    | none => simp only [pure_bind, ih]
    | some part =>
      simp only [List.forM_cons, bind_assoc, pure_bind, ih]

theorem writeGameState_eq (g : GameState) : p.writeGameState g = (do
    writeLong g.serverCommandSequence.toInt32
    forM (p.bodyParts g) (·.write p)
    writeByte ServerOp.eof.code
    writeLong g.clientNum
    writeLong g.checksumFeed
    p.writeFrameTime g.serverFrameTime) := by
  rw [writeGameState, bodyParts, List.forM_append,
    forIn_eq_forM_filterMap p g.nonEmpty _ (fun e => (p.configStringToNet e.1).map (.configString · e.2)) ?strings,
    forIn_eq_forM_filterMap p g.presentBaselines _ (some ∘ GameStatePart.baseline) ?baselines,
    List.filterMap_eq_map]
  · simp only [bind_assoc]
  case strings =>
    rintro ⟨i, value⟩
    dsimp only
    cases p.configStringToNet i with
    | none => rfl
    | some n => simp only [Option.map_some, GameStatePart.write, bind_assoc]
  case baselines =>
    intro b
    simp only [Function.comp_apply, GameStatePart.write, bind_assoc]

/-- The reader's loop over parts, one round each, then the end code: it builds what the parts
make of its state, one after another. -/
theorem parts_roundTrip (parts : List GameStatePart) (onWire : ∀ part ∈ parts, part.OnWire p) :
    ∃ bits, Emits (forM parts (·.write p)) () bits ∧ 8 * parts.length ≤ bits.length ∧
      ∀ (fuel : Nat) (g final : GameState), parts.length < fuel →
        parts.foldlM (GameStatePart.apply p) g = .ok final →
        Parses (p.readGameStateParts fuel g) (bits ++ Bits.ofNat 8 ServerOp.eof.code.toNat) final := by
  induction parts with
  | nil =>
    refine ⟨[], emits_pure (), le_refl _, fun fuel g final enough applied => ?_⟩
    obtain ⟨fuel, rfl⟩ : ∃ f, fuel = f + 1 := ⟨fuel - 1, by simp at enough; omega⟩
    obtain rfl : g = final := Except.ok.inj applied
    exact p.parses_readGameStateParts_eof fuel g
  | cons part rest ih =>
    obtain ⟨body, partOut, partIn⟩ := p.part_roundTrip part (onWire part (List.mem_cons_self ..))
    obtain ⟨bits, restOut, long, restIn⟩ := ih fun part mem => onWire part (List.mem_cons_of_mem _ mem)
    refine ⟨Bits.ofNat 8 part.op.code.toNat ++ (body ++ bits), ?_, ?_, fun fuel g final enough applied => ?_⟩
    · rw [List.forM_cons]
      exact (partOut.bind restOut).of_eq (List.append_assoc _ _ _)
    · simp only [List.length_cons, List.length_append, Bits.length_ofNat]
      omega
    · obtain ⟨fuel, rfl⟩ : ∃ f, fuel = f + 1 := ⟨fuel - 1, by simp at enough; omega⟩
      rw [List.foldlM_cons] at applied
      -- the part's own declaration succeeds, and the rest goes on from what it made
      cases first : part.apply p g with
      | error e =>
        rw [first] at applied
        exact absurd applied (by simp [bind, Except.bind])
      | ok g' =>
        rw [first] at applied
        have next := restIn fuel g' final (by simp at enough; omega) applied
        simpa only [List.append_assoc] using partIn fuel g g' final _ first next

theorem parses_readBudget_bind {α : Type} {k : Nat → Wire α} {bits : List Bool} {a : α}
    (enough : ∀ fuel, bits.length < 8 * fuel → Parses (k fuel) bits a) : Parses (readBudget >>= k) bits a := by
  intro m rest reading input
  have budget : bits.length < 8 * (m.stream.remaining + 9) := by
    have total := Message.length_unread m
    rw [input, List.length_append] at total
    have pending := reading.pending
    simp only [ByteStream.remaining, ByteStream.length]
    omega
  rw [Message.run_bind_ok m (rfl : m.run readBudget = (.ok (m.stream.remaining + 9), m))]
  exact enough _ budget m rest reading input

section Indices

theorem configStringFromNet_toNet {i n : Nat} (word : i < Nat.pow 2 64) (indexed : p.configStringToNet i = some n) :
    p.configStringFromNet n = i := by
  unfold configStringToNet at indexed
  unfold configStringFromNet
  cases family : p.family <;> simp only [family] at indexed ⊢
  case classic =>
    split_ifs at indexed with low middle
    · simp only [Option.some.injEq] at indexed
      rw [if_pos (indexed ▸ low), indexed]
    · rw [Option.some.injEq] at indexed
      -- the shift by two stays below the word size, so it does not wrap
      rw [if_neg (by omega), show n + 2 = i by omega]
      exact Nat.mod_eq_of_lt word
  case expanded => exact Option.some.inj indexed.symm

theorem configStringToNet_eq_none_iff (i : Nat) :
    p.configStringToNet i = none ↔ p.family = .classic ∧ (i = 2 ∨ i = 3) := by
  unfold configStringToNet
  cases family : p.family <;> simp only [true_and, reduceCtorEq, false_and]
  case classic => split_ifs <;> simp only [false_iff, true_iff] <;> omega

theorem configStringToNet_le {i n : Nat} (indexed : p.configStringToNet i = some n) : n ≤ i := by
  unfold configStringToNet at indexed
  cases family : p.family <;> simp only [family] at indexed
  case classic => split_ifs at indexed <;> simp only [Option.some.injEq] at indexed <;> omega
  case expanded => exact (Option.some.inj indexed).ge

end Indices

theorem foldlM_apply_strings (entries : List (Nat × String)) (g : GameState)
    (words : ∀ e ∈ entries, e.1 < Nat.pow 2 64) :
    (entries.filterMap fun e => (p.configStringToNet e.1).map (.configString · e.2)).foldlM (GameStatePart.apply p) g =
      (entries.filter fun e => (p.configStringToNet e.1).isSome).foldlM (fun g e => g.setConfigString e.1 e.2) g := by
  induction entries generalizing g with
  | nil => rfl
  | cons e rest ih =>
    have rest_words : ∀ e ∈ rest, e.1 < Nat.pow 2 64 := fun e' mem => words e' (List.mem_cons_of_mem e mem)
    rw [List.filterMap_cons, List.filter_cons]
    cases indexed : p.configStringToNet e.1 with
    | none => simpa only [Option.map_none, Option.isSome_none, Bool.false_eq_true, if_false] using ih g rest_words
    | some n =>
      simp only [Option.map_some, Option.isSome_some, if_true, List.foldlM_cons, GameStatePart.apply,
        p.configStringFromNet_toNet (words e List.mem_cons_self) indexed, ih _ rest_words]

theorem foldlM_apply_baselines (bs : List EntityState) (g : GameState)
    (inside : ∀ b ∈ bs, (Protocol.slotNumber b).toNat < g.limits.maxBaselines) :
    (bs.map .baseline).foldlM (GameStatePart.apply p) g = .ok { g with
      baselines := (bs.map fun b => ((Protocol.slotNumber b).toNat,
        some { p.entityTable.patch {} b with number := b.number })).foldl (fun a e => a.set! e.1 e.2) g.baselines } := by
  induction bs generalizing g with
  | nil => rfl
  | cons b rest ih =>
    rw [List.map_cons, List.foldlM_cons]
    simp only [GameStatePart.apply, if_neg (Nat.not_le.mpr (inside b (List.mem_cons_self ..)))]
    exact ih _ (fun b' mem => inside b' (List.mem_cons_of_mem _ mem))

theorem keep_indexed_eq (s : String) (i : Nat) :
    (if (p.configStringToNet i).isSome then s else "") =
      if p.family = .classic ∧ (i = 2 ∨ i = 3) then "" else s := by
  by_cases blank : p.family = .classic ∧ (i = 2 ∨ i = 3)
  · rw [if_pos blank, (p.configStringToNet_eq_none_iff i).mpr blank]
    rfl
  · have indexed : (p.configStringToNet i).isSome = true :=
      Option.isSome_iff_ne_none.mpr (mt (p.configStringToNet_eq_none_iff i).mp blank)
    rw [if_neg blank, if_pos indexed]

variable {p}

theorem bodyParts_onWire {g : GameState} (shaped : g.Shaped p) : ∀ part ∈ p.bodyParts g, part.OnWire p := by
  intro part mem
  rcases List.mem_append.mp mem with string | baseline
  · obtain ⟨⟨i, value⟩, listed, made⟩ := List.mem_filterMap.mp string
    obtain ⟨n, indexed, rfl⟩ := Option.map_eq_some_iff.mp made
    have stored := (GameState.mem_nonEmpty.mp listed).1
    have inside : i < p.limits.maxConfigStrings := shaped.strings ▸ (Array.getElem?_eq_some_iff.mp stored).1
    have slots : p.limits.maxConfigStrings = 2736 := rfl
    have clean := shaped.clean value (Array.mem_of_getElem? stored)
    exact ⟨by have := p.configStringToNet_le indexed; omega, clean⟩
  · obtain ⟨b, present, rfl⟩ := List.mem_map.mp baseline
    obtain ⟨n, stored⟩ := GameState.mem_presentBaselines.mp present
    exact (shaped.placed n b stored).2

/-- From the reader's empty state, the parts of a shaped state declare its strings that have a
wire index, at their cost, and its baselines as the delta law carries them from a blank entity. -/
theorem foldlM_apply_bodyParts {g : GameState} (shaped : g.Shaped p) (sequence : UInt32) :
    ∃ final, (p.bodyParts g).foldlM (GameStatePart.apply p)
        { GameState.new p.limits with serverCommandSequence := sequence } = .ok final ∧
      final.limits = p.limits ∧ final.serverCommandSequence = sequence ∧
      final.configStrings = g.configStrings.mapIdx (fun i s => if (p.configStringToNet i).isSome then s else "") ∧
      final.dataCount = (final.nonEmpty.map fun e => e.2.utf8ByteSize + 1).sum ∧
      final.baselines = g.baselines.map (Option.map fun b => { p.entityTable.patch {} b with number := b.number }) := by
  let start : GameState := { GameState.new p.limits with serverCommandSequence := sequence }
  let strings := g.nonEmpty.filter fun e => (p.configStringToNet e.1).isSome
  have fromSlots : ∀ e ∈ strings, g.configStrings[e.1]? = some e.2 ∧ e.2.isEmpty = false :=
    fun e mem => GameState.mem_nonEmpty.mp (List.mem_filter.mp mem).1
  have inside : ∀ e ∈ strings, e.1 < start.limits.maxConfigStrings := fun e mem =>
    shaped.strings ▸ (Array.getElem?_eq_some_iff.mp (fromSlots e mem).1).1
  have blank : ∀ e ∈ strings, start.configStrings[e.1]? = some "" := fun e mem => by
    simp only [start, GameState.new, Array.getElem?_replicate]
    exact if_pos (inside e mem)
  -- the strings kept cost no more than the whole state, which is within the budget
  have costs : (strings.map fun e => GameState.cost e.2).sum ≤ g.dataCount :=
    calc (strings.map fun e => GameState.cost e.2).sum
        ≤ (g.nonEmpty.map fun e => GameState.cost e.2).sum :=
          (List.filter_sublist.map _).sum_le_sum fun _ _ => Nat.zero_le _
      _ = (g.nonEmpty.map fun e => e.2.utf8ByteSize + 1).sum :=
          congrArg List.sum (List.map_congr_left fun e mem => GameState.cost_of_ne (GameState.mem_nonEmpty.mp mem).2)
      _ = g.dataCount := g.sum_cost_nonEmpty.trans shaped.count.symm
  have declared := GameState.foldlM_setConfigString strings start
    ((List.filter_sublist.map Prod.fst).nodup g.nodup_nonEmpty) inside blank
    (by have := shaped.budget; show 0 + _ ≤ p.limits.maxChars; omega)
  have shapedStrings := (GameState.shaped_new sequence 0 0 none : start.Shaped p).foldlM_setConfigString strings
    (fun e mem => shaped.clean e.2 (Array.mem_of_getElem? (fromSlots e mem).1)) declared
  -- every baseline sits in the slot of its number, below the table's size
  have placed : ∀ n b, g.baselines[n]? = some (some b) → (Protocol.slotNumber b).toNat = n := fun n b stored => by
    obtain ⟨number, numbered⟩ := shaped.placed n b stored
    rw [numbered.toNat_slotNumber, number]
  have below : ∀ b ∈ g.presentBaselines, (Protocol.slotNumber b).toNat < p.limits.maxBaselines := fun b mem => by
    obtain ⟨n, stored⟩ := GameState.mem_presentBaselines.mp mem
    rw [placed n b stored, ← shaped.slots]
    exact (Array.getElem?_eq_some_iff.mp stored).1
  let stringsSet : GameState := { start with
    configStrings := strings.foldl (fun a e => a.set! e.1 e.2) start.configStrings
    dataCount := start.dataCount + (strings.map fun e => GameState.cost e.2).sum }
  refine ⟨{ stringsSet with
      baselines := (g.presentBaselines.map fun b => ((Protocol.slotNumber b).toNat,
        some { p.entityTable.patch {} b with number := b.number })).foldl (fun a e => a.set! e.1 e.2) stringsSet.baselines },
    ?_, rfl, rfl, ?_, shapedStrings.count.trans (GameState.sum_cost_nonEmpty _).symm, ?_⟩
  · have words : ∀ e ∈ g.nonEmpty, e.1 < Nat.pow 2 64 := fun e mem => by
      obtain ⟨i, v⟩ := e
      have slot := (Array.getElem?_eq_some_iff.mp (GameState.mem_nonEmpty.mp mem).1).1
      have slots : g.configStrings.size = 2736 := shaped.strings
      have word : Nat.pow 2 64 = 18446744073709551616 := rfl
      omega
    rw [bodyParts, List.foldlM_append, foldlM_apply_strings p _ _ words, declared]
    exact foldlM_apply_baselines p g.presentBaselines stringsSet below
  · show strings.foldl _ (Array.replicate p.limits.maxConfigStrings "") = _
    rw [← shaped.strings]
    exact g.foldl_set!_nonEmpty fun i => (p.configStringToNet i).isSome
  · show (g.presentBaselines.map _).foldl _ (Array.replicate p.limits.maxBaselines none) = _
    rw [← shaped.slots]
    exact foldl_set!_present g.baselines _ _ placed

variable (p)

theorem frameTime_roundTrip (frameTime : Option Single) :
    ∃ bits, Emits (p.writeFrameTime frameTime) () bits ∧ Parses p.readFrameTime bits
      (match p.family with
        | .classic => none
        | .expanded => some (frameTime.getD ⟨0x3D4CCCCD⟩)) := by
  cases family : p.family with
  | classic =>
    refine ⟨[], ?_, ?_⟩
    · simp only [writeFrameTime, family]
      exact emits_pure ()
    · simp only [readFrameTime, family]
      exact parses_pure none
  | expanded =>
    refine ⟨Bits.ofNat 32 (frameTime.getD ⟨0x3D4CCCCD⟩).bits.toNat, ?_, ?_⟩
    · simp only [writeFrameTime, family]
      exact emits_writeFloat _
    · simp only [readFrameTime, family]
      exact (parses_readFloat _).map some

variable {p}

/-- The writer's message for a shaped state reads back as the state it stands for. -/
theorem gameState_parses {g : GameState} (shaped : g.Shaped p) :
    ∃ bits g', Emits (p.writeGameState g) () bits ∧ Parses p.readGameState bits g' ∧ GameState.ReadBack p g g' := by
  obtain ⟨final, folded, limits, sequence, strings, count, baselines⟩ :=
    foldlM_apply_bodyParts shaped g.serverCommandSequence.toInt32.toUInt32
  obtain ⟨P, partsOut, long, partsIn⟩ := p.parts_roundTrip (p.bodyParts g) (bodyParts_onWire shaped)
  obtain ⟨F, frameOut, frameIn⟩ := p.frameTime_roundTrip g.serverFrameTime
  refine ⟨Bits.ofNat 32 g.serverCommandSequence.toInt32.toUInt32.toNat ++ (P ++ (Bits.ofNat 8 ServerOp.eof.code.toNat ++
      (Bits.ofNat 32 g.clientNum.toUInt32.toNat ++ (Bits.ofNat 32 g.checksumFeed.toUInt32.toNat ++ F)))),
    { final with
      clientNum := g.clientNum
      checksumFeed := g.checksumFeed
      serverFrameTime := match p.family with
        | .classic => none
        | .expanded => some (g.serverFrameTime.getD ⟨0x3D4CCCCD⟩) }, ?_, ?_, ?_⟩
  · rw [writeGameState_eq]
    exact (emits_writeLong _).seq (partsOut.seq ((emits_writeByte _).seq
      ((emits_writeLong _).seq ((emits_writeLong _).seq frameOut))))
  · unfold readGameState
    refine (parses_readLong _).bind (parses_readBudget_bind fun fuel enough => ?_)
    -- the loop's bound exceeds the parts, each of which takes a byte at least
    have rounds : (p.bodyParts g).length < fuel := by
      simp only [List.length_append] at enough
      omega
    refine ((partsIn fuel _ final rounds folded).bind ((parses_readLong _).bind ((parses_readLong _).bind
      (frameIn.map fun frameTime => { final with
        clientNum := g.clientNum
        checksumFeed := g.checksumFeed
        serverFrameTime := frameTime })))).of_eq (List.append_assoc _ _ _) rfl
  · refine ⟨limits, sequence.trans (UInt32.toUInt32_toInt32 _), rfl, rfl, strings.trans ?_, count, baselines, rfl⟩
    congr 1
    funext i s
    exact p.keep_indexed_eq s i

/-- A baseline numbered as the end of an entity list is declared, but the message that would
carry it cannot be written. -/
theorem writeGameState_refuses_endNumber :
    let p : Protocol := ⟨8, .classic, true⟩
    ((GameState.new p.limits).setBaseline { number := 1023 }).map (fun g => (Message.encode (p.writeGameState g)).1) =
      .ok (.error (.badEntityNumber 1023)) := by
  decide +kernel

/-- A built game state is written without error and reads back as itself, save the classic family's
two unindexed slots, with its baselines as the delta carries them. -/
theorem gameState_roundTrip (g : GameState) (built : g.Built p) :
    (Message.encode (p.writeGameState g)).1 = .ok () ∧
      ∃ g', ((Message.ofBytes (Message.encode (p.writeGameState g)).2).run p.readGameState).1 = .ok g' ∧
        GameState.ReadBack p g g' ∧ ∀ n b, g.baseline n = some b → p.entityTable.Fixed b → g'.baseline n = some b := by
  obtain ⟨bits, g', written, read, readBack⟩ := gameState_parses built.shaped
  obtain ⟨wrote, parsed⟩ := parses_encode written read
  exact ⟨wrote, g', parsed, readBack, fun n b declared fixed => readBack.baseline_of_fixed declared fixed⟩

theorem gameState_roundTrip_declared :
    let p : Protocol := ⟨8, .classic, true⟩
    let blank : GameState := GameState.new p.limits
    let named : GameState := { blank with
      dataCount := 6
      configStrings := blank.configStrings.set! 0 "arena" }
    let g : GameState := { named with baselines := named.baselines.set! 5 (some { number := 5 }) }
    g.Built p ∧ (Message.encode (p.writeGameState g)).1 = .ok () ∧
      ∃ g', ((Message.ofBytes (Message.encode (p.writeGameState g)).2).run p.readGameState).1 = .ok g' ∧
        GameState.ReadBack p g g' ∧ ∀ n b, g.baseline n = some b → p.entityTable.Fixed b → g'.baseline n = some b := by
  intro p blank named g
  have setString : blank.setConfigString 0 "arena" = .ok named :=
    GameState.setConfigString_of_blank blank "arena" (by decide) (by simp only [blank, GameState.new, Array.getElem?_replicate]; rfl) (by decide)
  have setBaseline : named.setBaseline { number := 5 } = .ok g := by
    unfold GameState.setBaseline
    rw [if_neg (by decide)]
    rfl
  have numbered : p.Numbered { number := 5 } := ⟨by decide, by decide⟩
  have built : g.Built p := .baseline { number := 5 } numbered setBaseline
    (.configString 0 "arena" (by decide) (by decide) setString (.new 0 0 0 none))
  exact ⟨built, gameState_roundTrip g built⟩

end Protocol

end Netcode
