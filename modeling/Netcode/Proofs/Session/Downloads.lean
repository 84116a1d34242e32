import Mathlib
import Netcode.Client.Download
import Netcode.Proofs.Wire.Stateful
import Netcode.Proofs.Wire.Values

set_option autoImplicit false

namespace Netcode

namespace WireWith

variable {σ α β : Type}

/-- On every bit-packed reader whose unread bits start with `bits`, `r` run from `s` ends with `o`
past exactly those bits and leaves the value `s'`. -/
def Ends (r : WireWith σ α) (bits : List Bool) (s : σ) (o : Except NetError α) (s' : σ) : Prop :=
  ∀ (m : Message) (rest : List Bool), m.Reading → m.unread = bits ++ rest →
    ∃ m' : Message, r.run m s = (o, m', s') ∧ m'.Reading ∧ m'.unread = rest

theorem Parses.ends {r : WireWith σ α} {bits : List Bool} {s s' : σ} {a : α} (parses : Parses r bits s a s') :
    Ends r bits s (.ok a) s' :=
  parses

theorem Ends.parses {r : WireWith σ α} {bits : List Bool} {s s' : σ} {a : α} (ends : Ends r bits s (.ok a) s') :
    Parses r bits s a s' :=
  ends

theorem ends_fail (s : σ) (e : NetError) : Ends (wire (Wire.fail e) : WireWith σ α) [] s (.error e) s :=
  fun m rest reading input => ⟨m, run_wire m s rfl, reading, by simpa using input⟩

theorem Parses.bind_ends {x : WireWith σ α} {f : α → WireWith σ β} {a : α} {o : Except NetError β}
    {s₀ s₁ s₂ : σ} {front back : List Bool} (first : Parses x front s₀ a s₁) (next : Ends (f a) back s₁ o s₂) :
    Ends (x >>= f) (front ++ back) s₀ o s₂ := by
  intro m rest reading input
  obtain ⟨m₁, run₁, reading₁, unread₁⟩ :=
    first m (back ++ rest) reading (by rw [input, List.append_assoc])
  obtain ⟨m₂, run₂, reading₂, unread₂⟩ := next m₁ rest reading₁ unread₁
  exact ⟨m₂, by rw [run_bind_ok m s₀ run₁, run₂], reading₂, unread₂⟩

theorem Ends.bind_error {x : WireWith σ α} {f : α → WireWith σ β} {e : NetError} {s s' : σ} {bits : List Bool}
    (first : Ends x bits s (.error e) s') : Ends (x >>= f) bits s (.error e) s' := by
  intro m rest reading input
  obtain ⟨m', run', reading', unread'⟩ := first m rest reading input
  exact ⟨m', by rw [run_bind_error m s run'], reading', unread'⟩

theorem Ends.of_eq {r : WireWith σ α} {o : Except NetError α} {s s' s'' : σ} {bits bits' : List Bool}
    (ends : Ends r bits s o s') (sameBits : bits = bits') (sameState : s' = s'') : Ends r bits' s o s'' :=
  sameBits ▸ sameState ▸ ends

end WireWith

namespace Download

open Wire

/-- A block as the server sends it: its number, the size it announces on block 0, its chunk,
and the reason that goes with a refusal. -/
structure Sent where
  block : UInt16
  size : Int32
  chunk : List UInt8
  error : Option String
  deriving DecidableEq, Repr

def chunkBits (chunk : List UInt8) : List Bool :=
  Bits.ofNat 16 chunk.length ++ Bits.ofBytes chunk

namespace Sent

def Refusal (b : Sent) : Prop :=
  b.block = 0 ∧ b.size < 0

instance (b : Sent) : Decidable b.Refusal :=
  inferInstanceAs (Decidable (_ ∧ _))

/-- A block the writer can send: a chunk its signed 16-bit length holds, and the reason of a
refusal under the string limit. -/
structure Writable (b : Sent) : Prop where
  short : b.chunk.length < 2 ^ 15
  stated : b.Refusal → (b.error.getD "").utf8ByteSize < maxStringChars

instance (b : Sent) : Decidable b.Writable :=
  decidable_of_iff (b.chunk.length < 2 ^ 15 ∧ (b.Refusal → (b.error.getD "").utf8ByteSize < maxStringChars))
    ⟨fun ⟨short, stated⟩ => ⟨short, stated⟩, fun ⟨short, stated⟩ => ⟨short, stated⟩⟩

def bits (b : Sent) : List Bool :=
  Bits.ofNat 16 b.block.toNat ++
    if b.block = 0 then
      Bits.ofNat 32 b.size.toUInt32.toNat ++
        if b.size < 0 then Bits.ofBytes ((b.error.getD "").toUTF8.toList ++ [0]) else chunkBits b.chunk
    else chunkBits b.chunk

def reason (b : Sent) : String :=
  Utf8.decodeLossy ((b.error.getD "").toUTF8.toList.takeWhile (· ≠ 0))

def Carries (m : Message) (b : Sent) : Prop :=
  m.Reading ∧ ∃ rest, m.unread = b.bits ++ rest

end Sent

theorem toNat_toUInt16_ofInt_length {chunk : List UInt8} (short : chunk.length < 2 ^ 15) :
    (Int16.ofInt chunk.length).toUInt16.toNat = chunk.length := by
  rw [Int16.ofInt_eq_ofNat, Int16.toUInt16_ofNat', UInt16.toNat_ofNat', Nat.mod_eq_of_lt (by omega)]

theorem toInt_ofInt_length {chunk : List UInt8} (short : chunk.length < 2 ^ 15) :
    (Int16.ofInt chunk.length).toInt = chunk.length := by
  rw [Int16.toInt_ofInt_of_le] <;> omega

theorem emits_writeDownloadBlock (b : Sent) (writable : b.Writable) :
    Emits (writeDownloadBlock b.block b.size b.chunk b.error) () b.bits := by
  have chunk : Emits (do writeShort (Int16.ofInt b.chunk.length); writeData b.chunk) () (chunkBits b.chunk) := by
    refine ((emitsIn_writeShort .bitPacked _).bitPacked.seq (emitsIn_writeData .bitPacked _).bitPacked).of_eq ?_
    rw [toNat_toUInt16_ofInt_length writable.short]
    rfl
  have number := (emitsIn_writeShort .bitPacked b.block.toInt16).bitPacked
  rw [UInt16.toUInt16_toInt16] at number
  unfold writeDownloadBlock Sent.bits
  by_cases zero : b.block = 0
  · have size := (emitsIn_writeLong .bitPacked b.size).bitPacked
    by_cases negative : b.size < 0
    · -- a refusal: the size and the reason, nothing after
      have reason := (emitsIn_writeString .bitPacked _ (writable.stated ⟨zero, negative⟩)).bitPacked
      simp only [zero, negative, if_true]
      rw [zero] at number
      exact (number.seq (size.seq (reason.seq (emits_pure ())))).of_eq (by simp)
    · simp only [zero, negative, if_true, if_false]
      rw [zero] at number
      exact (number.seq (size.seq chunk)).of_eq rfl
  · simp only [zero, if_false]
    exact number.seq chunk

theorem append_zero_eq_takeWhile (text : List UInt8) :
    ∃ tail, text ++ [0] = text.takeWhile (· ≠ 0) ++ [0] ++ tail := by
  induction text with
  | nil => exact ⟨[], rfl⟩
  | cons c text ih =>
    obtain ⟨tail, split⟩ := ih
    by_cases zero : c = 0
    · exact ⟨text ++ [0], by simp [zero]⟩
    · exact ⟨tail, by simp [zero, split]⟩

theorem parses_readString_takeWhile (text : List UInt8) (fits : text.length < maxStringChars) :
    Parses readString (Bits.ofBytes (text.takeWhile (· ≠ 0) ++ [0])) (Utf8.decodeLossy (text.takeWhile (· ≠ 0))) := by
  have clear : 0 ∉ text.takeWhile (· ≠ 0) := fun mem => by
    simpa using List.mem_takeWhile_imp mem
  have short : (text.takeWhile (· ≠ 0)).length ≤ maxStringChars :=
    ((List.takeWhile_sublist _).length_le).trans fits.le
  exact ((parsesIn_readRawString .bitPacked _ maxStringChars clear short).map Utf8.decodeLossy).bitPacked

theorem parses_readChunk {chunk : List UInt8} (short : chunk.length < 2 ^ 15) :
    Parses readChunk (chunkBits chunk) chunk := by
  have length := (parsesIn_readShort .bitPacked (Int16.ofInt chunk.length)).bitPacked
  rw [toNat_toUInt16_ofInt_length short] at length
  have fits : ¬(Int16.ofInt chunk.length < 0 ∨ (Int16.ofInt chunk.length).toInt > maxBlockLen) := by
    rw [Int16.lt_iff_toInt_lt, toInt_ofInt_length short, Int16.toInt_zero]
    simp only [maxBlockLen]
    omega
  unfold readChunk
  refine length.bind ?_
  rw [if_neg fits, toInt_ofInt_length short, Int.toNat_natCast]
  exact (parsesIn_readData .bitPacked chunk).bitPacked

theorem parses_takeChunk_expected (d : Download) {block : UInt16} (chunk : List UInt8)
    (expected : block = d.block) :
    WireWith.Parses (takeChunk block chunk) [] d
      (if chunk = [] then .complete s!"nextdl {d.block + 1}" d.data else .progress s!"nextdl {d.block + 1}")
      { d with block := d.block + 1, data := if chunk = [] then [] else d.data ++ chunk } := by
  subst expected
  unfold takeChunk
  refine (WireWith.parses_value d).bind ?_
  rw [if_neg (fun stray => stray rfl)]
  by_cases empty : chunk = []
  · subst empty
    simp only [List.isEmpty_nil, if_true, List.append_nil]
    exact (WireWith.parses_update _ d).bind (WireWith.parses_pure _ _)
  · have more : chunk.isEmpty = false := List.isEmpty_eq_false_iff.mpr empty
    simp only [more, Bool.false_eq_true, if_false, empty]
    exact (WireWith.parses_update _ d).bind (WireWith.parses_pure _ _)

theorem ends_takeChunk_stray (d : Download) {block : UInt16} (chunk : List UInt8) (stray : block ≠ d.block) :
    WireWith.Ends (takeChunk block chunk) [] d (.error (.downloadBlock d.block block)) d := by
  unfold takeChunk
  refine (WireWith.parses_value d).bind_ends ?_
  rw [if_pos stray]
  exact (WireWith.ends_fail d _).bind_error

/-- A block that is not a refusal is read whole, its number, on block 0 the size, which is
recorded at once, and its chunk; only then is the chunk taken with the block's number. -/
theorem ends_receiveBlock_accepted (d : Download) (b : Sent) (writable : b.Writable) (accepted : ¬b.Refusal)
    {o : Except NetError DownloadEvent} {d' : Download}
    (taken : WireWith.Ends (takeChunk b.block b.chunk) []
      { d with size := if b.block = 0 then some b.size.toInt.toNat else d.size } o d') :
    WireWith.Ends receiveBlock b.bits d o d' := by
  have number := WireWith.parses_wire (parsesIn_readShort .bitPacked b.block.toInt16).bitPacked d
  rw [UInt16.toUInt16_toInt16] at number
  have chunk := parses_readChunk writable.short
  unfold receiveBlock Sent.bits
  refine number.bind_ends ?_
  simp only [UInt16.toUInt16_toInt16]
  by_cases zero : b.block = 0
  · have positive : ¬b.size < 0 := fun negative => accepted ⟨zero, negative⟩
    simp only [zero, positive, if_true, if_false] at taken ⊢
    refine (WireWith.parses_wire (parsesIn_readLong .bitPacked b.size).bitPacked d).bind_ends ?_
    rw [if_neg positive]
    refine (WireWith.parses_update _ d).bind_ends ?_
    exact ((WireWith.parses_wire chunk _).bind_ends taken).of_eq (List.append_nil _) rfl
  · simp only [zero, if_false] at taken ⊢
    exact ((WireWith.parses_wire chunk d).bind_ends taken).of_eq (List.append_nil _) rfl

theorem parses_receiveBlock_refusal (d : Download) (b : Sent) (writable : b.Writable) (refusal : b.Refusal) :
    ∃ front back, b.bits = front ++ back ∧ WireWith.Parses receiveBlock front d (.failed b.reason) d := by
  obtain ⟨zero, negative⟩ := refusal
  have fits : (b.error.getD "").toUTF8.toList.length < maxStringChars := by
    rw [Utf8.length_toUTF8_toList]
    exact writable.stated ⟨zero, negative⟩
  obtain ⟨tail, split⟩ := append_zero_eq_takeWhile (b.error.getD "").toUTF8.toList
  have number := WireWith.parses_wire (parsesIn_readShort .bitPacked b.block.toInt16).bitPacked d
  rw [UInt16.toUInt16_toInt16] at number
  refine ⟨Bits.ofNat 16 b.block.toNat ++ (Bits.ofNat 32 b.size.toUInt32.toNat ++
    Bits.ofBytes ((b.error.getD "").toUTF8.toList.takeWhile (· ≠ 0) ++ [0])), Bits.ofBytes tail, ?_, ?_⟩
  · rw [Sent.bits, if_pos zero, if_pos negative, split]
    simp only [Bits.ofBytes_append, List.append_assoc]
  · unfold receiveBlock
    refine number.bind ?_
    simp only [UInt16.toUInt16_toInt16, zero, if_true]
    refine (WireWith.parses_wire (parsesIn_readLong .bitPacked b.size).bitPacked d).bind ?_
    rw [if_pos negative]
    exact ((WireWith.parses_wire (parses_readString_takeWhile _ fits) d).bind
      (WireWith.parses_pure d (DownloadEvent.failed b.reason))).of_eq (List.append_nil _) rfl rfl

theorem carries_encode (b : Sent) (writable : b.Writable) :
    Sent.Carries (Message.ofBytes (Message.encode (writeDownloadBlock b.block b.size b.chunk b.error)).2) b := by
  obtain ⟨-, reading, pad, unread⟩ := encode_unread (emits_writeDownloadBlock b writable)
  exact ⟨reading, _, unread⟩

section Run

/-- Takes blocks one after another, each from its own message, the transfer carried on past every
outcome as the session carries it. -/
def receiveAll (d : Download) : List Message → List (Except NetError DownloadEvent) × Download
  | [] => ([], d)
  | m :: ms =>
    let (r, _, d') := receiveBlock.run m d
    let (rs, d'') := receiveAll d' ms
    (r :: rs, d'')

@[simp] theorem receiveAll_nil (d : Download) : receiveAll d [] = ([], d) := rfl

theorem receiveAll_cons (d : Download) (m : Message) (ms : List Message) :
    (receiveAll d (m :: ms)).1 = (receiveBlock.run m d).1 :: (receiveAll (receiveBlock.run m d).2.2 ms).1 :=
  rfl

/-- Blocks numbered from `n` on that carry `chunks` and then an empty block, with stray blocks
anywhere before the end and no refusal. -/
inductive Interleaving : UInt16 → List Sent → List (List UInt8) → Prop
  | last {n : UInt16} {b : Sent} (number : b.block = n) (empty : b.chunk = []) (accepted : ¬b.Refusal) :
      Interleaving n [b] []
  | next {n : UInt16} {blocks : List Sent} {chunks : List (List UInt8)} {b : Sent} (number : b.block = n)
      (full : b.chunk ≠ []) (accepted : ¬b.Refusal) (rest : Interleaving (n + 1) blocks chunks) :
      Interleaving n (b :: blocks) (b.chunk :: chunks)
  | stray {n : UInt16} {blocks : List Sent} {chunks : List (List UInt8)} {b : Sent} (other : b.block ≠ n)
      (accepted : ¬b.Refusal) (rest : Interleaving n blocks chunks) : Interleaving n (b :: blocks) chunks

theorem run_of_ends {r : WireWith Download DownloadEvent} {bits : List Bool} {d d' : Download}
    {o : Except NetError DownloadEvent} (ends : WireWith.Ends r bits d o d') {m : Message}
    (reading : m.Reading) (input : ∃ rest, m.unread = bits ++ rest) :
    (r.run m d).1 = o ∧ (r.run m d).2.2 = d' := by
  obtain ⟨rest, input⟩ := input
  obtain ⟨m', ran, -, -⟩ := ends m rest reading input
  rw [ran]
  exact ⟨rfl, rfl⟩

theorem Sent.Carries.run {m : Message} {b : Sent} (carries : Sent.Carries m b) (d : Download)
    (writable : b.Writable) (accepted : ¬b.Refusal) {o : Except NetError DownloadEvent} {d' : Download}
    (taken : WireWith.Ends (takeChunk b.block b.chunk) []
      { d with size := if b.block = 0 then some b.size.toInt.toNat else d.size } o d') :
    (receiveBlock.run m d).1 = o ∧ (receiveBlock.run m d).2.2 = d' :=
  run_of_ends (ends_receiveBlock_accepted d b writable accepted taken) carries.1 carries.2

/-- The outcomes of a run over an interleaving: every one but the last is an acknowledged block
or one refused as out of sequence, and the last completes the file with the chunks in order. -/
def Completes (data : List UInt8) (outcomes : List (Except NetError DownloadEvent)) : Prop :=
  (∃ ack, outcomes.getLast? = some (.ok (.complete ack data))) ∧
    ∀ r ∈ outcomes.dropLast, (∃ ack, r = .ok (.progress ack)) ∨
      ∃ expected received, r = .error (.downloadBlock expected received)

theorem Completes.cons {data : List UInt8} {outcomes : List (Except NetError DownloadEvent)}
    (completes : Completes data outcomes) {r : Except NetError DownloadEvent}
    (passing : (∃ ack, r = .ok (.progress ack)) ∨ ∃ expected received, r = .error (.downloadBlock expected received)) :
    Completes data (r :: outcomes) := by
  obtain ⟨⟨ack, last⟩, before⟩ := completes
  have nonempty : outcomes ≠ [] := by
    rintro rfl
    cases last
  refine ⟨⟨ack, by rw [List.getLast?_cons, last]; rfl⟩, ?_⟩
  rw [List.dropLast_cons_of_ne_nil nonempty]
  intro r' mem
  rcases List.mem_cons.mp mem with rfl | mem
  · exact passing
  · exact before r' mem

/-- Over any interleaving the transfer completes exactly at the last expected block, with the
expected blocks' chunks in order. -/
theorem receiveAll_completes (d : Download) {chunks : List (List UInt8)} {blocks : List Sent}
    (interleaved : Interleaving d.block blocks chunks) (writable : ∀ b ∈ blocks, b.Writable)
    {ms : List Message} (carried : List.Forall₂ (fun m b => Sent.Carries m b) ms blocks) :
    Completes (d.data ++ chunks.flatten) (receiveAll d ms).1 := by
  generalize expected : d.block = n at interleaved
  -- the induction follows the blocks; the transfer each step leaves expects the next block
  induction interleaved generalizing d ms with
  | @last n b number empty accepted =>
    obtain ⟨m, ms, carries, rest, rfl⟩ := List.forall₂_cons_right_iff.mp carried
    obtain rfl := List.forall₂_nil_right_iff.mp rest
    obtain ⟨outcome, -⟩ := carries.run d (writable b List.mem_cons_self) accepted
      (WireWith.Parses.ends (parses_takeChunk_expected _ b.chunk (by exact number.trans expected.symm)))
    rw [if_pos empty] at outcome
    refine ⟨⟨s!"nextdl {d.block + 1}", ?_⟩, by simp [receiveAll_cons]⟩
    simp [receiveAll_cons, outcome]
  | @next n blocks chunks b number full accepted rest ih =>
    obtain ⟨m, ms, carries, later, rfl⟩ := List.forall₂_cons_right_iff.mp carried
    obtain ⟨outcome, after⟩ := carries.run d (writable b List.mem_cons_self) accepted
      (WireWith.Parses.ends (parses_takeChunk_expected _ b.chunk (by exact number.trans expected.symm)))
    rw [if_neg full] at outcome after
    have completes := ih (receiveBlock.run m d).2.2 (fun b' mem => writable b' (List.mem_cons_of_mem b mem))
      later (by rw [after, expected])
    rw [after] at completes
    rw [receiveAll_cons, outcome, after]
    simp only [List.flatten_cons, ← List.append_assoc]
    exact completes.cons (.inl ⟨_, rfl⟩)
  | @stray n blocks chunks b other accepted rest ih =>
    obtain ⟨m, ms, carries, later, rfl⟩ := List.forall₂_cons_right_iff.mp carried
    obtain ⟨outcome, after⟩ := carries.run d (writable b List.mem_cons_self) accepted
      (ends_takeChunk_stray _ b.chunk (by exact fun same => other (same.trans expected)))
    have completes := ih (receiveBlock.run m d).2.2 (fun b' mem => writable b' (List.mem_cons_of_mem b mem))
      later (by rw [after, ← expected])
    rw [after] at completes
    rw [receiveAll_cons, outcome, after]
    exact completes.cons (.inr ⟨_, _, rfl⟩)

end Run

/-- Download blocks are taken strictly in sequence: the expected block is appended and acknowledged,
any other is refused once read whole, and over any interleaving the file completes at the last
expected block. -/
theorem receiveBlock_takesInSequence (d : Download) (b : Sent) (writable : b.Writable)
    (chunks : List (List UInt8)) (blocks : List Sent) (ms : List Message) :
    let sized : Download := { d with size := if b.block = 0 then some b.size.toInt.toNat else d.size }
    let ack := s!"nextdl {d.block + 1}"
    Emits (writeDownloadBlock b.block b.size b.chunk b.error) () b.bits ∧
    (b.Refusal → ∃ front back, b.bits = front ++ back ∧
      WireWith.Parses receiveBlock front d (.failed b.reason) d) ∧
    (¬b.Refusal → b.block = d.block → WireWith.Parses receiveBlock b.bits d
      (if b.chunk = [] then .complete ack d.data else .progress ack)
      { sized with block := d.block + 1, data := if b.chunk = [] then [] else d.data ++ b.chunk }) ∧
    (¬b.Refusal → b.block ≠ d.block →
      WireWith.Ends receiveBlock b.bits d (.error (.downloadBlock d.block b.block)) sized) ∧
    (Interleaving d.block blocks chunks → (∀ b ∈ blocks, b.Writable) →
      List.Forall₂ (fun m b => Sent.Carries m b) ms blocks →
      Completes (d.data ++ chunks.flatten) (receiveAll d ms).1) := by
  intro sized ack
  refine ⟨emits_writeDownloadBlock b writable, parses_receiveBlock_refusal d b writable,
    fun accepted expected => ?_, fun accepted stray => ?_,
    fun interleaved writables carried => receiveAll_completes d interleaved writables carried⟩
  · exact (ends_receiveBlock_accepted d b writable accepted (parses_takeChunk_expected sized b.chunk expected).ends).parses
  · exact ends_receiveBlock_accepted d b writable accepted (ends_takeChunk_stray sized b.chunk stray)

theorem receiveBlock_takesInSequence_strayBlock :
    let d := Download.new "maps/dm/mohdm7.pk3"
    let blocks : List Sent :=
      [⟨0, 6, [80, 75, 3], none⟩, ⟨3, 0, [120, 121, 122], none⟩, ⟨1, 0, [4, 97, 98], none⟩, ⟨2, 0, [], none⟩]
    let ms := blocks.map fun b => Message.ofBytes (Message.encode (writeDownloadBlock b.block b.size b.chunk b.error)).2
    WireWith.Ends receiveBlock (Sent.bits ⟨3, 0, [120, 121, 122], none⟩) d (.error (.downloadBlock 0 3))
        { d with size := if (3 : UInt16) = 0 then some (0 : Int32).toInt.toNat else d.size } ∧
      Completes [80, 75, 3, 4, 97, 98] (receiveAll d ms).1 := by
  intro d blocks ms
  have writables : ∀ b ∈ blocks, b.Writable := by decide
  have carried : List.Forall₂ (fun m b => Sent.Carries m b) ms blocks := by
    refine List.forall₂_map_left_iff.mpr (List.forall₂_same.mpr fun b mem => carries_encode b (writables b mem))
  have interleaved : Interleaving d.block blocks [[80, 75, 3], [4, 97, 98]] := by
    show Interleaving 0
      [⟨0, 6, [80, 75, 3], none⟩, ⟨3, 0, [120, 121, 122], none⟩, ⟨1, 0, [4, 97, 98], none⟩, ⟨2, 0, [], none⟩]
      [[80, 75, 3], [4, 97, 98]]
    refine .next ?_ ?_ ?_ (.stray ?_ ?_ (.next ?_ ?_ ?_ (.last ?_ ?_ ?_))) <;> decide
  obtain ⟨-, -, -, stray, run⟩ := receiveBlock_takesInSequence d ⟨3, 0, [120, 121, 122], none⟩ (by decide)
    [[80, 75, 3], [4, 97, 98]] blocks ms
  exact ⟨stray (by decide) (by decide), run interleaved writables carried⟩

end Download

end Netcode
