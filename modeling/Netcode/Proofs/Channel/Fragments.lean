import Mathlib
import Netcode.Proofs.Wire.Bytes
import Netcode.Channel.Netchan

set_option autoImplicit false

namespace Netcode
namespace Netchan

@[simp] theorem length_le32 (v : UInt32) : (le32 v).length = 4 := by simp [le32]

@[simp] theorem length_le16 (n : Nat) : (le16 n).length = 2 := by simp [le16]

theorem readLe32_le32 (v : UInt32) (rest : List UInt8) : readLe32 (le32 v ++ rest) = v := by
  apply UInt32.toNat_inj.mp
  rw [readLe32, List.take_left' (length_le32 v), le32, UInt64.toNat_toUInt32,
    Wire.toNat_ofLittleEndian_littleEndian _ 4 (by decide), UInt32.toNat_toUInt64, Nat.mod_mod]
  exact Nat.mod_eq_of_lt v.toNat_lt

theorem readLe16_le16 (n : Nat) (narrow : n < 2 ^ 16) (rest : List UInt8) : readLe16 (le16 n ++ rest) = n := by
  have wide : n < 2 ^ 64 := by omega
  rw [readLe16, List.take_left' (length_le16 n), le16, Wire.toNat_ofLittleEndian_littleEndian _ 2 (by decide),
    UInt64.toNat_ofNat', Nat.mod_eq_of_lt wide]
  exact Nat.mod_eq_of_lt narrow

theorem toNat_fragmentBit : fragmentBit.toNat = 2 ^ 31 := by decide

theorem and_fragmentBit_of_lt (s : UInt32) (narrow : s.toNat < 2 ^ 31) : s &&& fragmentBit = 0 := by
  apply UInt32.toNat_inj.mp
  rw [UInt32.toNat_and, toNat_fragmentBit, Nat.and_two_pow, Nat.testBit_eq_false_of_lt narrow]
  rfl

theorem toNat_and_not_fragmentBit (s : UInt32) : (s &&& ~~~fragmentBit).toNat = s.toNat % 2 ^ 31 := by
  rw [UInt32.toNat_and, UInt32.toNat_not, toNat_fragmentBit, show UInt32.size - 1 - 2 ^ 31 = 2 ^ 31 - 1 by rfl,
    Nat.and_two_pow_sub_one_eq_mod]

theorem and_not_fragmentBit_of_lt (s : UInt32) (narrow : s.toNat < 2 ^ 31) : s &&& ~~~fragmentBit = s := by
  apply UInt32.toNat_inj.mp
  rw [toNat_and_not_fragmentBit, Nat.mod_eq_of_lt narrow]

theorem or_fragmentBit_and_not (s : UInt32) (narrow : s.toNat < 2 ^ 31) : (s ||| fragmentBit) &&& ~~~fragmentBit = s := by
  apply UInt32.toNat_inj.mp
  rw [toNat_and_not_fragmentBit, UInt32.toNat_or, toNat_fragmentBit]
  apply Nat.eq_of_testBit_eq
  intro i
  rw [Nat.testBit_mod_two_pow, Nat.testBit_or, Nat.testBit_two_pow]
  by_cases low : i < 31
  · simp [low, show 31 ≠ i by omega]
  · have high : s.toNat < 2 ^ i := lt_of_lt_of_le narrow (Nat.pow_le_pow_right (by norm_num) (by omega))
    simp [low, Nat.testBit_eq_false_of_lt high]

theorem or_fragmentBit_and_fragmentBit (s : UInt32) : (s ||| fragmentBit) &&& fragmentBit ≠ 0 := by
  intro cleared
  have bit := congrArg UInt32.toNat cleared
  rw [UInt32.toNat_and, UInt32.toNat_or, toNat_fragmentBit, Nat.and_two_pow, Nat.testBit_or,
    Nat.testBit_two_pow_self, Bool.or_true] at bit
  simp at bit

/-- The receiver's staleness test on sequences below `2 ^ 31` is the order of the numbers. -/
theorem stale_iff (s last : UInt32) (narrow : s.toNat < 2 ^ 31) (settled : last.toNat < 2 ^ 31) :
    (s - last).toInt32 ≤ 0 ↔ s ≤ last := by
  have zero : (0 : Int32).toInt = 0 := rfl
  rw [Int32.le_iff_toInt_le, zero, ← Int32.toInt_toBitVec, UInt32.toBitVec_toInt32,
    BitVec.toInt_eq_toNat_cond, UInt32.le_iff_toNat_le]
  simp only [UInt32.toNat_toBitVec, UInt32.toNat_sub]
  split <;> omega

theorem fragmentSize_eq : fragmentSize = 1300 := rfl

def piece (data : List UInt8) (i : Nat) : List UInt8 :=
  (data.drop (fragmentSize * i)).take fragmentSize

def fragment (header data : List UInt8) (i : Nat) : List UInt8 :=
  header ++ le16 (fragmentSize * i) ++ le16 (piece data i).length ++ piece data i

/-- The datagrams of message `data` sent with `sequence` by a channel on `c`'s side with
`c`'s qport. -/
def datagrams (c : Netchan) (sequence : UInt32) (data : List UInt8) : List (List UInt8) :=
  if data.length < fragmentSize then [c.header sequence ++ data]
  else (List.range (data.length / fragmentSize + 1)).map (fragment (c.header (sequence ||| fragmentBit)) data)

theorem length_piece (data : List UInt8) (i : Nat) :
    (piece data i).length = min (data.length - fragmentSize * i) fragmentSize := by
  simp [piece, Nat.min_comm]

theorem take_append_piece (data : List UInt8) (j : Nat) :
    data.take (fragmentSize * j) ++ piece data j = data.take (fragmentSize * (j + 1)) := by
  rw [piece, ← List.take_add, Nat.mul_succ]

theorem length_piece_of_lt (data : List UInt8) (i : Nat) (early : i < data.length / fragmentSize) :
    (piece data i).length = fragmentSize := by
  rw [length_piece, fragmentSize_eq] at *
  omega

theorem length_piece_last (data : List UInt8) :
    (piece data (data.length / fragmentSize)).length < fragmentSize := by
  rw [length_piece, fragmentSize_eq]
  omega

theorem take_append_piece_last (data : List UInt8) :
    data.take (fragmentSize * (data.length / fragmentSize)) ++ piece data (data.length / fragmentSize) = data := by
  rw [take_append_piece, List.take_of_length_le]
  rw [fragmentSize_eq]
  omega

theorem fragment_fields_narrow {data : List UInt8} (fits : data.length ≤ maxMessageLen) (i : Nat)
    (hi : i ≤ data.length / fragmentSize) : fragmentSize * i < 2 ^ 16 ∧ (piece data i).length < 2 ^ 16 := by
  rw [length_piece, fragmentSize_eq, maxMessageLen] at *
  omega

theorem packet_eq_fragment (header data : List UInt8) (i : Nat) :
    let len := min (data.length - fragmentSize * i) fragmentSize
    header ++ le16 (fragmentSize * i) ++ le16 len ++ (data.drop (fragmentSize * i)).take len =
      fragment header data i := by
  have bytes : (data.drop (fragmentSize * i)).take (min (data.length - fragmentSize * i) fragmentSize) =
      piece data i := by
    rw [piece, List.take_eq_take_iff, List.length_drop]
    omega
  simp only [fragment, bytes, length_piece]

theorem fragments_eq (header data : List UInt8) (m i : Nat) (last : i + m = data.length / fragmentSize) :
    fragments header data (fragmentSize * i) (m + 1) = (List.range' i (m + 1)).map (fragment header data) := by
  induction m generalizing i with
  | zero =>
    -- one round of fuel gives one packet, whichever branch is taken
    have one : fragments header data (fragmentSize * i) 1 = [fragment header data i] := by
      rw [fragments, ← packet_eq_fragment]
      split <;> rfl
    rw [one]
    rfl
  | succ m ih =>
    have full : min (data.length - fragmentSize * i) fragmentSize = fragmentSize := by
      rw [fragmentSize_eq] at *
      omega
    rw [fragments, List.range'_succ, List.map_cons, ← packet_eq_fragment, full, if_neg (Nat.lt_irrefl _),
      show fragmentSize * i + fragmentSize = fragmentSize * (i + 1) by ring, ih (i + 1) (by omega)]

theorem readLe32_header (c : Netchan) (raw : UInt32) (rest : List UInt8) : readLe32 (c.header raw ++ rest) = raw := by
  cases side : c.side <;> simp only [header, side, List.append_assoc, readLe32_le32]

theorem sequence_of_mem_datagrams {c : Netchan} {seq : UInt32} {data : List UInt8} (narrow : seq.toNat < 2 ^ 31)
    {p : List UInt8} (sent : p ∈ c.datagrams seq data) : readLe32 p &&& ~~~fragmentBit = seq := by
  rw [datagrams] at sent
  split at sent
  · rw [List.mem_singleton.mp sent, readLe32_header, and_not_fragmentBit_of_lt seq narrow]
  · obtain ⟨i, -, rfl⟩ := List.mem_map.mp sent
    rw [fragment, List.append_assoc, List.append_assoc, readLe32_header, or_fragmentBit_and_not seq narrow]

theorem transmit_eq (c : Netchan) (data : List UInt8) (fits : data.length ≤ maxMessageLen) :
    c.transmit data = .ok (c.datagrams c.outgoing data, { c with outgoing := c.outgoing + 1 }) := by
  rw [transmit, if_neg (Nat.not_lt.mpr fits), datagrams]
  dsimp only
  split
  · rfl
  · rw [show (0 : Nat) = fragmentSize * 0 from rfl, fragments_eq _ _ _ 0 (Nat.zero_add _),
      List.range_eq_range']
    rfl

/-- A channel that reads what `sender` sends: it is on the other side, with the same qport. -/
structure Peer (sender c : Netchan) : Prop where
  side : sender.side ≠ c.side
  qport : sender.qport = c.qport

theorem reads_header {sender c : Netchan} (peer : Peer sender c) (raw : UInt32) (payload : List UInt8) :
    c.incomingHeaderLen ≤ (sender.header raw ++ payload).length ∧
      readLe32 (sender.header raw ++ payload) = raw ∧
      ¬ (c.side = .server ∧ (readLe16 ((sender.header raw ++ payload).drop 4)).toUInt16 ≠ c.qport) ∧
      (sender.header raw ++ payload).drop c.incomingHeaderLen = payload := by
  obtain ⟨side, qport⟩ := peer
  cases sending : sender.side <;> cases receiving : c.side <;> rw [sending, receiving] at side
  · exact absurd rfl side
  · -- a client's datagram: the sequence, then the qport
    have narrow : c.qport.toNat < 2 ^ 16 := c.qport.toNat_lt
    have packet : sender.header raw ++ payload = le32 raw ++ (le16 c.qport.toNat ++ payload) := by
      rw [header, sending, qport, List.append_assoc]
    have front : (le32 raw ++ le16 c.qport.toNat).length = 6 := by simp
    rw [packet, incomingHeaderLen, receiving]
    refine ⟨by simp only [List.length_append, length_le32, length_le16]; omega, readLe32_le32 raw _, ?_, ?_⟩
    · rw [List.drop_left' (length_le32 raw), readLe16_le16 _ narrow]
      simp
    · rw [← List.append_assoc, List.drop_left' front]
  · -- a server's datagram: the sequence alone
    have packet : sender.header raw ++ payload = le32 raw ++ payload := by rw [header, sending]
    rw [packet, incomingHeaderLen, receiving]
    exact ⟨by simp, readLe32_le32 raw _, by simp, List.drop_left' (length_le32 raw)⟩
  · exact absurd rfl side

/-- The last step of `process`: a whole message is handed over behind its sequence, which
becomes the last accepted one; any other answer leaves the channel as it is. -/
def handOver (sequence : UInt32) (r : Except NetError (Option (List UInt8)) × Netchan) :
    Except NetError (Option (List UInt8)) × Netchan :=
  let (message, c) := r
  match message with
  | .ok (some m) => (.ok (some (le32 sequence ++ m)), { c with incoming := sequence })
  | other => (other, c)

@[simp] theorem handOver_none (sequence : UInt32) (c : Netchan) :
    handOver sequence (.ok none, c) = (.ok none, c) := rfl

@[simp] theorem handOver_some (sequence : UInt32) (m : List UInt8) (c : Netchan) :
    handOver sequence (.ok (some m), c) = (.ok (some (le32 sequence ++ m)), { c with incoming := sequence }) := rfl

section Reading

variable {sender c : Netchan} {seq : UInt32}

theorem process_whole (peer : Peer sender c) (narrow : seq.toNat < 2 ^ 31)
    (settled : c.incoming.toNat < 2 ^ 31) (data : List UInt8) :
    c.process (sender.header seq ++ data) =
      if seq ≤ c.incoming then (.ok none, { c with stale := c.stale + 1 })
      else (.ok (some (le32 seq ++ data)), { c with dropped := seq - c.incoming - 1, incoming := seq }) := by
  obtain ⟨long, raw, ours, rest⟩ := reads_header peer seq data
  simp only [process, if_neg (Nat.not_lt.mpr long), raw, ours, if_false, rest, and_fragmentBit_of_lt seq narrow,
    and_not_fragmentBit_of_lt seq narrow, stale_iff seq c.incoming narrow settled, ne_eq, not_true_eq_false,
    decide_false, Bool.not_false, if_true]

theorem process_fragment (peer : Peer sender c) (narrow : seq.toNat < 2 ^ 31)
    (settled : c.incoming.toNat < 2 ^ 31) (start : Nat) (piece : List UInt8) (near : start < 2 ^ 16)
    (short : piece.length < 2 ^ 16) :
    c.process (sender.header (seq ||| fragmentBit) ++ le16 start ++ le16 piece.length ++ piece) =
      if seq ≤ c.incoming then (.ok none, { c with stale := c.stale + 1 })
      else handOver seq ({ c with dropped := seq - c.incoming - 1 }.reassemble seq start piece) := by
  have packet : sender.header (seq ||| fragmentBit) ++ le16 start ++ le16 piece.length ++ piece =
      sender.header (seq ||| fragmentBit) ++ (le16 start ++ (le16 piece.length ++ piece)) := by
    simp only [List.append_assoc]
  obtain ⟨long, raw, ours, rest⟩ := reads_header peer (seq ||| fragmentBit) (le16 start ++ (le16 piece.length ++ piece))
  have lengths : readLe16 ((le16 start ++ (le16 piece.length ++ piece)).drop 2) = piece.length := by
    rw [List.drop_left' (length_le16 start), readLe16_le16 _ short]
  have body : (le16 start ++ (le16 piece.length ++ piece)).drop 4 = piece := by
    rw [← List.append_assoc, List.drop_left' (by simp)]
  have headed : ¬ (le16 start ++ (le16 piece.length ++ piece)).length < 4 := by simp; omega
  rw [packet]
  simp only [process, if_neg (Nat.not_lt.mpr long), raw, ours, if_false, rest, or_fragmentBit_and_fragmentBit,
    or_fragmentBit_and_not seq narrow, stale_iff seq c.incoming narrow settled, lengths, body, headed,
    readLe16_le16 _ near, ne_eq, not_false_eq_true, decide_true, Bool.not_true, Bool.false_eq_true,
    not_true_eq_false]
  split <;> rfl

end Reading

def held (c : Netchan) (sequence : UInt32) : List UInt8 :=
  if c.fragmentSequence = sequence then c.fragmentBuffer else []

theorem reassemble_rekey (c : Netchan) (seq : UInt32) (start : Nat) (bytes : List UInt8) :
    c.reassemble seq start bytes =
      { c with fragmentSequence := seq, fragmentBuffer := c.held seq }.reassemble seq start bytes := by
  by_cases keyed : c.fragmentSequence = seq
  · subst keyed
    rw [held, if_pos rfl]
  · simp only [reassemble, held, if_neg keyed, ne_eq, Ne.symm keyed, not_false_eq_true, if_true,
      not_true_eq_false, if_false]

/-- Reassembly of fragment `i` on a channel keyed by the message and holding its first `j` whole
fragments: only the next fragment is kept, and the last completes the message. -/
theorem reassemble_piece_keyed (c : Netchan) {data : List UInt8} {j : Nat}
    (holds : c.fragmentBuffer = data.take (fragmentSize * j)) (within : fragmentSize * j ≤ data.length)
    (fits : data.length ≤ maxMessageLen) (i : Nat) (hi : i ≤ data.length / fragmentSize) :
    c.reassemble c.fragmentSequence (fragmentSize * i) (piece data i) =
      if i ≠ j then (.ok none, c)
      else if i < data.length / fragmentSize then
        (.ok none, { c with fragmentBuffer := data.take (fragmentSize * (i + 1)) })
      else (.ok (some data), { c with fragmentBuffer := [] }) := by
  have heldLength : c.fragmentBuffer.length = fragmentSize * j := by
    rw [holds, List.length_take]
    omega
  simp only [reassemble, ne_eq, not_true_eq_false, if_false, heldLength]
  by_cases next : i = j
  · subst next
    have room : ¬ fragmentSize * i + (piece data i).length > maxMessageLen := by
      rw [length_piece]
      omega
    rw [if_neg (not_not.mpr rfl), if_neg room, if_neg (not_not.mpr rfl), holds, take_append_piece]
    by_cases early : i < data.length / fragmentSize
    · rw [if_pos (length_piece_of_lt data i early), if_pos early]
    · have last : i = data.length / fragmentSize := by omega
      subst last
      rw [if_neg (Nat.ne_of_lt (length_piece_last data)), if_neg early, ← take_append_piece, take_append_piece_last]
  · have elsewhere : fragmentSize * i ≠ fragmentSize * j := by
      rw [fragmentSize_eq]
      omega
    rw [if_pos elsewhere, if_pos next]

theorem reassemble_piece (c : Netchan) {seq : UInt32} {data : List UInt8} {j : Nat}
    (holds : c.held seq = data.take (fragmentSize * j)) (within : fragmentSize * j ≤ data.length)
    (fits : data.length ≤ maxMessageLen) (i : Nat) (hi : i ≤ data.length / fragmentSize) :
    c.reassemble seq (fragmentSize * i) (piece data i) =
      if i ≠ j then (.ok none, { c with fragmentSequence := seq, fragmentBuffer := c.held seq })
      else if i < data.length / fragmentSize then
        (.ok none, { c with fragmentSequence := seq, fragmentBuffer := data.take (fragmentSize * (i + 1)) })
      else (.ok (some data), { c with fragmentSequence := seq, fragmentBuffer := [] }) := by
  rw [reassemble_rekey]
  exact reassemble_piece_keyed { c with fragmentSequence := seq, fragmentBuffer := c.held seq } holds within fits i hi

/-- A fragment of a newer message on a channel holding its first `j` whole fragments: dropped unless
it is the next one, and the last hands the message over. -/
theorem process_piece {sender c : Netchan} {seq : UInt32} {data : List UInt8} {j : Nat}
    (peer : Peer sender c) (narrow : seq.toNat < 2 ^ 31) (settled : c.incoming.toNat < 2 ^ 31)
    (newer : c.incoming < seq) (holds : c.held seq = data.take (fragmentSize * j))
    (within : fragmentSize * j ≤ data.length) (fits : data.length ≤ maxMessageLen)
    (i : Nat) (hi : i ≤ data.length / fragmentSize) :
    c.process (fragment (sender.header (seq ||| fragmentBit)) data i) =
      let kept := { c with dropped := seq - c.incoming - 1, fragmentSequence := seq }
      if i ≠ j then (.ok none, { kept with fragmentBuffer := c.held seq })
      else if i < data.length / fragmentSize then
        (.ok none, { kept with fragmentBuffer := data.take (fragmentSize * (i + 1)) })
      else (.ok (some (le32 seq ++ data)), { kept with fragmentBuffer := [], incoming := seq }) := by
  obtain ⟨near, short⟩ := fragment_fields_narrow fits i hi
  rw [fragment, process_fragment peer narrow settled _ _ near short, if_neg (UInt32.not_le.mpr newer),
    reassemble_piece { c with dropped := seq - c.incoming - 1 } holds within fits i hi]
  dsimp only
  split_ifs <;> rfl

theorem process_stale {sender c : Netchan} {seq : UInt32} {data : List UInt8} (peer : Peer sender c)
    (narrow : seq.toNat < 2 ^ 31) (settled : c.incoming.toNat < 2 ^ 31) (fits : data.length ≤ maxMessageLen)
    (stale : seq ≤ c.incoming) {p : List UInt8} (sent : p ∈ sender.datagrams seq data) :
    c.process p = (.ok none, { c with stale := c.stale + 1 }) := by
  rw [datagrams] at sent
  split at sent
  · rw [List.mem_singleton.mp sent, process_whole peer narrow settled, if_pos stale]
  · obtain ⟨i, mem, rfl⟩ := List.mem_map.mp sent
    obtain ⟨near, short⟩ := fragment_fields_narrow fits i (Nat.lt_succ_iff.mp (List.mem_range.mp mem))
    rw [fragment, process_fragment peer narrow settled _ _ near short, if_pos stale]

end Netchan
end Netcode
