import Mathlib
import Netcode.Proofs.Channel.Fragments

set_option autoImplicit false

namespace Netcode
namespace Netchan

def transmitAll (c : Netchan) : List (List UInt8) → Except NetError (List (List (List UInt8)) × Netchan)
  | [] => .ok ([], c)
  | d :: ds => do
    let (packets, c) ← c.transmit d
    let (rest, c) ← transmitAll c ds
    return (packets :: rest, c)

def processAll (c : Netchan) : List (List UInt8) → List (Except NetError (Option (List UInt8))) × Netchan
  | [] => ([], c)
  | p :: ps =>
    let (r, c) := c.process p
    let (rs, c) := processAll c ps
    (r :: rs, c)

def sequenceOf (k : Nat) : UInt32 := (k + 1).toUInt32

/-- The messages as a receiver hands them over: each behind the sequence it was sent with. -/
def framed (ds : List (List UInt8)) : List (List UInt8) :=
  ds.mapIdx fun k d => le32 (sequenceOf k) ++ d

def handed (answers : List (Except NetError (Option (List UInt8)))) : List (List UInt8) :=
  answers.filterMap fun
    | .ok m => m
    | .error _ => none

@[simp] theorem processAll_nil (c : Netchan) : c.processAll [] = ([], c) := rfl

theorem processAll_cons (c : Netchan) (p : List UInt8) (ps : List (List UInt8)) :
    c.processAll (p :: ps) =
      ((c.process p).1 :: ((c.process p).2.processAll ps).1, ((c.process p).2.processAll ps).2) := rfl

@[simp] theorem handed_nil : handed [] = [] := rfl

@[simp] theorem handed_cons_none (rs : List (Except NetError (Option (List UInt8)))) :
    handed (.ok none :: rs) = handed rs := rfl

@[simp] theorem handed_cons_some (m : List UInt8) (rs : List (Except NetError (Option (List UInt8)))) :
    handed (.ok (some m) :: rs) = m :: handed rs := rfl

theorem toNat_sequenceOf (k : Nat) (few : k < 2 ^ 31) : (sequenceOf k).toNat = k + 1 :=
  UInt32.toNat_ofNat_of_lt' (by rw [UInt32.size]; omega)

theorem sequenceOf_inj {k k' : Nat} (few : k < 2 ^ 31) (few' : k' < 2 ^ 31) (same : sequenceOf k = sequenceOf k') :
    k = k' := by
  have := congrArg UInt32.toNat same
  rw [toNat_sequenceOf k few, toNat_sequenceOf k' few'] at this
  omega

theorem drop_framed (ds : List (List UInt8)) (k : Nat) (hk : k < ds.length) :
    (framed ds).drop k = (le32 (sequenceOf k) ++ ds[k]) :: (framed ds).drop (k + 1) := by
  rw [List.drop_eq_getElem_cons (by simpa [framed] using hk)]
  simp [framed]

@[simp] theorem datagrams_withOutgoing (c : Netchan) (o : UInt32) :
    { c with outgoing := o }.datagrams = c.datagrams := rfl

theorem sequenceOf_succ (k : Nat) : sequenceOf k + 1 = sequenceOf (k + 1) := by
  simp [sequenceOf]

theorem transmitAll_eq (c : Netchan) (m : Nat) (sentBefore : c.outgoing = sequenceOf m) (ds : List (List UInt8))
    (fits : ∀ d ∈ ds, d.length ≤ maxMessageLen) :
    c.transmitAll ds =
      .ok (ds.mapIdx (fun k d => c.datagrams (sequenceOf (m + k)) d),
        { c with outgoing := sequenceOf (m + ds.length) }) := by
  induction ds generalizing c m with
  | nil =>
    rw [List.length_nil, Nat.add_zero, ← sentBefore]
    rfl
  | cons d ds ih =>
    have next : ({ c with outgoing := c.outgoing + 1 } : Netchan).outgoing = sequenceOf (m + 1) := by
      rw [sentBefore, sequenceOf_succ]
    have rest := ih { c with outgoing := c.outgoing + 1 } (m + 1) next (fun d mem => fits d (List.mem_cons_of_mem _ mem))
    rw [transmitAll, transmit_eq c d (fits d List.mem_cons_self)]
    simp only [bind, Except.bind]
    rw [rest]
    simp only [pure, Except.pure, List.mapIdx_cons, datagrams_withOutgoing, sentBefore, Nat.add_zero,
      List.length_cons, Nat.add_assoc, Nat.add_comm 1]

/-- Fragments `i .. n` of a newer message, processed in order on a channel holding its first `j ≥ i`
whole fragments: only the last answers, with the message. -/
theorem processAll_pieces {sender : Netchan} {seq : UInt32} {data : List UInt8} (narrow : seq.toNat < 2 ^ 31)
    (fits : data.length ≤ maxMessageLen) (m : Nat) :
    ∀ (c : Netchan) (i j : Nat), Peer sender c → c.incoming.toNat < 2 ^ 31 → c.incoming < seq →
      i + m = data.length / fragmentSize → i ≤ j → fragmentSize * j ≤ data.length →
      c.held seq = data.take (fragmentSize * j) →
      (c.processAll ((List.range' i (m + 1)).map (fragment (sender.header (seq ||| fragmentBit)) data))).1 =
        List.replicate m (.ok none) ++ [.ok (some (le32 seq ++ data))] := by
  induction m with
  | zero =>
    intro c i j peer settled newer last behind within holds
    have same : i = j := by
      rw [fragmentSize_eq] at *
      omega
    subst same
    rw [List.range'_one, List.map_singleton, processAll_cons,
      process_piece peer narrow settled newer holds within fits i (by omega)]
    simp [show ¬ i < data.length / fragmentSize by omega]
  | succ m ih =>
    intro c i j peer settled newer last behind within holds
    have early : i < data.length / fragmentSize := by omega
    rw [List.range'_succ, List.map_cons, processAll_cons,
      process_piece peer narrow settled newer holds within fits i (by omega)]
    by_cases elsewhere : i ≠ j
    · -- an out-of-place fragment: dropped, and the channel still holds the same
      simp only [if_pos elsewhere]
      rw [ih { c with dropped := seq - c.incoming - 1, fragmentSequence := seq, fragmentBuffer := c.held seq }
        (i + 1) j ⟨peer.side, peer.qport⟩ settled newer (by omega) (by omega) within
        (by rw [held, if_pos rfl]; exact holds)]
      rfl
    · -- the next fragment, not the last: one more whole fragment is held
      have same : i = j := not_not.mp elsewhere
      subst same
      have grown : fragmentSize * (i + 1) ≤ data.length := by
        rw [fragmentSize_eq] at *
        omega
      simp only [ne_eq, not_true_eq_false, if_false, if_pos early]
      let grownChannel := { c with dropped := seq - c.incoming - 1, fragmentSequence := seq }
      rw [ih { grownChannel with fragmentBuffer := data.take (fragmentSize * (i + 1)) } (i + 1) (i + 1)
        ⟨peer.side, peer.qport⟩ settled newer (by omega) le_rfl grown (by rw [held, if_pos rfl])]
      rfl

/-- A receiver of the messages `ds` that `sender` sends: its last accepted sequence is at most the
last message's, and of every message it holds whole fragments from the front. -/
structure Receives (sender : Netchan) (ds : List (List UInt8)) (c : Netchan) : Prop where
  peer : Peer sender c
  incoming_le : c.incoming.toNat ≤ ds.length
  holds : ∀ k (hk : k < ds.length), ∃ j, fragmentSize * j ≤ ds[k].length ∧
    c.held (sequenceOf k) = ds[k].take (fragmentSize * j)

section Receiving

variable {sender c : Netchan} {ds : List (List UInt8)}

theorem receives_new {side peerSide : NetSide} (opposite : side ≠ peerSide) (qport : UInt16) :
    Receives (new side qport) ds (new peerSide qport) where
  peer := ⟨opposite, rfl⟩
  incoming_le := Nat.zero_le _
  holds _ _ := ⟨0, Nat.zero_le _, by rw [held]; split <;> rfl⟩

theorem Receives.stale (inv : Receives sender ds c) : Receives sender ds { c with stale := c.stale + 1 } :=
  ⟨⟨inv.peer.side, inv.peer.qport⟩, inv.incoming_le, inv.holds⟩

theorem Receives.lose (inv : Receives sender ds c) (lost : UInt32) : Receives sender ds { c with dropped := lost } :=
  ⟨⟨inv.peer.side, inv.peer.qport⟩, inv.incoming_le, inv.holds⟩

theorem Receives.keep (inv : Receives sender ds c) (few : ds.length < 2 ^ 31) {k : Nat} (hk : k < ds.length)
    {j : Nat} (within : fragmentSize * j ≤ ds[k].length) {buffer : List UInt8}
    (front : buffer = ds[k].take (fragmentSize * j)) :
    Receives sender ds { c with fragmentSequence := sequenceOf k, fragmentBuffer := buffer } where
  peer := ⟨inv.peer.side, inv.peer.qport⟩
  incoming_le := inv.incoming_le
  holds k' hk' := by
    by_cases same : k = k'
    · subst same
      exact ⟨j, within, by simp [held, front]⟩
    · have other : sequenceOf k ≠ sequenceOf k' := fun h => same (sequenceOf_inj (by omega) (by omega) h)
      exact ⟨0, Nat.zero_le _, by simp [held, other]⟩

theorem Receives.accept (inv : Receives sender ds c) (few : ds.length < 2 ^ 31) {k : Nat} (hk : k < ds.length) :
    Receives sender ds { c with incoming := sequenceOf k } where
  peer := ⟨inv.peer.side, inv.peer.qport⟩
  incoming_le := by
    show (sequenceOf k).toNat ≤ ds.length
    rw [toNat_sequenceOf k (by omega)]
    omega
  holds := inv.holds

theorem Receives.settled (inv : Receives sender ds c) (few : ds.length < 2 ^ 31) : c.incoming.toNat < 2 ^ 31 :=
  Nat.lt_of_le_of_lt inv.incoming_le few

/-- One datagram of message `k` keeps the invariant, and answers nothing or message `k`, newer than
the last accepted one. -/
theorem Receives.process (inv : Receives sender ds c) (few : ds.length < 2 ^ 31)
    (fits : ∀ d ∈ ds, d.length ≤ maxMessageLen) {k : Nat} (hk : k < ds.length) {p : List UInt8}
    (sent : p ∈ sender.datagrams (sequenceOf k) ds[k]) :
    Receives sender ds (c.process p).2 ∧
      ((c.process p).1 = .ok none ∧ (c.process p).2.incoming = c.incoming ∨
        c.incoming < sequenceOf k ∧ (c.process p).1 = .ok (some (le32 (sequenceOf k) ++ ds[k])) ∧
          (c.process p).2.incoming = sequenceOf k) := by
  have narrow : (sequenceOf k).toNat < 2 ^ 31 := by rw [toNat_sequenceOf k (by omega)]; omega
  have settled := inv.settled few
  have fit := fits ds[k] (List.getElem_mem hk)
  by_cases stale : sequenceOf k ≤ c.incoming
  · rw [process_stale inv.peer narrow settled fit stale sent]
    exact ⟨inv.stale, .inl ⟨rfl, rfl⟩⟩
  have newer := UInt32.not_le.mp stale
  rw [datagrams] at sent
  split at sent
  · -- a whole message
    rw [List.mem_singleton.mp sent, process_whole inv.peer narrow settled, if_neg stale]
    exact ⟨(inv.lose (sequenceOf k - c.incoming - 1)).accept few hk, .inr ⟨newer, rfl, rfl⟩⟩
  · -- fragment `i` of a long one
    obtain ⟨i, mem, rfl⟩ := List.mem_map.mp sent
    have hi := Nat.lt_succ_iff.mp (List.mem_range.mp mem)
    obtain ⟨j, within, holds⟩ := inv.holds k hk
    rw [process_piece inv.peer narrow settled newer holds within fit i hi]
    dsimp only
    split_ifs with elsewhere early
    · exact ⟨(inv.lose (sequenceOf k - c.incoming - 1)).keep few hk within holds, .inl ⟨rfl, rfl⟩⟩
    · -- the next fragment, not the last: one more whole fragment is held
      have grown : fragmentSize * (i + 1) ≤ ds[k].length := by
        rw [fragmentSize_eq] at *
        omega
      exact ⟨(inv.lose (sequenceOf k - c.incoming - 1)).keep few hk grown rfl, .inl ⟨rfl, rfl⟩⟩
    · -- the last fragment: the message is handed over and nothing is held
      have emptied := (inv.lose (sequenceOf k - c.incoming - 1)).keep few hk
        (show fragmentSize * 0 ≤ ds[k].length from Nat.zero_le _) List.take_zero.symm
      exact ⟨emptied.accept few hk, .inr ⟨newer, rfl, rfl⟩⟩

/-- A run over the messages' datagrams keeps the invariant, never fails, and hands over framed
messages in the order they were sent. -/
theorem Receives.processAll (inv : Receives sender ds c) (few : ds.length < 2 ^ 31)
    (fits : ∀ d ∈ ds, d.length ≤ maxMessageLen) (received : List (List UInt8))
    (pool : ∀ p ∈ received, ∃ k, ∃ hk : k < ds.length, p ∈ sender.datagrams (sequenceOf k) ds[k]) :
    Receives sender ds (c.processAll received).2 ∧ (∀ r ∈ (c.processAll received).1, ∃ m, r = .ok m) ∧
      (handed (c.processAll received).1).Sublist ((framed ds).drop c.incoming.toNat) := by
  induction received generalizing c with
  | nil => exact ⟨inv, by simp [processAll], List.nil_sublist _⟩
  | cons p ps ih =>
    obtain ⟨k, hk, sent⟩ := pool p List.mem_cons_self
    obtain ⟨stepped, answer⟩ := inv.process few fits hk sent
    obtain ⟨kept, ok, order⟩ := ih stepped (fun q mem => pool q (List.mem_cons_of_mem _ mem))
    rw [processAll_cons]
    have first : ∃ m, (c.process p).1 = .ok m := by
      rcases answer with ⟨none, -⟩ | ⟨-, some, -⟩
      · exact ⟨_, none⟩
      · exact ⟨_, some⟩
    refine ⟨kept, List.forall_mem_cons.mpr ⟨first, ok⟩, ?_⟩
    rcases answer with ⟨none, same⟩ | ⟨newer, some, moved⟩
    · rw [none, handed_cons_none, ← same]
      exact order
    · -- message `k` is handed over, and the rest come after it
      have after : c.incoming.toNat ≤ k := by
        have := UInt32.lt_iff_toNat_lt.mp newer
        rw [toNat_sequenceOf k (by omega)] at this
        omega
      rw [moved, toNat_sequenceOf k (by omega)] at order
      have fromK : ((le32 (sequenceOf k) ++ ds[k]) :: handed ((c.process p).2.processAll ps).1).Sublist
          ((framed ds).drop k) := by
        rw [drop_framed ds k hk]
        exact order.cons_cons _
      rw [some, handed_cons_some]
      exact fromK.trans (List.drop_sublist_drop_left _ after)

theorem Receives.processAll_datagrams (inv : Receives sender ds c) (few : ds.length < 2 ^ 31)
    (fits : ∀ d ∈ ds, d.length ≤ maxMessageLen) {k : Nat} (hk : k < ds.length) (newer : c.incoming < sequenceOf k) :
    (c.processAll (sender.datagrams (sequenceOf k) ds[k])).1 =
      List.replicate ((sender.datagrams (sequenceOf k) ds[k]).length - 1) (.ok none) ++
        [.ok (some (le32 (sequenceOf k) ++ ds[k]))] := by
  have narrow : (sequenceOf k).toNat < 2 ^ 31 := by rw [toNat_sequenceOf k (by omega)]; omega
  have fit := fits ds[k] (List.getElem_mem hk)
  rw [datagrams]
  split
  · rw [processAll_cons, process_whole inv.peer narrow (inv.settled few), if_neg (UInt32.not_le.mpr newer)]
    rfl
  · obtain ⟨j, within, holds⟩ := inv.holds k hk
    rw [List.length_map, List.length_range, Nat.add_sub_cancel, List.range_eq_range']
    exact processAll_pieces narrow fit _ c 0 j inv.peer (inv.settled few) newer (Nat.zero_add _) (Nat.zero_le _)
      within holds

end Receiving

/-- Over datagrams lost, repeated and reordered, a fresh receiver never errs and hands over the sent
messages, framed, in order and none twice; a message's datagrams taken in order while it is newer
hand it over. -/
theorem process_deliversInOrder {side peerSide : NetSide} (opposite : side ≠ peerSide) (qport : UInt16)
    {ds : List (List UInt8)} (fits : ∀ d ∈ ds, d.length ≤ maxMessageLen) (few : ds.length < 2 ^ 31) :
    ∃ sent, (new side qport).transmitAll ds = .ok (sent, { new side qport with outgoing := sequenceOf ds.length }) ∧
      (∀ k P, sent[k]? = some P → ∀ p ∈ P, readLe32 p &&& ~~~fragmentBit = sequenceOf k) ∧
      ∀ received : List (List UInt8), (∀ p ∈ received, ∃ P ∈ sent, p ∈ P) →
        let run := (new peerSide qport).processAll received
        (∀ r ∈ run.1, ∃ m, r = .ok m) ∧ (handed run.1).Sublist (framed ds) ∧
          ∀ k P d, sent[k]? = some P → ds[k]? = some d → run.2.incoming < sequenceOf k →
            (run.2.processAll P).1 = List.replicate (P.length - 1) (.ok none) ++ [.ok (some (le32 (sequenceOf k) ++ d))] := by
  have sending := transmitAll_eq (new side qport) 0 rfl ds fits
  simp only [Nat.zero_add] at sending
  refine ⟨_, sending, ?_, ?_⟩
  · intro k P sentK p mem
    rw [List.getElem?_mapIdx] at sentK
    obtain ⟨d, dsK, rfl⟩ := Option.map_eq_some_iff.mp sentK
    have hk : k < ds.length := (List.getElem?_eq_some_iff.mp dsK).1
    exact sequence_of_mem_datagrams (by rw [toNat_sequenceOf k (by omega)]; omega) mem
  · intro received pool
    have fromPool : ∀ p ∈ received, ∃ k, ∃ hk : k < ds.length, p ∈ (new side qport).datagrams (sequenceOf k) ds[k] := by
      intro p mem
      obtain ⟨P, inSent, inP⟩ := pool p mem
      obtain ⟨k, hk, rfl⟩ := List.mem_mapIdx.mp inSent
      exact ⟨k, hk, inP⟩
    have start : Receives (new side qport) ds (new peerSide qport) := receives_new opposite qport
    obtain ⟨inv, ok, order⟩ := start.processAll few fits received fromPool
    refine ⟨ok, order, ?_⟩
    intro k P d sentK dsK newer
    obtain ⟨hk, rfl⟩ := List.getElem?_eq_some_iff.mp dsK
    rw [List.getElem?_mapIdx, dsK] at sentK
    obtain rfl := Option.some.inj sentK
    exact inv.processAll_datagrams few fits hk newer

/-- A short message and one of exactly two full fragments, which ends with an empty third. -/
theorem process_deliversInOrder_twoMessages :
    NetSide.client ≠ NetSide.server ∧
      (∀ d ∈ ([[1, 2, 3], List.replicate 2600 7] : List (List UInt8)), d.length ≤ maxMessageLen) ∧
      ([[1, 2, 3], List.replicate 2600 7] : List (List UInt8)).length < 2 ^ 31 ∧
      ∃ sent, (new .client 9).transmitAll [[1, 2, 3], List.replicate 2600 7] =
          .ok (sent, { new .client 9 with outgoing := sequenceOf 2 }) ∧
        (∀ k P, sent[k]? = some P → ∀ p ∈ P, readLe32 p &&& ~~~fragmentBit = sequenceOf k) ∧
        ∀ received : List (List UInt8), (∀ p ∈ received, ∃ P ∈ sent, p ∈ P) →
          let run := (new .server 9).processAll received
          (∀ r ∈ run.1, ∃ m, r = .ok m) ∧ (handed run.1).Sublist (framed [[1, 2, 3], List.replicate 2600 7]) ∧
            ∀ k P d, sent[k]? = some P → ([[1, 2, 3], List.replicate 2600 7] : List (List UInt8))[k]? = some d →
              run.2.incoming < sequenceOf k →
              (run.2.processAll P).1 =
                List.replicate (P.length - 1) (.ok none) ++ [.ok (some (le32 (sequenceOf k) ++ d))] := by
  have fits : ∀ d ∈ ([[1, 2, 3], List.replicate 2600 7] : List (List UInt8)), d.length ≤ maxMessageLen := by
    intro d mem
    simp only [List.mem_cons, List.not_mem_nil, or_false] at mem
    rcases mem with rfl | rfl
    · decide
    · rw [List.length_replicate]
      decide
  exact ⟨by decide, fits, by decide, process_deliversInOrder (by decide) 9 fits (by decide)⟩

end Netchan
end Netcode
