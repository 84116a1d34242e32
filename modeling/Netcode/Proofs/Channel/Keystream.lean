import Mathlib
import Netcode.Channel.Cipher

set_option autoImplicit false

namespace Netcode.Cipher

def keyRun (command : Array UInt8) (seed : UInt32) (first : Nat) : Nat → UInt32 × Nat
  | 0 => (seed, 0)
  | k + 1 =>
    let s := keyRun command seed first k
    step command s.1 s.2 (first + k)

def keyByte (command : List UInt8) (seed : UInt32) (first i : Nat) : UInt8 :=
  (keyRun command.toArray seed first (i + 1 - first)).1.toUInt8

/-- The part of a command that the key reads: its first byte, and the bytes after it up to the
next NUL. -/
def keyText (command : List UInt8) : List UInt8 :=
  command.take 1 ++ (command.drop 1).takeWhile (· ≠ 0)

section Loop

variable (command : Array UInt8) (seed : UInt32) (first : Nat)

/-- The loop of the transform over `m` offsets, from the key state of the first `k`: the key
state of the first `k + m` offsets, and each byte in the range XORed with its key byte. -/
theorem foldl_applyAt (m k : Nat) (arr : Array UInt8) :
    let r := (List.range' (first + k) m).foldl (applyAt command)
      ((keyRun command seed first k).1, (keyRun command seed first k).2, arr)
    (r.1, r.2.1) = keyRun command seed first (k + m) ∧
      ∀ j, r.2.2[j]? = arr[j]?.map fun b =>
        if first + k ≤ j ∧ j < first + k + m then b ^^^ (keyRun command seed first (j + 1 - first)).1.toUInt8
        else b := by
  induction m generalizing k arr with
  | zero =>
    refine ⟨rfl, fun j => ?_⟩
    show arr[j]? = _
    cases arr[j]? with
    | none => rfl
    | some b => rw [Option.map_some, if_neg (by omega)]
  | succ m ih =>
    -- one offset moves the key to the state of `k + 1` offsets and patches the byte there
    have first_step : applyAt command ((keyRun command seed first k).1, (keyRun command seed first k).2, arr)
        (first + k) = ((keyRun command seed first (k + 1)).1, (keyRun command seed first (k + 1)).2,
          arr.modify (first + k) (· ^^^ (keyRun command seed first (k + 1)).1.toUInt8)) := rfl
    obtain ⟨key, bytes⟩ := ih (k + 1) (arr.modify (first + k) (· ^^^ (keyRun command seed first (k + 1)).1.toUInt8))
    rw [← Nat.add_assoc] at key bytes
    rw [List.range'_succ, List.foldl_cons, first_step]
    refine ⟨by rw [key, Nat.add_right_comm, Nat.add_assoc], fun j => ?_⟩
    rw [bytes j, Array.getElem?_modify]
    by_cases here : first + k = j
    · subst here
      rw [if_pos rfl, Option.map_map]
      congr 1
      funext b
      have before : ¬(first + k + 1 ≤ first + k ∧ first + k < first + k + 1 + m) := by omega
      have inside : first + k ≤ first + k ∧ first + k < first + k + (m + 1) := by omega
      rw [Function.comp_apply, if_neg before, if_pos inside, show first + k + 1 - first = k + 1 by omega]
    · rw [if_neg here]
      congr 1
      funext b
      congr 1
      apply propext
      omega

end Loop

theorem getElem?_apply (seed : UInt32) (command data : List UInt8) (first j : Nat) :
    (apply seed command data first)[j]? =
      data[j]?.map fun b => if first ≤ j then b ^^^ keyByte command seed first j else b := by
  obtain ⟨-, bytes⟩ := foldl_applyAt command.toArray seed first (data.length - first) 0 data.toArray
  simp only [Nat.add_zero] at bytes
  rw [apply, Array.getElem?_toList]
  have start : ((keyRun command.toArray seed first 0).1, (keyRun command.toArray seed first 0).2, data.toArray) =
      (seed, 0, data.toArray) := rfl
  rw [← start, bytes j, List.getElem?_toArray]
  cases stored : data[j]? with
  | none => rfl
  | some b =>
    -- a byte of the data lies below its end, where the loop stops
    have inside : j < data.length := (List.getElem?_eq_some_iff.mp stored).1
    simp only [Option.map_some, keyByte]
    congr 1
    by_cases past : first ≤ j
    · rw [if_pos ⟨past, by omega⟩, if_pos past]
    · rw [if_neg (fun h => past h.1), if_neg past]

theorem length_apply (seed : UInt32) (command data : List UInt8) (first : Nat) :
    (apply seed command data first).length = data.length := by
  have shape := getElem?_apply seed command data first
  have longer : data.length ≤ (apply seed command data first).length := by
    by_contra shorter
    have beyond := shape (apply seed command data first).length
    rw [List.getElem?_eq_none (Nat.le_refl _), List.getElem?_eq_getElem (by omega)] at beyond
    cases beyond
  have shorter : (apply seed command data first).length ≤ data.length := by
    by_contra longer
    have beyond := shape data.length
    rw [List.getElem?_eq_none (Nat.le_refl _), List.getElem?_eq_getElem (by omega)] at beyond
    cases beyond
  omega

/-- The transform undoes itself: its key bytes do not depend on the data. -/
theorem apply_apply (seed : UInt32) (command data : List UInt8) (first : Nat) :
    apply seed command (apply seed command data first) first = data := by
  apply List.ext_getElem?
  intro j
  rw [getElem?_apply, getElem?_apply, Option.map_map]
  cases data[j]? with
  | none => rfl
  | some b =>
    simp only [Option.map_some, Function.comp_apply]
    split
    · rw [UInt8.xor_assoc, UInt8.xor_self, UInt8.xor_zero]
    · rfl

section KeyText

theorem keyText_prefix (command : List UInt8) : keyText command <+: command := by
  have whole : command = command.take 1 ++ command.drop 1 := (List.take_append_drop 1 command).symm
  conv => rhs; rw [whole]
  exact List.prefix_append_right_inj _ |>.mpr (List.takeWhile_prefix _)

theorem takeWhile_ne_zero_ends (l : List UInt8) :
    l.length ≤ (l.takeWhile (· ≠ 0)).length ∨ l[(l.takeWhile (· ≠ 0)).length]? = some 0 := by
  induction l with
  | nil => exact .inl (Nat.le_refl _)
  | cons a rest ih =>
    by_cases zero : a = 0
    · right
      simp [zero]
    · rw [List.takeWhile_cons, if_pos (by simpa using zero), List.length_cons, List.length_cons,
        List.getElem?_cons_succ]
      rcases ih with whole | stop
      · exact .inl (by omega)
      · exact .inr stop

theorem keyText_cons (x : UInt8) (rest : List UInt8) : keyText (x :: rest) = x :: rest.takeWhile (· ≠ 0) := rfl

theorem keyText_ends (x : UInt8) (rest : List UInt8) :
    (x :: rest).length ≤ (keyText (x :: rest)).length ∨
      (x :: rest)[(keyText (x :: rest)).length]? = some 0 := by
  rw [keyText_cons, List.length_cons, List.length_cons, List.getElem?_cons_succ]
  rcases takeWhile_ne_zero_ends rest with whole | stop
  · exact .inl (by omega)
  · exact .inr stop

/-- Within the key text, a step reads the same wrap and the same character from the command as from
its key text, and leaves the position within the key text. -/
theorem step_keyText (x : UInt8) (rest : List UInt8) (key : UInt32) {index : Nat}
    (within : index ≤ (keyText (x :: rest)).length) (i : Nat) :
    step (x :: rest).toArray key index i = step (keyText (x :: rest)).toArray key index i ∧
      (step (x :: rest).toArray key index i).2 ≤ (keyText (x :: rest)).length := by
  have pre := keyText_prefix (x :: rest)
  have short := pre.length_le
  have pos : 0 < (keyText (x :: rest)).length := by simp [keyText_cons]
  have agree : ∀ j < (keyText (x :: rest)).length, (x :: rest)[j]? = (keyText (x :: rest))[j]? := fun j lt => by
    rw [List.getElem?_eq_getElem lt, List.getElem?_eq_getElem (Nat.lt_of_lt_of_le lt short), pre.getElem lt]
  -- both wrap at the same positions: below the key text's end where the command holds NUL, and at its end
  have wraps : (index ≥ (x :: rest).toArray.size ∨ (x :: rest).toArray[index]? = some 0) ↔
      (index ≥ (keyText (x :: rest)).toArray.size ∨ (keyText (x :: rest)).toArray[index]? = some 0) := by
    simp only [List.size_toArray, List.getElem?_toArray]
    rcases Nat.lt_or_eq_of_le within with below | atEnd
    · rw [agree index below]
      constructor
      · rintro (beyond | zero)
        · omega
        · exact .inr zero
      · rintro (beyond | zero)
        · omega
        · exact .inr zero
    · subst atEnd
      exact ⟨fun _ => .inl (Nat.le_refl _), fun _ => keyText_ends x rest⟩
  have read : ∀ j, j < (keyText (x :: rest)).length →
      ((x :: rest).toArray[j]?.getD 0) = ((keyText (x :: rest)).toArray[j]?.getD 0) := by
    intro j lt
    simp only [List.getElem?_toArray]
    rw [agree j lt]
  unfold step
  simp only [wraps]
  split
  · rw [read 0 pos]
    exact ⟨rfl, pos⟩
  · rename_i stays
    have below : index < (keyText (x :: rest)).length := by
      simp only [List.size_toArray, not_or] at stays
      omega
    rw [read index below]
    exact ⟨rfl, below⟩

theorem keyRun_keyText (command : List UInt8) (seed : UInt32) (first k : Nat) :
    keyRun command.toArray seed first k = keyRun (keyText command).toArray seed first k := by
  cases command with
  | nil => rfl
  | cons x rest =>
    -- the position stays within the key text along the run
    have run : ∀ k, keyRun (x :: rest).toArray seed first k = keyRun (keyText (x :: rest)).toArray seed first k ∧
        (keyRun (x :: rest).toArray seed first k).2 ≤ (keyText (x :: rest)).length := by
      intro k
      induction k with
      | zero => exact ⟨rfl, Nat.zero_le _⟩
      | succ k ih =>
        obtain ⟨same, within⟩ := ih
        obtain ⟨stepSame, stepWithin⟩ := step_keyText x rest (keyRun (x :: rest).toArray seed first k).1 within (first + k)
        refine ⟨?_, stepWithin⟩
        simp only [keyRun]
        rw [stepSame, same]
    exact (run k).1

theorem keyByte_keyText (command : List UInt8) (seed : UInt32) (first i : Nat) :
    keyByte command seed first i = keyByte (keyText command) seed first i := by
  rw [keyByte, keyByte, keyRun_keyText]

theorem keyText_of_head (command : List UInt8) (lead : command.head? ≠ some 0) :
    keyText command = command.takeWhile (· ≠ 0) := by
  cases command with
  | nil => rfl
  | cons x rest =>
    have nonzero : x ≠ 0 := fun zero => lead (by rw [zero]; rfl)
    simp [keyText, nonzero]

end KeyText

/-- The channel transforms XOR each byte from the start offset on with a key byte that depends on
the seed, the command's key text and the offset, never on the data, so each undoes itself. -/
theorem transform_keystream (challenge serverId messageAck sequence : UInt32) (command data : List UInt8)
    (first j : Nat) :
    (outgoing challenge serverId messageAck command data first)[j]? = data[j]?.map (fun b =>
      if first ≤ j then b ^^^ keyByte (keyText command) (challenge ^^^ serverId ^^^ messageAck) first j
      else b) ∧
    (incoming challenge sequence command data first)[j]? = data[j]?.map (fun b =>
      if first ≤ j then b ^^^ keyByte (keyText command) (challenge ^^^ sequence) first j else b) ∧
    outgoing challenge serverId messageAck command (outgoing challenge serverId messageAck command data first) first =
      data ∧
    incoming challenge sequence command (incoming challenge sequence command data first) first = data ∧
    (command.head? ≠ some 0 → keyText command = command.takeWhile (· ≠ 0)) := by
  refine ⟨?_, ?_, apply_apply _ _ _ _, apply_apply _ _ _ _, keyText_of_head command⟩
  · rw [outgoing, getElem?_apply, keyByte_keyText]
  · rw [incoming, getElem?_apply, keyByte_keyText]

/-- A command of a NUL and `A`: the key reads the `A` after the NUL, where the empty command keeps
the key as it was. -/
example : incoming 0 0 [0, 65] [0, 0] 0 = [0, 130] ∧ incoming 0 0 [] [0, 0] 0 = [0, 0] := by decide

/-- The key text of a command without a leading NUL is its text before the first NUL. -/
theorem transform_keystream_plainCommand :
    keyText [104, 105, 0, 120] = [104, 105, 0, 120].takeWhile (· ≠ 0) :=
  (transform_keystream 0 0 0 0 [104, 105, 0, 120] [] 0 0).2.2.2.2 (by decide)

end Netcode.Cipher
