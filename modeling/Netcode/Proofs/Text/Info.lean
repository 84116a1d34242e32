import Netcode.Proofs.Text.Tokens

set_option autoImplicit false

namespace Netcode

namespace InfoString

/-- A text that holds none of the characters of the framing: no backslash, no double quote and no
semicolon. -/
def Unframed (s : String) : Prop :=
  ∀ c ∈ s.toList, c ≠ '\\' ∧ c ≠ '"' ∧ c ≠ ';'

/-- What the calls keep true of an info string: keys pairwise distinct without regard to ASCII
case, keys and values free of the framing, and values not empty. -/
structure Kept (info : InfoString) : Prop where
  distinct : info.pairs.Pairwise fun a b => sameKey a.1 b.1 = false
  keys : ∀ kv ∈ info.pairs, Unframed kv.1
  values : ∀ kv ∈ info.pairs, Unframed kv.2
  nonempty : ∀ kv ∈ info.pairs, kv.2 ≠ ""

/-- A call that changes an info string. -/
inductive Edit where
  | set (key value : String)
  | remove (key : String)
  deriving DecidableEq, Repr

def Edit.apply (info : InfoString) : Edit → InfoString
  | .set key value => info.set key value
  | .remove key => info.remove key

def editAll (info : InfoString) (edits : List Edit) : InfoString :=
  edits.foldl Edit.apply info

theorem unframed_clean (s : String) : Unframed (clean s) := by
  intro c mem
  rw [clean, String.toList_ofList, List.mem_filter] at mem
  simpa only [decide_eq_true_eq] using mem.2

theorem kept_empty : ({} : InfoString).Kept where
  distinct := List.Pairwise.nil
  keys := fun _ mem => absurd mem List.not_mem_nil
  values := fun _ mem => absurd mem List.not_mem_nil
  nonempty := fun _ mem => absurd mem List.not_mem_nil

theorem mem_remove {info : InfoString} {key : String} {kv : String × String} (mem : kv ∈ (info.remove key).pairs) :
    kv ∈ info.pairs ∧ sameKey kv.1 key = false := by
  rw [remove, List.mem_filter] at mem
  exact ⟨mem.1, by simpa using mem.2⟩

theorem Kept.remove {info : InfoString} (kept : info.Kept) (key : String) : (info.remove key).Kept where
  distinct := kept.distinct.filter _
  keys := fun kv mem => kept.keys kv (mem_remove mem).1
  values := fun kv mem => kept.values kv (mem_remove mem).1
  nonempty := fun kv mem => kept.nonempty kv (mem_remove mem).1

theorem Kept.set {info : InfoString} (kept : info.Kept) (key value : String) : (info.set key value).Kept := by
  have rest := kept.remove (clean key)
  rw [InfoString.set]
  split
  · exact rest
  · -- the new pair goes after every pair whose key differs from its own
    rename_i nonempty
    refine ⟨?_, ?_, ?_, ?_⟩
    · refine List.pairwise_append.mpr ⟨rest.distinct, List.pairwise_singleton _ _, ?_⟩
      intro a old b new
      rw [List.mem_singleton.mp new]
      exact (mem_remove old).2
    · exact List.forall_mem_append.mpr ⟨rest.keys, List.forall_mem_singleton.mpr (unframed_clean key)⟩
    · exact List.forall_mem_append.mpr ⟨rest.values, List.forall_mem_singleton.mpr (unframed_clean value)⟩
    · exact List.forall_mem_append.mpr
        ⟨rest.nonempty, List.forall_mem_singleton.mpr fun empty => nonempty (String.isEmpty_iff.mpr empty)⟩

theorem Kept.apply {info : InfoString} (kept : info.Kept) : ∀ e : Edit, (e.apply info).Kept
  | .set key value => kept.set key value
  | .remove key => kept.remove key

theorem Kept.editAll {info : InfoString} (kept : info.Kept) (edits : List Edit) : (info.editAll edits).Kept := by
  induction edits generalizing info with
  | nil => exact kept
  | cons e rest ih => exact ih (kept.apply e)

theorem Kept.parse_render {info : InfoString} (kept : info.Kept) : parse (render info) = info :=
  InfoString.parse_render info fun kv mem =>
    ⟨fun inKey => (kept.keys kv mem '\\' inKey).1 rfl, fun inValue => (kept.values kv mem '\\' inValue).1 rfl⟩

theorem findPaired_eq (key : String) (parts : List String) :
    findPaired key parts = ((pairUp parts).find? fun kv => sameKey kv.1 key).map (·.2) := by
  fun_induction findPaired key parts with
  | case1 k v rest found => simp [pairUp, found]
  | case2 k v rest differs ih => simp [pairUp, differs, ih]
  | case3 parts short =>
    -- fewer than two parts pair up to nothing
    obtain _ | ⟨k, _ | ⟨v, rest⟩⟩ := parts
    · rfl
    · rfl
    · exact absurd rfl (short k v rest)

theorem valueForKey_eq_get (src key : String) : valueForKey src key = (parse src).get key := by
  rw [valueForKey, findPaired_eq, parse, get]

/-- Info strings built by set and remove calls keep distinct keys, framing-free text and non-empty
values, and parse back from their text; a one-key lookup agrees with the parse. -/
theorem edits_roundTrip (edits : List Edit) (src key : String) :
    (editAll {} edits).Kept ∧ parse (editAll {} edits).render = editAll {} edits ∧
      valueForKey src key = (parse src).get key :=
  ⟨kept_empty.editAll edits, (kept_empty.editAll edits).parse_render, valueForKey_eq_get src key⟩

end InfoString

end Netcode
