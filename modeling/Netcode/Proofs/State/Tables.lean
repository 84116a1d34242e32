import Mathlib
import Netcode.Proofs.Snapshot.Merge
import Netcode.State.GameState

set_option autoImplicit false

namespace Netcode

section Slots

variable {α : Type}

theorem getElem?_foldl_set!_of_not_mem (entries : List (Nat × α)) (arr : Array α) {k : Nat}
    (untouched : k ∉ entries.map Prod.fst) :
    (entries.foldl (fun a e => a.set! e.1 e.2) arr)[k]? = arr[k]? := by
  induction entries generalizing arr with
  | nil => rfl
  | cons e rest ih =>
    have other : e.1 ≠ k := fun same => untouched (by simp [same])
    rw [List.foldl_cons, ih _ (fun mem => untouched (List.mem_cons_of_mem _ mem)), Array.set!_eq_setIfInBounds,
      Array.getElem?_setIfInBounds_ne other]

theorem getElem?_foldl_set!_of_agree (entries : List (Nat × α)) (arr : Array α) {k : Nat} {v : α}
    (mem : (k, v) ∈ entries) (agree : ∀ e ∈ entries, e.1 = k → e.2 = v) (inside : k < arr.size) :
    (entries.foldl (fun a e => a.set! e.1 e.2) arr)[k]? = some v := by
  induction entries generalizing arr with
  | nil => exact absurd mem List.not_mem_nil
  | cons e rest ih =>
    rw [List.foldl_cons]
    by_cases later : k ∈ rest.map Prod.fst
    · -- a later entry names the slot, and sets it to the same value
      obtain ⟨⟨k', v'⟩, mem', same⟩ := List.mem_map.mp later
      obtain rfl : k' = k := same
      obtain rfl : v' = v := agree _ (List.mem_cons_of_mem _ mem') rfl
      refine ih _ mem' (fun e' named => agree e' (List.mem_cons_of_mem _ named)) ?_
      rw [Array.set!_eq_setIfInBounds, Array.size_setIfInBounds]
      exact inside
    · -- this entry is the last to name the slot
      obtain rfl : e = (k, v) := by
        rcases List.mem_cons.mp mem with same | inRest
        · exact same.symm
        · exact (later (List.mem_map_of_mem inRest)).elim
      rw [getElem?_foldl_set!_of_not_mem _ _ later, Array.set!_eq_setIfInBounds,
        Array.getElem?_setIfInBounds_self_of_lt inside]

/-- Entries written into a blank array rebuild `out` when each entry writes the value `out` holds
in its slot and every slot of `out` that is not blank is named by an entry. -/
theorem foldl_set!_rebuilds (entries : List (Nat × α)) (blank : α) (out : Array α)
    (written : ∀ e ∈ entries, out[e.1]? = some e.2)
    (covered : ∀ k v, out[k]? = some v → v ≠ blank → k ∈ entries.map Prod.fst) :
    entries.foldl (fun a e => a.set! e.1 e.2) (Array.replicate out.size blank) = out := by
  apply Array.ext_getElem?
  intro k
  by_cases named : k ∈ entries.map Prod.fst
  · -- every entry that names the slot writes the value `out` holds there
    obtain ⟨⟨k, v⟩, mem, rfl⟩ := List.mem_map.mp named
    have stored : out[k]? = some v := written _ mem
    have agree : ∀ e ∈ entries, e.1 = k → e.2 = v := fun e mem' same =>
      Option.some.inj ((written e mem').symm.trans (same ▸ stored))
    have inside : k < out.size := (Array.getElem?_eq_some_iff.mp stored).1
    rw [getElem?_foldl_set!_of_agree _ _ mem agree (by simpa using inside), stored]
  · -- a slot no entry names stays blank, as it is in `out`
    rw [getElem?_foldl_set!_of_not_mem _ _ named, Array.getElem?_replicate]
    cases stored : out[k]? with
    | none => rw [if_neg (by simpa using Array.getElem?_eq_none_iff.mp stored)]
    | some v =>
      rw [if_pos (Array.getElem?_eq_some_iff.mp stored).1]
      by_cases isBlank : v = blank
      · rw [isBlank]
      · exact absurd (covered k v stored isBlank) named

theorem mem_toList_filterMap_id {β : Type} (slots : Array (Option β)) (b : β) :
    b ∈ slots.toList.filterMap id ↔ ∃ n : Nat, slots[n]? = some (some b) := by
  rw [List.mem_filterMap]
  simp only [id, exists_eq_right]
  rw [List.mem_iff_getElem?]
  exact exists_congr fun n => by rw [Array.getElem?_toList]

theorem foldl_set!_present {β γ : Type} (slots : Array (Option β)) (key : β → Nat) (f : β → γ)
    (placed : ∀ n b, slots[n]? = some (some b) → key b = n) :
    ((slots.toList.filterMap id).map fun b => (key b, some (f b))).foldl (fun a e => a.set! e.1 e.2)
      (Array.replicate slots.size none) = slots.map (Option.map f) := by
  have present := mem_toList_filterMap_id slots
  have size : (slots.map (Option.map f)).size = slots.size := Array.size_map
  rw [← size]
  apply foldl_set!_rebuilds
  · -- each present value is written into its own slot
    simp only [List.mem_map]
    rintro _ ⟨b, mem, rfl⟩
    obtain ⟨n, stored⟩ := (present b).mp mem
    rw [placed n b stored, Array.getElem?_map, stored]
    rfl
  · -- a slot that holds a value is named by its key
    intro k v stored filled
    rw [Array.getElem?_map] at stored
    obtain ⟨slot, inSlots, rfl⟩ := Option.map_eq_some_iff.mp stored
    cases slot with
    | none => exact absurd rfl filled
    | some b =>
      refine List.mem_map.mpr ⟨(key b, some (f b)), List.mem_map.mpr ⟨b, (present b).mpr ⟨k, inSlots⟩, rfl⟩, ?_⟩
      exact placed k b inSlots

end Slots

theorem sum_set_add_getElem (l : List Nat) {i : Nat} (v : Nat) (inside : i < l.length) :
    (l.set i v).sum + l[i] = l.sum + v := by
  have split := List.sum_take_add_sum_drop l i
  rw [List.drop_eq_getElem_cons inside, List.sum_cons] at split
  rw [List.sum_set, if_pos inside]
  omega

namespace GameState

theorem cost_empty : cost "" = 0 := rfl

theorem cost_of_ne {s : String} (nonempty : s.isEmpty = false) : cost s = s.utf8ByteSize + 1 := by
  rw [cost, if_neg (by simp [nonempty])]

theorem sum_cost_nonEmpty (g : GameState) :
    (g.nonEmpty.map fun e => e.2.utf8ByteSize + 1).sum = (g.configStrings.toList.map cost).sum := by
  have zipped : ∀ (l : List String) (start : Nat),
      (((l.zipIdx start).filter fun e => !e.1.isEmpty).map fun e => e.1.utf8ByteSize + 1).sum =
        (l.map cost).sum := by
    intro l
    induction l with
    | nil => simp
    | cons s rest ih =>
      intro start
      by_cases empty : s.isEmpty = true
      · simp [List.zipIdx_cons, empty, ih, cost]
      · simp [List.zipIdx_cons, empty, ih, cost_of_ne (Bool.eq_false_iff.mpr empty)]
  simpa [nonEmpty, List.map_filter, Function.comp_def] using zipped g.configStrings.toList 0

theorem mem_nonEmpty {g : GameState} {i : Nat} {s : String} :
    (i, s) ∈ g.nonEmpty ↔ g.configStrings[i]? = some s ∧ s.isEmpty = false := by
  simp [nonEmpty, List.mem_zipIdx_iff_getElem?, and_comm]

theorem mem_presentBaselines {g : GameState} {b : EntityState} :
    b ∈ g.presentBaselines ↔ ∃ n : Nat, g.baselines[n]? = some (some b) :=
  mem_toList_filterMap_id g.baselines b

theorem nodup_nonEmpty (g : GameState) : (g.nonEmpty.map Prod.fst).Nodup := by
  have keys : g.nonEmpty.map Prod.fst = (g.configStrings.toList.zipIdx.filter fun e => !e.1.isEmpty).map Prod.snd := by
    simp [nonEmpty, List.map_map, Function.comp_def]
  rw [keys]
  exact (List.filter_sublist.map Prod.snd).nodup (List.nodup_zipIdx_map_snd _)

theorem foldl_set!_nonEmpty (g : GameState) (keep : Nat → Bool) :
    (g.nonEmpty.filter fun e => keep e.1).foldl (fun a e => a.set! e.1 e.2) (Array.replicate g.configStrings.size "") =
      g.configStrings.mapIdx fun i s => if keep i then s else "" := by
  have size : (g.configStrings.mapIdx fun i s => if keep i then s else "").size = g.configStrings.size :=
    Array.size_mapIdx
  rw [← size]
  apply foldl_set!_rebuilds
  · -- each kept string is written into its own slot
    rintro ⟨i, s⟩ mem
    rw [List.mem_filter, mem_nonEmpty] at mem
    obtain ⟨⟨stored, -⟩, keeps⟩ := mem
    rw [Array.getElem?_mapIdx, stored, Option.map_some, if_pos keeps]
  · -- a slot left with a string holds a kept, non-empty one
    intro k v stored filled
    rw [Array.getElem?_mapIdx] at stored
    obtain ⟨s, inSlots, shown⟩ := Option.map_eq_some_iff.mp stored
    by_cases keeps : keep k = true
    · rw [if_pos keeps] at shown
      have nonempty : s.isEmpty = false := by simpa [String.isEmpty_iff, shown] using filled
      exact List.mem_map.mpr ⟨(k, s), List.mem_filter.mpr ⟨mem_nonEmpty.mpr ⟨inSlots, nonempty⟩, keeps⟩, rfl⟩
    · rw [if_neg keeps] at shown
      exact absurd shown.symm filled

variable (p : Protocol)

/-- Game states made from a protocol's empty one by successful declarations: NUL-free config strings
under the big info limit, and baselines numbered below the end number. -/
inductive Built : GameState → Prop
  | new (sequence : UInt32) (clientNum checksumFeed : Int32) (frameTime : Option Single) :
      Built { GameState.new p.limits with
        serverCommandSequence := sequence
        clientNum := clientNum
        checksumFeed := checksumFeed
        serverFrameTime := frameTime }
  | configString {g g' : GameState} (i : Nat) (value : String) (free : Char.ofNat 0 ∉ value.toList)
      (short : value.utf8ByteSize < Wire.bigInfoString) (set : g.setConfigString i value = .ok g') :
      Built g → Built g'
  | baseline {g g' : GameState} (s : EntityState) (numbered : p.Numbered s) (set : g.setBaseline s = .ok g') :
      Built g → Built g'

/-- The shape every built game state keeps. -/
structure Shaped (g : GameState) : Prop where
  limits : g.limits = p.limits
  strings : g.configStrings.size = p.limits.maxConfigStrings
  slots : g.baselines.size = p.limits.maxBaselines
  clean : ∀ s ∈ g.configStrings, Char.ofNat 0 ∉ s.toList ∧ s.utf8ByteSize < Wire.bigInfoString
  count : g.dataCount = (g.configStrings.toList.map cost).sum
  budget : g.dataCount ≤ p.limits.maxChars
  placed : ∀ n b, g.baselines[n]? = some (some b) → b.number.toNatClampNeg = n ∧ p.Numbered b

variable {p}

theorem shaped_new (sequence : UInt32) (clientNum checksumFeed : Int32) (frameTime : Option Single) :
    Shaped p { GameState.new p.limits with
      serverCommandSequence := sequence
      clientNum := clientNum
      checksumFeed := checksumFeed
      serverFrameTime := frameTime } where
  limits := rfl
  strings := by simp [GameState.new]
  slots := by simp [GameState.new]
  clean := fun s mem => by
    change s ∈ Array.replicate p.limits.maxConfigStrings "" at mem
    rw [Array.mem_replicate] at mem
    rw [mem.2]
    exact ⟨List.not_mem_nil, by decide⟩
  count := by simp [GameState.new, cost_empty]
  budget := Nat.zero_le _
  placed := fun n b stored => by simp [GameState.new, Array.getElem?_replicate] at stored

theorem setConfigString_ok {g g' : GameState} {i : Nat} {value : String} (set : g.setConfigString i value = .ok g') :
    i < g.limits.maxConfigStrings ∧ g.dataCount - cost (g.configStrings[i]?.getD "") + cost value ≤ g.limits.maxChars ∧
      g' = { g with
        dataCount := g.dataCount - cost (g.configStrings[i]?.getD "") + cost value
        configStrings := g.configStrings.set! i value } := by
  unfold setConfigString at set
  dsimp only at set
  split_ifs at set with beyond overflow
  obtain rfl := (Except.ok.inj set).symm
  exact ⟨Nat.lt_of_not_le beyond, Nat.le_of_not_lt overflow, rfl⟩

theorem setConfigString_of_blank (g : GameState) {i : Nat} (value : String) (inside : i < g.limits.maxConfigStrings)
    (blank : g.configStrings[i]? = some "") (fits : g.dataCount + cost value ≤ g.limits.maxChars) :
    g.setConfigString i value = .ok { g with
      dataCount := g.dataCount + cost value
      configStrings := g.configStrings.set! i value } := by
  have count : g.dataCount - cost (g.configStrings[i]?.getD "") + cost value = g.dataCount + cost value := by
    rw [blank, Option.getD_some, cost_empty, Nat.sub_zero]
  unfold setConfigString
  dsimp only
  rw [if_neg (Nat.not_le.mpr inside), count, if_neg (Nat.not_lt.mpr fits)]

/-- Strings set one after another into empty slots, each slot once and within the budget: every
slot holds its string and the count grows by their costs. -/
theorem foldlM_setConfigString (entries : List (Nat × String)) (g : GameState)
    (distinct : (entries.map Prod.fst).Nodup) (inside : ∀ e ∈ entries, e.1 < g.limits.maxConfigStrings)
    (blank : ∀ e ∈ entries, g.configStrings[e.1]? = some "")
    (fits : g.dataCount + (entries.map fun e => cost e.2).sum ≤ g.limits.maxChars) :
    entries.foldlM (fun g e => g.setConfigString e.1 e.2) g = .ok { g with
      configStrings := entries.foldl (fun a e => a.set! e.1 e.2) g.configStrings
      dataCount := g.dataCount + (entries.map fun e => cost e.2).sum } := by
  induction entries generalizing g with
  | nil => rfl
  | cons e rest ih =>
    rw [List.map_cons, List.nodup_cons] at distinct
    rw [List.map_cons, List.sum_cons] at fits
    have first := g.setConfigString_of_blank e.2 (inside e (List.mem_cons_self ..))
      (blank e (List.mem_cons_self ..)) (by omega)
    -- the later strings go to other slots, still empty after this one
    have still : ∀ e' ∈ rest, (g.configStrings.set! e.1 e.2)[e'.1]? = some "" := fun e' mem => by
      have other : e.1 ≠ e'.1 := fun same => distinct.1 (same ▸ List.mem_map_of_mem mem)
      rw [Array.set!_eq_setIfInBounds, Array.getElem?_setIfInBounds_ne other]
      exact blank e' (List.mem_cons_of_mem _ mem)
    have next := ih { g with
        dataCount := g.dataCount + cost e.2
        configStrings := g.configStrings.set! e.1 e.2 }
      distinct.2 (fun e' mem => inside e' (List.mem_cons_of_mem _ mem)) still (by simp only; omega)
    rw [List.foldlM_cons, first]
    refine next.trans ?_
    simp only [List.foldl_cons, List.map_cons, List.sum_cons, Nat.add_assoc]

theorem Shaped.setConfigString {g g' : GameState} (shaped : g.Shaped p) {i : Nat} {value : String}
    (free : Char.ofNat 0 ∉ value.toList) (short : value.utf8ByteSize < Wire.bigInfoString)
    (set : g.setConfigString i value = .ok g') : g'.Shaped p := by
  obtain ⟨inside, fits, rfl⟩ := setConfigString_ok set
  rw [shaped.limits] at inside fits
  have inArray : i < g.configStrings.size := shaped.strings ▸ inside
  have listed : i < (g.configStrings.toList.map cost).length := by simpa using inArray
  have old : cost (g.configStrings[i]?.getD "") = (g.configStrings.toList.map cost)[i] := by
    simp [Array.getElem?_eq_getElem inArray]
  have traded := sum_set_add_getElem (g.configStrings.toList.map cost) (cost value) listed
  have within : cost (g.configStrings[i]?.getD "") ≤ g.dataCount := by
    rw [old, shaped.count]
    exact List.le_sum_of_mem (List.getElem_mem listed)
  refine ⟨shaped.limits, ?_, shaped.slots, fun s mem => ?_, ?_, fits, shaped.placed⟩
  · simpa [Array.set!_eq_setIfInBounds] using shaped.strings
  · rw [Array.set!_eq_setIfInBounds, ← Array.mem_toList_iff, Array.toList_setIfInBounds] at mem
    rcases List.mem_or_eq_of_mem_set mem with kept | rfl
    · exact shaped.clean s (Array.mem_toList_iff.mp kept)
    · exact ⟨free, short⟩
  · show g.dataCount - _ + cost value = _
    rw [Array.set!_eq_setIfInBounds, Array.toList_setIfInBounds, List.map_set, shaped.count]
    rw [old, shaped.count] at within
    rw [old]
    omega

theorem Shaped.setBaseline {g g' : GameState} (shaped : g.Shaped p) {s : EntityState} (numbered : p.Numbered s)
    (set : g.setBaseline s = .ok g') : g'.Shaped p := by
  unfold GameState.setBaseline at set
  split_ifs at set with refused
  obtain rfl := (Except.ok.inj set).symm
  refine ⟨shaped.limits, shaped.strings, by simpa [Array.set!_eq_setIfInBounds] using shaped.slots,
    shaped.clean, shaped.count, shaped.budget, fun n b stored => ?_⟩
  rw [Array.set!_eq_setIfInBounds] at stored
  by_cases here : s.number.toNatClampNeg = n
  · subst here
    have inside : s.number.toNatClampNeg < g.baselines.size := by
      rw [shaped.slots, ← shaped.limits]
      omega
    rw [Array.getElem?_setIfInBounds_self_of_lt inside] at stored
    obtain rfl := Option.some.inj (Option.some.inj stored)
    exact ⟨rfl, numbered⟩
  · rw [Array.getElem?_setIfInBounds_ne here] at stored
    exact shaped.placed n b stored

theorem Built.shaped {g : GameState} (built : g.Built p) : g.Shaped p := by
  induction built with
  | new sequence clientNum checksumFeed frameTime => exact shaped_new sequence clientNum checksumFeed frameTime
  | configString i value free short set _ ih => exact ih.setConfigString free short set
  | baseline s numbered set _ ih => exact ih.setBaseline numbered set

theorem Shaped.foldlM_setConfigString (entries : List (Nat × String)) {g g' : GameState} (shaped : g.Shaped p)
    (clean : ∀ e ∈ entries, Char.ofNat 0 ∉ e.2.toList ∧ e.2.utf8ByteSize < Wire.bigInfoString)
    (set : entries.foldlM (fun g e => g.setConfigString e.1 e.2) g = .ok g') : g'.Shaped p := by
  induction entries generalizing g with
  | nil => exact Except.ok.inj set ▸ shaped
  | cons e rest ih =>
    rw [List.foldlM_cons] at set
    cases first : g.setConfigString e.1 e.2 with
    | error err =>
      rw [first] at set
      exact absurd set (by simp [bind, Except.bind])
    | ok g₁ =>
      rw [first] at set
      have cleanFirst := clean e (List.mem_cons_self ..)
      exact ih (shaped.setConfigString cleanFirst.1 cleanFirst.2 first)
        (fun e' mem => clean e' (List.mem_cons_of_mem _ mem)) set

end GameState

end Netcode
