import Mathlib
import Netcode.Console.Cvar

set_option autoImplicit false

namespace Netcode

/-- A call on the registry, as a client makes it. -/
inductive CvarOp where
  | register (name default : String) (userinfo : Bool)
  | get (name : String)
  | getValue (name : String)
  | set (name value : String)
  | takeModified
  deriving DecidableEq, Repr

namespace CvarStep

variable {α β : Type} (r : CvarRegistry)

theorem run_get_bind (f : CvarRegistry → CvarStep β) : (get >>= f).run.run r = (f r).run.run r := rfl

theorem run_bind (x : CvarStep α) (f : α → CvarStep β) :
    (x >>= f).run.run r = match x.run.run r with
      | (.ok a, t) => (f a).run.run t
      | (.error e, t) => (.error e, t) := by
  simp only [bind, ExceptT.bind, ExceptT.run, ExceptT.mk, StateT.bind, StateT.run]
  rcases x r with ⟨_ | _, _⟩ <;> rfl

theorem run_lookup (name : String) : (lookup name).run.run r = match r.find? name with
    | some c => (.ok c, r)
    | none => (.error (.unregistered name), r) := by
  rw [lookup, run_get_bind]
  cases r.find? name <;> rfl

end CvarStep

namespace CvarOp

def step : CvarOp → CvarStep Unit
  | .register name default userinfo => CvarStep.register name default userinfo
  | .get name => do let _ ← CvarStep.getString name
  | .getValue name => do let _ ← CvarStep.getValue name
  | .set name value => CvarStep.setString name value
  | .takeModified => do let _ ← CvarStep.takeUserinfoModified

def apply (r : CvarRegistry) (op : CvarOp) : CvarRegistry :=
  (op.step.run.run r).2

/-- Whether a call changes the userinfo without `set`: a new userinfo variable registered, or a
userinfo value that does not read put back to its default. -/
def bypassesMark (r : CvarRegistry) : CvarOp → Bool
  | .register name _ userinfo => userinfo && !r.contains name
  | .getValue name => match r.find? name with
    | some c => c.userinfo && (Single.parse? c.value).isNone
    | none => false
  | _ => false

section Apply

variable (r : CvarRegistry)

theorem apply_register (name default : String) (userinfo : Bool) :
    (register name default userinfo).apply r =
      if r.contains name then r
      else { r with cvars := r.cvars ++ [(name, ⟨default, userinfo, default⟩)] } := by
  rw [apply, step, CvarStep.register, CvarStep.run_get_bind]
  by_cases known : r.contains name
  · simp only [known, if_true]
    rfl
  · simp only [known]
    rfl

theorem apply_get (name : String) : (get name).apply r = r := by
  rw [apply, step, CvarStep.getString, CvarStep.run_bind, CvarStep.run_bind, CvarStep.run_lookup]
  cases r.find? name <;> rfl

theorem apply_getValue (name : String) :
    (getValue name).apply r = match r.find? name with
      | some c => if (Single.parse? c.value).isSome then r else r.update name { c with value := c.default }
      | none => r := by
  rw [apply, step, CvarStep.getValue, CvarStep.run_bind, CvarStep.run_bind, CvarStep.run_lookup]
  cases r.find? name with
  | none => rfl
  | some c =>
    cases parsed : Single.parse? c.value with
    | some v => simp [parsed]; rfl
    | none => cases fallback : Single.parse? c.default <;> simp [parsed, fallback] <;> rfl

theorem apply_set (name value : String) :
    (set name value).apply r = match r.find? name with
      | some c => if c.userinfo ∧ CvarRegistry.breaksUserinfo value then r
        else if c.value ≠ value then
          ⟨(r.update name { c with value := value }).cvars, r.userinfoModified || c.userinfo⟩
        else r
      | none => r := by
  rw [apply, step, CvarStep.setString, CvarStep.run_bind, CvarStep.run_lookup]
  cases r.find? name with
  | none => rfl
  | some c =>
    by_cases refused : c.userinfo ∧ CvarRegistry.breaksUserinfo value
    · simp [refused]; rfl
    · by_cases same : c.value = value
      · simp [refused, same]; rfl
      · simp [refused, same]; rfl

theorem apply_takeModified : takeModified.apply r = { r with userinfoModified := false } := rfl

end Apply

end CvarOp

namespace CvarRegistry

def runAll (r : CvarRegistry) (ops : List CvarOp) : CvarRegistry :=
  ops.foldl CvarOp.apply r

/-- Whether a run of calls from `r` makes no take and changes the userinfo only through `set`. -/
def quietRun : CvarRegistry → List CvarOp → Bool
  | _, [] => true
  | r, op :: rest => op != .takeModified && !op.bypassesMark r && quietRun (op.apply r) rest

def Distinct (r : CvarRegistry) : Prop :=
  (r.cvars.map (·.1)).Nodup

def userinfoNames (r : CvarRegistry) : List String :=
  (r.cvars.filter (·.2.userinfo)).map (·.1)

def userinfoValue (r : CvarRegistry) (n : String) : String :=
  ((r.find? n).map (·.value)).getD ""

theorem userinfo_eq (r : CvarRegistry) : r.userinfo =
    (r.userinfoNames.mergeSort fun a b => decide (a ≤ b)).foldl (fun info n => info.set n (r.userinfoValue n)) {} :=
  rfl

theorem userinfo_mk (r : CvarRegistry) (modified : Bool) : (⟨r.cvars, modified⟩ : CvarRegistry).userinfo = r.userinfo :=
  rfl

theorem userinfo_congr {r r' : CvarRegistry} (names : r'.userinfoNames = r.userinfoNames)
    (values : ∀ n ∈ r.userinfoNames, r'.userinfoValue n = r.userinfoValue n) : r'.userinfo = r.userinfo := by
  rw [userinfo_eq, userinfo_eq, names]
  apply List.foldl_ext
  intro info n mem
  rw [values n (List.mem_mergeSort.mp mem)]

theorem mem_of_find? {r : CvarRegistry} {n : String} {c : Cvar} (found : r.find? n = some c) : (n, c) ∈ r.cvars := by
  rw [find?, Option.map_eq_some_iff] at found
  obtain ⟨e, found, rfl⟩ := found
  have key : e.1 = n := by simpa using List.find?_some found
  rw [← key]
  exact List.mem_of_find?_eq_some found

theorem find?_update (r : CvarRegistry) (name : String) (c : Cvar) (n : String) :
    (r.update name c).find? n = (r.find? n).map fun old => if n = name then c else old := by
  simp only [find?, update, List.find?_map]
  -- a replacement keeps every name, so the search stops at the same place
  have keyed : ((fun e : String × Cvar => decide (e.1 = n)) ∘ fun e : String × Cvar =>
      (e.1, if e.1 = name then c else e.2)) = fun e => decide (e.1 = n) := rfl
  rw [keyed]
  cases found : r.cvars.find? (fun e => decide (e.1 = n)) with
  | none => rfl
  | some e =>
    have key : e.1 = n := by simpa using List.find?_some found
    simp [key]

theorem distinct_update {r : CvarRegistry} (distinct : r.Distinct) (name : String) (c : Cvar) :
    (r.update name c).Distinct := by
  simpa [Distinct, update, Function.comp_def] using distinct

theorem userinfoNames_update {r : CvarRegistry} (distinct : r.Distinct) {name : String} {c c' : Cvar}
    (found : r.find? name = some c) (flag : c'.userinfo = c.userinfo) :
    (r.update name c').userinfoNames = r.userinfoNames := by
  -- the only variable of that name is the one found, so no other flag moves
  have flags : ∀ e ∈ r.cvars, (if e.1 = name then c' else e.2).userinfo = e.2.userinfo := by
    intro e mem
    by_cases named : e.1 = name
    · have own : e = (name, c) :=
        List.inj_on_of_nodup_map distinct mem (mem_of_find? found) named
      rw [if_pos named, flag, own]
    · rw [if_neg named]
  have kept : r.cvars.filter (fun e => (if e.1 = name then c' else e.2).userinfo) =
      r.cvars.filter (fun e => e.2.userinfo) :=
    List.filter_congr fun e mem => by rw [flags e mem]
  simp only [userinfoNames, update, List.filter_map, List.map_map]
  exact congrArg (List.map (·.1)) kept

theorem userinfo_update_of_plain {r : CvarRegistry} (distinct : r.Distinct) {name : String} {c : Cvar}
    (found : r.find? name = some c) (plain : c.userinfo = false) (c' : Cvar) (plain' : c'.userinfo = false) :
    (r.update name c').userinfo = r.userinfo := by
  apply userinfo_congr (userinfoNames_update distinct found (plain'.trans plain.symm))
  intro n mem
  have other : n ≠ name := by
    rintro rfl
    obtain ⟨e, kept, key⟩ := List.mem_map.mp mem
    have flagged := (List.mem_filter.mp kept).2
    have own : e = (n, c) := List.inj_on_of_nodup_map distinct (List.mem_filter.mp kept).1 (mem_of_find? found) key
    rw [own, plain] at flagged
    exact absurd flagged (by decide)
  simp [userinfoValue, find?_update, other]

theorem userinfo_register_plain {r : CvarRegistry} (name : String) (c : Cvar) (plain : c.userinfo = false) :
    ({ r with cvars := r.cvars ++ [(name, c)] } : CvarRegistry).userinfo = r.userinfo := by
  have names : ({ r with cvars := r.cvars ++ [(name, c)] } : CvarRegistry).userinfoNames = r.userinfoNames := by
    simp [userinfoNames, plain]
  apply userinfo_congr names
  intro n mem
  -- a userinfo name is already registered, so the lookup stops before the new variable
  obtain ⟨e, kept, key⟩ := List.mem_map.mp mem
  obtain ⟨found, foundAt⟩ : ∃ f, r.cvars.find? (·.1 = n) = some f :=
    Option.isSome_iff_exists.mp (List.find?_isSome.mpr ⟨e, (List.mem_filter.mp kept).1, by simpa using key⟩)
  simp [userinfoValue, find?, List.find?_append, foundAt]

theorem not_mem_names_of_contains {r : CvarRegistry} {name : String} (fresh : r.contains name = false) :
    name ∉ r.cvars.map (·.1) := by
  intro mem
  obtain ⟨e, inside, key⟩ := List.mem_map.mp mem
  have none : r.cvars.find? (·.1 = name) = none := by
    simpa [contains, find?] using fresh
  exact List.find?_eq_none.mp none e inside (by simpa using key)

theorem distinct_empty : ({} : CvarRegistry).Distinct :=
  List.nodup_nil

theorem Distinct.apply {r : CvarRegistry} (distinct : r.Distinct) : ∀ op : CvarOp, (op.apply r).Distinct
  | .register name default userinfo => by
    rw [CvarOp.apply_register]
    split
    · exact distinct
    · rename_i known
      have fresh : r.contains name = false := by simpa using known
      simpa [Distinct] using List.Nodup.append distinct (List.nodup_singleton name)
        (List.disjoint_singleton.mpr (not_mem_names_of_contains fresh))
  | .get name => by rw [CvarOp.apply_get]; exact distinct
  | .getValue name => by
    rw [CvarOp.apply_getValue]
    split
    · split
      · exact distinct
      · exact distinct_update distinct _ _
    · exact distinct
  | .set name value => by
    rw [CvarOp.apply_set]
    split
    · split
      · exact distinct
      · split
        · exact distinct_update distinct _ _
        · exact distinct
    · exact distinct
  | .takeModified => distinct

theorem Distinct.runAll {r : CvarRegistry} (distinct : r.Distinct) (ops : List CvarOp) : (r.runAll ops).Distinct := by
  induction ops generalizing r with
  | nil => exact distinct
  | cons op rest ih => exact ih (distinct.apply op)

/-- The mark accounts for the userinfo: while it is down, the userinfo is `seen`. -/
def Marks (seen : InfoString) (r : CvarRegistry) : Prop :=
  r.userinfoModified = false → r.userinfo = seen

/-- A call that is no take and changes the userinfo only through `set` keeps the mark accounting
for it: either the call leaves the userinfo and the mark alone, or it raises the mark. -/
theorem Marks.apply {seen : InfoString} {r : CvarRegistry} (marks : Marks seen r) (distinct : r.Distinct) :
    ∀ op : CvarOp, op ≠ .takeModified → op.bypassesMark r = false → Marks seen (op.apply r)
  | .register name default userinfo, _, direct => by
    rw [CvarOp.apply_register]
    split
    · exact marks
    · rename_i known
      have plain : userinfo = false := by simpa [CvarOp.bypassesMark, known] using direct
      intro down
      rw [userinfo_register_plain name _ plain]
      exact marks down
  | .get name, _, _ => by rw [CvarOp.apply_get]; exact marks
  | .getValue name, _, direct => by
    rw [CvarOp.apply_getValue]
    split
    · rename_i c found
      split
      · exact marks
      · -- the default goes back only into a variable outside the userinfo
        rename_i unread
        have plain : c.userinfo = false := by
          simpa [CvarOp.bypassesMark, found, Option.not_isSome_iff_eq_none.mp unread] using direct
        intro down
        rw [userinfo_update_of_plain distinct found plain { c with value := c.default } plain]
        exact marks down
    · exact marks
  | .set name value, _, _ => by
    rw [CvarOp.apply_set]
    split
    · rename_i c found
      split
      · exact marks
      · split
        · -- a change to a userinfo variable raises the mark; any other leaves the userinfo
          intro down
          by_cases flag : c.userinfo = true
          · simp [flag] at down
          · have plain : c.userinfo = false := by simpa using flag
            rw [userinfo_mk, userinfo_update_of_plain distinct found plain { c with value := value } plain]
            exact marks (by simpa [plain] using down)
        · exact marks
    · exact marks
  | .takeModified, notTake, _ => absurd rfl notTake

theorem Marks.runAll {seen : InfoString} {r : CvarRegistry} (marks : Marks seen r) (distinct : r.Distinct)
    (ops : List CvarOp) (quiet : quietRun r ops = true) : Marks seen (r.runAll ops) := by
  induction ops generalizing r with
  | nil => exact marks
  | cons op rest ih =>
    simp only [quietRun, Bool.and_eq_true, bne_iff_ne, ne_eq, Bool.not_eq_true'] at quiet
    obtain ⟨⟨notTake, direct⟩, quietRest⟩ := quiet
    exact ih (marks.apply distinct op notTake direct) (distinct.apply op) quietRest

/-- A run that makes no take and changes the userinfo only through `set` raises the mark for every
change: a take that answers false finds the userinfo as the run began. -/
theorem takeUserinfoModified_tracksSet (pre run : List CvarOp) (quiet : quietRun (runAll {} pre) run = true) :
    (CvarStep.takeUserinfoModified.run.run ((runAll {} pre).runAll run)).1 = .ok false →
      ((runAll {} pre).runAll run).userinfo = (runAll {} pre).userinfo := by
  intro unchanged
  have start : Marks (runAll {} pre).userinfo (runAll {} pre) := fun _ => rfl
  have distinct := distinct_empty.runAll pre
  exact start.runAll distinct run quiet (Except.ok.inj unchanged)

theorem takeUserinfoModified_tracksSet_rate :
    quietRun (runAll {} []) [.register "rate" "25000" false, .set "rate" "30000"] = true ∧
      ((CvarStep.takeUserinfoModified.run.run
          ((runAll {} []).runAll [.register "rate" "25000" false, .set "rate" "30000"])).1 = .ok false →
        ((runAll {} []).runAll [.register "rate" "25000" false, .set "rate" "30000"]).userinfo =
          (runAll {} []).userinfo) :=
  ⟨by decide, takeUserinfoModified_tracksSet [] _ (by decide)⟩

/-- Registering a userinfo variable changes the userinfo without raising the mark: the take that
follows answers that nothing changed. -/
theorem takeUserinfoModified_missesRegistration :
    (CvarStep.takeUserinfoModified.run.run (runAll {} [.register "name" "x" true])).1 = .ok false ∧
      (runAll {} [.register "name" "x" true]).userinfo ≠ (runAll {} []).userinfo := by
  have registered : runAll {} [.register "name" "x" true] = { cvars := [("name", ⟨"x", true, "x"⟩)] } := by
    rw [runAll, List.foldl_cons, List.foldl_nil, CvarOp.apply_register]
    rfl
  have before : (runAll {} []).userinfo = {} := by
    simp [runAll, userinfo_eq, userinfoNames]
  have after : (runAll {} [.register "name" "x" true]).userinfo = ({} : InfoString).set "name" "x" := by
    simp [registered, userinfo_eq, userinfoNames, userinfoValue, find?]
  refine ⟨rfl, ?_⟩
  rw [before, after]
  decide

end CvarRegistry

end Netcode
