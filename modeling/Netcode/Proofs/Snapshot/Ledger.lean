import Mathlib
import Netcode.Proofs.Snapshot.Parse

set_option autoImplicit false

namespace Netcode

namespace SnapshotManager

variable {n cmd : UInt32} {base after : SnapshotManager} {answer : Except NetError Bool}

theorem ParseEnds.pushed (ends : ParseEnds n cmd base answer after) (other : answer ≠ .ok true) :
    ∃ es : List EntityState, after = es.foldl push base := by
  unfold ParseEnds at ends
  split at ends
  · exact absurd rfl other
  · exact ends

section Steps

variable (mgr : SnapshotManager)

@[simp] theorem pushAll_state (es : List EntityState) : (es.foldl push mgr).state = mgr.state := by
  induction es generalizing mgr with
  | nil => rfl
  | cons e rest ih => exact ih (mgr.push e)

@[simp] theorem pushAll_current (es : List EntityState) : (es.foldl push mgr).current = mgr.current := by
  induction es generalizing mgr with
  | nil => rfl
  | cons e rest ih => exact ih (mgr.push e)

@[simp] theorem slot_pushAll (es : List EntityState) (n : UInt32) : (es.foldl push mgr).slot n = mgr.slot n := by
  simp [slot]

variable (ping : Int32)

@[simp] theorem setPing_current : (mgr.setPing ping).current = { mgr.current with ping := ping } := rfl

@[simp] theorem setPing_state : (mgr.setPing ping).state = mgr.state := rfl

@[simp] theorem setPing_parseEntitiesNum : (mgr.setPing ping).parseEntitiesNum = mgr.parseEntitiesNum := rfl

theorem setPing_getD {mgr : SnapshotManager} (sized : mgr.Sized) (j : Nat) :
    (mgr.setPing ping).snapshots.getD j {} =
      if slotOf mgr.current.messageNum = j ∧ (mgr.slot mgr.current.messageNum).messageNum = mgr.current.messageNum
      then { mgr.snapshots.getD j {} with ping := ping } else mgr.snapshots.getD j {} := by
  have inside : slotOf mgr.current.messageNum < mgr.snapshots.size := by
    rw [sized.snapshots]
    exact slotOf_lt _
  simp only [setPing]
  by_cases holds : (mgr.slot mgr.current.messageNum).messageNum = mgr.current.messageNum
  · by_cases here : slotOf mgr.current.messageNum = j
    · subst here
      simp [holds, Array.getD_eq_getD_getElem?, Array.getElem_modify, inside]
    · simp [holds, here, Array.getD_eq_getD_getElem?, Array.getElem?_modify]
  · simp [holds]

theorem Sized.setPing {mgr : SnapshotManager} (sized : mgr.Sized) : (mgr.setPing ping).Sized := by
  refine ⟨?_, sized.parseEntities⟩
  simp only [SnapshotManager.setPing]
  split
  · rw [Array.size_modify, sized.snapshots]
  · exact sized.snapshots

variable (snap : RawSnapshot)

theorem record_state_of_inactive (inactive : mgr.state = .inactive) : (mgr.record snap).state = .active := by
  simp [record, inactive]

theorem record_state_of_flowing (flowing : mgr.state ≠ .inactive) :
    (mgr.record snap).state =
      if (snap.snapFlags ^^^ mgr.current.snapFlags) &&& Snapshot.serverCountFlag ≠ 0 then .restarted else .active := by
  -- the match on the state takes its second arm, the state being no longer inactive
  simp only [record, invalidateGap_state, invalidateGap_current]

end Steps

section Gap

theorem getD_foldl_invalidate_of_spared (slotAt : Nat → Nat) (ks : List Nat) (snapshots : Array RawSnapshot)
    (j : Nat) (spared : ∀ k ∈ ks, slotAt k ≠ j) :
    (ks.foldl (fun a k => a.modify (slotAt k) fun s => { s with valid := false }) snapshots).getD j {} =
      snapshots.getD j {} := by
  induction ks generalizing snapshots with
  | nil => rfl
  | cons k ks ih =>
    rw [List.foldl_cons, ih _ fun k' mem => spared k' (List.mem_cons_of_mem _ mem)]
    simp [Array.getD_eq_getD_getElem?, Array.getElem?_modify, spared k List.mem_cons_self]

end Gap

end SnapshotManager

theorem UInt32.toInt_toInt32 (x : UInt32) :
    x.toInt32.toInt = if 2 * x.toNat < 2 ^ 32 then (x.toNat : Int) else (x.toNat : Int) - 2 ^ 32 := by
  rw [← Int32.toInt_toBitVec, UInt32.toBitVec_toInt32, BitVec.toInt_eq_toNat_cond]
  simp

namespace SnapshotManager

theorem age_outside_iff (age : UInt32) :
    (age.toInt32 < 0 ∨ age.toInt32.toNatClampNeg ≥ Snapshot.backup) ↔ ¬ age < 32 := by
  have zero : (0 : Int32).toInt = 0 := rfl
  have := age.toNat_lt
  rw [Int32.lt_iff_toInt_lt, UInt32.lt_iff_toNat_lt, zero]
  simp only [Int32.toNatClampNeg, UInt32.toInt_toInt32, Snapshot.backup]
  split
  · simp
  · simp
    omega

theorem slotOf_ne_of_close {a b : UInt32} (older : a < b) (close : b - a < 32) : slotOf b ≠ slotOf a := by
  have apart := UInt32.lt_iff_toNat_lt.mp older
  have near := UInt32.lt_iff_toNat_lt.mp close
  rw [UInt32.toNat_sub_of_le _ _ (UInt32.le_of_lt older)] at near
  simp only [slotOf, Snapshot.backup]
  simp only [UInt32.reduceToNat] at near
  omega

theorem sub_lt_of_between {a b c : UInt32} (ab : a ≤ b) (bc : b ≤ c) (close : c - a < 32) : b - a < 32 := by
  have first := UInt32.le_iff_toNat_le.mp ab
  have second := UInt32.le_iff_toNat_le.mp bc
  rw [UInt32.lt_iff_toNat_lt, UInt32.toNat_sub_of_le _ _ (UInt32.le_trans ab bc)] at close
  rw [UInt32.lt_iff_toNat_lt, UInt32.toNat_sub_of_le _ _ ab]
  simp only [UInt32.reduceToNat] at close ⊢
  omega

/-- Recording message `n` leaves the slot of a message `o` alone when the history has already
passed `o` and `n` is fewer than 32 messages after it: the gap lies strictly between. -/
theorem invalidateGap_getD_recent (mgr : SnapshotManager) {o n : UInt32} (older : o ≤ mgr.current.messageNum)
    (newer : mgr.current.messageNum < n) (close : n - o < 32) :
    (mgr.invalidateGap n).snapshots.getD (slotOf o) {} = mgr.snapshots.getD (slotOf o) {} := by
  simp only [invalidateGap]
  rw [foldl_invalidate]
  apply getD_foldl_invalidate_of_spared
  intro k mem
  have ordered := UInt32.le_iff_toNat_le.mp older
  have later := UInt32.lt_iff_toNat_lt.mp newer
  have near : n.toNat - o.toNat < 32 := by
    rw [UInt32.lt_iff_toNat_lt, UInt32.toNat_sub_of_le _ _ (UInt32.le_of_lt (UInt32.lt_of_le_of_lt older newer))] at close
    simpa using close
  have bounded := n.toNat_lt
  -- the gap starts right after the current message, and is shorter than the ring
  have gapNat : (n - (mgr.current.messageNum + 1)).toNat = n.toNat - mgr.current.messageNum.toNat - 1 := by
    rw [UInt32.toNat_sub, UInt32.toNat_add]
    simp only [UInt32.toNat_one]
    omega
  have gapInt : (n - (mgr.current.messageNum + 1)).toInt32.toInt = (n.toNat - mgr.current.messageNum.toNat - 1 : Nat) := by
    rw [UInt32.toInt_toInt32, gapNat]
    split <;> omega
  have within : ¬ (n - (mgr.current.messageNum + 1)).toInt32 ≥ Snapshot.backup.toInt32 := by
    have backup : Snapshot.backup.toInt32.toInt = 32 := rfl
    rw [ge_iff_le, Int32.le_iff_toInt_le, backup, gapInt]
    omega
  rw [if_neg within] at mem ⊢
  simp only [List.mem_range] at mem
  have short : k < n.toNat - mgr.current.messageNum.toNat - 1 := by
    split at mem
    · rwa [Int32.toNatClampNeg, gapInt, Int.toNat_natCast] at mem
    · omega
  simp [slotOf, Snapshot.backup, UInt32.toNat_add]
  omega

end SnapshotManager

/-- An operation on the snapshot history. -/
inductive HistoryOp where
  | parse (p : Protocol) (g : GameState) (n cmd : UInt32) (m : Message)
  | setPing (ping : Int32)
  | reset

namespace HistoryOp

def apply : HistoryOp → SnapshotManager → SnapshotManager
  | parse p g n cmd m, mgr => ((p.parseSnapshot g n cmd).run m mgr).2.2
  | setPing ping, mgr => mgr.setPing ping
  | reset, _ => {}

def run (mgr : SnapshotManager) (ops : List HistoryOp) : SnapshotManager :=
  ops.foldl (fun mgr op => op.apply mgr) mgr

end HistoryOp

/-- What an operation did to the history. -/
inductive HistoryEvent where
  | pushed (es : List EntityState)
  | stored (s : Snapshot)
  | pinged (ping : Int32)
  | cleared

namespace HistoryEvent

def apply : HistoryEvent → SnapshotManager → SnapshotManager
  | pushed es, mgr => es.foldl SnapshotManager.push mgr
  | stored s, mgr => (s.frame.entities.foldl SnapshotManager.push mgr).record (s.raw mgr.parseEntitiesNum)
  | pinged ping, mgr => mgr.setPing ping
  | cleared, _ => {}

/-- The event `e` accounts for `op` run from `mgr`: both leave the same history, and a parse stored
a snapshot of its message exactly when it answered true. -/
def Accounts (mgr : SnapshotManager) (op : HistoryOp) (e : HistoryEvent) : Prop :=
  op.apply mgr = e.apply mgr ∧
    match op, e with
    | .parse p g n cmd m, pushed _ => ((p.parseSnapshot g n cmd).run m mgr).1 ≠ .ok true
    | .parse p g n cmd m, stored s =>
      ((p.parseSnapshot g n cmd).run m mgr).1 = .ok true ∧ s.messageNum = n ∧ s.serverCommandNum = cmd ∧ s.ping = 0
    | .setPing ping, pinged ping' => ping' = ping
    | .reset, cleared => True
    | _, _ => False

def AccountsAll : SnapshotManager → List HistoryOp → List HistoryEvent → Prop
  | _, [], [] => True
  | mgr, op :: ops, e :: log => Accounts mgr op e ∧ AccountsAll (op.apply mgr) ops log
  | _, _, _ => False

def run (mgr : SnapshotManager) (log : List HistoryEvent) : SnapshotManager :=
  log.foldl (fun mgr e => e.apply mgr) mgr

theorem accounts_exists (mgr : SnapshotManager) (op : HistoryOp) : ∃ e, Accounts mgr op e := by
  cases op with
  | parse p g n cmd m =>
    have ends := SnapshotManager.parseSnapshot_ends p g n cmd m mgr
    by_cases answered : ((p.parseSnapshot g n cmd).run m mgr).1 = .ok true
    · rw [answered] at ends
      obtain ⟨s, message, command, unpinged, after⟩ := ends
      exact ⟨stored s, after, answered, message, command, unpinged⟩
    · obtain ⟨es, after⟩ := SnapshotManager.ParseEnds.pushed ends answered
      exact ⟨pushed es, after, answered⟩
  | setPing ping => exact ⟨pinged ping, rfl, rfl⟩
  | reset => exact ⟨cleared, rfl, trivial⟩

theorem accountsAll_exists : ∀ (ops : List HistoryOp) (mgr : SnapshotManager), ∃ log, AccountsAll mgr ops log
  | [], _ => ⟨[], trivial⟩
  | op :: ops, mgr => by
    obtain ⟨e, accounts⟩ := accounts_exists mgr op
    obtain ⟨log, rest⟩ := accountsAll_exists ops (op.apply mgr)
    exact ⟨e :: log, accounts, rest⟩

theorem AccountsAll.run_eq : ∀ {mgr : SnapshotManager} {ops : List HistoryOp} {log : List HistoryEvent},
    AccountsAll mgr ops log → HistoryOp.run mgr ops = run mgr log
  | _, [], [], _ => rfl
  | mgr, op :: ops, e :: log, ⟨accounts, rest⟩ => by
    rw [HistoryOp.run, List.foldl_cons, run, List.foldl_cons, ← accounts.1]
    exact rest.run_eq
  | _, [], _ :: _, accounts => accounts.elim
  | _, _ :: _, [], accounts => accounts.elim

end HistoryEvent

/-- What a run has done to the history: the entities pushed, and the snapshots stored since the last
reset, latest first, each with the entities pushed before it. -/
structure Ledger where
  pushed : Nat := 0
  stored : List (Snapshot × Nat) := []

namespace Ledger

def step (L : Ledger) : HistoryEvent → Ledger
  | .pushed es => { L with pushed := L.pushed + es.length }
  | .stored s => { pushed := L.pushed + s.frame.entities.length, stored := (s, L.pushed) :: L.stored }
  | .pinged ping => { L with stored := L.stored.modifyHead fun e => ({ e.1 with ping := ping }, e.2) }
  | .cleared => {}

def ofLog (log : List HistoryEvent) : Ledger :=
  log.foldl step {}

/-- The latest snapshot stored for message `n` since the last reset, with the number of entities
pushed before its own. -/
def latest (L : Ledger) (n : UInt32) : Option (Snapshot × Nat) :=
  L.stored.find? fun e => e.1.messageNum = n

/-- The state of the snapshot flow: inactive before the first snapshot, restarted when the latest
toggled the server count flag of the one before. -/
def status (L : Ledger) : SnapshotState :=
  match L.stored with
  | [] => .inactive
  | [_] => .active
  | e :: e' :: _ =>
    if (e.1.frame.snapFlags ^^^ e'.1.frame.snapFlags) &&& Snapshot.serverCountFlag ≠ 0 then .restarted else .active

def Restarted (L : Ledger) : Prop :=
  ∃ e e' rest, L.stored = e :: e' :: rest ∧ (e.1.frame.snapFlags ^^^ e'.1.frame.snapFlags) &&& Snapshot.serverCountFlag ≠ 0

def Increasing (L : Ledger) : Prop :=
  L.stored.Pairwise fun e e' => e'.1.messageNum < e.1.messageNum

theorem status_eq_inactive_iff (L : Ledger) : L.status = .inactive ↔ L.stored = [] := by
  obtain ⟨pushed, _ | ⟨e, _ | ⟨e', rest⟩⟩⟩ := L
  · simp [status]
  · simp [status]
  · simp only [status]
    split <;> simp

theorem status_eq_restarted_iff (L : Ledger) : L.status = .restarted ↔ L.Restarted := by
  obtain ⟨pushed, _ | ⟨e, _ | ⟨e', rest⟩⟩⟩ := L
  · simp [status, Restarted]
  · simp [status, Restarted]
  · simp only [status, Restarted]
    constructor
    · intro restarted
      refine ⟨e, e', rest, rfl, fun kept => ?_⟩
      rw [if_neg (not_not.mpr kept)] at restarted
      cases restarted
    · rintro ⟨x, y, z, same, toggled⟩
      simp only [List.cons.injEq] at same
      obtain ⟨rfl, rfl, rfl⟩ := same
      exact if_pos toggled

theorem latest_mem {L : Ledger} {n : UInt32} {e : Snapshot × Nat} (found : L.latest n = some e) :
    e ∈ L.stored ∧ e.1.messageNum = n := by
  unfold latest at found
  exact ⟨List.mem_of_find?_eq_some found, by simpa using List.find?_some found⟩

theorem latest_head {L : Ledger} {e : Snapshot × Nat} {rest : List (Snapshot × Nat)} (stored : L.stored = e :: rest) :
    L.latest e.1.messageNum = some e := by
  simp [latest, stored]

theorem latest_of_cons {L L' : Ledger} {e : Snapshot × Nat} {n : UInt32} (stored : L'.stored = e :: L.stored)
    (other : e.1.messageNum ≠ n) : L'.latest n = L.latest n := by
  simp [latest, stored, other]

theorem Increasing.le_head {L : Ledger} (increasing : L.Increasing) {h e : Snapshot × Nat}
    {rest : List (Snapshot × Nat)} (stored : L.stored = h :: rest) (mem : e ∈ L.stored) :
    e.1.messageNum ≤ h.1.messageNum := by
  rw [Increasing, stored, List.pairwise_cons] at increasing
  rw [stored] at mem
  rcases List.mem_cons.mp mem with rfl | deeper
  · exact UInt32.le_refl _
  · exact UInt32.le_of_lt (increasing.1 e deeper)

section Pings

variable (L : Ledger) (ping : Int32)

theorem pinged_nil (empty : L.stored = []) : L.step (.pinged ping) = L := by
  cases L
  simp_all [step]

theorem pinged_cons {h : Snapshot × Nat} {rest : List (Snapshot × Nat)} (stored : L.stored = h :: rest) :
    (L.step (.pinged ping)).stored = ({ h.1 with ping := ping }, h.2) :: rest := by
  simp [step, stored]

@[simp] theorem status_pinged : (L.step (.pinged ping)).status = L.status := by
  obtain ⟨pushed, _ | ⟨e, _ | ⟨e', rest⟩⟩⟩ := L <;> rfl

theorem increasing_pinged : (L.step (.pinged ping)).Increasing ↔ L.Increasing := by
  obtain ⟨pushed, _ | ⟨e, rest⟩⟩ := L
  · rfl
  · simp [Increasing, step, List.pairwise_cons]

theorem latest_pinged {h : Snapshot × Nat} {rest : List (Snapshot × Nat)} (stored : L.stored = h :: rest) (n : UInt32) :
    (L.step (.pinged ping)).latest n =
      if h.1.messageNum = n then some ({ h.1 with ping := ping }, h.2) else L.latest n := by
  by_cases here : h.1.messageNum = n
  · simp [latest, pinged_cons L ping stored, here]
  · simp [latest, pinged_cons L ping stored, stored, here]

end Pings

end Ledger

@[simp] theorem Snapshot.raw_messageNum (s : Snapshot) (k : Nat) : (s.raw k).messageNum = s.messageNum := rfl

namespace SnapshotManager

open Ledger

/-- The history holds what its ledger says. -/
structure Mirrors (mgr : SnapshotManager) (L : Ledger) : Prop where
  sized : mgr.Sized
  pushed : mgr.parseEntitiesNum = L.pushed
  state : mgr.state = L.status
  current : ∀ e ∈ L.stored.head?, mgr.current = e.1.raw e.2 ∧ mgr.slot e.1.messageNum = e.1.raw e.2
  slots : ∀ j, (mgr.snapshots.getD j {}).valid = true → ∃ e, L.latest (mgr.snapshots.getD j {}).messageNum = some e ∧
    mgr.snapshots.getD j {} = e.1.raw e.2 ∧ slotOf e.1.messageNum = j
  keeps : ∀ e ∈ L.stored, mgr.Keeps (e.1.raw e.2) e.1.frame
  recent : L.Increasing → ∀ e ∈ L.stored, mgr.current.messageNum - e.1.messageNum < 32 →
    mgr.slot e.1.messageNum = e.1.raw e.2

theorem mirrors_default : Mirrors {} {} where
  sized := sized_default
  pushed := rfl
  state := rfl
  current _ mem := by cases mem
  slots j valid := by
    have blank : ({} : SnapshotManager).snapshots.getD j {} = {} := by
      simp only [Array.getD_eq_getD_getElem?, Array.getElem?_replicate]
      split <;> rfl
    rw [blank] at valid
    cases valid
  keeps _ mem := by cases mem
  recent _ _ mem := by cases mem

variable {mgr : SnapshotManager} {L : Ledger}

theorem Mirrors.pushAll (mirrors : mgr.Mirrors L) (es : List EntityState) :
    (es.foldl push mgr).Mirrors (L.step (.pushed es)) where
  sized := mirrors.sized.pushAll es
  pushed := by simp [Ledger.step, mirrors.pushed]
  state := (pushAll_state mgr es).trans mirrors.state
  current := by
    simp only [pushAll_current, slot_pushAll]
    exact mirrors.current
  slots := by
    simp only [pushAll_snapshots]
    exact mirrors.slots
  keeps e mem := (mirrors.keeps e mem).pushAll es
  recent := by
    simp only [pushAll_current, slot_pushAll]
    exact mirrors.recent

/-- Recording a snapshot whose entities the ring holds from `k` on puts it on top of the ledger. -/
theorem Mirrors.record (mirrors : mgr.Mirrors L) (s : Snapshot) (k : Nat) (keeps : mgr.Keeps (s.raw k) s.frame) :
    (mgr.record (s.raw k)).Mirrors { L with stored := (s, k) :: L.stored } where
  sized := mirrors.sized.record _
  pushed := (record_parseEntitiesNum _ _).trans mirrors.pushed
  state := by
    rcases stored : L.stored with _ | ⟨h, rest⟩
    · -- the first snapshot since the reset starts the flow
      have inactive : mgr.state = .inactive := by rw [mirrors.state, status_eq_inactive_iff, stored]
      rw [record_state_of_inactive _ _ inactive]
      rfl
    · -- a later one compares its flags with the current snapshot's, the ledger's latest
      have flowing : mgr.state ≠ .inactive := by
        rw [mirrors.state, Ne, status_eq_inactive_iff, stored]
        exact List.cons_ne_nil h rest
      rw [record_state_of_flowing _ _ flowing, (mirrors.current h (by simp [stored])).1]
      rfl
  current e mem := by
    obtain rfl : (s, k) = e := Option.some.inj mem
    exact ⟨rfl, record_slot_self _ mirrors.sized⟩
  slots j valid := by
    rw [record_getD _ mirrors.sized] at valid ⊢
    split
    · rename_i here
      exact ⟨(s, k), latest_head (e := (s, k)) rfl, rfl, here⟩
    · -- another slot still valid after the invalidation is as it was
      rename_i here
      rw [if_neg here] at valid
      have kept := invalidateGap_getD mgr (s.raw k).messageNum valid
      rw [kept] at valid ⊢
      obtain ⟨e, found, held, slotted⟩ := mirrors.slots j valid
      have apart : s.messageNum ≠ (mgr.snapshots.getD j {}).messageNum := by
        intro same
        apply here
        rw [← slotted, (latest_mem found).2, Snapshot.raw_messageNum]
        exact congrArg slotOf same
      exact ⟨e, (latest_of_cons rfl apart).trans found, held, slotted⟩
  keeps e mem := by
    rcases List.mem_cons.mp mem with rfl | older
    · exact (keeps_record _).mpr keeps
    · exact (keeps_record _).mpr (mirrors.keeps e older)
  recent increasing e mem close := by
    rw [Increasing, List.pairwise_cons] at increasing
    rcases List.mem_cons.mp mem with rfl | older
    · exact record_slot_self _ mirrors.sized
    · -- an older snapshot lies before the current one, which lies before the new one
      obtain ⟨h, rest, stored⟩ := List.exists_cons_of_ne_nil (List.ne_nil_of_mem older)
      have current := (mirrors.current h (by simp [stored])).1
      have atMost : e.1.messageNum ≤ mgr.current.messageNum := by
        rw [current]
        exact Increasing.le_head increasing.2 stored older
      have newer : mgr.current.messageNum < s.messageNum := by
        rw [current]
        exact increasing.1 h (by simp [stored])
      rw [record_current] at close
      have apart : slotOf s.messageNum ≠ slotOf e.1.messageNum := slotOf_ne_of_close (increasing.1 e older) close
      rw [slot, record_getD _ mirrors.sized, Snapshot.raw_messageNum, if_neg apart, invalidateGap_getD_recent mgr atMost newer close]
      exact mirrors.recent increasing.2 e older (sub_lt_of_between atMost (UInt32.le_of_lt newer) close)

theorem Mirrors.invalid_of_nil (mirrors : mgr.Mirrors L) (empty : L.stored = []) (j : Nat) :
    (mgr.snapshots.getD j {}).valid = false := by
  by_contra valid
  obtain ⟨e, found, -⟩ := mirrors.slots j (Bool.not_eq_false _ ▸ valid)
  have mem := (latest_mem found).1
  rw [empty] at mem
  cases mem

theorem Mirrors.setPing_of_nil (mirrors : mgr.Mirrors L) (ping : Int32) (stored : L.stored = []) :
    (mgr.setPing ping).Mirrors (L.step (.pinged ping)) := by
  rw [pinged_nil L ping stored]
  refine ⟨mirrors.sized.setPing ping, mirrors.pushed, mirrors.state, by simp [stored], fun j valid => ?_,
    fun e mem => by simp [stored] at mem, fun _ e mem => by simp [stored] at mem⟩
  have before : (mgr.snapshots.getD j {}).valid = true := by
    rw [setPing_getD ping mirrors.sized] at valid
    split at valid
    · exact valid
    · exact valid
  rw [mirrors.invalid_of_nil stored] at before
  cases before

/-- A ping goes to the latest snapshot, the current one, in the ledger and in its slot. -/
theorem Mirrors.setPing_of_cons (mirrors : mgr.Mirrors L) (ping : Int32) {h : Snapshot × Nat}
    {rest : List (Snapshot × Nat)} (stored : L.stored = h :: rest) :
    (mgr.setPing ping).Mirrors (L.step (.pinged ping)) := by
  obtain ⟨current, held⟩ := mirrors.current h (by simp [stored])
  have named : mgr.current.messageNum = h.1.messageNum := by rw [current, Snapshot.raw_messageNum]
  have holds : (mgr.slot mgr.current.messageNum).messageNum = mgr.current.messageNum := by
    rw [named, held, Snapshot.raw_messageNum]
  -- the ping reaches the current snapshot's slot
  have slotted : (mgr.setPing ping).slot h.1.messageNum = ({ h.1 with ping := ping } : Snapshot).raw h.2 := by
    rw [slot, setPing_getD ping mirrors.sized, if_pos ⟨by rw [named], holds⟩, ← slot, held]
    rfl
  refine ⟨mirrors.sized.setPing ping, mirrors.pushed,
    (setPing_state mgr ping).trans (mirrors.state.trans (status_pinged L ping).symm), ?_, ?_, ?_, ?_⟩
  · intro e mem
    rw [pinged_cons L ping stored] at mem
    obtain rfl := Option.some.inj mem
    refine ⟨?_, slotted⟩
    rw [setPing_current, current]
    rfl
  · intro j valid
    rw [setPing_getD ping mirrors.sized] at valid ⊢
    split
    · rename_i here
      obtain ⟨rfl, -⟩ := here
      have atSlot : mgr.snapshots.getD (slotOf mgr.current.messageNum) {} = h.1.raw h.2 := by
        rw [← slot, named, held]
      refine ⟨({ h.1 with ping := ping }, h.2), ?_, ?_, ?_⟩
      · rw [atSlot, latest_pinged L ping stored, Snapshot.raw_messageNum, if_pos rfl]
      · rw [atSlot]
        rfl
      · rw [named]
    · rename_i here
      rw [if_neg here] at valid
      obtain ⟨e, found, kept, slottedE⟩ := mirrors.slots j valid
      refine ⟨e, ?_, kept, slottedE⟩
      rw [latest_pinged L ping stored, if_neg ?_]
      · exact found
      -- a slot that holds a snapshot of the current message is the current one's
      intro same
      apply here
      have message : e.1.messageNum = mgr.current.messageNum := by
        rw [(latest_mem found).2, ← same, named]
      refine ⟨by rw [← slottedE, message], ?_⟩
      rw [slot, ← message, slottedE, kept, Snapshot.raw_messageNum]
  · intro e mem
    rw [pinged_cons L ping stored] at mem
    rcases List.mem_cons.mp mem with rfl | older
    · exact mirrors.keeps h (by simp [stored])
    · exact mirrors.keeps e (by simp [stored, older])
  · intro increasing e mem close
    rw [increasing_pinged] at increasing
    rw [pinged_cons L ping stored] at mem
    rcases List.mem_cons.mp mem with rfl | older
    · exact slotted
    · -- an older snapshot of the 32 latest messages has a slot of its own
      have before : e.1.messageNum < h.1.messageNum := by
        rw [Increasing, stored, List.pairwise_cons] at increasing
        exact increasing.1 e older
      rw [setPing_current, named] at close
      have apart : slotOf h.1.messageNum ≠ slotOf e.1.messageNum := slotOf_ne_of_close before close
      rw [slot, setPing_getD ping mirrors.sized, if_neg fun here => apart (by rw [← named]; exact here.1)]
      exact mirrors.recent increasing e (by simp [stored, older]) (by rw [named]; exact close)

theorem Mirrors.setPing (mirrors : mgr.Mirrors L) (ping : Int32) :
    (mgr.setPing ping).Mirrors (L.step (.pinged ping)) := by
  rcases stored : L.stored with _ | ⟨h, rest⟩
  · exact mirrors.setPing_of_nil ping stored
  · exact mirrors.setPing_of_cons ping stored

theorem Mirrors.stored (mirrors : mgr.Mirrors L) (s : Snapshot) :
    ((s.frame.entities.foldl push mgr).record (s.raw mgr.parseEntitiesNum)).Mirrors (L.step (.stored s)) := by
  have ledger : L.step (.stored s) = { L.step (.pushed s.frame.entities) with
      stored := (s, mgr.parseEntitiesNum) :: (L.step (.pushed s.frame.entities)).stored } := by
    simp [Ledger.step, mirrors.pushed]
  rw [ledger]
  exact (mirrors.pushAll s.frame.entities).record s _
    (keeps_stored mirrors.sized s.messageNum s.deltaNum s.serverCommandNum)

theorem Mirrors.step (mirrors : mgr.Mirrors L) : ∀ e : HistoryEvent, (e.apply mgr).Mirrors (L.step e)
  | .pushed es => mirrors.pushAll es
  | .stored s => mirrors.stored s
  | .pinged ping => mirrors.setPing ping
  | .cleared => mirrors_default

theorem Mirrors.run (mirrors : mgr.Mirrors L) (log : List HistoryEvent) :
    (HistoryEvent.run mgr log).Mirrors (log.foldl Ledger.step L) := by
  induction log generalizing mgr L with
  | nil => exact mirrors
  | cons e rest ih => exact ih (mirrors.step e)

section Reads

/-- A read answers exactly when the history is active, the message is among the 32 up to the
current one, its slot holds a valid snapshot of it, and its entities are less than a ring behind. -/
theorem isSome_get?_iff (mgr : SnapshotManager) (n : UInt32) :
    (mgr.get? n).isSome ↔ mgr.state ≠ .inactive ∧ mgr.current.messageNum - n < 32 ∧ (mgr.slot n).valid = true ∧
      (mgr.slot n).messageNum = n ∧ mgr.parseEntitiesNum - (mgr.slot n).parseEntitiesNum < Snapshot.maxParseEntities := by
  unfold get?
  dsimp only
  have age := age_outside_iff (mgr.current.messageNum - n)
  split_ifs with inactive outside stale old
  · simp [inactive]
  · simp [age.mp outside]
  · simp only [Option.isSome_none, Bool.false_eq_true, false_iff, not_and]
    intro _ _ valid named
    simp [valid, named] at stale
  · simp only [Option.isSome_none, Bool.false_eq_true, false_iff, not_and, Nat.not_lt]
    exact fun _ _ _ _ => old
  · simp only [Option.isSome_some, true_iff]
    simp only [Bool.not_eq_true', not_or, Bool.not_eq_false, ne_eq, not_not] at stale
    exact ⟨inactive, not_not.mp (age.not.mp outside), stale.1, stale.2, Nat.lt_of_not_le old⟩

theorem get?_of_slot {mgr : SnapshotManager} {s : Snapshot} {k : Nat} (active : mgr.state ≠ .inactive)
    (close : mgr.current.messageNum - s.messageNum < 32) (held : mgr.slot s.messageNum = s.raw k)
    (keeps : mgr.Keeps (s.raw k) s.frame) (fresh : mgr.parseEntitiesNum - k < Snapshot.maxParseEntities) :
    mgr.get? s.messageNum = some s := by
  have young : ¬ ((mgr.current.messageNum - s.messageNum).toInt32 < 0 ∨
      (mgr.current.messageNum - s.messageNum).toInt32.toNatClampNeg ≥ Snapshot.backup) :=
    (age_outside_iff _).not.mpr (not_not.mpr close)
  have stored : ¬ (!(s.raw k).valid ∨ (s.raw k).messageNum ≠ s.messageNum) := by simp [Snapshot.raw, Frame.stored]
  -- every entity of the snapshot is younger than a ring's worth of pushes
  have entities : (List.range (s.raw k).numEntities).map (fun i => mgr.ringEntity ((s.raw k).parseEntitiesNum + i)) =
      s.frame.entities := by
    obtain ⟨-, count, -, ring⟩ := keeps
    apply List.ext_getElem (by simpa using count)
    intro i below _
    simp only [List.getElem_map, List.getElem_range]
    exact ring i (by simpa [count] using below) (by simp only [Snapshot.raw, Frame.stored]; omega)
  unfold get?
  dsimp only
  rw [if_neg active, if_neg young, held, if_neg stored, if_neg (by simp only [Snapshot.raw, Frame.stored]; omega),
    entities]
  rfl

end Reads

section Serves

theorem Mirrors.slot_of_valid (mirrors : mgr.Mirrors L) {n : UInt32} (valid : (mgr.slot n).valid = true)
    (named : (mgr.slot n).messageNum = n) : ∃ e, L.latest n = some e ∧ mgr.slot n = e.1.raw e.2 := by
  obtain ⟨e, found, held, -⟩ := mirrors.slots (slotOf n) valid
  exact ⟨e, named ▸ found, held⟩

theorem Mirrors.get?_some (mirrors : mgr.Mirrors L) {n : UInt32} {s : Snapshot} (read : mgr.get? n = some s) :
    ∃ k, L.latest n = some (s, k) := by
  obtain ⟨active, close, valid, named, fresh⟩ := (isSome_get?_iff mgr n).mp (by rw [read]; rfl)
  obtain ⟨e, found, held⟩ := mirrors.slot_of_valid valid named
  obtain ⟨mem, message⟩ := latest_mem found
  subst message
  rw [held] at fresh
  have served := get?_of_slot active close held (mirrors.keeps e mem) fresh
  obtain rfl : e.1 = s := Option.some.inj (served.symm.trans read)
  exact ⟨e.2, found⟩

/-- With increasing message numbers, the history serves a message exactly while a snapshot of it is
stored, among the 32 latest messages and less than a ring of entities behind. -/
theorem Mirrors.serves_iff (mirrors : mgr.Mirrors L) (increasing : L.Increasing) (n : UInt32) :
    (mgr.get? n).isSome ↔ ∃ e, L.latest n = some e ∧ mgr.current.messageNum - n < 32 ∧
      L.pushed - e.2 < Snapshot.maxParseEntities := by
  constructor
  · intro served
    obtain ⟨-, close, valid, named, fresh⟩ := (isSome_get?_iff mgr n).mp served
    obtain ⟨e, found, held⟩ := mirrors.slot_of_valid valid named
    rw [held, mirrors.pushed] at fresh
    exact ⟨e, found, close, fresh⟩
  · rintro ⟨e, found, close, fresh⟩
    obtain ⟨mem, rfl⟩ := latest_mem found
    have active : mgr.state ≠ .inactive := by
      rw [mirrors.state, Ne, status_eq_inactive_iff]
      exact List.ne_nil_of_mem mem
    rw [← mirrors.pushed] at fresh
    rw [get?_of_slot active close (mirrors.recent increasing e mem close) (mirrors.keeps e mem) fresh]
    rfl

end Serves

end SnapshotManager

open SnapshotManager in
/-- The snapshot history never serves stale data: a snapshot read back is the latest stored for its
message since the last reset, with its ping, and with increasing messages a recent one is always
served. -/
theorem history_servesLatest (ops : List HistoryOp) :
    ∃ log, HistoryEvent.AccountsAll {} ops log ∧
      (∀ n s, (HistoryOp.run {} ops).get? n = some s → ∃ k, (Ledger.ofLog log).latest n = some (s, k)) ∧
      ((Ledger.ofLog log).Increasing → ∀ n, ((HistoryOp.run {} ops).get? n).isSome ↔
        ∃ e, (Ledger.ofLog log).latest n = some e ∧ (HistoryOp.run {} ops).current.messageNum - n < 32 ∧
          (Ledger.ofLog log).pushed - e.2 < Snapshot.maxParseEntities) ∧
      ((HistoryOp.run {} ops).state = .inactive ↔ (Ledger.ofLog log).stored = []) ∧
      ((HistoryOp.run {} ops).state = .restarted ↔ (Ledger.ofLog log).Restarted) := by
  obtain ⟨log, accounts⟩ := HistoryEvent.accountsAll_exists ops {}
  have mirrors : (HistoryOp.run {} ops).Mirrors (Ledger.ofLog log) := accounts.run_eq ▸ mirrors_default.run log
  refine ⟨log, accounts, fun n s read => mirrors.get?_some read, mirrors.serves_iff, ?_, ?_⟩
  · rw [mirrors.state, Ledger.status_eq_inactive_iff]
  · rw [mirrors.state, Ledger.status_eq_restarted_iff]

/-- A history that stores the frame of message 1 and then hears its ping serves it with that ping,
as the latest snapshot of message 1 in the ledger of the run. -/
theorem history_servesLatest_pinged :
    let p : Protocol := ⟨5, .classic, true⟩
    let sent := Message.ofBytes
      (Message.encode (p.writeSnapshot default none { serverTime := 10, entities := [{ number := 5 }] })).2
    let ops := [HistoryOp.parse p default 1 0 sent, .setPing 25]
    ∃ s, (HistoryOp.run {} ops).get? 1 = some s ∧ s.ping = 25 ∧ s.frame.serverTime = 10 ∧
      s.frame.entities = [{ number := 5 }] ∧
      ∃ log, HistoryEvent.AccountsAll {} ops log ∧ ∃ k, (Ledger.ofLog log).latest 1 = some (s, k) := by
  intro p sent ops
  obtain ⟨log, accounts, latest, -⟩ := history_servesLatest ops
  have served : ((HistoryOp.run {} ops).get? 1).isSome = true := by decide +kernel
  obtain ⟨s, read⟩ := Option.isSome_iff_exists.mp served
  have facts : ((HistoryOp.run {} ops).get? 1).map (fun s => (s.ping, s.frame.serverTime, s.frame.entities)) =
      some (25, 10, [{ number := 5 }]) := by
    decide +kernel
  rw [read, Option.map_some, Option.some.injEq, Prod.mk.injEq, Prod.mk.injEq] at facts
  exact ⟨s, read, facts.1, facts.2.1, facts.2.2, log, accounts, latest 1 s read⟩

end Netcode
