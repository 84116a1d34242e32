import Mathlib
import Netcode.Proofs.Session.Steps
import Netcode.Proofs.State.Tables

set_option autoImplicit false

namespace Netcode

namespace GameState

theorem configString_of_set!_self {g g' : GameState} {i : Nat} {value : String}
    (strings : g'.configStrings = g.configStrings.set! i value) (inside : i < g.configStrings.size) :
    g'.configString i = some value := by
  simp [configString, strings, Array.set!_eq_setIfInBounds, inside]

theorem configString_of_set!_ne {g g' : GameState} {i j : Nat} {value : String}
    (strings : g'.configStrings = g.configStrings.set! i value) (other : j ≠ i) :
    g'.configString j = g.configString j := by
  simp only [configString, strings, Array.set!_eq_setIfInBounds]
  rw [Array.getElem?_setIfInBounds, if_neg (fun same => other same.symm)]

end GameState

namespace Protocol

end Protocol

namespace ClientSession

/-- What a step that may set config string `i` to `value` does: the game state stays, or slot `i` is
set inside the table; a failure keeps the game state, and only the system info touches the server
id. -/
structure SetsSlot (s : ClientSession) (i : Nat) (value : Option String) (r : Except ClientError Unit)
    (t : ClientSession) : Prop where
  changes : t.gamestate = s.gamestate ∨ ∃ v, value = some v ∧ r = .ok () ∧
    i < s.gamestate.limits.maxConfigStrings ∧ t.gamestate.configStrings = s.gamestate.configStrings.set! i v
  refuses : ∀ e, r = .error e → t.gamestate = s.gamestate ∧
    (e = .net (.badConfigString i) ∧ s.gamestate.limits.maxConfigStrings ≤ i ∨
      e = .net (.gameStateOverflow s.gamestate.limits.maxChars))
  keepsServer : i ≠ ConfigKind.systemInfoIndex → t.serverId = s.serverId ∧ t.snapshots = s.snapshots

theorem SetsSlot.frame {s t : ClientSession} {i : Nat} {value : Option String} {r : Except ClientError Unit}
    (sets : SetsSlot s i value r t) : ∀ j ≠ i, t.gamestate.configString j = s.gamestate.configString j := by
  intro j other
  rcases sets.changes with kept | ⟨v, -, -, -, strings⟩
  · rw [kept]
  · exact GameState.configString_of_set!_ne strings other

theorem SetsSlot.reads {s t : ClientSession} {i : Nat} {value : Option String} {r : Except ClientError Unit}
    (sets : SetsSlot s i value r t)
    (full : s.gamestate.configStrings.size = s.gamestate.limits.maxConfigStrings) :
    t.gamestate = s.gamestate ∨ ∃ v, value = some v ∧ r = .ok () ∧
      i < s.gamestate.limits.maxConfigStrings ∧ t.gamestate.configString i = some v := by
  rcases sets.changes with kept | ⟨v, named, ran, inside, strings⟩
  · exact .inl kept
  · exact .inr ⟨v, named, ran, inside, GameState.configString_of_set!_self strings (full ▸ inside)⟩

end ClientSession

namespace SessionStep

open ClientSession (SetsSlot indexArgument maxReliableCommands)

end SessionStep

end Netcode
