/-
# One turn or many

Whether a program is given to a session at once or in fragments makes no
difference, as long as every fragment holds whole statements. Given at once, all
its variables exist before anything is carried out; given in fragments, a fragment
is resolved against what the earlier ones left. Both mean the same as the program
text, and resolving depends on the names that exist only, not on their values: so
both succeed on the same fragments, and with the same result.
-/

import Calc.Proofs.Parser.Joining
import Calc.Proofs.Session.Fragment

namespace Calc

open Interaction (Agree)
open Text (isSeparator)

namespace Session

variable {session : Session} {fragments : List String} {programs : List (Program String)}

/-- A program run on its own is a turn of a session without variables. -/
theorem runSource_run (hempty : session.table = ∅) (source : String) (console : Console) :
    (runSource session.debug source).run console =
      ((match ((session.run source).run console).1.2 with
        | none => .ok ((session.run source).run console).1.1.table
        | some e => .error e),
      ((session.run source).run console).2) := by
  rw [runSource, run, hempty, Interaction.run_then, Interaction.run_then]
  generalize (SymbolTable.runFragment session.debug ∅ source).run console = outcome
  obtain ⟨⟨table, error⟩, left⟩ := outcome
  cases error <;> rfl

end Session

end Calc
