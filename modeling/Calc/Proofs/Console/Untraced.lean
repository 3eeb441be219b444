/-
# Dialogues without traces

Everything that is written only when debugging can be deleted from a dialogue, which
leaves the dialogue that the program would hold if it were not debugged. The deletion
goes through the parts of a dialogue one by one, and carrying out what is left comes to
the same as carrying out the whole: the same result, the same lines left, and all other
events in their order.
-/

import Calc.Proofs.Console.Agreement

namespace Calc

namespace Interaction

variable {α β : Type}

/-- The dialogue without what it writes only when debugging. -/
def untraced : Interaction α → Interaction α
  | done result => done result
  | write event next =>
      if event.isTrace then next.untraced else write event next.untraced
  | read next => read fun line => (next line).untraced

@[simp]
theorem untraced_pure (a : α) : (pure a : Interaction α).untraced = pure a := rfl

/-- Traces are deleted from the parts of a dialogue. -/
theorem untraced_bind (i : Interaction α) (f : α → Interaction β) :
    (i >>= f).untraced = i.untraced >>= fun a => (f a).untraced := by
  show (i.bind f).untraced = i.untraced.bind fun a => (f a).untraced
  induction i with
  | done a => rfl
  | write event next ih =>
      simp only [bind, untraced, ih]
      split
      · rfl
      · rfl
  | read next ih =>
      simp only [bind, untraced]
      congr 1
      funext line
      exact ih line

@[simp]
theorem untraced_trace (debug : Bool) (record : String) :
    (trace debug record).untraced = pure () := by
  cases debug with
  | false => rfl
  | true => rfl

theorem untraced_forM {ι : Type} {f : ι → Interaction Unit}
    (hf : ∀ item, (f item).untraced = pure ()) (items : List ι) :
    (items.forM f).untraced = pure () := by
  induction items with
  | nil => rfl
  | cons item items ih =>
      rw [List.forM, untraced_bind, hf, ih]
      rfl

/-- Without its traces a dialogue comes to the same result, and the console looks the same
but for them. -/
theorem run_untraced (i : Interaction α) (console : Console) :
    i.untraced.run console.visible = ((i.run console).1, (i.run console).2.visible) := by
  induction i generalizing console with
  | done a => rfl
  | write event next ih =>
      rw [run, ← ih, Console.visible_write, untraced]
      split
      · rfl
      · rfl
  | read next ih =>
      rcases console with ⟨pending, log⟩
      cases pending with
      | nil => exact ih none ⟨[], log⟩
      | cons line rest => exact ih (some line) ⟨rest, log⟩

/-- On a console to which nothing was written yet. -/
theorem run_untraced_pending (i : Interaction α) (pending : List String) :
    i.untraced.run { pending } =
      ((i.run { pending }).1, (i.run { pending }).2.visible) :=
  i.run_untraced { pending }

end Interaction

end Calc
