/-
# Dialogues that agree

What is written when debugging is no part of what a program does. A console is
compared without it: the lines that are left, and all other events in their
order. Two dialogues agree, up to a relation between their results, if they take
consoles that look the same to consoles that look the same and end with related
results. Dialogues that agree part by part agree as a whole, so that two programs
are compared along their statements without running them.
-/

import Calc.Console

namespace Calc

/-- Whether an event is written only when debugging. -/
def Event.isTrace : Event → Bool
  | trace _ => true
  | _ => false

namespace Console

/-- The console without what was written only when debugging. -/
def visible (console : Console) : Console :=
  { console with log := console.log.filter fun event => !event.isTrace }

/-- The prompts that were written, in their order. -/
def prompts (console : Console) : List String :=
  console.log.toList.filterMap fun
    | .prompt text => some text
    | _ => none

@[simp]
theorem visible_pending (console : Console) : console.visible.pending = console.pending := rfl

theorem visible_write (event : Event) (console : Console) :
    ({ console with log := console.log.push event } : Console).visible =
      if event.isTrace then console.visible
      else { console.visible with log := console.visible.log.push event } := by
  cases h : event.isTrace <;> simp [visible, h]

/-- Standard output shows nothing of what is written when debugging. -/
theorem output_visible (console : Console) : console.visible.output = console.output := by
  rw [output, output, visible, Array.toList_filter]
  induction console.log.toList with
  | nil => rfl
  | cons event log ih =>
      cases event <;>
        simp_all [Event.isTrace, Event.outputText, String.join_cons]

theorem prompts_visible (console : Console) : console.visible.prompts = console.prompts := by
  rw [prompts, prompts, visible, Array.toList_filter, List.filterMap_filter]
  congr
  funext event
  cases event <;> rfl

/-- What can be seen of a console when nothing is debugged. -/
theorem eq_of_visible_eq {console other : Console} (h : console.visible = other.visible) :
    console.pending = other.pending ∧ console.output = other.output ∧
      console.prompts = other.prompts := by
  rw [← console.visible_pending, ← console.output_visible, ← console.prompts_visible, h]
  exact ⟨other.visible_pending, other.output_visible, other.prompts_visible⟩

end Console

namespace Interaction

variable {α β γ δ : Type}

/-- Two parts of a dialogue are carried out one after the other. -/
theorem run_then (i : Interaction α) (f : α → Interaction β) (console : Console) :
    (i >>= f).run console = (f (i.run console).1).run (i.run console).2 :=
  run_bind i f console

/-- Two dialogues look the same, and their results are related. -/
def Agree (related : α → β → Prop) (i : Interaction α) (j : Interaction β) : Prop :=
  ∀ c d : Console, c.visible = d.visible →
    related (i.run c).1 (j.run d).1 ∧ (i.run c).2.visible = (j.run d).2.visible

/-- What both write first is seen of both or of none. -/
theorem Agree.write {related : α → β → Prop} {i : Interaction α} {j : Interaction β}
    (h : Agree related i j) (event : Event) : Agree related (write event i) (write event j) := by
  intro c d hcd
  apply h
  rw [Console.visible_write, Console.visible_write, hcd]

/-- A dialogue agrees with itself. -/
theorem Agree.refl (i : Interaction α) : Agree Eq i i := by
  induction i with
  | done a =>
      intro c d h
      exact ⟨rfl, h⟩
  | write event next ih => exact ih.write event
  | read next ih =>
      rintro ⟨pending, log⟩ ⟨pending', log'⟩ h
      obtain rfl : pending = pending' := congrArg Console.pending h
      cases pending with
      | nil => exact ih none _ _ h
      | cons line rest =>
          have hlog := congrArg Console.log h
          exact ih (some line) ⟨rest, log⟩ ⟨rest, log'⟩ (congrArg (Console.mk rest) hlog)

/-- Agreement with a dialogue in the middle. -/
theorem Agree.trans {first : α → β → Prop} {second : β → γ → Prop} {i : Interaction α}
    {j : Interaction β} {k : Interaction γ} (hij : Agree first i j) (hjk : Agree second j k) :
    Agree (fun a c => ∃ b, first a b ∧ second b c) i k := by
  intro c d hcd
  obtain ⟨hfirst, hleft⟩ := hij c c rfl
  obtain ⟨hsecond, hright⟩ := hjk c d hcd
  exact ⟨⟨_, hfirst, hsecond⟩, hleft.trans hright⟩

theorem Agree.mono {related wider : α → β → Prop} {i : Interaction α} {j : Interaction β}
    (h : Agree related i j) (hwider : ∀ a b, related a b → wider a b) : Agree wider i j := by
  intro c d hcd
  exact (h c d hcd).imp_left (hwider _ _)

theorem Agree.done {related : α → β → Prop} {a : α} {b : β} (h : related a b) :
    Agree related (done a) (done b) :=
  fun _ _ hcd => ⟨h, hcd⟩

/-- Dialogues agree if their beginnings do, and their continuations after every
two results that the beginnings may have. -/
theorem Agree.bind {related : α → β → Prop} {later : γ → δ → Prop} {i : Interaction α}
    {j : Interaction β} {f : α → Interaction γ} {g : β → Interaction δ}
    (h : Agree related i j) (hfg : ∀ a b, related a b → Agree later (f a) (g b)) :
    Agree later (i >>= f) (j >>= g) := by
  intro c d hcd
  obtain ⟨hresult, hvisible⟩ := h c d hcd
  rw [run_then, run_then]
  exact hfg _ _ hresult _ _ hvisible

/-- The result of a dialogue may be changed at its end. -/
theorem Agree.map_left {related : α → β → Prop} {later : γ → β → Prop} {i : Interaction α}
    {j : Interaction β} {f : α → γ} (h : Agree related i j)
    (hf : ∀ a b, related a b → later (f a) b) : Agree later (i >>= fun a => pure (f a)) j := by
  rw [← bind_pure j]
  exact h.bind fun a b hab => Agree.done (hf a b hab)

/-- A beginning that shows nothing but its result may be left out. -/
theorem Agree.bind_left {related : α → β → Prop} {ι : Type} {a : ι} {i : Interaction ι}
    {f : ι → Interaction α} {j : Interaction β} (h : Agree Eq i (.done a))
    (hf : Agree related (f a) j) : Agree related (i >>= f) j := by
  intro c d hcd
  obtain ⟨hresult, hvisible⟩ := h c c rfl
  have hleft : (i.run c).2.visible = d.visible := hvisible.trans hcd
  rw [run_then, hresult]
  exact hf _ d hleft

/-- What is written when debugging does not count. -/
theorem Agree.trace_left {related : α → β → Prop} {i : Interaction α} {j : Interaction β}
    (debug : Bool) (record : String) (h : Agree related i j) :
    Agree related (trace debug record >>= fun _ => i) j := by
  cases debug with
  | false => exact h
  | true =>
      intro c d hcd
      apply h _ d
      rw [Console.visible_write]
      exact hcd

/-- However much is written when debugging, it does not count. -/
theorem Agree.traces_left {ι : Type} {related : α → β → Prop} {i : Interaction α}
    {j : Interaction β} (debug : Bool) (record : ι → String) (items : List ι)
    (h : Agree related i j) :
    Agree related (items.forM (fun item => trace debug (record item)) >>= fun _ => i) j := by
  induction items with
  | nil => exact h
  | cons item items ih =>
      rw [List.forM, bind_assoc]
      exact Agree.trace_left debug (record item) ih

end Interaction

end Calc
