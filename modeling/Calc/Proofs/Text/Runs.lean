/-
# Runs of characters

A run of characters of one kind is taken from the front of a text as a whole, and
no further, if the text behind it does not go on with a character of that kind.
Everything that is read from a text is delimited this way: names, digits and the
separators between tokens.
-/

import Calc.Text.Blank
import Mathlib.Data.List.TakeWhile

namespace Calc.Text

/-- The text does not go on with a character of the given kind. -/
def StopsRun (kind : Char → Bool) (rest : List Char) : Prop :=
  ∀ c ∈ rest.head?, kind c = false

@[simp]
theorem stopsRun_nil (kind : Char → Bool) : StopsRun kind [] := by
  simp [StopsRun]

@[simp]
theorem stopsRun_cons (kind : Char → Bool) (c : Char) (rest : List Char) :
    StopsRun kind (c :: rest) ↔ kind c = false := by
  simp [StopsRun]

theorem stopsRun_dropWhile (kind : Char → Bool) (text : List Char) :
    StopsRun kind (text.dropWhile kind) := by
  intro c hc
  have hnot := List.head?_dropWhile_not kind text
  rw [Option.mem_def.mp hc] at hnot
  simpa using hnot

section Run

variable {α : Type} {kind : α → Bool} {run rest : List α}

theorem takeWhile_run_append (hrun : ∀ c ∈ run, kind c = true)
    (hrest : ∀ c ∈ rest.head?, kind c = false) : (run ++ rest).takeWhile kind = run := by
  rw [List.takeWhile_append_of_pos hrun]
  cases rest with
  | nil => simp
  | cons c rest => simp [hrest c rfl]

theorem dropWhile_run_append (hrun : ∀ c ∈ run, kind c = true)
    (hrest : ∀ c ∈ rest.head?, kind c = false) : (run ++ rest).dropWhile kind = rest := by
  rw [List.dropWhile_append_of_pos hrun]
  cases rest with
  | nil => simp
  | cons c rest => simp [hrest c rfl]

/-- A list is cut in one way only into a run and what does not go on with it. -/
theorem run_append_inj {run' rest' : List α} (hrun : ∀ c ∈ run, kind c = true)
    (hrun' : ∀ c ∈ run', kind c = true) (hrest : ∀ c ∈ rest.head?, kind c = false)
    (hrest' : ∀ c ∈ rest'.head?, kind c = false) (h : run ++ rest = run' ++ rest') :
    run = run' ∧ rest = rest' := by
  have hfront : run = run' := by
    rw [← takeWhile_run_append hrun hrest, h, takeWhile_run_append hrun' hrest']
  rw [hfront] at h
  exact ⟨hfront, List.append_cancel_left h⟩

end Run

/-- What is shown piece by piece is told by its pieces, if each of them tells what it shows. -/
theorem eq_of_map_eq {α β : Type} {f : α → β} {first second : List α}
    (hinj : ∀ a ∈ first, ∀ b ∈ second, f a = f b → a = b) (h : first.map f = second.map f) :
    first = second := by
  induction first generalizing second with
  | nil => exact (List.map_eq_nil_iff.mp h.symm).symm
  | cons a first ih =>
      cases second with
      | nil => cases h
      | cons b second =>
          obtain ⟨hhead, htail⟩ := List.cons.inj h
          rw [hinj a List.mem_cons_self b List.mem_cons_self hhead, ih (fun c hc d hd =>
            hinj c (List.mem_cons_of_mem a hc) d (List.mem_cons_of_mem b hd)) htail]

/-! ## Separators -/

/-- A text of separators only. -/
def IsGap (gap : List Char) : Prop :=
  ∀ c ∈ gap, isSeparator c = true

theorem isGap_nil : IsGap [] := by
  simp [IsGap]

theorem isSeparator_of_isAlpha {c : Char} (h : c.isAlpha = true) : isSeparator c = false := by
  rw [Bool.eq_false_iff]
  intro hsep
  simp only [isSeparator, Bool.or_eq_true, beq_iff_eq] at hsep
  rcases hsep with ((rfl | rfl) | rfl) | rfl <;> simp at h

theorem isSeparator_of_isDigit {c : Char} (h : c.isDigit = true) : isSeparator c = false := by
  rw [Bool.eq_false_iff]
  intro hsep
  simp only [isSeparator, Bool.or_eq_true, beq_iff_eq] at hsep
  rcases hsep with ((rfl | rfl) | rfl) | rfl <;> simp at h

theorem IsGap.append {first second : List Char} (hfirst : IsGap first) (hsecond : IsGap second) :
    IsGap (first ++ second) := by
  intro c hc
  exact (List.mem_append.mp hc).elim (hfirst c) (hsecond c)

/-- Separators are skipped up to the first other character. -/
theorem skipSeparators_gap_append {gap rest : List Char} (hgap : IsGap gap)
    (hrest : StopsRun isSeparator rest) : skipSeparators (gap ++ rest) = rest :=
  dropWhile_run_append hgap hrest

/-- What is skipped is a gap. -/
theorem exists_gap_append_skipSeparators (text : List Char) :
    ∃ gap, IsGap gap ∧ text = gap ++ skipSeparators text :=
  ⟨text.takeWhile isSeparator, fun _ hc => List.mem_takeWhile_imp hc,
    List.takeWhile_append_dropWhile.symm⟩

end Calc.Text
