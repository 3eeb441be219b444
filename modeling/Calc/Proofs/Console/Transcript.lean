/-
# What a dialogue reads and writes

A dialogue knows nothing of what was written before it, and of the lines only those
that it reads: it comes to the same on a console that has no other lines. What it
writes can be told from its tree, whatever the lines are.
-/

import Calc.Proofs.Console.Agreement

namespace Calc.Interaction

variable {α β : Type}

/-- What was written before a dialogue stays in front of what it writes, and does not
matter to it. -/
theorem run_log (i : Interaction α) (pending : List String) (log : Array Event) :
    i.run ⟨pending, log⟩ =
      ((i.run { pending }).1,
        ⟨(i.run { pending }).2.pending, log ++ (i.run { pending }).2.log⟩) := by
  induction i generalizing pending log with
  | done a => simp [run]
  | write event next ih =>
      rw [run, ih, run, ih pending (Array.push #[] event)]
      simp
  | read next ih =>
      cases pending with
      | nil => exact ih none [] log
      | cons line rest => exact ih (some line) rest log

/-- The lines that a dialogue leaves are of no use to it. -/
theorem run_take (i : Interaction α) {pending : List String} {log : Array Event} {n : Nat}
    (h : (i.run ⟨pending, log⟩).2.pending = pending.drop n) :
    (i.run ⟨pending.take n, log⟩).1 = (i.run ⟨pending, log⟩).1 := by
  induction i generalizing pending log n with
  | done a => rfl
  | write event next ih => exact ih h
  | read next ih =>
      cases pending with
      | nil => rw [List.take_nil]
      | cons line rest =>
          cases n with
          | zero =>
              -- A line was read, so that not all of them are left.
              have hle := (next (some line)).run_pending_le ⟨rest, log⟩
              change ((next (some line)).run ⟨rest, log⟩).2.pending = line :: rest at h
              rw [h] at hle
              exact absurd hle (Nat.not_succ_le_self _)
          | succ n => exact ih (some line) h

/-- All events that a dialogue writes, whatever the lines are. -/
def Writes (allowed : Event → Prop) : Interaction α → Prop
  | done _ => True
  | write event next => allowed event ∧ next.Writes allowed
  | read next => ∀ line, (next line).Writes allowed

variable {allowed : Event → Prop}

theorem Writes.bind {i : Interaction α} {f : α → Interaction β} (h : i.Writes allowed)
    (hf : ∀ a, (f a).Writes allowed) : (i >>= f).Writes allowed := by
  induction i with
  | done a => exact hf a
  | write event next ih => exact ⟨h.1, ih h.2⟩
  | read next ih => exact fun line => ih line (h line)

theorem Writes.ite {p : Prop} [Decidable p] {i j : Interaction α} (hi : i.Writes allowed)
    (hj : j.Writes allowed) : (if p then i else j).Writes allowed := by
  split
  case isTrue => exact hi
  case isFalse => exact hj

theorem Writes.mono {other : Event → Prop} {i : Interaction α} (h : i.Writes allowed)
    (hle : ∀ event, allowed event → other event) : i.Writes other := by
  induction i with
  | done a => trivial
  | write event next ih => exact ⟨hle event h.1, ih h.2⟩
  | read next ih => exact fun line => ih line (h line)

/-- Nothing is traced unless debugging. -/
theorem writes_trace {debug : Bool} {record : String}
    (h : debug = true → allowed (.trace record)) : (trace debug record).Writes allowed := by
  cases debug with
  | false => trivial
  | true => exact ⟨h rfl, trivial⟩

theorem writes_forM {ι : Type} {f : ι → Interaction Unit} {items : List ι}
    (h : ∀ item ∈ items, (f item).Writes allowed) : (items.forM f).Writes allowed := by
  induction items with
  | nil => trivial
  | cons item items ih =>
      rw [List.forall_mem_cons] at h
      rw [List.forM]
      exact h.1.bind fun _ => ih h.2

/-- Nothing else gets into the log. -/
theorem Writes.run {i : Interaction α} (h : i.Writes allowed) {console : Console}
    (hlog : ∀ event ∈ console.log.toList, allowed event) :
    ∀ event ∈ (i.run console).2.log.toList, allowed event := by
  induction i generalizing console with
  | done a => exact hlog
  | write event next ih =>
      refine ih h.2 ?_
      rw [Array.toList_push, List.forall_mem_append, List.forall_mem_singleton]
      exact ⟨hlog, h.1⟩
  | read next ih =>
      obtain ⟨pending, log⟩ := console
      cases pending with
      | nil => exact ih none (h none) hlog
      | cons line rest => exact ih (some line) (h (some line)) hlog

end Calc.Interaction
