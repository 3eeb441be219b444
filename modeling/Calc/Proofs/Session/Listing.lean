/-
# The listing tells the table

A table that a session can come to holds names that were read from fragments, so that no
name has a colon or a line feed in it. Therefore its listing can be taken apart again: into
lines, of which there is one for each variable below the first one, and each of these at its
colon. As no two numbers are printed alike, two such tables with the same listing have the
same names in the same order, and the same values.
-/

import Calc.Proofs.Parser.Names
import Calc.Proofs.Number.Printed
import Calc.Proofs.Resolution.Occurrences
import Calc.Proofs.Session.History
import Calc.Proofs.Text.Places

namespace Calc

open Text (lines lines_intercalate run_append_inj stopsRun_cons)

/-! ## Tables that sessions come to -/

namespace Session

/-- What a session can come to by turns and clearings. Every turn may find other lines to
read, and it may fail. -/
inductive Reachable : Session → Prop
  | start (debug : Bool) : Reachable { debug }
  | turn {session : Session} (before : Reachable session) (fragment : String)
      (console : Console) : Reachable ((session.run fragment).run console).1.1
  | clear {session : Session} (before : Reachable session) : Reachable session.clear

variable {session : Session}

/-- Behind a turn the names are those from before, or also those that a program declares which
was read from the fragment. -/
theorem names_run (hcoherent : session.table.Coherent) (fragment : String) (console : Console) :
    ((session.run fragment).run console).1.1.table.names = session.table.names ∨
      ∃ program, Program.complete fragment = .ok program ∧
        ((session.run fragment).run console).1.1.table.names =
          session.table.names ++ program.declared := by
  cases hread : Program.complete fragment with
  | error e =>
      rw [(run_agree_of_parse_error hread console console rfl).1]
      exact .inl rfl
  | ok program =>
      cases hname : (Program.resolve session.table program).error with
      | some e =>
          rw [(run_agree_of_name_error hread hname console console rfl).1]
          exact .inl rfl
      | none =>
          have hnames := (run_completes hcoherent hread hname console console rfl).1.2.names
          have htable := (Program.resolves_of_error_eq_none hname).table_eq
          rw [htable, Program.names_pushAll] at hnames
          exact .inr ⟨program, rfl, hnames⟩

namespace Reachable

theorem coherent (h : session.Reachable) : session.table.Coherent := by
  induction h with
  | start debug => exact SymbolTable.coherent_empty
  | turn before fragment console ih => exact coherent_run ih fragment console
  | clear before ih => exact SymbolTable.coherent_empty

/-- Every variable has a name that was read. -/
theorem alphabetic (h : session.Reachable) : ∀ name ∈ session.table.names, Alphabetic name := by
  induction h with
  | start debug => exact List.forall_mem_nil _
  | clear before ih => exact List.forall_mem_nil _
  | turn before fragment console ih =>
      rcases names_run before.coherent fragment console with hnames | ⟨program, hread, hnames⟩
      · rwa [hnames]
      · rw [hnames, List.forall_mem_append]
        refine ⟨ih, fun name hname => ?_⟩
        exact Program.alphabetic_of_complete hread name (program.declared_subset_refs hname)

end Reachable

end Session

/-! ## Taking a listing apart -/

namespace SymbolTable

variable {table other : SymbolTable}

theorem toList_listingLine (entry : String × Float) :
    (listingLine entry).toList =
      entry.1.toList ++ ':' :: ' ' :: (printedNumber entry.2).toList := by
  have hcolon : ": ".toList = [':', ' '] := rfl
  rw [listingLine, String.toList_append, String.toList_append, hcolon, List.append_assoc]
  rfl

/-- The line of a variable is cut at its first colon. -/
theorem listingLine_injective {entry entry' : String × Float} (h : Alphabetic entry.1)
    (h' : Alphabetic entry'.1) (hline : listingLine entry = listingLine entry') :
    entry = entry' := by
  have hcut := congrArg String.toList hline
  rw [toList_listingLine, toList_listingLine] at hcut
  obtain ⟨hname, htext⟩ := run_append_inj h.2 h'.2 ((stopsRun_cons _ _ _).mpr rfl)
    ((stopsRun_cons _ _ _).mpr rfl) hcut
  have hnumber : printedNumber entry.2 = printedNumber entry'.2 :=
    String.toList_injective (List.cons.inj (List.cons.inj htext).2).2
  exact Prod.ext (String.toList_injective hname) (Layout.printed_faithful.render_injective hnumber)

theorem lineFeed_not_mem_listingLine {entry : String × Float} (h : Alphabetic entry.1) :
    '\n' ∉ (listingLine entry).toList := by
  rw [toList_listingLine, List.mem_append, not_or, List.mem_cons, not_or, List.mem_cons, not_or]
  exact ⟨h.not_mem rfl, by decide, by decide, Layout.printed_faithful.lineFeed_not_mem _⟩

/-- The first line of a listing. -/
def listingHeader (table : SymbolTable) : String :=
  if table.isEmpty then "No variables assigned yet" else "Variables:"

theorem isEmpty_eq_true_iff : table.isEmpty = true ↔ table.entries.toList = [] := by
  rw [isEmpty, Array.isEmpty_iff, ← Array.toList_eq_nil_iff]

/-- The lines of a listing: its first one, and one for every variable. -/
theorem lines_listing (h : ∀ name ∈ table.names, Alphabetic name) :
    lines table.listing.toList =
      table.listingHeader.toList ::
        table.entries.toList.map fun entry => (listingLine entry).toList := by
  have hlines : ∀ line ∈ table.entries.toList.map fun entry => (listingLine entry).toList,
      '\n' ∉ line := by
    intro line hline
    obtain ⟨entry, hentry, rfl⟩ := List.mem_map.mp hline
    exact lineFeed_not_mem_listingLine (h _ (List.mem_map_of_mem hentry))
  rw [listing, listingHeader]
  split
  case isTrue hempty =>
    rw [isEmpty_eq_true_iff.mp hempty]
    rfl
  case isFalse =>
    rw [String.toList_intercalate, List.map_cons, List.map_map]
    exact lines_intercalate (List.cons_ne_nil _ _)
      (List.forall_mem_cons.mpr ⟨by decide, hlines⟩)

/-- Below their first lines, listings tell the variables. -/
theorem entries_eq_of_listing_eq (h : ∀ name ∈ table.names, Alphabetic name)
    (h' : ∀ name ∈ other.names, Alphabetic name) (hlisting : table.listing = other.listing) :
    table.entries.toList = other.entries.toList := by
  have hlines := congrArg (lines ∘ String.toList) hlisting
  rw [Function.comp_apply, Function.comp_apply, lines_listing h, lines_listing h'] at hlines
  refine Text.eq_of_map_eq (fun entry hentry entry' hentry' hline => ?_) (List.cons.inj hlines).2
  exact listingLine_injective (h _ (List.mem_map_of_mem hentry))
    (h' _ (List.mem_map_of_mem hentry'))
    (String.toList_injective hline)

end SymbolTable

namespace Session

/-- Two sessions whose listings are the same have the same table: the same names in the same
slots, and the same value in every slot. So the listing without variables is no other one. It
has a first line and then exactly one line for each variable, in the order of the slots. -/
theorem listing_determines_table {session other : Session} (h : session.Reachable)
    (h' : other.Reachable) :
    (session.table.listing = other.table.listing →
      session.table.names = other.table.names ∧
      (∀ slot, session.table.get slot = other.table.get slot) ∧ session.table = other.table) ∧
    (session.table.isEmpty = true → other.table.isEmpty = false →
      session.table.listing ≠ other.table.listing) ∧
    lines session.table.listing.toList =
      session.table.listingHeader.toList ::
        session.table.entries.toList.map (fun entry => (SymbolTable.listingLine entry).toList) ∧
    (lines session.table.listing.toList).length = session.table.size + 1 := by
  have htable (hlisting : session.table.listing = other.table.listing) :
      session.table = other.table :=
    h.coherent.ext h'.coherent
      (SymbolTable.entries_eq_of_listing_eq h.alphabetic h'.alphabetic hlisting)
  have hlines := SymbolTable.lines_listing h.alphabetic
  refine ⟨fun hlisting => ?_, fun hempty hnonempty hlisting => ?_, hlines, ?_⟩
  · rw [htable hlisting]
    exact ⟨rfl, fun _ => rfl, rfl⟩
  · rw [htable hlisting, hnonempty] at hempty
    cases hempty
  · rw [hlines, List.length_cons, List.length_map, Array.length_toList, SymbolTable.size]

/-- A turn that divides, and a session that was cleared, refused a turn and then read the
quotient. -/
theorem listing_of_third :
    let first := (({} : Session).run "@a a := 1 / 3").run { pending := [] }
    let cleared := ((({} : Session).run "@b").run { pending := [] }).1.1.clear
    let refused := ((cleared.run "@a @a").run { pending := [] }).1.1
    let second := (refused.run "@a > a").run { pending := ["0.3333333333333333"] }
    first.1.1.table = second.1.1.table ∧ (lines first.1.1.table.listing.toList).length = 2 := by
  intro first cleared refused second
  have hfirst : first.1.1.Reachable := .turn (.start false) _ _
  have hsecond : second.1.1.Reachable := .turn (.turn (.clear (.turn (.start false) _ _)) _ _) _ _
  have hlisting : first.1.1.table.listing = second.1.1.table.listing := by decide +kernel
  obtain ⟨htable, -, -, hlength⟩ := listing_determines_table hfirst hsecond
  have hsize : first.1.1.table.size = 1 := by decide +kernel
  rw [hsize] at hlength
  exact ⟨(htable hlisting).2.2, hlength⟩

end Session

end Calc
