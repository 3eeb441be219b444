/-
# The outline of a program tells the program

The trees of a program stand side by side in its outline. A program of which all names can be
read and all operators are operators of the language is told by its outline: this gives back
the trees, and the trees are understood as the program. Whatever is read from a text is such a
program, and so is what it is resolved to.
-/

import Calc.Proofs.Execution.Handover
import Calc.Proofs.Outline.Trees
import Calc.Proofs.Parser.Names
import Calc.Proofs.Session.Outcome

namespace Calc

open Node (operandTrees PlainForest plainForest_nil plainForest_cons plainForest_singleton
  plainForest_operandTrees_cons plain_of_subject?_eq_none plain_of_subject?_eq_some forestLines
  forestOutline eq_of_forestOutline_eq)

/-! ## References that are understood -/

section Understood

variable {ρ ε : Type}

/-- An expression can be given back from the one whose references are all understood. -/
theorem Expr.traverse_map_ok {level : Level} (e : Expr ρ level) :
    (e.map Except.ok).traverse id = (Except.ok e : Except ε (Expr ρ level)) := by
  rw [traverse_map]
  exact (traverse_ok id e).trans (congrArg Except.ok e.map_id)

theorem Expr.map_ok_injective {level : Level} :
    Function.Injective (map Except.ok : Expr ρ level → Expr (Except ε ρ) level) := by
  intro e e' h
  have htraverse := congrArg (traverse id) h
  rw [traverse_map_ok, traverse_map_ok] at htraverse
  exact Except.ok.inj htraverse

theorem Statement.map_ok_injective :
    Function.Injective (map Except.ok : Statement ρ → Statement (Except ε ρ)) := by
  intro statement other h
  cases statement with
  | declaration target =>
      cases other with
      | declaration target' => rw [Except.ok.inj (declaration.inj h)]
      | _ => cases h
  | input target =>
      cases other with
      | input target' => rw [Except.ok.inj (input.inj h)]
      | _ => cases h
  | output value =>
      cases other with
      | output value' => rw [Expr.map_ok_injective (output.inj h)]
      | _ => cases h
  | assignment target value =>
      cases other with
      | assignment target' value' =>
          obtain ⟨htarget, hvalue⟩ := assignment.inj h
          rw [Except.ok.inj htarget, Expr.map_ok_injective hvalue]
      | _ => cases h

end Understood

section Trees

variable {ρ : Type} [Reference ρ]

/-! ## The trees of a program -/

/-- The tree of an expression, followed in its chain by other trees. -/
theorem Expr.plain_nodeBefore {level : Level} (e : Expr ρ level) (h : e.Arithmetic)
    (hrefs : ∀ r ∈ e.refs, (Reference.subject r).Plain) {rest : List (String × Node)}
    (hrest : PlainForest (operandTrees rest)) : (e.nodeBefore rest).Plain := by
  induction e generalizing rest with
  | ref r =>
      have hsubject := hrefs r (List.mem_singleton_self r)
      exact plain_of_subject?_eq_some rfl hsubject plainForest_nil
  | literal value => exact plain_of_subject?_eq_none rfl plainForest_nil
  | group inner ih =>
      have hinner : (inner.nodeBefore []).Plain := ih h hrefs plainForest_nil
      exact plain_of_subject?_eq_none rfl (plainForest_singleton hinner)
  | factor f ih =>
      have hfirst : (f.nodeBefore []).Plain := ih h hrefs plainForest_nil
      exact plain_of_subject?_eq_none rfl (plainForest_cons.mpr ⟨⟨.absent, hfirst⟩, hrest⟩)
  | term t ih =>
      have hfirst : (t.nodeBefore []).Plain := ih h hrefs plainForest_nil
      exact plain_of_subject?_eq_none rfl (plainForest_cons.mpr ⟨⟨.absent, hfirst⟩, hrest⟩)
  | product t op f iht ihf =>
      rw [refs, List.forall_mem_append] at hrefs
      have hoperand : (f.nodeBefore []).Plain := ihf h.2.2 hrefs.2 plainForest_nil
      exact iht h.1 hrefs.1 (plainForest_operandTrees_cons h.2.1 hoperand hrest)
  | sum e op t ihe iht =>
      rw [refs, List.forall_mem_append] at hrefs
      have hoperand : (t.nodeBefore []).Plain := iht h.2.2 hrefs.2 plainForest_nil
      exact ihe h.1 hrefs.1 (plainForest_operandTrees_cons h.2.1 hoperand hrest)

theorem Expr.plain_toNode {level : Level} (e : Expr ρ level) (h : e.Arithmetic)
    (hrefs : ∀ r ∈ e.refs, (Reference.subject r).Plain) : e.toNode.Plain :=
  e.plain_nodeBefore h hrefs plainForest_nil

theorem Statement.plain_toNode (statement : Statement ρ) (h : statement.Arithmetic)
    (hrefs : ∀ r ∈ statement.refs, (Reference.subject r).Plain) : statement.toNode.Plain := by
  cases statement with
  | declaration target | input target =>
      exact plain_of_subject?_eq_some rfl (hrefs target (List.mem_singleton_self target))
        plainForest_nil
  | output value =>
      exact plain_of_subject?_eq_none rfl (plainForest_singleton (value.plain_toNode h hrefs))
  | assignment target value =>
      obtain ⟨htarget, hvalue⟩ := List.forall_mem_cons.mp hrefs
      exact plain_of_subject?_eq_some rfl htarget
        (plainForest_singleton (value.plain_toNode h hvalue))

namespace Program

/-- The trees of a program, none of them marked. -/
def trees (program : Program ρ) : List (String × Node) :=
  program.map fun statement => ("", statement.toNode)

theorem outline_eq (program : Program ρ) : program.outline = forestOutline 0 program.trees := by
  apply String.toList_injective
  simp only [outline, Node.outline, forestOutline, forestLines, trees, String.toList_join,
    List.flatMap_map, List.map_flatMap, List.flatMap_assoc]

/-- All names can be read, and all operators are operators of the language. -/
structure Plain (program : Program ρ) : Prop where
  subject : ∀ r ∈ program.refs, (Reference.subject r).Plain
  arithmetic : ∀ s ∈ program, s.Arithmetic

theorem Plain.plainForest_trees {program : Program ρ} (h : program.Plain) :
    PlainForest program.trees := by
  constructor
  · intro tree htree
    obtain ⟨statement, hstatement, rfl⟩ := List.mem_map.mp htree
    exact .absent
  · intro tree htree
    obtain ⟨statement, hstatement, rfl⟩ := List.mem_map.mp htree
    exact statement.plain_toNode (h.arithmetic statement hstatement) fun r hr =>
      h.subject r (List.mem_flatMap.mpr ⟨statement, hstatement, hr⟩)

end Program

/-! ## From the outline to the program -/

variable [LawfulReference ρ]

/-- A statement is told by its tree. -/
theorem Statement.eq_of_toNode_eq {statement other : Statement ρ} (h : statement.Arithmetic)
    (h' : other.Arithmetic) (hnode : statement.toNode = other.toNode) : statement = other := by
  have hunderstood : statement.toNode.toStatement (ρ := ρ) = other.toNode.toStatement :=
    congrArg Node.toStatement hnode
  rw [statement.toStatement_toNode h, other.toStatement_toNode h'] at hunderstood
  exact map_ok_injective (Except.ok.inj hunderstood)

/-- A program is told by its outline. -/
theorem Program.eq_of_outline_eq {program other : Program ρ} (h : program.Plain) (h' : other.Plain)
    (houtline : program.outline = other.outline) : program = other := by
  rw [outline_eq, outline_eq] at houtline
  have htrees := eq_of_forestOutline_eq h.plainForest_trees h'.plainForest_trees le_rfl houtline
  refine Text.eq_of_map_eq (fun statement hmem statement' hmem' htree => ?_) htrees
  exact Statement.eq_of_toNode_eq (h.arithmetic statement hmem) (h'.arithmetic statement' hmem')
    (Prod.mk.inj htree).2

end Trees

namespace Program

/-- What is read from the front of a text. -/
theorem plain_of_ofText {text rest : String} {program : Program String}
    (h : ofText text = .ok (program, rest)) : program.Plain := by
  obtain ⟨⟨body, -, hwritten, -⟩, -⟩ := Parser.statements_sound (ofText_eq_ok_iff.mp h)
  exact ⟨hwritten.alphabetic, hwritten.arithmetic⟩

/-- What a program is resolved to, as far as it can be. -/
theorem Plain.resolve {program : Program String} (h : program.Plain) (table : SymbolTable) :
    (Program.resolve table program).resolved.Plain := by
  obtain ⟨before, behind, rfl, hresolves⟩ := exists_resolved_prefix table program
  exact ⟨fun slot _ => trivial,
    hresolves.arithmetic fun s hs => h.arithmetic s (List.mem_append_left behind hs)⟩

/-- No two programs have the same outline, if their names are made of letters and their
operators are operators of the language; nor have two resolved programs, whatever their slots
are. Literals may be any numbers, and are the same to the bit. Every program that is read from
a text is such a program, and so is what it is resolved to. -/
theorem outline_determines_program :
    (∀ program other : Program String,
      (∀ name ∈ program.refs, Alphabetic name) → (∀ name ∈ other.refs, Alphabetic name) →
      (∀ s ∈ program, s.Arithmetic) → (∀ s ∈ other, s.Arithmetic) →
      program.outline = other.outline → program = other) ∧
    (∀ program other : Program Int,
      (∀ s ∈ program, s.Arithmetic) → (∀ s ∈ other, s.Arithmetic) →
      program.outline = other.outline → program = other) ∧
    ∀ (text rest : String) (program : Program String), ofText text = .ok (program, rest) →
      (∀ name ∈ program.refs, Alphabetic name) ∧ (∀ s ∈ program, s.Arithmetic) ∧
      ∀ table, ∀ s ∈ (Program.resolve table program).resolved, s.Arithmetic := by
  refine ⟨fun program other hnames hnames' h h' => ?_, fun program other h h' => ?_,
    fun text rest program hread => ?_⟩
  · exact eq_of_outline_eq ⟨hnames, h⟩ ⟨hnames', h'⟩
  · exact eq_of_outline_eq ⟨fun slot _ => trivial, h⟩ ⟨fun slot _ => trivial, h'⟩
  · have hplain := plain_of_ofText hread
    exact ⟨hplain.subject, hplain.arithmetic, fun table => (hplain.resolve table).arithmetic⟩

example : outline [.declaration "a", .assignment "a"
      (.term (.product (.factor (.ref "a")) .multiply (.literal 2.0)))] =
    "Declaration('a')\nAssignment('a')\n  Expression\n    Term\n      Identifier('a')\n" ++
      "      * Literal(2.0)\n" := by
  decide +kernel

/-- A variable is divided by a number in parentheses. -/
def divides {ρ : Type} (r : ρ) (x : Float) : Program ρ :=
  [.assignment r (.term (.product (.factor (.ref r)) .divide
    (.group (.term (.factor (.literal x))))))]

/-- The same numbers, one of them infinite, written and computed. -/
theorem divides_eq_of_outline_eq :
    divides "ab" 0.1 = divides "ab" (1.0 / 10.0) ∧
      divides (-1 : Int) 1e999 = divides (-1 : Int) (1.0 / 0.0) := by
  have hknown {ρ : Type} (r : ρ) (x : Float) : ∀ s ∈ divides r x, s.Arithmetic := by
    simp [divides, Statement.Arithmetic, Expr.Arithmetic, Operator.Known]
  have hname (x : Float) : ∀ name ∈ refs (divides "ab" x), Alphabetic name := by
    simp [divides, refs, Statement.refs, Expr.refs, Alphabetic]
  obtain ⟨hnamed, hresolved, -⟩ := outline_determines_program
  exact ⟨hnamed _ _ (hname _) (hname _) (hknown _ _) (hknown _ _) (by decide +kernel),
    hresolved _ _ (hknown _ _) (hknown _ _) (by decide +kernel)⟩

end Program

end Calc
