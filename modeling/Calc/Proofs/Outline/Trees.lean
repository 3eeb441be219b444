/-
# The outline of a tree tells the tree

The lines below a node are those of its children, which stand one step deeper than the node
itself. No closing mark shows where the lines of a tree end: the next tree starts with the
first line that is not deeper than the line of the tree. Therefore the lines of trees side by
side are cut in one way only, and a tree is rebuilt from its first line and, by induction,
from the lines below.
-/

import Calc.Proofs.Outline.Headers
import Calc.Proofs.Text.Context

namespace Calc.Node

open Text (run_append_inj)

/-! ## Trees and their children -/

/-- The operands of a chain, each marked with its operator. -/
def operandTrees (operands : List (String × Node)) : List (String × Node) :=
  operands.map (Prod.map (· ++ " ") id)

theorem operandTrees_injective : Function.Injective operandTrees := by
  apply List.map_injective_iff.mpr
  exact Function.Injective.prodMap (fun _ _ => (String.append_left_inj " ").mp)
    Function.injective_id

/-- The children of a node, each with its mark. -/
def children : Node → List (String × Node)
  | .identifier _ | .literal _ _ | .declaration _ | .input _ => []
  | .group _ value | .output _ value | .assignment _ value => [("", value)]
  | .chain _ _ first rest => ("", first) :: operandTrees rest

/-- A tree of which all names can be read and all operators are operators of the language. -/
inductive Plain : Node → Prop
  | intro {node : Node} (subject : ∀ v ∈ node.subject?, v.Plain)
      (marks : ∀ child ∈ node.children, Mark child.1)
      (children : ∀ child ∈ node.children, Plain child.2) : Plain node

/-- Such trees side by side, each with its mark. -/
structure PlainForest (trees : List (String × Node)) : Prop where
  mark : ∀ tree ∈ trees, Mark tree.1
  plain : ∀ tree ∈ trees, tree.2.Plain

theorem plainForest_cons {tree : String × Node} {trees : List (String × Node)} :
    PlainForest (tree :: trees) ↔ (Mark tree.1 ∧ tree.2.Plain) ∧ PlainForest trees := by
  constructor
  · rintro ⟨hmark, hplain⟩
    rw [List.forall_mem_cons] at hmark hplain
    exact ⟨⟨hmark.1, hplain.1⟩, hmark.2, hplain.2⟩
  · rintro ⟨⟨hmark, hplain⟩, hmarks, hplains⟩
    exact ⟨List.forall_mem_cons.mpr ⟨hmark, hmarks⟩, List.forall_mem_cons.mpr ⟨hplain, hplains⟩⟩

theorem plainForest_nil : PlainForest [] :=
  ⟨List.forall_mem_nil _, List.forall_mem_nil _⟩

theorem plainForest_singleton {node : Node} (h : node.Plain) : PlainForest [("", node)] :=
  plainForest_cons.mpr ⟨⟨.absent, h⟩, plainForest_nil⟩

theorem plainForest_operandTrees_cons {op : Operator} (known : op.Known) {node : Node}
    (h : node.Plain) {rest : List (String × Node)} (hrest : PlainForest (operandTrees rest)) :
    PlainForest (operandTrees ((op.symbol, node) :: rest)) :=
  plainForest_cons.mpr ⟨⟨.operator known, h⟩, hrest⟩

theorem plain_of_subject?_eq_none {node : Node} (hnone : node.subject? = none)
    (h : PlainForest node.children) : node.Plain :=
  .intro (fun v hv => by rw [hnone] at hv; cases hv) h.mark h.plain

theorem plain_of_subject?_eq_some {node : Node} {v : Variable} (hsome : node.subject? = some v)
    (hv : v.Plain) (h : PlainForest node.children) : node.Plain :=
  .intro (fun w hw => by rw [hsome] at hw; exact Option.some.inj hw ▸ hv) h.mark h.plain

/-- The lines of trees that stand at one indentation, each tree with its mark. -/
def forestLines (indent : ℤ) (trees : List (String × Node)) : List (ℤ × String) :=
  trees.flatMap fun tree => (indent, tree.1 ++ tree.2.header) :: linesBelow indent tree.2

theorem operandLines_eq (indent : ℤ) (operands : List (String × Node)) :
    operandLines indent operands = forestLines indent (operandTrees operands) := by
  induction operands with
  | nil => rfl
  | cons operand operands ih =>
      obtain ⟨op, operand⟩ := operand
      rw [operandLines, ih]
      rfl

/-- The lines below a node are those of its children, one step deeper. -/
theorem linesBelow_eq (indent : ℤ) (node : Node) :
    linesBelow indent node = forestLines (indent + 1) node.children := by
  have hunmarked (s : String) : "" ++ s = s := String.empty_append
  cases node with
  | chain kind stage first rest =>
      simp only [linesBelow, operandLines_eq, children, forestLines, List.flatMap_cons, hunmarked]
  | group | output | assignment =>
      simp only [linesBelow, children, forestLines, List.flatMap_cons, List.flatMap_nil,
        List.append_nil, hunmarked]
  | _ => rfl

variable {node other : Node} {indent : ℤ}

/-- A line below a node is that of another node, and deeper than its own. -/
theorem exists_of_mem_linesBelow (h : node.Plain) :
    ∀ line ∈ linesBelow indent node, ∃ depth mark, ∃ below : Node,
      line = (depth, mark ++ below.header) ∧ indent < depth ∧ Mark mark ∧ below.Plain := by
  induction h generalizing indent with
  | intro subject marks children ih =>
      intro line hline
      rw [linesBelow_eq] at hline
      obtain ⟨child, hchild, hmem⟩ := List.mem_flatMap.mp hline
      rcases List.mem_cons.mp hmem with rfl | hbelow
      · exact ⟨_, _, child.2, rfl, lt_add_one indent, marks child hchild, children child hchild⟩
      · obtain ⟨depth, mark, below, rfl, hdepth, hfound⟩ := ih child hchild line hbelow
        exact ⟨depth, mark, below, rfl, (lt_add_one indent).trans hdepth, hfound⟩

/-! ## From the lines to the trees -/

/-- A node is told by its header and its children. -/
theorem eq_of_header_eq_of_children_eq (h : ∀ v ∈ node.subject?, v.Plain)
    (h' : ∀ v ∈ other.subject?, v.Plain) (hheader : node.header = other.header)
    (hchildren : node.children = other.children) : node = other := by
  obtain ⟨hlabel, hfield⟩ := label_eq_and_fieldText_eq hheader
  obtain ⟨hstage, hkind⟩ := stage_eq_and_kind_eq hlabel
  have hinside {s t : String} (hst : "(" ++ s ++ ")" = "(" ++ t ++ ")") : s = t :=
    (String.append_right_inj _).mp ((String.append_left_inj _).mp hst)
  have hsubject {v w : Variable} (hv : v.Plain) (hw : w.Plain) (hvw : v.stage = w.stage)
      (htext : "(" ++ v.text ++ ")" = "(" ++ w.text ++ ")") : v = w :=
    Variable.eq_of_text_eq hv hw hvw (hinside htext)
  have hchild {m n : Node} (hmn : [("", m)] = [("", n)]) : m = n :=
    (Prod.mk.inj (List.cons.inj hmn).1).2
  cases node with
  | identifier v =>
      cases other with
      | identifier w => rw [hsubject (h v rfl) (h' w rfl) hstage hfield]
      | _ => cases hkind
  | literal stage x =>
      cases other with
      | literal stage' y =>
          obtain rfl : stage = stage' := hstage
          rw [Layout.tree_faithful.render_injective (hinside hfield)]
      | _ => cases hkind
  | group stage value =>
      cases other with
      | group stage' value' =>
          obtain rfl : stage = stage' := hstage
          rw [hchild hchildren]
      | _ => cases hkind
  | chain kind stage first rest =>
      cases other with
      | chain kind' stage' first' rest' =>
          obtain rfl : stage = stage' := hstage
          obtain ⟨hfirst, hrest⟩ := List.cons.inj hchildren
          rw [(Prod.mk.inj hfirst).2, operandTrees_injective hrest, Kind.chain.inj hkind]
      | _ => cases hkind
  | declaration v =>
      cases other with
      | declaration w => rw [hsubject (h v rfl) (h' w rfl) hstage hfield]
      | _ => cases hkind
  | input v =>
      cases other with
      | input w => rw [hsubject (h v rfl) (h' w rfl) hstage hfield]
      | _ => cases hkind
  | output stage value =>
      cases other with
      | output stage' value' =>
          obtain rfl : stage = stage' := hstage
          rw [hchild hchildren]
      | _ => cases hkind
  | assignment v value =>
      cases other with
      | assignment w value' =>
          rw [hsubject (h v rfl) (h' w rfl) hstage hfield, hchild hchildren]
      | _ => cases hkind

variable {trees others : List (String × Node)}

/-- What follows the lines below a node in an outline starts with the next line that is not
deeper than the node. -/
theorem linesBelow_append_inj (h : node.Plain) (h' : other.Plain)
    (hlines : linesBelow indent node ++ forestLines indent trees =
      linesBelow indent other ++ forestLines indent others) :
    linesBelow indent node = linesBelow indent other ∧
      forestLines indent trees = forestLines indent others := by
  have hdeeper {node : Node} (h : node.Plain) :
      ∀ line ∈ linesBelow indent node, decide (indent < line.1) = true := by
    intro line hline
    obtain ⟨depth, mark, below, rfl, hdepth, -⟩ := exists_of_mem_linesBelow h line hline
    exact decide_eq_true hdepth
  have hstop (trees : List (String × Node)) :
      ∀ line ∈ (forestLines indent trees).head?, decide (indent < line.1) = false := by
    intro line hline
    cases trees with
    | nil => cases hline
    | cons tree trees =>
        obtain rfl := Option.some.inj hline
        exact decide_eq_false (lt_irrefl indent)
  exact run_append_inj (hdeeper h) (hdeeper h') (hstop trees) (hstop others) hlines

/-- Trees side by side are told by their lines, if each of them is told by its own. -/
theorem eq_of_forestLines_eq_of_told (h : PlainForest trees) (h' : PlainForest others)
    (htold : ∀ tree ∈ trees, ∀ {other : Node}, other.Plain → tree.2.header = other.header →
      linesBelow indent tree.2 = linesBelow indent other → tree.2 = other)
    (hlines : forestLines indent trees = forestLines indent others) : trees = others := by
  induction trees generalizing others with
  | nil =>
      cases others with
      | nil => rfl
      | cons other others => cases hlines
  | cons tree trees ih =>
      cases others with
      | nil => cases hlines
      | cons other others =>
          obtain ⟨⟨hmark, hplain⟩, htrees⟩ := plainForest_cons.mp h
          obtain ⟨⟨hmark', hplain'⟩, hothers⟩ := plainForest_cons.mp h'
          obtain ⟨hline, hbehind⟩ := List.cons.inj hlines
          obtain ⟨hmarks, hheader⟩ := mark_eq_and_header_eq hmark hmark' (Prod.mk.inj hline).2
          obtain ⟨hbelow, hrest⟩ := linesBelow_append_inj hplain hplain' hbehind
          have htree : tree.2 = other.2 := htold tree List.mem_cons_self hplain' hheader hbelow
          rw [Prod.ext hmarks htree, ih htrees hothers
            (fun tree hmem => htold tree (List.mem_cons_of_mem _ hmem)) hrest]

/-- A tree is told by its header and the lines below it. -/
theorem eq_of_linesBelow_eq (h : node.Plain) (h' : other.Plain)
    (hheader : node.header = other.header)
    (hlines : linesBelow indent node = linesBelow indent other) : node = other := by
  induction h generalizing indent other with
  | intro subject marks children ih =>
      obtain ⟨subject', marks', children'⟩ := h'
      rw [linesBelow_eq, linesBelow_eq] at hlines
      apply eq_of_header_eq_of_children_eq subject subject' hheader
      exact eq_of_forestLines_eq_of_told ⟨marks, children⟩ ⟨marks', children'⟩
        (fun child hchild => ih child hchild) hlines

/-! ## From the text to the lines -/

/-- A line of an outline, without its line feed. -/
def lineText (line : ℤ × String) : List Char :=
  List.replicate (2 * line.1.toNat) ' ' ++ line.2.toList

theorem toList_outlineLine (line : ℤ × String) :
    (outlineLine line).toList = lineText line ++ ['\n'] := by
  rw [outlineLine, String.toList_append, String.toList_append, Text.toList_pushn]
  rfl

/-- A line whose indentation can be told from what is shown behind it. -/
structure IsLine (line : ℤ × String) : Prop where
  indent_nonneg : 0 ≤ line.1
  lineFeed_not_mem : '\n' ∉ line.2.toList
  head?_ne : ∀ c ∈ line.2.toList.head?, (c == ' ') = false

theorem isLine_header {mark : String} (hmark : Mark mark) (h : node.Plain) (hindent : 0 ≤ indent) :
    IsLine (indent, mark ++ node.header) := by
  obtain ⟨subject, -, -⟩ := h
  obtain ⟨-, hfeed, hblank⟩ := hmark.spelling
  refine ⟨hindent, ?_, fun c hc => ?_⟩
  · rw [String.toList_append, List.mem_append, not_or]
    exact ⟨hfeed, lineFeed_not_mem_header subject⟩
  · rw [String.toList_append, List.head?_append] at hc
    rw [beq_eq_false_iff_ne]
    rintro rfl
    cases hhead : mark.toList.head? with
    | some c =>
        rw [hhead] at hc hblank
        exact hblank hc
    | none =>
        rw [hhead] at hc
        cases node.head?_header ' ' hc

theorem isLine_of_mem_forestLines (h : PlainForest trees) (hindent : 0 ≤ indent) :
    ∀ line ∈ forestLines indent trees, IsLine line := by
  intro line hline
  obtain ⟨tree, htree, hmem⟩ := List.mem_flatMap.mp hline
  rcases List.mem_cons.mp hmem with rfl | hbelow
  · exact isLine_header (h.mark tree htree) (h.plain tree htree) hindent
  · obtain ⟨depth, mark, below, rfl, hdepth, hmark, hplain⟩ :=
      exists_of_mem_linesBelow (h.plain tree htree) line hbelow
    exact isLine_header hmark hplain (hindent.trans hdepth.le)

/-- A line is cut behind its indentation. -/
theorem eq_of_lineText_eq {line line' : ℤ × String} (h : IsLine line) (h' : IsLine line')
    (htext : lineText line = lineText line') : line = line' := by
  have hblank {n : ℕ} : ∀ c ∈ List.replicate n ' ', (c == ' ') = true := fun c hc =>
    beq_iff_eq.mpr (List.eq_of_mem_replicate hc)
  obtain ⟨hindent, hshown⟩ := run_append_inj hblank hblank h.head?_ne h'.head?_ne htext
  have hlength := congrArg List.length hindent
  rw [List.length_replicate, List.length_replicate] at hlength
  have hnonneg := h.indent_nonneg
  have hnonneg' := h'.indent_nonneg
  exact Prod.ext (by omega) (String.toList_injective hshown)

/-- Lines are told by the text that they are put together to. -/
theorem eq_of_join_eq {content others : List (ℤ × String)} (h : ∀ line ∈ content, IsLine line)
    (h' : ∀ line ∈ others, IsLine line)
    (htext : String.join (content.map outlineLine) = String.join (others.map outlineLine)) :
    content = others := by
  have hlines {content : List (ℤ × String)} (h : ∀ line ∈ content, IsLine line) :
      Text.lines (String.join (content.map outlineLine)).toList =
        content.map lineText ++ [[]] := by
    have hfeeds : (String.join (content.map outlineLine)).toList =
        (content.map lineText).flatMap (· ++ ['\n']) := by
      simp only [String.toList_join, List.flatMap_map, toList_outlineLine]
    rw [hfeeds]
    apply Text.lines_flatMap_lineFeed
    intro text hmem
    obtain ⟨line, hline, rfl⟩ := List.mem_map.mp hmem
    rw [lineText, List.mem_append, not_or]
    refine ⟨fun hfeed => ?_, (h line hline).lineFeed_not_mem⟩
    cases List.eq_of_mem_replicate hfeed
  have hcut := congrArg (Text.lines ∘ String.toList) htext
  rw [Function.comp_apply, Function.comp_apply, hlines h, hlines h'] at hcut
  exact Text.eq_of_map_eq (fun line hline line' hline' =>
    eq_of_lineText_eq (h line hline) (h' line' hline')) (List.append_cancel_right hcut)

/-- The text of trees side by side, from the given indentation on. -/
def forestOutline (indent : ℤ) (trees : List (String × Node)) : String :=
  String.join ((forestLines indent trees).map outlineLine)

/-- Trees side by side are told by their outline. -/
theorem eq_of_forestOutline_eq (h : PlainForest trees) (h' : PlainForest others)
    (hindent : 0 ≤ indent) (htext : forestOutline indent trees = forestOutline indent others) :
    trees = others := by
  have hlines := eq_of_join_eq (isLine_of_mem_forestLines h hindent)
    (isLine_of_mem_forestLines h' hindent) htext
  exact eq_of_forestLines_eq_of_told h h'
    (fun tree htree _ => eq_of_linesBelow_eq (h.plain tree htree)) hlines

end Calc.Node
