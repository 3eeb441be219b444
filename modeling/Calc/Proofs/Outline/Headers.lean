/-
# What a line of an outline tells

The line of a node is its label, followed by a variable or a number in parentheses if the
node has one, and marked with an operator if the node is an operand. A label is made of
letters. Neither marks nor parentheses are, so that a line is cut in one way only, and each
of its parts tells what it shows: a label the stage and the kind of the node, a text in
parentheses the variable or the number.
-/

import Calc.Program.Node
import Calc.Proofs.Number.Literals
import Calc.Proofs.Parser.Names
import Mathlib.Data.List.Nodup
import Std.Data.String.ToInt

namespace Calc

open Text (run_append_inj quoted StopsRun)

/-! ## Names and slots -/

namespace Text

theorem isPrintable_of_isAlpha {c : Char} (h : c.isAlpha = true) : isPrintable c = true := by
  rw [isAlpha_iff] at h
  have hbelow : c.toNat < 0x7F := by omega
  simp only [isPrintable, if_pos hbelow, decide_eq_true_eq]
  omega

/-- A name that can be read stands between single quotes. -/
theorem toList_quoted {name : String} (h : Alphabetic name) :
    (quoted name).toList = '\'' :: name.toList ++ ['\''] := by
  have hplain := quoted_plain fun c hc =>
    have hletter := h.2 c hc
    ⟨isPrintable_of_isAlpha hletter, ne_of_isAlpha hletter rfl, ne_of_isAlpha hletter rfl,
      ne_of_isAlpha hletter rfl, ne_of_isAlpha hletter rfl, ne_of_isAlpha hletter rfl⟩
  rw [hplain, String.toList_ofList]

theorem not_mem_repr {c : Char} (hc : c.isDigit = false) (n : ℕ) : c ∉ n.repr.toList := by
  rw [Nat.repr_eq_ofList_toDigits, String.toList_ofList]
  intro hmem
  rw [Nat.isDigit_of_mem_toDigits (by decide) (by decide) hmem] at hc
  cases hc

theorem toString_int_injective : Function.Injective (toString : ℤ → String) := by
  intro i j h
  have hread : i.repr.toInt? = j.repr.toInt? := congrArg String.toInt? h
  rw [Int.toInt?_repr, Int.toInt?_repr] at hread
  exact Option.some.inj hread

end Text

namespace Variable

/-- Any slot, or a name that can be read. -/
def Plain : Variable → Prop
  | .name n => Alphabetic n
  | .slot _ => True

variable {v w : Variable}

/-- Variables of one stage are told by their texts. -/
theorem eq_of_text_eq (hv : v.Plain) (hw : w.Plain) (hstage : v.stage = w.stage)
    (h : v.text = w.text) : v = w := by
  cases v with
  | name n =>
      cases w with
      | slot j => cases hstage
      | name m =>
          have hquoted := congrArg String.toList h
          rw [text, text, Text.toList_quoted hv, Text.toList_quoted hw] at hquoted
          exact congrArg name (String.toList_injective
            (List.append_cancel_right (List.cons.inj hquoted).2))
  | slot i =>
      cases w with
      | name m => cases hstage
      | slot j => exact congrArg slot (Text.toString_int_injective h)

theorem lineFeed_not_mem_text (h : v.Plain) : '\n' ∉ v.text.toList := by
  cases v with
  | name n =>
      have hname : '\n' ∉ n.toList := Alphabetic.not_mem h rfl
      rw [text, Text.toList_quoted h]
      simp [hname]
  | slot i =>
      cases i with
      | ofNat m => exact Text.not_mem_repr rfl m
      | negSucc m =>
          have htext : (text (.slot (.negSucc m))).toList = '-' :: m.succ.repr.toList :=
            String.toList_append
          rw [htext]
          exact List.not_mem_cons_of_ne_of_not_mem (by decide) (Text.not_mem_repr rfl _)

end Variable

namespace Node

/-! ## Labels -/

/-- Both stages. -/
def stages : List Stage :=
  [.named, .resolved]

theorem mem_stages (stage : Stage) : stage ∈ stages := by
  cases stage <;> decide

/-- The kinds of nodes. -/
inductive Kind where
  | identifier
  | literal
  | group
  | chain (kind : ChainKind)
  | declaration
  | input
  | output
  | assignment
  deriving DecidableEq

namespace Kind

/-- All kinds. -/
def all : List Kind :=
  [identifier, literal, group, chain .term, chain .expression, declaration, input, output,
    assignment]

theorem mem_all (kind : Kind) : kind ∈ all := by
  rcases kind with _ | _ | _ | (_ | _) | _ | _ | _ | _ <;> decide

/-- The label of the nodes of a kind in a program text. -/
def label : Kind → String
  | identifier => "Identifier"
  | literal => "Literal"
  | group => "SubExpression"
  | chain .term => "Term"
  | chain .expression => "Expression"
  | declaration => "Declaration"
  | input => "Input"
  | output => "Output"
  | assignment => "Assignment"

end Kind

/-- The kind of a node. -/
def kind : Node → Kind
  | .identifier _ => .identifier
  | .literal _ _ => .literal
  | .group _ _ => .group
  | .chain kind _ _ _ => .chain kind
  | .declaration _ => .declaration
  | .input _ => .input
  | .output _ _ => .output
  | .assignment _ _ => .assignment

/-- What is put in front of the labels of a stage. -/
def labelPrefix : Stage → String
  | .named => ""
  | .resolved => "Resolved"

theorem label_eq (node : Node) : node.label = labelPrefix node.stage ++ node.kind.label := by
  have hbase : node.baseLabel = node.kind.label := by
    cases node with
    | chain kind => cases kind <;> rfl
    | _ => rfl
  rw [label, hbase]
  cases node.stage with
  | named => exact String.empty_append.symm
  | resolved => rfl

/-- A label is made of letters. -/
theorem alphabetic_label (node : Node) : Alphabetic node.label := by
  have hall : ∀ stage ∈ stages, ∀ kind ∈ Kind.all, labelPrefix stage ++ kind.label ≠ "" ∧
      (labelPrefix stage ++ kind.label).toList.all Char.isAlpha = true := by
    decide +kernel
  obtain ⟨hne, hletters⟩ := hall _ (mem_stages node.stage) _ node.kind.mem_all
  rw [← label_eq] at hne hletters
  exact ⟨hne, List.all_eq_true.mp hletters⟩

/-- Every stage and every kind has a label of its own. -/
theorem stage_eq_and_kind_eq {node other : Node} (h : node.label = other.label) :
    node.stage = other.stage ∧ node.kind = other.kind := by
  have hall : ((stages.product Kind.all).map fun pair =>
      labelPrefix pair.1 ++ pair.2.label).Nodup := by
    decide +kernel
  have hmem (node : Node) : (node.stage, node.kind) ∈ stages.product Kind.all :=
    List.pair_mem_product.mpr ⟨mem_stages node.stage, node.kind.mem_all⟩
  rw [label_eq, label_eq] at h
  exact Prod.mk.inj (List.inj_on_of_nodup_map hall (hmem node) (hmem other) h)

/-! ## Headers -/

/-- The variable that is shown beside the label of a node. -/
def subject? : Node → Option Variable
  | .identifier v | .declaration v | .input v | .assignment v _ => some v
  | .literal _ _ | .group _ _ | .chain _ _ _ _ | .output _ _ => none

/-- What is shown beside the label of a node. -/
def fieldText : Node → String
  | .identifier v | .declaration v | .input v | .assignment v _ => "(" ++ v.text ++ ")"
  | .literal _ value => "(" ++ Layout.tree.render value ++ ")"
  | .group _ _ | .chain _ _ _ _ | .output _ _ => ""

variable {node other : Node}

theorem header_eq (node : Node) : node.header = node.label ++ node.fieldText := by
  cases node with
  | group | chain | output => exact String.append_empty.symm
  | _ => simp only [header, fieldText, String.append_assoc]

theorem toList_parenthesized (s : String) :
    ("(" ++ s ++ ")").toList = '(' :: (s.toList ++ [')']) := by
  rw [String.toList_append, String.toList_append]
  rfl

theorem stopsRun_fieldText (node : Node) : StopsRun Char.isAlpha node.fieldText.toList := by
  cases node with
  | group | chain | output => exact Text.stopsRun_nil _
  | _ =>
      rw [fieldText, toList_parenthesized, Text.stopsRun_cons]
      rfl

/-- A header is cut behind the letters of its label. -/
theorem label_eq_and_fieldText_eq (h : node.header = other.header) :
    node.label = other.label ∧ node.fieldText = other.fieldText := by
  have hcut := congrArg String.toList h
  rw [header_eq, header_eq, String.toList_append, String.toList_append] at hcut
  obtain ⟨hlabel, hfield⟩ := run_append_inj node.alphabetic_label.2 other.alphabetic_label.2
    node.stopsRun_fieldText other.stopsRun_fieldText hcut
  exact ⟨String.toList_injective hlabel, String.toList_injective hfield⟩

/-- A header starts with a letter. -/
theorem head?_header (node : Node) : ∀ c ∈ node.header.toList.head?, c.isAlpha = true := by
  intro c hc
  have hne : node.label.toList ≠ [] := mt String.toList_eq_nil_iff.mp node.alphabetic_label.1
  rw [header_eq, String.toList_append, List.head?_append_of_ne_nil _ hne] at hc
  exact node.alphabetic_label.2 c (List.mem_of_mem_head? hc)

theorem lineFeed_not_mem_header (h : ∀ v ∈ node.subject?, v.Plain) : '\n' ∉ node.header.toList := by
  have hfield {s : String} (hs : '\n' ∉ s.toList) : '\n' ∉ ("(" ++ s ++ ")").toList := by
    rw [toList_parenthesized]
    simp [hs]
  rw [header_eq, String.toList_append, List.mem_append, not_or]
  refine ⟨node.alphabetic_label.not_mem rfl, ?_⟩
  cases node with
  | identifier v | declaration v | input v | assignment v value =>
      exact hfield (Variable.lineFeed_not_mem_text (h _ rfl))
  | literal stage value => exact hfield (Layout.tree_faithful.lineFeed_not_mem value)
  | group | chain | output => exact List.not_mem_nil

/-! ## Marks -/

/-- What stands in front of a header: nothing, or an operator of the language. -/
inductive Mark : String → Prop
  | absent : Mark ""
  | operator {op : Operator} (known : op.Known) : Mark (op.symbol ++ " ")

theorem Mark.mem {mark : String} (h : Mark mark) : mark ∈ ["", "+ ", "- ", "* ", "/ "] := by
  cases h with
  | absent => decide
  | @operator op known =>
      cases op with
      | unknown symbol => exact absurd rfl (known symbol)
      | _ => decide

/-- A mark has no letter and no line feed in it, and does not start with a blank. -/
theorem Mark.spelling {mark : String} (h : Mark mark) :
    (∀ c ∈ mark.toList, (!c.isAlpha) = true) ∧ '\n' ∉ mark.toList ∧
      mark.toList.head? ≠ some ' ' := by
  have hmem := h.mem
  simp only [List.mem_cons, List.not_mem_nil, or_false] at hmem
  rcases hmem with rfl | rfl | rfl | rfl | rfl <;> simp

/-- A marked line is cut in front of the first letter. -/
theorem mark_eq_and_header_eq {mark mark' : String} (h : Mark mark) (h' : Mark mark')
    (hline : mark ++ node.header = mark' ++ other.header) :
    mark = mark' ∧ node.header = other.header := by
  have hcut := congrArg String.toList hline
  rw [String.toList_append, String.toList_append] at hcut
  have hstop (node : Node) : ∀ c ∈ node.header.toList.head?, (!c.isAlpha) = false := fun c hc => by
    rw [node.head?_header c hc, Bool.not_true]
  obtain ⟨hmark, hheader⟩ :=
    run_append_inj h.spelling.1 h'.spelling.1 (hstop node) (hstop other) hcut
  exact ⟨String.toList_injective hmark, String.toList_injective hheader⟩

end Node

end Calc
