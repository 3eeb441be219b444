/-
# The longest numeral

Where a factor is expected and neither a name nor a parenthesis stands, a number is read if
the text starts with a numeral, and then the longest numeral is taken: a mark of an exponent
or a sign that no digits follow is left to the next token. Whatever is taken this way is also
a number when a person types it, and the same one, so that every numeral of a program has a
value.
-/

import Calc.Proofs.Number.Entered
import Calc.Proofs.Parser.Values

namespace Calc

open Text (StopsRun skipSeparators stopsRun_cons)

namespace Numeral

/-- The longest of the numerals that a text starts with, and the number that it writes. -/
structure IsLongest (text word : List Char) (n : Numeral) : Prop where
  numeral : Word word n
  starts : word <+: text
  longest : ∀ {other : List Char} {m : Numeral}, Word other m → other <+: text →
    other.length ≤ word.length

/-- A word writes one number only. -/
theorem Word.unique {word : List Char} {n m : Numeral} (h : Word word n) (h' : Word word m) :
    n = m := by
  have hn : scan (word ++ []) = some (n, []) := scan_append h trivial
  have hm : scan (word ++ []) = some (m, []) := scan_append h' trivial
  exact (Prod.mk.inj (Option.some.inj (hn.symm.trans hm))).1

/-- Scanning takes the longest numeral. -/
theorem isLongest_of_scan {text rest : List Char} {n : Numeral} (h : scan text = some (n, rest)) :
    ∃ word, text = word ++ rest ∧ IsLongest text word n := by
  obtain ⟨word, rfl, hword⟩ := word_of_scan h
  refine ⟨word, rfl, hword, List.prefix_append word rest, ?_⟩
  rintro other m hother ⟨tail, htail⟩
  obtain ⟨found, hfound, hsuffix⟩ := scan_takes hother tail
  rw [htail, h, Option.some_inj] at hfound
  rw [← hfound] at hsuffix
  have hlength := congrArg List.length htail
  simp only [List.length_append] at hlength
  have hle : rest.length ≤ tail.length := hsuffix.length_le
  omega

/-- A numeral is scanned exactly if the text starts with one, and it is the longest one. -/
theorem scan_eq_some_iff {text rest : List Char} {n : Numeral} :
    scan text = some (n, rest) ↔ ∃ word, text = word ++ rest ∧ IsLongest text word n := by
  refine ⟨isLongest_of_scan, ?_⟩
  rintro ⟨word, htext, hlongest⟩
  obtain ⟨⟨m, left⟩, hscan, -⟩ := scan_takes hlongest.numeral rest
  rw [← htext] at hscan
  obtain ⟨word', htext', hlongest'⟩ := isLongest_of_scan hscan
  -- Two prefixes of one text that are as long as each other are the same.
  have hlength : word'.length = word.length :=
    le_antisymm (hlongest.longest hlongest'.numeral hlongest'.starts)
      (hlongest'.longest hlongest.numeral hlongest.starts)
  obtain ⟨rfl, rfl⟩ := List.append_inj (htext'.symm.trans htext) hlength
  rw [hscan, hlongest.numeral.unique hlongest'.numeral]

theorem scan_eq_none_iff {text : List Char} :
    scan text = none ↔ ¬ ∃ word n, Word word n ∧ word <+: text := by
  constructor
  · rintro hnone ⟨word, n, hword, tail, rfl⟩
    obtain ⟨found, hfound, -⟩ := scan_takes hword tail
    rw [hnone] at hfound
    cases hfound
  · intro hnot
    cases hscan : scan text with
    | none => rfl
    | some found =>
        obtain ⟨word, -, hlongest⟩ := isLongest_of_scan hscan
        exact absurd ⟨word, found.1, hlongest.numeral, hlongest.starts⟩ hnot

/-- No exponent starts here: the mark or the digits of one are missing. -/
def NoExponent (text : List Char) : Prop :=
  ∀ {exponent : List Char} {power : Int}, ExponentWord exponent power → exponent <+: text →
    exponent = []

theorem scanExponent_of_noExponent {text : List Char} (h : NoExponent text) :
    scanExponent text = (0, text) := by
  obtain ⟨word, htext, hword⟩ := scanExponent_sound text
  obtain rfl := h hword ⟨_, htext.symm⟩
  refine Prod.ext ?_ htext.symm
  generalize (scanExponent text).1 = power at hword
  cases hword
  rfl

/-- Signed digits are scanned as a whole where they do not go on and no exponent starts. -/
theorem scan_of_noExponent {sign mantissa whole fraction tail : List Char} {negative : Bool}
    (signed : SignWord sign negative) (counted : MantissaWord mantissa whole fraction)
    (htail : StopsRun (fun c => c.isDigit || c == '.') tail) (hexponent : NoExponent tail) :
    scan (sign ++ (mantissa ++ tail)) =
      some (⟨negative, ofDigits (whole ++ fraction), -fraction.length⟩, tail) := by
  obtain ⟨htake, hfraction, hsome⟩ := scanFraction_append counted htail
  simp only [scan, scanSign_append signed (counted.ne_sign_head tail), htake, hfraction,
    scanExponent_of_noExponent hexponent]
  rw [if_neg hsome, Int.zero_sub]

end Numeral

namespace Parser

variable {text : List Char}

/-- Where neither a name nor a parenthesis stands, a factor is a number. -/
theorem factor_eq_number (inside : Parser (Expr String .expression))
    (h : ∀ c ∈ (skipSeparators text).head?, c.isAlpha = false ∧ c ≠ '(') :
    factor inside text = .ok ((number? text).map (Parsed.map .literal)) := by
  have hname : name? text = none := name?_eq_none fun c hc => (h c hc).1
  have hopening : mark? '(' text = none := mark?_eq_none fun c hc => (h c hc).2
  rw [factor, hname, hopening]
  cases number? text with
  | none => rfl
  | some number => rfl

/-- A numeral that is scanned behind the separators is read as a factor. -/
theorem returns_factor_of_scan (inside : Parser (Expr String .expression)) {rest : List Char}
    {n : Numeral} (hscan : Numeral.scan (skipSeparators text) = some (n, rest)) :
    Returns (factor inside) text (.literal n.toFloat) rest := by
  obtain ⟨shorter, hnumber⟩ := number?_of_scan hscan
  have hfront : ∀ c ∈ (skipSeparators text).head?, c.isAlpha = false ∧ c ≠ '(' := by
    obtain ⟨word, hskip, hword⟩ := Numeral.word_of_scan hscan
    obtain ⟨c, tail, rfl, hc⟩ := hword.head
    rw [hskip]
    intro d hd
    obtain rfl : c = d := by simpa using hd
    rcases hc with hdigit | rfl | rfl | rfl
    · refine ⟨Bool.eq_false_iff.mpr fun halpha => ?_, ?_⟩
      · rw [isDigit_of_isAlpha halpha] at hdigit
        cases hdigit
      · rintro rfl
        cases hdigit
    all_goals exact ⟨rfl, by decide⟩
  refine ⟨shorter, ?_⟩
  rw [factor_eq_number inside hfront, hnumber]
  rfl

/-- Where neither a name nor a parenthesis stands, a factor is read exactly if a numeral is
scanned. -/
theorem returns_factor_iff (inside : Parser (Expr String .expression)) {rest : List Char}
    {value : Expr String .factor}
    (h : ∀ c ∈ (skipSeparators text).head?, c.isAlpha = false ∧ c ≠ '(') :
    Returns (factor inside) text value rest ↔
      ∃ n, Numeral.scan (skipSeparators text) = some (n, rest) ∧ value = .literal n.toFloat := by
  constructor
  · rintro ⟨shorter, hread⟩
    rw [factor_eq_number inside h] at hread
    cases hscan : Numeral.scan (skipSeparators text) with
    | none =>
        rw [number?_eq_none hscan] at hread
        cases hread
    | some found =>
        obtain ⟨n, left⟩ := found
        obtain ⟨shorter', hnumber⟩ := number?_of_scan hscan
        rw [hnumber] at hread
        cases hread
        exact ⟨n, rfl, rfl⟩
  · rintro ⟨n, hscan, rfl⟩
    exact returns_factor_of_scan inside hscan

/-- Wherever a factor is expected and neither a name nor a parenthesis stands, a number is
read exactly if the text starts with a numeral, and nothing is read otherwise. What is read is
the longest numeral there. Behind digits, a mark of an exponent and a sign are left over
unless an exponent with digits starts there. Every numeral is read as a whole if nothing
follows it, and when a person types it, it is the same number, whatever stands for a line that
is no number. -/
theorem factor_reads_longest_numeral (inside : Parser (Expr String .expression)) :
    (∀ text : List Char,
      (∀ c ∈ (skipSeparators text).head?, c.isAlpha = false ∧ c ≠ '(') →
      ((∃ value rest, Returns (factor inside) text value rest) ↔
        ∃ word n, Numeral.Word word n ∧ word <+: skipSeparators text) ∧
      ((¬ ∃ word n, Numeral.Word word n ∧ word <+: skipSeparators text) →
        factor inside text = .ok none) ∧
      ∀ value rest, Returns (factor inside) text value rest ↔
        ∃ word n, skipSeparators text = word ++ rest ∧
          Numeral.IsLongest (skipSeparators text) word n ∧ value = .literal n.toFloat) ∧
    (∀ (text sign mantissa whole fraction behind : List Char) (negative : Bool) (c : Char),
      Numeral.SignWord sign negative → Numeral.MantissaWord mantissa whole fraction →
      c ∈ ['e', 'E', '+', '-'] → Numeral.NoExponent (c :: behind) →
      skipSeparators text = sign ++ (mantissa ++ c :: behind) →
      Returns (factor inside) text
        (.literal (Numeral.toFloat
          ⟨negative, Numeral.ofDigits (whole ++ fraction), -fraction.length⟩)) (c :: behind)) ∧
    (∀ (word : List Char) (n : Numeral), Numeral.Word word n →
      Returns (factor inside) word (.literal n.toFloat) [] ∧
      ∀ default : Float, enteredNumber (String.ofList word) default = n.toFloat) := by
  refine ⟨fun text hfront => ⟨?matched, ?unmatched, fun value rest => ?longest⟩,
    fun text sign mantissa whole fraction behind negative c signed counted hc hexponent hskip =>
      ?behind, fun word n hword => ⟨?whole, fun default => ?entered⟩⟩
  case matched =>
    rw [← not_iff_not, ← Numeral.scan_eq_none_iff]
    constructor
    · intro hnot
      cases hscan : Numeral.scan (skipSeparators text) with
      | none => rfl
      | some found => exact absurd ⟨_, _, returns_factor_of_scan inside hscan⟩ hnot
    · rintro hscan ⟨value, rest, hread⟩
      obtain ⟨n, hfound, -⟩ := (returns_factor_iff inside hfront).mp hread
      rw [hscan] at hfound
      cases hfound
  case unmatched =>
    intro hnot
    rw [factor_eq_number inside hfront, number?_eq_none (Numeral.scan_eq_none_iff.mpr hnot)]
    rfl
  case longest =>
    rw [returns_factor_iff inside hfront]
    simp only [Numeral.scan_eq_some_iff]
    constructor
    · rintro ⟨n, ⟨word, hskip, hlongest⟩, rfl⟩
      exact ⟨word, n, hskip, hlongest, rfl⟩
    · rintro ⟨word, n, hskip, hlongest, rfl⟩
      exact ⟨n, ⟨word, hskip, hlongest⟩, rfl⟩
  case behind =>
    apply returns_factor_of_scan
    rw [hskip]
    refine Numeral.scan_of_noExponent signed counted ?_ hexponent
    rw [stopsRun_cons]
    simp only [List.mem_cons, List.not_mem_nil, or_false] at hc
    rcases hc with rfl | rfl | rfl | rfl <;> rfl
  case whole =>
    apply returns_factor_of_scan
    have hskip := skipSeparators_numeral Text.isGap_nil hword []
    rw [List.nil_append, List.append_nil] at hskip
    rw [hskip, ← List.append_nil word]
    exact Numeral.scan_append hword trivial
  case entered =>
    rw [enteredNumber, String.toList_ofList, Entry.number?_of_word hword, Option.getD_some]

/-- A mark and a sign of an exponent, with a name in place of its digits. -/
theorem factor_leaves_exponent_mark :
    Returns (factor (expression maxDepth)) "\t-.5e+x".toList (.literal (-0.5)) "e+x".toList ∧
    (∃ n, Numeral.IsLongest (skipSeparators "\t-.5e+x".toList) "-.5".toList n) ∧
    enteredNumber "-.5" 0.0 = -0.5 := by
  obtain ⟨hread, hbehind, hnumeral⟩ := factor_reads_longest_numeral (expression maxDepth)
  have hdigit : Numeral.IsDigits ['5'] := ⟨List.cons_ne_nil _ _, by simp⟩
  have hword : Numeral.Word ['-', '.', '5'] ⟨true, ⟨5, -1⟩⟩ :=
    .intro .minus (.fraction hdigit) .absent
  have hnone : Numeral.NoExponent ['e', '+', 'x'] := by
    rintro exponent power (_ | @⟨mark, sign, digits, negative, marked, signed, given⟩) hprefix
    · rfl
    · -- The first digit would stand where the sign or the name does.
      obtain ⟨d, others, rfl⟩ := List.exists_cons_of_ne_nil given.1
      have hd : d.isDigit = true := given.2 d List.mem_cons_self
      cases signed with
      | absent =>
          obtain ⟨-, hprefix⟩ := List.cons_prefix_cons.mp hprefix
          obtain ⟨rfl, -⟩ := List.cons_prefix_cons.mp hprefix
          cases hd
      | plus =>
          obtain ⟨-, hprefix⟩ := List.cons_prefix_cons.mp hprefix
          obtain ⟨-, hprefix⟩ := List.cons_prefix_cons.mp hprefix
          obtain ⟨rfl, -⟩ := List.cons_prefix_cons.mp hprefix
          cases hd
      | minus =>
          obtain ⟨-, hprefix⟩ := List.cons_prefix_cons.mp hprefix
          cases (List.cons_prefix_cons.mp hprefix).1
  have hvalue : Numeral.toFloat ⟨true, ⟨5, -1⟩⟩ = -0.5 := by decide +kernel
  have hreturns := hbehind "\t-.5e+x".toList _ _ _ _ _ _ _ .minus (.fraction hdigit) (by simp)
    hnone rfl
  have hfive : (⟨true, ⟨Numeral.ofDigits ([] ++ ['5']), -(['5'].length : Int)⟩⟩ : Numeral) =
      ⟨true, ⟨5, -1⟩⟩ := rfl
  rw [hfive, hvalue] at hreturns
  have hnumber : ∀ c ∈ (skipSeparators "\t-.5e+x".toList).head?, c.isAlpha = false ∧ c ≠ '(' := by
    intro c hc
    obtain rfl : '-' = c := Option.some.inj hc
    exact ⟨rfl, by decide⟩
  obtain ⟨word, n, hskip, hlongest, -⟩ := ((hread _ hnumber).2.2 _ _).mp hreturns
  have hfront : word = "-.5".toList := List.append_cancel_right (hskip.symm.trans rfl)
  rw [hfront] at hlongest
  exact ⟨hreturns, ⟨n, hlongest⟩, ((hnumeral _ _ hword).2 0.0).trans hvalue⟩

end Parser

end Calc
