/-
# The words that are numerals

The grammar of numerals is stated here part by part, apart from the function that
scans them: an optional sign, digits with an optional point among or beside them,
an optional exponent. Every part relates a word to what it means.

Scanning is sound for the grammar: what it takes from the front of a text is a
word, and the number that it returns is the one the word writes. It is complete as
far as the following text allows: a word that stands before a text which cannot
prolong it is taken as a whole.
-/

import Calc.Number.Numeral
import Calc.Proofs.Text.Runs

namespace Calc.Numeral

open Text (StopsRun stopsRun_cons takeWhile_run_append dropWhile_run_append isSeparator
  isSeparator_of_isDigit)

/-- One or more ASCII digits. -/
def IsDigits (word : List Char) : Prop :=
  word ≠ [] ∧ ∀ c ∈ word, c.isDigit = true

/-- An optional sign, and whether it is a minus sign. -/
inductive SignWord : List Char → Bool → Prop
  | absent : SignWord [] false
  | plus : SignWord ['+'] false
  | minus : SignWord ['-'] true

/-- Digits before a point and digits after it. The point may be missing, and so
may the digits on one of its sides. -/
inductive MantissaWord : List Char → List Char → List Char → Prop
  | whole {digits : List Char} (given : IsDigits digits) : MantissaWord digits digits []
  | pointed {digits fraction : List Char} (given : IsDigits digits)
      (after : ∀ c ∈ fraction, c.isDigit = true) :
      MantissaWord (digits ++ '.' :: fraction) digits fraction
  | fraction {fraction : List Char} (given : IsDigits fraction) :
      MantissaWord ('.' :: fraction) [] fraction

/-- An optional exponent, and the power of ten that it stands for. -/
inductive ExponentWord : List Char → Int → Prop
  | absent : ExponentWord [] 0
  | present {mark : Char} {sign digits : List Char} {negative : Bool}
      (marked : mark = 'e' ∨ mark = 'E') (signed : SignWord sign negative)
      (given : IsDigits digits) :
      ExponentWord (mark :: (sign ++ digits))
        (if negative then -(ofDigits digits : Int) else ofDigits digits)

/-- A numeral and the number it writes. The digits on both sides of the point are
read as one natural number, of which the exponent moves the point. -/
inductive Word : List Char → Numeral → Prop
  | intro {sign mantissa whole fraction exponent : List Char} {negative : Bool} {power : Int}
      (signed : SignWord sign negative) (counted : MantissaWord mantissa whole fraction)
      (scaled : ExponentWord exponent power) :
      Word (sign ++ (mantissa ++ exponent))
        ⟨negative, ofDigits (whole ++ fraction), power - fraction.length⟩

/-- No numeral reaches from the left into a text that starts like this. An `e` is
harmless where no exponent follows. -/
def EndsBefore : List Char → Prop
  | [] => True
  | c :: rest => c.isDigit = false ∧ c ≠ '.' ∧
      (c = 'e' ∨ c = 'E' → ∀ d ∈ rest.head?, d.isDigit = false ∧ d ≠ '+' ∧ d ≠ '-')

theorem endsBefore_cons {c : Char} (hdigit : c.isDigit = false) (hpoint : c ≠ '.')
    (hlower : c ≠ 'e') (hupper : c ≠ 'E') (rest : List Char) : EndsBefore (c :: rest) :=
  ⟨hdigit, hpoint, fun hmark => (hmark.elim hlower hupper).elim⟩

theorem EndsBefore.stopsRun {rest : List Char} (h : EndsBefore rest) :
    StopsRun Char.isDigit rest := by
  cases rest with
  | nil => simp
  | cons c rest => simpa using h.1

/-- A mantissa starts with a digit or with the point. -/
theorem MantissaWord.head {word whole fraction : List Char}
    (h : MantissaWord word whole fraction) :
    ∃ c rest, word = c :: rest ∧ (c.isDigit = true ∨ c = '.') := by
  cases h with
  | whole given =>
      obtain ⟨c, rest, rfl⟩ := List.exists_cons_of_ne_nil given.1
      exact ⟨c, rest, rfl, .inl (given.2 c (by simp))⟩
  | @pointed digits fraction given after =>
      obtain ⟨c, rest, rfl⟩ := List.exists_cons_of_ne_nil given.1
      exact ⟨c, rest ++ '.' :: fraction, rfl, .inl (given.2 c (by simp))⟩
  | fraction given => exact ⟨'.', _, rfl, .inr rfl⟩

/-- A numeral starts with a digit, a point or a sign. -/
theorem Word.head {word : List Char} {n : Numeral} (h : Word word n) :
    ∃ c rest, word = c :: rest ∧ (c.isDigit = true ∨ c = '.' ∨ c = '+' ∨ c = '-') := by
  obtain ⟨signed, counted, scaled⟩ := h
  obtain ⟨c, rest, rfl, hc⟩ := counted.head
  cases signed with
  | absent => exact ⟨c, _, rfl, hc.imp id .inl⟩
  | plus => exact ⟨'+', _, rfl, by simp⟩
  | minus => exact ⟨'-', _, rfl, by simp⟩

/-- A numeral is made of digits, signs, points and marks of exponents. -/
theorem Word.isDigit_or_mem {word : List Char} {n : Numeral} (h : Word word n) :
    ∀ c ∈ word, c.isDigit = true ∨ c ∈ ['+', '-', '.', 'e', 'E'] := by
  rcases h with ⟨signed, counted, scaled⟩
  have hsign {sign : List Char} {negative : Bool} (signed : SignWord sign negative) :
      ∀ c ∈ sign, c.isDigit = true ∨ c ∈ ['+', '-', '.', 'e', 'E'] := by
    cases signed <;> simp
  have hdigits {digits : List Char} (given : ∀ c ∈ digits, c.isDigit = true) :
      ∀ c ∈ digits, c.isDigit = true ∨ c ∈ ['+', '-', '.', 'e', 'E'] :=
    fun c hc => .inl (given c hc)
  rw [List.forall_mem_append, List.forall_mem_append]
  refine ⟨hsign signed, ?_, ?_⟩
  · cases counted with
    | whole given => exact hdigits given.2
    | pointed given after =>
        rw [List.forall_mem_append, List.forall_mem_cons]
        exact ⟨hdigits given.2, by simp, hdigits after⟩
    | fraction given =>
        rw [List.forall_mem_cons]
        exact ⟨by simp, hdigits given.2⟩
  · cases scaled with
    | absent => simp
    | present marked signed' given =>
        rw [List.forall_mem_cons, List.forall_mem_append]
        refine ⟨?_, hsign signed', hdigits given.2⟩
        rcases marked with rfl | rfl <;> simp

/-- What holds of every digit and of every mark holds of all characters of a numeral. -/
theorem Word.forall_mem {word : List Char} {n : Numeral} (h : Word word n) {p : Char → Prop}
    (digit : ∀ c, c.isDigit = true → p c) (plus : p '+') (minus : p '-') (point : p '.')
    (lower : p 'e') (upper : p 'E') : ∀ c ∈ word, p c := by
  intro c hc
  rcases h.isDigit_or_mem c hc with hdigit | hmem
  · exact digit c hdigit
  · simp only [List.mem_cons, List.not_mem_nil, or_false] at hmem
    rcases hmem with rfl | rfl | rfl | rfl | rfl <;> assumption

/-- No separator stands inside a numeral. -/
theorem Word.not_isSeparator {word : List Char} {n : Numeral} (h : Word word n) :
    ∀ c ∈ word, isSeparator c = false :=
  h.forall_mem (fun _ hdigit => isSeparator_of_isDigit hdigit) rfl rfl rfl rfl rfl

/-! ## What scanning takes is a word -/

theorem scanSign_sound (s : List Char) :
    ∃ word, s = word ++ (scanSign s).2 ∧ SignWord word (scanSign s).1 := by
  unfold scanSign
  split
  · exact ⟨['-'], rfl, .minus⟩
  · exact ⟨['+'], rfl, .plus⟩
  · exact ⟨[], rfl, .absent⟩

theorem scanExponent_sound (s : List Char) :
    ∃ word, s = word ++ (scanExponent s).2 ∧ ExponentWord word (scanExponent s).1 := by
  unfold scanExponent
  split
  case h_1 mark after =>
    obtain ⟨sign, hafter, hsign⟩ := scanSign_sound after
    generalize scanSign after = scanned at hafter hsign
    obtain ⟨negative, rest⟩ := scanned
    simp only at hafter hsign ⊢
    split
    case isTrue found =>
      have hdigits : IsDigits (rest.takeWhile Char.isDigit) :=
        ⟨found.2, fun c hc => List.mem_takeWhile_imp hc⟩
      refine ⟨_, ?_, .present found.1 hsign hdigits⟩
      rw [List.cons_append, List.append_assoc, List.takeWhile_append_dropWhile, ← hafter]
    case isFalse => exact ⟨[], rfl, .absent⟩
  case h_2 => exact ⟨[], rfl, .absent⟩

/-- Digits, then what `scanFraction` takes, make a mantissa unless there are no
digits on either side. -/
theorem scanFraction_sound (s : List Char)
    (hsome : ¬ (s.takeWhile Char.isDigit = [] ∧
      (scanFraction (s.dropWhile Char.isDigit)).1 = [])) :
    ∃ word, s = word ++ (scanFraction (s.dropWhile Char.isDigit)).2 ∧
      MantissaWord word (s.takeWhile Char.isDigit)
        (scanFraction (s.dropWhile Char.isDigit)).1 := by
  have hwhole : ∀ c ∈ s.takeWhile Char.isDigit, c.isDigit = true :=
    fun c hc => List.mem_takeWhile_imp hc
  have hparts := List.takeWhile_append_dropWhile (p := Char.isDigit) (l := s)
  generalize s.takeWhile Char.isDigit = whole at hsome hwhole hparts ⊢
  generalize s.dropWhile Char.isDigit = behind at hsome hparts ⊢
  subst hparts
  unfold scanFraction at hsome ⊢
  split
  case h_1 rest =>
    have hfraction : ∀ c ∈ rest.takeWhile Char.isDigit, c.isDigit = true :=
      fun c hc => List.mem_takeWhile_imp hc
    by_cases hempty : whole = []
    · subst hempty
      refine ⟨'.' :: rest.takeWhile Char.isDigit, ?_, .fraction ⟨?_, hfraction⟩⟩
      · simp [List.takeWhile_append_dropWhile]
      · simpa using hsome
    · refine ⟨whole ++ '.' :: rest.takeWhile Char.isDigit, ?_,
        .pointed ⟨hempty, hwhole⟩ hfraction⟩
      simp [List.takeWhile_append_dropWhile]
  case h_2 =>
    refine ⟨whole, rfl, .whole ⟨?_, hwhole⟩⟩
    simpa using hsome

/-- What scanning takes from a text is a numeral, and the number it returns is the
one that this numeral writes. -/
theorem word_of_scan {s rest : List Char} {n : Numeral} (h : scan s = some (n, rest)) :
    ∃ word, s = word ++ rest ∧ Word word n := by
  simp only [scan] at h
  split at h
  case isTrue => cases h
  case isFalse found =>
    obtain ⟨sign, hs, signed⟩ := scanSign_sound s
    obtain ⟨mantissa, hm, counted⟩ := scanFraction_sound _ found
    obtain ⟨exponent, he, scaled⟩ :=
      scanExponent_sound (scanFraction ((scanSign s).2.dropWhile Char.isDigit)).2
    simp only [Option.some.injEq, Prod.mk.injEq] at h
    obtain ⟨rfl, rfl⟩ := h
    refine ⟨sign ++ (mantissa ++ exponent), ?_, .intro signed counted scaled⟩
    rw [List.append_assoc, List.append_assoc, ← he, ← hm, ← hs]

/-! ## A word before a text that cannot prolong it is taken -/

theorem scanSign_append {sign body : List Char} {negative : Bool} (signed : SignWord sign negative)
    (hbody : ∀ c ∈ body.head?, c ≠ '+' ∧ c ≠ '-') :
    scanSign (sign ++ body) = (negative, body) := by
  cases signed with
  | absent =>
      rw [List.nil_append]
      unfold scanSign
      split
      · exact absurd rfl (hbody '-' rfl).2
      · exact absurd rfl (hbody '+' rfl).1
      · rfl
  | plus => rfl
  | minus => rfl

private theorem ne_sign_of_isDigit {c : Char} (h : c.isDigit = true) : c ≠ '+' ∧ c ≠ '-' := by
  constructor <;> rintro rfl <;> simp at h

/-- No sign stands in front of digits and a point. -/
theorem MantissaWord.ne_sign_head {mantissa whole fraction : List Char}
    (counted : MantissaWord mantissa whole fraction) (tail : List Char) :
    ∀ c ∈ (mantissa ++ tail).head?, c ≠ '+' ∧ c ≠ '-' := by
  obtain ⟨c, rest, rfl, hc⟩ := counted.head
  rcases hc with hc | rfl
  · simpa using ne_sign_of_isDigit hc
  · simp

theorem scanExponent_of_endsBefore {rest : List Char} (h : EndsBefore rest) :
    scanExponent rest = (0, rest) := by
  cases rest with
  | nil => rfl
  | cons mark after =>
      simp only [scanExponent]
      split
      case isTrue found =>
        -- An exponent would need a sign or a digit behind the mark.
        have hhead := h.2.2 found.1
        have hplain : scanSign after = (false, after) :=
          @scanSign_append [] after _ .absent fun d hd => (hhead d hd).2
        rw [hplain] at found
        cases after with
        | nil => simp at found
        | cons d after => simp [(hhead d rfl).1] at found
      case isFalse => rfl

theorem scanExponent_append {exponent rest : List Char} {power : Int}
    (scaled : ExponentWord exponent power) (hrest : EndsBefore rest) :
    scanExponent (exponent ++ rest) = (power, rest) := by
  cases scaled with
  | absent => exact scanExponent_of_endsBefore hrest
  | @present mark sign digits negative marked signed given =>
      have hhead : ∀ c ∈ (digits ++ rest).head?, c ≠ '+' ∧ c ≠ '-' := by
        obtain ⟨d, digits, rfl⟩ := List.exists_cons_of_ne_nil given.1
        simpa using ne_sign_of_isDigit (given.2 d (by simp))
      simp only [List.cons_append, List.append_assoc, scanExponent,
        scanSign_append signed hhead, takeWhile_run_append given.2 hrest.stopsRun,
        dropWhile_run_append given.2 hrest.stopsRun]
      rw [if_pos ⟨marked, given.1⟩]

/-- An exponent starts with a letter, so that digits in front of it end. -/
theorem ExponentWord.stopsRun_append {exponent rest : List Char} {power : Int}
    (scaled : ExponentWord exponent power) (hrest : EndsBefore rest) :
    StopsRun (fun c => c.isDigit || c == '.') (exponent ++ rest) := by
  cases scaled with
  | absent =>
      cases rest with
      | nil => simp
      | cons c rest => simpa using ⟨hrest.1, hrest.2.1⟩
  | present marked signed given =>
      rcases marked with rfl | rfl <;> simp

theorem scanFraction_append {mantissa whole fraction tail : List Char}
    (counted : MantissaWord mantissa whole fraction)
    (htail : StopsRun (fun c => c.isDigit || c == '.') tail) :
    (mantissa ++ tail).takeWhile Char.isDigit = whole ∧
      scanFraction ((mantissa ++ tail).dropWhile Char.isDigit) = (fraction, tail) ∧
      ¬ (whole = [] ∧ fraction = []) := by
  have hdigit : StopsRun Char.isDigit tail := by
    intro c hc
    exact (Bool.or_eq_false_iff.mp (htail c hc)).1
  cases counted with
  | whole given =>
      refine ⟨takeWhile_run_append given.2 hdigit, ?_, fun hnil => given.1 hnil.1⟩
      rw [dropWhile_run_append given.2 hdigit]
      unfold scanFraction
      split
      · simp at htail
      · rfl
  | @pointed digits fraction given after =>
      have hpoint : StopsRun Char.isDigit ('.' :: (fraction ++ tail)) := by simp
      rw [List.append_assoc, List.cons_append]
      refine ⟨takeWhile_run_append given.2 hpoint, ?_, fun hnil => given.1 hnil.1⟩
      rw [dropWhile_run_append given.2 hpoint, scanFraction,
        takeWhile_run_append after hdigit, dropWhile_run_append after hdigit]
  | fraction given =>
      refine ⟨by simp, ?_, fun hnil => given.1 hnil.2⟩
      simp [scanFraction, takeWhile_run_append given.2 hdigit,
        dropWhile_run_append given.2 hdigit]

/-- A numeral that stands before a text which cannot prolong it is scanned as a
whole. -/
theorem scan_append {word rest : List Char} {n : Numeral} (h : Word word n)
    (hrest : EndsBefore rest) : scan (word ++ rest) = some (n, rest) := by
  cases h with
  | @intro sign mantissa whole fraction exponent negative power signed counted scaled =>
      obtain ⟨htake, hfraction, hsome⟩ :=
        scanFraction_append counted (scaled.stopsRun_append hrest)
      simp only [List.append_assoc, scan, scanSign_append signed (counted.ne_sign_head _), htake,
        hfraction, scanExponent_append scaled hrest]
      rw [if_neg hsome]

/-- A text that starts like no numeral is not scanned. -/
theorem scan_eq_none_of_head {c : Char} {rest : List Char}
    (hdigit : c.isDigit = false) (hpoint : c ≠ '.') (hplus : c ≠ '+') (hminus : c ≠ '-') :
    scan (c :: rest) = none := by
  cases hscan : scan (c :: rest) with
  | none => rfl
  | some found =>
      obtain ⟨n, behind⟩ := found
      obtain ⟨word, htext, hword⟩ := word_of_scan hscan
      obtain ⟨d, tail, rfl, hd⟩ := hword.head
      obtain ⟨rfl, -⟩ := List.cons.inj htext
      simp_all

/-! ## Before any text, at least the word is taken -/

theorem scanFraction_takes {mantissa whole fraction : List Char}
    (counted : MantissaWord mantissa whole fraction) (tail : List Char) :
    ¬ ((mantissa ++ tail).takeWhile Char.isDigit = [] ∧
        (scanFraction ((mantissa ++ tail).dropWhile Char.isDigit)).1 = []) ∧
      (scanFraction ((mantissa ++ tail).dropWhile Char.isDigit)).2 <:+ tail := by
  cases counted with
  | whole given =>
      rw [List.takeWhile_append_of_pos given.2, List.dropWhile_append_of_pos given.2]
      constructor
      · intro hnil
        exact given.1 (List.append_eq_nil_iff.mp hnil.1).1
      · have hdigits : tail.dropWhile Char.isDigit <:+ tail := List.dropWhile_suffix _
        unfold scanFraction
        split
        case h_1 rest hrest =>
          rw [hrest] at hdigits
          exact (List.dropWhile_suffix _).trans ((List.suffix_cons '.' rest).trans hdigits)
        case h_2 => exact hdigits
  | @pointed digits fraction given after =>
      have hpoint : StopsRun Char.isDigit ('.' :: (fraction ++ tail)) := by simp
      rw [List.append_assoc, List.cons_append, takeWhile_run_append given.2 hpoint,
        dropWhile_run_append given.2 hpoint, scanFraction, List.dropWhile_append_of_pos after]
      exact ⟨fun hnil => given.1 hnil.1, List.dropWhile_suffix _⟩
  | fraction given =>
      show ¬ (_ ∧ (fraction ++ tail).takeWhile Char.isDigit = []) ∧
        (fraction ++ tail).dropWhile Char.isDigit <:+ tail
      rw [List.takeWhile_append_of_pos given.2, List.dropWhile_append_of_pos given.2]
      constructor
      · intro hnil
        exact given.1 (List.append_eq_nil_iff.mp hnil.2).1
      · exact List.dropWhile_suffix _

theorem scanExponent_suffix (s : List Char) : (scanExponent s).2 <:+ s := by
  rcases scanExponent_sound s with ⟨word, hs, -⟩
  exact ⟨word, hs.symm⟩

theorem scanExponent_takes {exponent : List Char} {power : Int}
    (scaled : ExponentWord exponent power) (tail : List Char) :
    (scanExponent (exponent ++ tail)).2 <:+ tail := by
  cases scaled with
  | absent => exact scanExponent_suffix tail
  | @present mark sign digits negative marked signed given =>
      have hhead : ∀ c ∈ (digits ++ tail).head?, c ≠ '+' ∧ c ≠ '-' := by
        obtain ⟨d, digits, rfl⟩ := List.exists_cons_of_ne_nil given.1
        simpa using ne_sign_of_isDigit (given.2 d (by simp))
      have hdigits : (digits ++ tail).takeWhile Char.isDigit ≠ [] := by
        rw [List.takeWhile_append_of_pos given.2]
        exact fun hnil => given.1 (List.append_eq_nil_iff.mp hnil).1
      simp only [List.cons_append, List.append_assoc, scanExponent, scanSign_append signed hhead]
      rw [if_pos ⟨marked, hdigits⟩, List.dropWhile_append_of_pos given.2]
      exact List.dropWhile_suffix _

/-- Whatever stands behind a numeral, it is scanned, perhaps as the front of a longer one. -/
theorem scan_takes {word : List Char} {n : Numeral} (h : Word word n) (tail : List Char) :
    ∃ found, scan (word ++ tail) = some found ∧ found.2 <:+ tail := by
  cases h with
  | @intro sign mantissa whole fraction exponent negative power signed counted scaled =>
      simp only [List.append_assoc, scan, scanSign_append signed (counted.ne_sign_head _)]
      rw [if_neg (scanFraction_takes counted _).1]
      refine ⟨_, rfl, ?_⟩
      have hexponent := scanExponent_takes scaled tail
      cases scaled with
      | absent => exact (scanExponent_suffix _).trans (scanFraction_takes counted tail).2
      | @present mark sign' digits negative' marked signed' given =>
          -- The letter of the exponent ends the mantissa.
          have hstop : StopsRun (fun c => c.isDigit || c == '.')
              (mark :: (sign' ++ digits) ++ tail) := by
            rcases marked with rfl | rfl <;> simp
          rcases scanFraction_append counted hstop with ⟨-, hfraction, -⟩
          rw [hfraction]
          exact hexponent

end Calc.Numeral
