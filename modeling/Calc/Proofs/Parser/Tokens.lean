/-
# Reading one token

Each reader of a token is compared with the words of the grammar, in both
directions: what it takes is a gap and a word of the token, and a word that the
following text cannot prolong is taken as a whole. The statements are made about
texts that are cut into gap, word and rest, so that later proofs never look into
a reader again.
-/

import Calc.Program.Parser
import Calc.Proofs.Grammar.Spelling

namespace Calc

open Text

/-- A text starts with the words of the given tokens, and `rest` is what follows
them. A name at their end is not cut short. -/
def Reads (tokens : List Token) (text rest : List Char) : Prop :=
  ∃ body, text = body ++ rest ∧ Written tokens body ∧
    (EndsWithName tokens → StopsRun Char.isAlpha rest)

theorem Reads.refl (text : List Char) : Reads [] text text :=
  ⟨[], rfl, .nil, by simp [EndsWithName]⟩

theorem Reads.suffix {tokens : List Token} {text rest : List Char} (h : Reads tokens text rest) :
    rest <:+ text := by
  rcases h with ⟨body, rfl, -, -⟩
  exact List.suffix_append body rest

theorem Reads.single {token : Token} {text gap word rest : List Char}
    (htext : text = gap ++ (word ++ rest)) (hgap : IsGap gap) (hword : token.Word word)
    (hname : token.IsName → StopsRun Char.isAlpha rest) : Reads [token] text rest := by
  refine ⟨gap ++ (word ++ []), by simpa using htext, .cons hgap hword .nil ?_, ?_⟩
  · simp [StartsWithName]
  · exact hname ∘ endsWithName_singleton.mp

/-- A word behind a name starts with a letter only if it stands behind a gap. -/
theorem Written.startsWithGap {tokens : List Token} {body : List Char}
    (h : Written tokens body) (hname : StartsWithName tokens)
    (hstop : StopsRun Char.isAlpha body) : StartsWithGap body := by
  obtain ⟨token, htoken, hname⟩ := hname
  obtain ⟨others, rfl⟩ : ∃ others, tokens = token :: others :=
    List.head?_eq_some_iff.mp htoken
  obtain ⟨gap, word, later, rfl, separators, spelled, -⟩ := h.uncons
  cases gap with
  | cons c gap => exact ⟨c, rfl, separators c (by simp)⟩
  | nil =>
      -- Without a gap the body would start with the first letter of the name.
      cases spelled with
      | name given alphabetic =>
          obtain ⟨c, rest, rfl⟩ := List.exists_cons_of_ne_nil given
          have hc : c.isAlpha = true := alphabetic c (by simp)
          simp [hc] at hstop
      | _ => exact hname.elim

theorem Reads.append {first second : List Token} {text middle rest : List Char}
    (hfirst : Reads first text middle) (hsecond : Reads second middle rest) :
    Reads (first ++ second) text rest := by
  obtain ⟨before, rfl, hbefore, hstop⟩ := hfirst
  obtain ⟨behind, rfl, hbehind, hstop'⟩ := hsecond
  by_cases hnil : second = []
  · subst hnil
    obtain rfl := written_nil_iff.mp hbehind
    refine ⟨before, rfl, by simpa using hbefore, ?_⟩
    simpa using hstop
  · obtain ⟨token, tokens, rfl⟩ := List.exists_cons_of_ne_nil hnil
    refine ⟨before ++ behind, by simp, hbefore.append hbehind fun hends hstarts => ?_, ?_⟩
    · apply hbehind.startsWithGap hstarts
      obtain ⟨c, tail, rfl⟩ := List.exists_cons_of_ne_nil hbehind.ne_nil
      simpa using hstop hends
    · rw [endsWithName_append hnil]
      exact hstop'

namespace Parser

section Character

variable {α : Type} {kind : Char → Option α}

theorem character?_sound {text : List Char} {p : Parsed α text}
    (h : character? kind text = some p) :
    ∃ gap c, IsGap gap ∧ text = gap ++ ([c] ++ p.rest) ∧ kind c = some p.value := by
  obtain ⟨gap, hgap, htext⟩ := exists_gap_append_skipSeparators text
  unfold character? at h
  split at h
  case h_1 => cases h
  case h_2 c rest heq =>
    obtain ⟨value, hvalue, rfl⟩ := Option.map_eq_some_iff.mp h
    rw [heq] at htext
    exact ⟨gap, c, hgap, htext, hvalue⟩

theorem character?_suffix {text : List Char} {p : Parsed α text}
    (h : character? kind text = some p) : p.rest <:+ text := by
  rcases character?_sound h with ⟨gap, c, -, htext, -⟩
  exact ⟨gap ++ [c], (List.append_assoc _ _ _).trans htext.symm⟩

theorem character?_complete {gap rest : List Char} {c : Char} {value : α} (hgap : IsGap gap)
    (hc : isSeparator c = false) (hvalue : kind c = some value) :
    ∃ shorter, character? kind (gap ++ c :: rest) = some ⟨value, rest, shorter⟩ := by
  have hskip : skipSeparators (gap ++ c :: rest) = c :: rest :=
    skipSeparators_gap_append hgap (by simpa using hc)
  have hshorter : rest.length < (gap ++ c :: rest).length := by
    simp only [List.length_append, List.length_cons]
    omega
  refine ⟨hshorter, ?_⟩
  unfold character?
  split
  case h_1 heq => simp [hskip] at heq
  case h_2 d rest' heq =>
    obtain ⟨rfl, rfl⟩ := List.cons.inj (hskip.symm.trans heq)
    rw [hvalue]
    rfl

/-- No character of the kind is read where the next token starts otherwise. -/
theorem character?_eq_none {text : List Char}
    (h : ∀ c ∈ (skipSeparators text).head?, kind c = none) : character? kind text = none := by
  unfold character?
  split
  case h_1 => rfl
  case h_2 c rest heq =>
    have hc : kind c = none := h c (by simp [heq])
    simp [hc]

end Character

theorem mark?_sound {mark : Char} {text : List Char} {p : Parsed Unit text}
    (h : mark? mark text = some p) : ∃ gap, IsGap gap ∧ text = gap ++ mark :: p.rest := by
  obtain ⟨gap, c, hgap, htext, hc⟩ := character?_sound h
  have hmark : c = mark := by
    by_contra hne
    simp [hne] at hc
  rw [hmark] at htext
  exact ⟨gap, hgap, htext⟩

theorem mark?_reads {mark : Char} {token : Token} (hword : token.Word [mark])
    (hname : ¬ token.IsName) {text : List Char} {p : Parsed Unit text}
    (h : mark? mark text = some p) : Reads [token] text p.rest := by
  obtain ⟨gap, hgap, htext⟩ := mark?_sound h
  exact .single htext hgap hword fun hn => (hname hn).elim

theorem mark?_complete {mark : Char} {gap rest : List Char} (hgap : IsGap gap)
    (hmark : isSeparator mark = false) :
    ∃ shorter, mark? mark (gap ++ mark :: rest) = some ⟨(), rest, shorter⟩ :=
  character?_complete hgap hmark (by simp)

theorem mark?_eq_none {mark : Char} {text : List Char}
    (h : ∀ c ∈ (skipSeparators text).head?, c ≠ mark) : mark? mark text = none :=
  character?_eq_none fun c hc => if_neg (h c hc)

theorem name?_reads {text : List Char} {p : Parsed String text} (h : name? text = some p) :
    Reads [.name p.value] text p.rest := by
  obtain ⟨gap, hgap, htext⟩ := exists_gap_append_skipSeparators text
  unfold name? at h
  split at h
  case h_1 => cases h
  case h_2 c letters heq =>
    obtain rfl := Option.some.inj h
    have hletters : ∀ d ∈ c :: letters, d.isAlpha = true := by
      intro d hd
      rw [← heq] at hd
      exact List.mem_takeWhile_imp hd
    have hsplit : (c :: letters) ++ (skipSeparators text).dropWhile Char.isAlpha =
        skipSeparators text := by
      rw [← heq, List.takeWhile_append_dropWhile]
    exact .single (htext.trans (by rw [hsplit])) hgap
      (.name (List.cons_ne_nil c letters) hletters) fun _ => stopsRun_dropWhile _ _

theorem name?_complete {gap letters rest : List Char} (hgap : IsGap gap)
    (given : letters ≠ []) (alphabetic : ∀ c ∈ letters, c.isAlpha = true)
    (hrest : StopsRun Char.isAlpha rest) :
    ∃ shorter, name? (gap ++ (letters ++ rest)) =
      some ⟨String.ofList letters, rest, shorter⟩ := by
  obtain ⟨c, tail, rfl⟩ := List.exists_cons_of_ne_nil given
  have hc : isSeparator c = false := isSeparator_of_isAlpha (alphabetic c (by simp))
  have hskip : skipSeparators (gap ++ (c :: tail ++ rest)) = c :: tail ++ rest :=
    skipSeparators_gap_append hgap (by simpa using hc)
  have htake :
      (skipSeparators (gap ++ (c :: tail ++ rest))).takeWhile Char.isAlpha = c :: tail := by
    rw [hskip, takeWhile_run_append alphabetic hrest]
  have hdrop : (skipSeparators (gap ++ (c :: tail ++ rest))).dropWhile Char.isAlpha = rest := by
    rw [hskip, dropWhile_run_append alphabetic hrest]
  have hshorter : rest.length < (gap ++ (c :: tail ++ rest)).length := by
    simp only [List.length_append, List.length_cons]
    omega
  refine ⟨hshorter, ?_⟩
  unfold name?
  split
  case h_1 heq => exact (List.cons_ne_nil c tail (htake.symm.trans heq)).elim
  case h_2 d letters heq =>
    obtain ⟨rfl, rfl⟩ := List.cons.inj (htake.symm.trans heq)
    simp only [hdrop]

theorem name?_eq_none {text : List Char}
    (h : StopsRun Char.isAlpha (skipSeparators text)) : name? text = none := by
  have hnil : (skipSeparators text).takeWhile Char.isAlpha = [] :=
    @takeWhile_run_append _ _ [] _ (by simp) h
  unfold name?
  split
  case h_1 => rfl
  case h_2 c letters heq => simp [hnil] at heq

theorem number?_reads {text : List Char} {p : Parsed Float text} (h : number? text = some p) :
    Reads [.number p.value] text p.rest := by
  obtain ⟨gap, hgap, htext⟩ := exists_gap_append_skipSeparators text
  unfold number? at h
  split at h
  case h_1 => cases h
  case h_2 n rest hscan =>
    obtain rfl := Option.some.inj h
    obtain ⟨word, hskip, hword⟩ := Numeral.word_of_scan hscan
    rw [hskip] at htext
    exact .single htext hgap (.number hword) fun hname => hname.elim

theorem number?_of_scan {text rest : List Char} {n : Numeral}
    (h : Numeral.scan (skipSeparators text) = some (n, rest)) :
    ∃ shorter, number? text = some ⟨n.toFloat, rest, shorter⟩ := by
  refine ⟨Nat.lt_of_lt_of_le (Numeral.scan_length_lt h) (skipSeparators_length_le text), ?_⟩
  unfold number?
  split
  case h_1 heq => simp [h] at heq
  case h_2 n' rest' heq =>
    obtain ⟨rfl, rfl⟩ := Prod.mk.inj (Option.some.inj (h.symm.trans heq))
    rfl

/-- A numeral is what comes after the separators. -/
theorem skipSeparators_numeral {gap word : List Char} {n : Numeral} (hgap : IsGap gap)
    (hword : Numeral.Word word n) (rest : List Char) :
    skipSeparators (gap ++ (word ++ rest)) = word ++ rest := by
  obtain ⟨c, tail, hcons, hc⟩ := (Token.Word.number hword).head
  exact skipSeparators_gap_append hgap (by simpa [hcons] using hc)

theorem number?_complete {gap word rest : List Char} {n : Numeral} (hgap : IsGap gap)
    (hword : Numeral.Word word n) (hrest : Numeral.EndsBefore rest) :
    ∃ shorter, number? (gap ++ (word ++ rest)) = some ⟨n.toFloat, rest, shorter⟩ := by
  apply number?_of_scan
  rw [skipSeparators_numeral hgap hword, Numeral.scan_append hword hrest]

theorem number?_eq_none {text : List Char}
    (h : Numeral.scan (skipSeparators text) = none) : number? text = none := by
  unfold number?
  split
  case h_1 => rfl
  case h_2 heq => simp [h] at heq

theorem assign?_reads {text : List Char} {p : Parsed Unit text} (h : assign? text = some p) :
    Reads [.assign] text p.rest := by
  obtain ⟨gap, hgap, htext⟩ := exists_gap_append_skipSeparators text
  unfold assign? at h
  split at h
  case h_1 rest heq =>
    obtain rfl := Option.some.inj h
    rw [heq] at htext
    exact .single htext hgap .assign fun hname => hname.elim
  case h_2 => cases h

theorem assign?_complete {gap rest : List Char} (hgap : IsGap gap) :
    ∃ shorter, assign? (gap ++ ':' :: '=' :: rest) = some ⟨(), rest, shorter⟩ := by
  have hskip : skipSeparators (gap ++ ':' :: '=' :: rest) = ':' :: '=' :: rest :=
    skipSeparators_gap_append hgap (by simp; rfl)
  have hshorter : rest.length < (gap ++ ':' :: '=' :: rest).length := by
    simp only [List.length_append, List.length_cons]
    omega
  refine ⟨hshorter, ?_⟩
  unfold assign?
  split
  case h_1 rest' heq =>
    obtain ⟨-, htail⟩ := List.cons.inj (hskip.symm.trans heq)
    obtain ⟨-, rfl⟩ := List.cons.inj htail
    rfl
  case h_2 hnot => exact (hnot rest hskip).elim

end Parser

end Calc
