import Mathlib
import LuaLang.Proofs.Scan.Steps

/-!
# Line ends

A line end after a source does not change what was read of the source. Names, numbers, marks and
line comments stop there at the latest; strings and comments that are not finished would go on, but
these were not read.

## Main statements

* `Lexeme.read_line`: a lexeme that was read is read again.
-/

namespace LuaLang

namespace Lexeme

variable {c : Char} {cs : List Char} (more : List Char)

/-- What stops at a line end does not see what comes after it. -/
theorem takeWhile_line {p : Char → Bool} (hp : p '\n' = false) (cs : List Char) :
    (cs ++ '\n' :: more).takeWhile p = cs.takeWhile p := by
  induction cs with
  | nil => simp [hp]
  | cons c cs ih => simp [List.takeWhile_cons, ih]

/-- What has no line end in it does not reach past one. -/
theorem isPrefixOf_line {x : List Char} (hx : '\n' ∉ x) (cs : List Char) :
    x.isPrefixOf (cs ++ '\n' :: more) = x.isPrefixOf cs := by
  induction x generalizing cs with
  | nil => rfl
  | cons c x ih =>
    rw [List.mem_cons, not_or] at hx
    cases cs with
    | nil => simp [List.isPrefixOf, Ne.symm hx.1]
    | cons d cs => simp [List.isPrefixOf, ih hx.2 cs]

theorem readName_line (cs : List Char) : readName (cs ++ '\n' :: more) = readName cs := by
  rw [readName, readName, takeWhile_line more (by decide)]

theorem prefix_numeral (cs : List Char) : numeral cs <+: cs := by
  fun_induction numeral cs <;> simp_all

theorem numeral_line (cs : List Char) : numeral (cs ++ '\n' :: more) = numeral cs := by
  have hnewline : numeral ('\n' :: more) = [] := by
    cases more <;> rfl
  fun_induction numeral cs with
  | case1 => exact hnewline
  | case2 c hc =>
    rw [List.singleton_append, numeral, hnewline, if_pos hc]
    simp
  | case3 c hc =>
    have he : ¬ (c = 'e' || c = 'E') = true := by
      intro he
      simp only [Bool.or_eq_true, decide_eq_true_eq] at he
      rcases he with rfl | rfl <;> exact hc (by decide)
    rw [List.singleton_append, numeral, if_neg he, if_neg hc]
  | case4 c d cs hc hd ih =>
    rw [List.cons_append, List.cons_append, numeral, if_pos hc, if_pos hd, ih]
  | case5 c d cs hc hd ih =>
    rw [List.cons_append, List.cons_append, numeral, if_pos hc, if_neg hd, ← List.cons_append, ih]
  | case6 c d cs hc hd ih =>
    rw [List.cons_append, List.cons_append, numeral, if_neg hc, if_pos hd, ← List.cons_append, ih]
  | case7 c d cs hc hd =>
    rw [List.cons_append, List.cons_append, numeral, if_neg hc, if_neg hd]

theorem not_mem_text {s : Symbol} (h : s ∈ Symbol.punctuation) : '\n' ∉ s.text.toList := by
  have hall : ∀ s ∈ Symbol.punctuation, '\n' ∉ s.text.toList := by decide +kernel
  exact hall s h

theorem readMark?_line (cs : List Char) : readMark? (cs ++ '\n' :: more) = readMark? cs := by
  unfold readMark?
  rw [List.find?_congr fun s hs => isPrefixOf_line more (not_mem_text hs) cs]

/-! ## Strings and comments -/

/-- The digits of an escape are among the first three characters. -/
theorem escapeDigits_line (cs : List Char) :
    ((cs ++ '\n' :: more).take 3).takeWhile Char.isDigit = (cs.take 3).takeWhile Char.isDigit := by
  rw [List.take_append]
  cases 3 - cs.length with
  | zero => rw [List.take_zero, List.append_nil]
  | succ room => exact takeWhile_line _ (by decide) _

theorem readEscape_line {text : String} {offset : Nat} {r : Char × Nat}
    (h : readEscape text offset cs = .ok r) :
    readEscape text offset (cs ++ '\n' :: more) = .ok r := by
  have hdigits := escapeDigits_line more cs
  cases cs with
  | nil => cases h
  | cons c cs =>
    rw [List.cons_append] at hdigits
    rw [List.cons_append, readEscape, hdigits]
    rwa [readEscape] at h

theorem quoted_line {delimiter : Char} {skip width : Nat} {text : String} {l : Lexeme}
    (h : quoted delimiter cs skip text width = .ok l) :
    quoted delimiter (cs ++ '\n' :: more) skip text width = .ok l := by
  induction cs generalizing skip text width with
  | nil => cases skip <;> cases h
  | cons c cs ih =>
    cases skip with
    | succ skip => exact ih h
    | zero =>
      rw [quoted] at h
      rw [List.cons_append, quoted]
      split at h
      · cases h
      next hc =>
      rw [if_neg hc]
      split at h
      · next hbackslash =>
        rw [if_pos hbackslash]
        split at h
        · next e taken hescape =>
          rw [readEscape_line more hescape]
          exact ih h
        · cases h
      next hbackslash =>
      rw [if_neg hbackslash]
      split at h
      · next hclose => rwa [if_pos hclose]
      · next hclose =>
        rw [if_neg hclose]
        exact ih h

theorem not_mem_closer (level : Nat) : '\n' ∉ closer level := by
  simp [closer]

theorem bracketBody_line {closer : List Char} (hcloser : '\n' ∉ closer) {text : String}
    {width : Nat} {r : String × Nat} (h : bracketBody closer cs text width = some r) :
    bracketBody closer (cs ++ '\n' :: more) text width = some r := by
  induction cs generalizing text width with
  | nil => cases h
  | cons c cs ih =>
    rw [bracketBody] at h
    rw [List.cons_append, bracketBody, isPrefixOf_line more hcloser]
    split at h
    · next hclose => rwa [if_pos hclose]
    · next hclose =>
      rw [if_neg hclose]
      exact ih h

theorem openLevel?_line (cs : List Char) : openLevel? (cs ++ '\n' :: more) = openLevel? cs := by
  unfold openLevel?
  rw [takeWhile_line more (by decide)]
  dsimp only
  rw [List.drop_append_of_le_length (List.takeWhile_prefix _).length_le]
  cases cs.drop (cs.takeWhile (· = '=')).length with
  | nil => rfl
  | cons c rest =>
    by_cases hc : c = '['
    · rw [hc]
      rfl
    · simp [hc]

/-- Where something is left after the line end that may open a text, that line end is all there. -/
theorem openingLineEnd_line (h : cs.drop (openingLineEnd cs) ≠ []) :
    openingLineEnd (cs ++ '\n' :: more) = openingLineEnd cs ∧ openingLineEnd cs ≤ cs.length := by
  refine ⟨?_, ?_⟩
  · cases cs with
    | nil => exact absurd rfl h
    | cons c cs =>
      cases cs with
      | nil =>
        by_cases hc : c = '\r'
        · subst hc
          exact absurd rfl h
        · by_cases hn : c = '\n'
          · subst hn
            rfl
          · simp [openingLineEnd, hc, hn]
      | cons d cs =>
        by_cases hc : c = '\r'
        · subst hc
          by_cases hd : d = '\n'
          · subst hd
            rfl
          · simp [openingLineEnd, hd]
        · by_cases hn : c = '\n'
          · subst hn
            rfl
          · simp [openingLineEnd, hc, hn]
  · have hpos := List.length_pos_iff.2 h
    rw [List.length_drop] at hpos
    omega

theorem readBracketed_line {symbol : Symbol} {level opened : Nat} {l : Lexeme}
    (h : readBracketed symbol level opened cs = .ok l) :
    readBracketed symbol level opened (cs ++ '\n' :: more) = .ok l := by
  rw [readBracketed_eq] at h ⊢
  split at h
  · next text width hbody =>
    have hne : cs.drop (openingLineEnd cs) ≠ [] := by
      intro hnil
      rw [hnil] at hbody
      cases hbody
    obtain ⟨hsame, hle⟩ := openingLineEnd_line more hne
    rw [hsame, List.drop_append_of_le_length hle,
      bracketBody_line more (not_mem_closer level) hbody]
    exact h
  · cases h

theorem length_of_openLevel? {level : Nat} (h : openLevel? cs = some level) :
    level + 1 ≤ cs.length := by
  unfold openLevel? at h
  dsimp only at h
  split at h
  · next rest hrest =>
    cases h
    have hlength := congrArg List.length hrest
    rw [List.length_drop, List.length_cons] at hlength
    omega
  · cases h

theorem readLongString_line {l : Lexeme} (h : readLongString cs = .ok l) :
    readLongString (cs ++ '\n' :: more) = .ok l := by
  unfold readLongString at h ⊢
  rw [openLevel?_line]
  split at h
  · next level hlevel =>
    rw [List.drop_append_of_le_length (length_of_openLevel? hlevel)]
    exact readBracketed_line more h
  · cases h

theorem readLineComment_line (cs : List Char) :
    readLineComment (cs ++ '\n' :: more) = readLineComment cs := by
  rw [readLineComment, readLineComment, takeWhile_line more (by decide)]

theorem readComment_line {l : Lexeme} (h : readComment cs = .ok l) :
    readComment (cs ++ '\n' :: more) = .ok l := by
  unfold readComment at h
  split at h
  · next rest =>
    rw [List.cons_append, readComment, openLevel?_line]
    split at h
    · next level hlevel =>
      rw [List.drop_append_of_le_length (length_of_openLevel? hlevel)]
      exact readBracketed_line more h
    · rw [← List.cons_append, readLineComment_line]
      exact h
  · next hbracket =>
    have hline : readComment (cs ++ '\n' :: more) = .ok (readLineComment (cs ++ '\n' :: more)) := by
      cases cs with
      | nil => rfl
      | cons c rest =>
        have hc : c ≠ '[' := by
          rintro rfl
          exact hbracket rest rfl
        simp [readComment, hc]
    rw [hline, readLineComment_line]
    exact h

/-! ## All lexemes -/

/-- A lexeme that was read is read again if a line end follows the source. -/
theorem read_line {l : Lexeme} (h : read c cs = .ok l) : read c (cs ++ '\n' :: more) = .ok l := by
  have hhead : ∀ d, d ≠ '\n' → ((cs ++ '\n' :: more).head? = some d ↔ cs.head? = some d) := by
    intro d hd
    cases cs with
    | nil => simp [hd.symm]
    | cons => rfl
  have hdigit : (cs ++ '\n' :: more).head?.any Char.isDigit = cs.head?.any Char.isDigit := by
    cases cs <;> rfl
  unfold read at h ⊢
  simp only [hhead '-' (by decide), hhead '[' (by decide), hhead '=' (by decide), hdigit]
  split at h
  · next hcomment =>
    rw [if_pos hcomment]
    cases cs with
    | nil => simp at hcomment
    | cons d rest => exact readComment_line more h
  next hcomment =>
  rw [if_neg hcomment]
  split at h
  · next hlong =>
    rw [if_pos hlong]
    exact readLongString_line more h
  next hlong =>
  rw [if_neg hlong]
  split at h
  · next hquote =>
    rw [if_pos hquote]
    exact quoted_line more h
  next hquote =>
  rw [if_neg hquote, ← List.cons_append, readNumeral, numeral_line, readName_line, readMark?_line]
  exact h

end Lexeme

end LuaLang
