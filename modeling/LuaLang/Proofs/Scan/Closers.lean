import Mathlib
import LuaLang.Token.Lexeme

/-!
# Closing long brackets

The text in long brackets is read in strides: a bracket is taken together with the equals signs
after it. No closing long bracket is missed that way, since none starts at an equals sign. So the
text is found as if all places of the source were looked at one after the other, and what ends it is
the first closing long bracket.

## Main definitions

* `Lexeme.closer`: what follows the first bracket of a closing long bracket.
* `Lexeme.bracketBody`: the search at all places, one after the other.
* `Lexeme.IsFirst`: where a word occurs first.

## Main statements

* `Lexeme.bracketed_eq`, `Lexeme.readBracketed_eq`: reading in strides finds what the search finds.
* `Lexeme.bracketBody_of_closing`, `Lexeme.bracketBody_of_no_closing`: the search ends at the first
  closing long bracket, and fails if there is none.
-/

namespace LuaLang

namespace Lexeme

variable {cs : List Char}

/-! ## Places one after the other -/

/-- What follows the first bracket of a closing long bracket. -/
def closer (level : Nat) : List Char :=
  List.replicate level '=' ++ [']']

/-- Looks for a bracket that is followed by `closer`: the text before it, and how many characters
were taken, the closing long bracket included. -/
def bracketBody (closer : List Char) : List Char → String → Nat → Option (String × Nat)
  | [], _, _ => none
  | c :: cs, text, width =>
    if c = ']' && closer.isPrefixOf cs then some (text, width + 1 + closer.length)
    else bracketBody closer cs (text.push c) (width + 1)

theorem length_closer (level : Nat) : (closer level).length = level + 1 := by
  simp [closer]

/-- What closes a long bracket is found by counting the equals signs. -/
theorem isPrefixOf_closer (level : Nat) (cs : List Char) :
    (closer level).isPrefixOf cs =
      ((cs.drop (cs.takeWhile (· = '=')).length).head? = some ']' &&
        (cs.takeWhile (· = '=')).length = level : Bool) := by
  induction level generalizing cs with
  | zero =>
    cases cs with
    | nil => rfl
    | cons c cs =>
      by_cases hc : c = '='
      · simp [closer, List.isPrefixOf, hc]
      · simp [closer, List.isPrefixOf, hc, Bool.beq_eq_decide_eq, eq_comm]
  | succ level ih =>
    have hsucc : closer (level + 1) = '=' :: closer level := rfl
    cases cs with
    | nil => rfl
    | cons c cs =>
      rw [hsucc]
      by_cases hc : c = '='
      · simp [hc, ih]
      · simp [List.isPrefixOf, hc, Ne.symm hc]

/-- No closing long bracket starts where there is no bracket. -/
theorem bracketBody_of_not_mem (closer : List Char) {front : List Char} (hfront : ']' ∉ front)
    (cs : List Char) (text : String) (width : Nat) :
    bracketBody closer (front ++ cs) text width =
      bracketBody closer cs (text ++ String.ofList front) (width + front.length) := by
  induction front generalizing text width with
  | nil => simp
  | cons c front ih =>
    rw [List.mem_cons, not_or] at hfront
    have hstep : bracketBody closer (c :: front ++ cs) text width =
        bracketBody closer (front ++ cs) (text.push c) (width + 1) := by
      simp [bracketBody, Ne.symm hfront.1]
    rw [hstep, ih hfront.2]
    congr 1
    · simp [String.ext_iff]
    · rw [List.length_cons]
      omega

theorem bracketBody_drop_equals (closer cs : List Char) (text : String) (width : Nat) :
    bracketBody closer cs text width =
      bracketBody closer (cs.drop (cs.takeWhile (· = '=')).length)
        (text ++ String.ofList (cs.takeWhile (· = '=')))
        (width + (cs.takeWhile (· = '=')).length) := by
  have hequals : ']' ∉ cs.takeWhile (· = '=') := fun h => by
    simpa using List.mem_takeWhile_imp h
  have hstride := List.prefix_iff_eq_append.1 (List.takeWhile_prefix (· = '=') (l := cs))
  nth_rewrite 1 [← hstride]
  exact bracketBody_of_not_mem closer hequals _ text width

/-- Reading in strides finds what the search at all places finds. -/
theorem bracketed_eq (level : Nat) (cs : List Char) (skip : Nat) (text : String) (width : Nat) :
    bracketed level cs skip text width =
      bracketBody (closer level) (cs.drop skip) text width := by
  induction cs generalizing skip text width with
  | nil =>
    rw [List.drop_nil]
    rfl
  | cons c cs ih =>
    cases skip with
    | succ skip => exact ih skip text width
    | zero =>
      rw [bracketed, List.drop_zero, bracketBody]
      by_cases hc : c = ']'
      · rw [if_pos hc, decide_eq_true hc, Bool.true_and, isPrefixOf_closer]
        dsimp only
        split
        · next hclose =>
          rw [Bool.and_eq_true, decide_eq_true_eq, decide_eq_true_eq] at hclose
          rw [hclose.2, length_closer]
          congr 2
          omega
        · rw [ih, hc, bracketBody_drop_equals _ cs]
      · rw [if_neg hc, ih, List.drop_zero, decide_eq_false hc, Bool.false_and,
          if_neg Bool.false_ne_true]

/-- A lexeme in long brackets is read by the search at all places. -/
theorem readBracketed_eq (symbol : Symbol) (level opened : Nat) (cs : List Char) :
    readBracketed symbol level opened cs =
      match bracketBody (closer level) (cs.drop (openingLineEnd cs)) ""
        (opened + openingLineEnd cs) with
      | some (text, width) => .ok ⟨symbol, text, width⟩
      | none => .error ⟨.unfinishedLongBracket, 0⟩ := by
  have hbody := bracketed_eq level (cs.drop (openingLineEnd cs)) 0 "" (opened + openingLineEnd cs)
  rw [List.drop_zero] at hbody
  rw [← hbody]
  rfl

/-! ## The first occurrence -/

/-- A word occurs in a text between `before` and `after`, and at no earlier place. -/
structure IsFirst (word cs before after : List Char) : Prop where
  eq : cs = before ++ (word ++ after)
  first : ∀ k < before.length, ¬ word <+: cs.drop k

variable {word before after : List Char}

theorem IsFirst.length_le (h : IsFirst word cs before after) {before' after' : List Char}
    (heq : cs = before' ++ (word ++ after')) : before.length ≤ before'.length := by
  by_contra hlt
  refine h.first before'.length (by omega) ?_
  rw [heq, List.drop_left]
  exact List.prefix_append word after'

theorem IsFirst.unique (h : IsFirst word cs before after) {before' after' : List Char}
    (h' : IsFirst word cs before' after') : before = before' ∧ after = after' := by
  have hlength := le_antisymm (h.length_le h'.eq) (h'.length_le h.eq)
  obtain ⟨hbefore, hrest⟩ := List.append_inj (h.eq.symm.trans h'.eq) hlength
  exact ⟨hbefore, List.append_cancel_left hrest⟩

theorem isFirst_nil (word after : List Char) : IsFirst word (word ++ after) [] after :=
  ⟨rfl, fun _ hk => absurd hk (Nat.not_lt_zero _)⟩

theorem IsFirst.cons (h : IsFirst word cs before after) {c : Char} (hc : ¬ word <+: c :: cs) :
    IsFirst word (c :: cs) (c :: before) after := by
  refine ⟨by rw [h.eq, List.cons_append], fun k hk => ?_⟩
  cases k with
  | zero => exact hc
  | succ k => exact h.first k (Nat.lt_of_succ_lt_succ hk)

theorem prefix_cons_iff (closer : List Char) (c : Char) (cs : List Char) :
    ']' :: closer <+: c :: cs ↔ (c = ']' && closer.isPrefixOf cs) = true := by
  rw [List.cons_prefix_cons, Bool.and_eq_true, decide_eq_true_eq, List.isPrefixOf_iff_prefix,
    eq_comm]

/-- The search ends at the first closing long bracket. -/
theorem bracketBody_of_closing {closer : List Char} (h : ']' :: closer <:+: cs) (text : String)
    (width : Nat) :
    ∃ before after, IsFirst (']' :: closer) cs before after ∧
      bracketBody closer cs text width =
        some (text ++ String.ofList before, width + before.length + (closer.length + 1)) := by
  induction cs generalizing text width with
  | nil => simp at h
  | cons c cs ih =>
    by_cases hc : ']' :: closer <+: c :: cs
    · obtain ⟨after, hafter⟩ := hc
      refine ⟨[], after, hafter ▸ isFirst_nil _ _, ?_⟩
      rw [bracketBody, if_pos ((prefix_cons_iff _ _ _).1 ⟨after, hafter⟩)]
      simp
      omega
    · obtain ⟨before, after, hfirst, hbody⟩ :=
        ih ((List.infix_cons_iff.1 h).resolve_left hc) (text.push c) (width + 1)
      refine ⟨c :: before, after, hfirst.cons hc, ?_⟩
      rw [bracketBody, if_neg (fun hclose => hc ((prefix_cons_iff _ _ _).2 hclose)), hbody]
      congr 2
      · simp [String.ext_iff]
      · rw [List.length_cons]
        omega

/-- Without a closing long bracket, the search fails. -/
theorem bracketBody_of_no_closing {closer : List Char} (h : ¬ ']' :: closer <:+: cs)
    (text : String) (width : Nat) : bracketBody closer cs text width = none := by
  induction cs generalizing text width with
  | nil => rfl
  | cons c cs ih =>
    rw [List.infix_cons_iff, not_or, prefix_cons_iff] at h
    rw [bracketBody, if_neg h.1]
    exact ih h.2 _ _

end Lexeme

end LuaLang
