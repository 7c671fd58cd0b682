import Mathlib
import LuaLang.Proofs.Grammar.Operands

/-!
# Operators take over what is before them

An operand and the operators after it make an exact reading of a place. Going from left to right,
what has been read so far is always a proper tree that ends in front of the next symbol; and a
proper tree is what the rounds over its own writing come to.

## Main statements

* `climbStep_eq_ok`: what a round of the loop over operators does.
* `readsExpression_place`: expressions in a place of any power.
-/

namespace LuaLang.Grammar

open Reading TokenStream

variable {n power : Nat} {operand : Reading Expression} {right : Nat → Reading Expression}
  {s t : TokenStream}

/-- A round of the loop over binary operators. -/
def climbStep (right : Nat → Reading Expression) (limit : Nat) (left : Expression) :
    Reading (Expression × Bool) := do
  match BinaryOp.ofSymbol? (← symbol) with
  | some op =>
    if op.leftPower ≤ limit then pure (left, false)
    else
      consume
      pure (.binary op left (← right op.rightPower), true)
  | none => pure (left, false)

theorem climbStep_eq_ok (hr : ∀ power, ReadsExpression n power (right power)) {limit : Nat}
    {left : Expression} {r : Expression × Bool} :
    climbStep right limit left s = .ok r t ↔
      (∃ op e u, (s.symbol = op.symbol ∧ s.Next u) ∧ limit < op.leftPower ∧
        ((e.need ≤ n ∧ e.Proper op.rightPower) ∧ Spans e.writing u t ∧
          (e.Stops t.symbol ∧ t.symbol.Below op.rightPower)) ∧
        r = (.binary op left e, true)) ∨
      (s.symbol.Below limit ∧ s = t ∧ r = (left, false)) := by
  rw [climbStep, bind_of_ok symbol_eq]
  cases hop : BinaryOp.ofSymbol? s.symbol with
  | none =>
    simp only [pure_eq_ok]
    constructor
    · rintro ⟨rfl, rfl⟩
      refine .inr ⟨?_, rfl, rfl⟩
      intro op h
      rw [hop] at h
      cases h
    · rintro (⟨op, e, u, ⟨hs, -⟩, -⟩ | ⟨-, rfl, rfl⟩)
      · rw [hs, BinaryOp.ofSymbol?_symbol] at hop
        cases hop
      · exact ⟨rfl, rfl⟩
  | some op =>
    have hs := BinaryOp.symbol_of_ofSymbol? hop
    have hbelow : s.symbol.Below limit ↔ op.leftPower ≤ limit := by
      rw [hs]
      exact Symbol.below_symbol_iff
    dsimp only
    split
    · next hle =>
      rw [pure_eq_ok]
      constructor
      · rintro ⟨rfl, rfl⟩
        exact .inr ⟨hbelow.2 hle, rfl, rfl⟩
      · rintro (⟨other, e, u, ⟨ho, -⟩, hlt, -⟩ | ⟨-, rfl, rfl⟩)
        · rw [ho, BinaryOp.ofSymbol?_symbol] at hop
          cases hop
          omega
        · exact ⟨rfl, rfl⟩
    · next hgt =>
      have hne : s.symbol ≠ .endOfFile := by
        rw [hs]
        exact op.symbol_ne_endOfFile
      simp only [bind_eq_ok, pure_eq_ok, consume_eq_ok hne, hr _ _ _ _]
      constructor
      · rintro ⟨_, u, hu, e, v, he, rfl, rfl⟩
        exact .inl ⟨op, e, u, ⟨hs, hu⟩, by omega, he, rfl⟩
      · rintro (⟨other, e, u, ⟨ho, hu⟩, -, he, rfl⟩ | ⟨h, -, -⟩)
        · rw [ho, BinaryOp.ofSymbol?_symbol] at hop
          cases hop
          exact ⟨(), u, hu, e, t, he, rfl, rfl⟩
        · exact absurd (hbelow.1 h) hgt

theorem progresses_climbStep (hr : ∀ power, ReadsExpression n power (right power)) (limit : Nat) :
    Progresses (climbStep right limit) := by
  intro left left' s t h
  obtain ⟨op, e, u, ⟨-, hu⟩, -, ⟨-, hspan, -⟩, -⟩ | ⟨-, -, hmore⟩ := (climbStep_eq_ok hr).1 h
  · exact hspan.size_le.trans_lt hu.size_lt
  · cases hmore

theorem IsOperand.proper_iff {e : Expression} (h : IsOperand e) (power : Nat) :
    e.Proper power ↔ e.Proper 0 := by
  cases e with
  | binary op left right => exact absurd h id
  | _ => simp only [Expression.Proper]

/-- The operand and the operators after it, as far as a place of the given power takes them. -/
abbrev placeWith (operand : Reading Expression) (right : Nat → Reading Expression) (power : Nat) :
    Reading Expression :=
  place operand (climbWith right) power

theorem placeWith_of_operand (ho : ReadsOperand (n + 1) operand) {e : Expression}
    (hneed : e.need ≤ n + 1) (hproper : e.Proper power) (h : Spans e.writing s t)
    (hstop : e.Stops t.symbol) (hoperand : IsOperand e) :
    placeWith operand right power s = loop (climbStep right power) e t :=
  bind_of_ok ((ho _ _ _).2 ⟨hoperand, ⟨hneed, (hoperand.proper_iff power).1 hproper⟩, h, hstop⟩)

/-- Reading the writing of a proper expression comes down to the loop over what follows it. -/
theorem placeWith_of_spans (ho : ReadsOperand (n + 1) operand)
    (hr : ∀ power, ReadsExpression n power (right power)) :
    (e : Expression) → e.need ≤ n + 1 → e.Proper power → {s t : TokenStream} →
      Spans e.writing s t → e.Stops t.symbol →
      placeWith operand right power s = loop (climbStep right power) e t
  | .binary op left right', hneed, hproper, s, t, h, hstop => by
    rw [Expression.need] at hneed
    rw [Expression.Proper] at hproper
    rw [Expression.writing, spans_append] at h
    rw [Expression.Stops] at hstop
    obtain ⟨hpower, hleft, hends, hright⟩ := hproper
    obtain ⟨u, hu, v, ⟨hs, hv⟩, h⟩ := h
    have hs : u.symbol = op.symbol := hs
    rw [placeWith_of_spans ho hr left (by omega) hleft hu (hs ▸ hends)]
    refine loop_of_more (progresses_climbStep hr power) ((climbStep_eq_ok hr).2 (.inl ?_))
    exact ⟨op, right', v, ⟨hs, hv⟩, hpower, ⟨⟨by omega, hright⟩, h, hstop.2, hstop.1⟩, rfl⟩
  | .nil, hneed, hproper, s, t, h, hstop | .boolean _, hneed, hproper, s, t, h, hstop
  | .number _, hneed, hproper, s, t, h, hstop | .string _, hneed, hproper, s, t, h, hstop
  | .varargs, hneed, hproper, s, t, h, hstop | .function _, hneed, hproper, s, t, h, hstop
  | .prefixed _, hneed, hproper, s, t, h, hstop | .table _, hneed, hproper, s, t, h, hstop
  | .unary _ _, hneed, hproper, s, t, h, hstop =>
    placeWith_of_operand ho hneed hproper h hstop trivial

/-- A place is read exactly if operands are, and right operands with one level less. -/
theorem readsExpression_place (ho : ReadsOperand (n + 1) operand)
    (hr : ∀ power, ReadsExpression n power (right power)) (power : Nat) :
    ReadsExpression (n + 1) power (placeWith operand right power) := by
  intro e s t
  constructor
  · intro h
    obtain ⟨first, u, hfirst, h⟩ := bind_eq_ok.1 h
    obtain ⟨hoperand, ⟨hneed, hproper⟩, hspan, hstop⟩ := (ho _ _ _).1 hfirst
    refine loop_invariant (progresses_climbStep hr power)
      (fun left u => (left.need ≤ n + 1 ∧ left.Proper power) ∧ Spans left.writing s u ∧
        left.Stops u.symbol)
      (fun e u => (e.need ≤ n + 1 ∧ e.Proper power) ∧ Spans e.writing s u ∧
        (e.Stops u.symbol ∧ u.symbol.Below power))
      ?_ ?_ ⟨⟨hneed, (hoperand.proper_iff _).2 hproper⟩, hspan, hstop⟩ h
    · rintro left _ u v ⟨⟨hneed, hproper⟩, hspan, hstop⟩ h
      obtain ⟨op, e, w, ⟨hu, hw⟩, hpower, ⟨⟨hen, hep⟩, hv, hev, hbelow⟩, hr⟩ | ⟨-, -, hr⟩ :=
        (climbStep_eq_ok hr).1 h <;> cases hr
      rw [Expression.need, Expression.Proper, Expression.writing, Expression.Stops, spans_append]
      exact ⟨⟨by omega, hpower, hproper, hu ▸ hstop, hep⟩, ⟨u, hspan, w, ⟨hu, hw⟩, hv⟩, hbelow,
        hev⟩
    · rintro left _ u v ⟨hfits, hspan, hstop⟩ h
      obtain ⟨op, e, w, -, -, -, hr⟩ | ⟨hbelow, rfl, hr⟩ := (climbStep_eq_ok hr).1 h <;> cases hr
      exact ⟨hfits, hspan, hstop, hbelow⟩
  · rintro ⟨⟨hneed, hproper⟩, hspan, hstop, hbelow⟩
    rw [placeWith_of_spans ho hr e hneed hproper hspan hstop]
    exact loop_of_done (progresses_climbStep hr power)
      ((climbStep_eq_ok hr).2 (.inr ⟨hbelow, rfl, rfl⟩))

end LuaLang.Grammar
