import Mathlib
import LuaLang.Proofs.Grammar.Blocks
import LuaLang.Proofs.Printing.RoundTrip

/-!
# Operators are grouped by their powers

An expression is printed flat, so its grouping has to follow from the powers of its operators alone.
The canonical trees are those whose operators agree with their powers along the spines of the
operands: what is on the right edge of a left operand does not reach over the operator, and what is
on the left edge of a right operand binds more tightly than the place it is in. Those are the trees
that come out of reading, and the ones that are read back from their printed text.

## Main definitions

* `Expression.rightSpine`, `Expression.leftSpine`: the nodes along the edges of an expression.
* `Expression.Canonical`: the trees that are grouped by the powers of their operators.
* `Expression.IsFormula`: the trees over names and operators.

## Main statements

* `Expression.canonical_of_proper`: what stands in a place is canonical.
* `Grammar.expression_canonical`: reading builds exactly the canonical trees.
-/

namespace LuaLang

namespace Expression

/-- The nodes on the right edge of an expression: itself, then right operands and operands. -/
def rightSpine : Expression → List Expression
  | .unary op operand => .unary op operand :: operand.rightSpine
  | .binary op left right => .binary op left right :: right.rightSpine
  | e => [e]

/-- The nodes on the left edge of an expression: itself, then left operands. -/
def leftSpine : Expression → List Expression
  | .binary op left right => .binary op left right :: left.leftSpine
  | e => [e]

/-- All binary operators on the left edge bind more tightly than a place of the given power. -/
def LeftAbove (e : Expression) (power : Nat) : Prop :=
  ∀ op left right, .binary op left right ∈ e.leftSpine → power < op.leftPower

/-- No place on the right edge lets an operator of the given left power in. -/
def RightBelow (e : Expression) (power : Nat) : Prop :=
  (∀ op left right, .binary op left right ∈ e.rightSpine → power ≤ op.rightPower) ∧
    ∀ op operand, .unary op operand ∈ e.rightSpine → power ≤ UnaryOp.power

/-- Operators are grouped by their powers. Operands of other kinds count as atoms. -/
def Canonical : Expression → Prop
  | .unary _ operand => operand.Canonical ∧ operand.LeftAbove UnaryOp.power
  | .binary op left right =>
    (left.Canonical ∧ left.RightBelow op.leftPower) ∧
      right.Canonical ∧ right.LeftAbove op.rightPower
  | _ => True

/-- Trees over names, unary and binary operators. -/
def IsFormula : Expression → Prop
  | .prefixed (.var (.name text)) => Lexeme.IsName text
  | .unary _ operand => operand.IsFormula
  | .binary _ left right => left.IsFormula ∧ right.IsFormula
  | _ => False

/-! ## Spines -/

theorem leftAbove_binary {op : BinaryOp} {left right : Expression} {power : Nat} :
    (binary op left right).LeftAbove power ↔ power < op.leftPower ∧ left.LeftAbove power := by
  simp only [LeftAbove, leftSpine, List.mem_cons, binary.injEq]
  constructor
  · intro h
    exact ⟨h op left right (.inl ⟨rfl, rfl, rfl⟩), fun op' l r hmem => h op' l r (.inr hmem)⟩
  · rintro ⟨hop, hleft⟩ op' l r (⟨rfl, -⟩ | hmem)
    · exact hop
    · exact hleft op' l r hmem

theorem rightBelow_binary {op : BinaryOp} {left right : Expression} {power : Nat} :
    (binary op left right).RightBelow power ↔ power ≤ op.rightPower ∧ right.RightBelow power := by
  simp only [RightBelow, rightSpine, List.mem_cons, binary.injEq, reduceCtorEq, false_or]
  constructor
  · rintro ⟨hbinary, hunary⟩
    exact ⟨hbinary op left right (.inl ⟨rfl, rfl, rfl⟩),
      fun op' l r hmem => hbinary op' l r (.inr hmem), hunary⟩
  · rintro ⟨hop, hbinary, hunary⟩
    refine ⟨?_, hunary⟩
    rintro op' l r (⟨rfl, -⟩ | hmem)
    · exact hop
    · exact hbinary op' l r hmem

theorem rightBelow_unary {op : UnaryOp} {operand : Expression} {power : Nat} :
    (unary op operand).RightBelow power ↔ power ≤ UnaryOp.power ∧ operand.RightBelow power := by
  simp only [RightBelow, rightSpine, List.mem_cons, unary.injEq, reduceCtorEq, false_or]
  constructor
  · rintro ⟨hbinary, hunary⟩
    exact ⟨hunary op operand (.inl ⟨rfl, rfl⟩), hbinary,
      fun op' x hmem => hunary op' x (.inr hmem)⟩
  · rintro ⟨hop, hbinary, hunary⟩
    refine ⟨hbinary, ?_⟩
    rintro op' x (⟨rfl, -⟩ | hmem)
    · exact hop
    · exact hunary op' x hmem

/-- An expression ends in front of an operator if no place on its right edge lets it in. -/
theorem stops_symbol_iff (op : BinaryOp) :
    (e : Expression) → (e.Stops op.symbol ↔ e.RightBelow op.leftPower)
  | .unary op' operand => by
    rw [Stops, rightBelow_unary, Symbol.below_symbol_iff, stops_symbol_iff op operand]
  | .binary op' left right => by
    rw [Stops, rightBelow_binary, Symbol.below_symbol_iff, stops_symbol_iff op right]
  | .prefixed value => by
    have hop : op.symbol.startsSuffix = false := by cases op <;> rfl
    simp [Stops, hop, RightBelow, rightSpine]
  | .nil | .boolean _ | .number _ | .string _ | .varargs | .function _ | .table _ => by
    simp [Stops, RightBelow, rightSpine]

/-! ## Proper and canonical trees -/

/-- What can stand in a place is canonical, and its left edge binds more tightly than the place. -/
theorem canonical_of_proper : (e : Expression) → {power : Nat} → e.Proper power →
    e.Canonical ∧ e.LeftAbove power
  | .unary op operand, power, h => by
    rw [Proper] at h
    rw [Canonical]
    exact ⟨canonical_of_proper operand h, by simp [LeftAbove, leftSpine]⟩
  | .binary op left right, power, h => by
    rw [Proper] at h
    obtain ⟨hpower, hleft, hstops, hright⟩ := h
    obtain ⟨hcanonical, habove⟩ := canonical_of_proper left hleft
    rw [Canonical, leftAbove_binary]
    exact ⟨⟨⟨hcanonical, (stops_symbol_iff op left).1 hstops⟩, canonical_of_proper right hright⟩,
      hpower, habove⟩
  | .nil, _, _ | .boolean _, _, _ | .number _, _, _ | .string _, _, _ | .varargs, _, _
  | .function _, _, _ | .prefixed _, _, _ | .table _, _, _ => by
    simp [Canonical, LeftAbove, leftSpine]

namespace IsFormula

/-- A canonical formula can stand in any place that its left edge binds more tightly than. -/
theorem proper : (e : Expression) → e.IsFormula → {power : Nat} → e.Canonical →
    e.LeftAbove power → e.Proper power
  | .prefixed (.var (.name text)), _, _, _, _ => by
    simp [Proper, PrefixExpression.Proper, Variable.Proper]
  | .unary op operand, h, _, hcanonical, _ => by
    rw [Canonical] at hcanonical
    rw [Proper]
    exact proper operand h hcanonical.1 hcanonical.2
  | .binary op left right, h, _, hcanonical, habove => by
    rw [Canonical] at hcanonical
    obtain ⟨⟨hleft, hbelow⟩, hright, hrightAbove⟩ := hcanonical
    obtain ⟨hpower, hleftAbove⟩ := leftAbove_binary.1 habove
    rw [Proper]
    exact ⟨hpower, proper left h.1 hleft hleftAbove, (stops_symbol_iff op left).2 hbelow,
      proper right h.2 hright hrightAbove⟩

theorem lexical : (e : Expression) → e.IsFormula → Lexical e.writing
  | .prefixed (.var (.name text)), h => by
    intro terminal hmem
    obtain rfl : terminal = .name text := by
      simpa [Expression.writing, PrefixExpression.writing, Variable.writing, Stretch.name]
        using hmem
    exact h
  | .unary op operand, h => by
    have hoperand := lexical operand h
    rw [Expression.writing, ← List.singleton_append, lexical_append]
    exact ⟨lexical_mark op.symbol, hoperand⟩
  | .binary op left right, h => by
    rw [Expression.writing, lexical_append, ← List.singleton_append, lexical_append]
    exact ⟨lexical left h.1, lexical_mark op.symbol, lexical right h.2⟩

end IsFormula

end Expression

/-- Reading an expression builds exactly the canonical trees: all that are read are canonical, and
the printed text of a tree over names and operators is read as that tree, with levels enough for it
and up to the end, just when the tree is canonical. -/
theorem Grammar.expression_canonical (levels : Nat) :
    (∀ s e t, Grammar.expression levels s = .ok e t → e.Canonical) ∧
      ∀ e : Expression, e.IsFormula → e.need ≤ levels →
        ((∃ s t, TokenStream.ofScanned (Token.scan e.print) = .ok s ∧
          Grammar.expression levels s = .ok e t ∧ t.symbol = .endOfFile) ↔ e.Canonical) := by
  have hread : ∀ s e t, Grammar.expression levels s = .ok e t → e.Canonical := by
    intro s e t h
    exact (Expression.canonical_of_proper e (expression_eq_ok.1 h).1.2).1
  refine ⟨hread, fun e hformula hneed => ⟨?_, fun hcanonical => ?_⟩⟩
  · rintro ⟨s, t, -, h, -⟩
    exact hread s e t h
  · have habove : e.LeftAbove 0 := by
      intro op _ _ _
      cases op <;> decide
    have hproper := Expression.IsFormula.proper e hformula hcanonical habove
    obtain ⟨s, t, hs, hst, ht, -⟩ :=
      (e.spells hproper).ofScanned rfl (Expression.IsFormula.lexical e hformula) rfl
    have hcloses : Symbol.endOfFile.Closes := by decide
    refine ⟨s, t, hs, expression_eq_ok.2 ⟨⟨hneed, hproper⟩, hst, ?_⟩, ht⟩
    rw [ht]
    exact ⟨hcloses.stops e, hcloses.below 0⟩

/-- The right operand of a power may start with a sign, and takes the next power over. -/
theorem Grammar.expression_canonical_power :
    ∃ s t, TokenStream.ofScanned (Token.scan "a ^ -b ^ c") = .ok s ∧
      Grammar.expression 5 s = .ok (.binary .power (.prefixed (.var (.name "a")))
        (.unary .negate (.binary .power (.prefixed (.var (.name "b")))
          (.prefixed (.var (.name "c")))))) t ∧ t.symbol = .endOfFile := by
  have isName : ∀ c : Char, Lexeme.isNameStart c = true →
      Symbol.keyword? (String.ofList [c]) = none → Lexeme.IsName (String.ofList [c]) := by
    intro c hc hfree
    refine ⟨⟨c, [], by simp, hc⟩, ?_, hfree⟩
    simpa using Lexeme.isNameChar_of_isNameStart hc
  have h := (Grammar.expression_canonical 5).2 (.binary .power (.prefixed (.var (.name "a")))
    (.unary .negate (.binary .power (.prefixed (.var (.name "b")))
      (.prefixed (.var (.name "c"))))))
    ⟨isName 'a' (by decide) (by decide), isName 'b' (by decide) (by decide),
      isName 'c' (by decide) (by decide)⟩ (by decide)
  have htext : (Expression.binary .power (.prefixed (.var (.name "a")))
      (.unary .negate (.binary .power (.prefixed (.var (.name "b")))
        (.prefixed (.var (.name "c")))))).print = "a ^ -b ^ c" := by cbv
  rw [htext] at h
  refine h.2 ⟨⟨trivial, ?_⟩, ⟨⟨⟨trivial, ?_⟩, trivial, ?_⟩, ?_⟩, ?_⟩
  · simp [Expression.RightBelow, Expression.rightSpine]
  · simp [Expression.RightBelow, Expression.rightSpine]
  · simp [Expression.LeftAbove, Expression.leftSpine]
  · rw [Expression.leftAbove_binary]
    exact ⟨by decide, by simp [Expression.LeftAbove, Expression.leftSpine]⟩
  · simp [Expression.LeftAbove, Expression.leftSpine]

end LuaLang
