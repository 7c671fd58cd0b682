import Mathlib
import LuaLang.Proofs.Printing.Statements

/-!
# All trees spell their writings

What a proper tree is printed as spells its writing, by induction over the trees. The cases are the
facts about expressions, statements and blocks.

## Main statements

* `Expression.spells`: for expressions.
* `Block.spells`: for blocks.
-/

namespace LuaLang

mutual

theorem Block.spells : (b : Block) → b.Proper →
    Spells .line b.print.toList b.writing .blockStop
  | .mk statements ending, h => by
    rw [Block.Proper] at h
    exact spells_block (Statement.spellsAll statements h.1) (Ending.spells ending h.2)

theorem Statement.spellsAll : (statements : List Statement) → Statement.ProperAll statements →
    ∀ st ∈ statements, Spells .line st.print.toList (.semicolons :: st.writing) .lineStop
  | [], _ => by simp
  | st :: rest, h => by
    rw [Statement.ProperAll] at h
    exact List.forall_mem_cons.2 ⟨st.spells h.1, Statement.spellsAll rest h.2⟩

theorem Ending.spells : (ending : Ending) → ending.Proper → ∀ values, ending = .returns values →
    ∀ e ∈ values, Spells .start e.print.toList e.writing .stop
  | .falls, _ => fun _ heq => by cases heq
  | .breaks, _ => fun _ heq => by cases heq
  | .returns values, h => fun _ heq => by
    cases heq
    rw [Ending.Proper] at h
    exact Expression.spellsAll values h

theorem Statement.spells : (st : Statement) → st.Proper →
    Spells .line st.print.toList (.semicolons :: st.writing) .lineStop
  | .doBlock body, h => by
    rw [Statement.Proper] at h
    exact .unguarded (spells_doBlock (body.spells h))
  | .whileLoop test body, h => by
    rw [Statement.Proper] at h
    exact .unguarded (spells_while (test.spells h.1) (body.spells h.2))
  | .repeatLoop body test, h => by
    rw [Statement.Proper] at h
    exact .unguarded (spells_repeat (body.spells h.1) (test.spells h.2))
  | .choice test body others none, h => by
    rw [Statement.Proper] at h
    exact .unguarded (spells_choice (test.spells h.1) (body.spells h.2.1)
      (ElseIf.spellsAll others h.2.2.1) (by simp))
  | .choice test body others (some block), h => by
    rw [Statement.Proper] at h
    exact .unguarded (spells_choice (test.spells h.1) (body.spells h.2.1)
      (ElseIf.spellsAll others h.2.2.1) (by simpa using block.spells h.2.2.2))
  | .numericFor name start limit none body, h => by
    rw [Statement.Proper] at h
    exact .unguarded (spells_numericFor (start.spells h.1) (limit.spells h.2.1) (by simp)
      (body.spells h.2.2.1))
  | .numericFor name start limit (some step) body, h => by
    rw [Statement.Proper] at h
    exact .unguarded (spells_numericFor (start.spells h.1) (limit.spells h.2.1)
      (by simpa using step.spells h.2.2.2) (body.spells h.2.2.1))
  | .genericFor names values body, h => by
    rw [Statement.Proper] at h
    exact .unguarded (spells_genericFor h.1 h.2.1 (Expression.spellsAll values h.2.2.1)
      (body.spells h.2.2.2))
  | .function name body, h => by
    rw [Statement.Proper] at h
    exact .unguarded (spells_functionStatement h.1 (body.spells h.2))
  | .localFunction name body, h => by
    rw [Statement.Proper] at h
    exact .unguarded (spells_localFunction (body.spells h))
  | .localNames names, h => by
    rw [Statement.Proper] at h
    exact .unguarded (spells_localNames h)
  | .localAssign names values, h => by
    rw [Statement.Proper] at h
    exact .unguarded (spells_localAssign h.1 h.2.1 (Expression.spellsAll values h.2.2))
  | .assign targets values, h => by
    rw [Statement.Proper] at h
    exact spells_assign h.1 h.2.2.1 (Variable.spellsAll targets h.2.1)
      (Expression.spellsAll values h.2.2.2)
  | .call call, h => by
    rw [Statement.Proper] at h
    exact spells_callStatement (call.spells h)

theorem ElseIf.spellsAll : (others : List ElseIf) → ElseIf.ProperAll others →
    ∀ test body, ElseIf.mk test body ∈ others →
      Spells .start test.print.toList test.writing .stop ∧
        Spells .line body.print.toList body.writing .blockStop
  | [], _ => by simp
  | .mk test body :: rest, h => by
    rw [ElseIf.ProperAll, ElseIf.Proper] at h
    intro test' body' hmem
    obtain heq | hmem := List.mem_cons.1 hmem
    · cases heq
      exact ⟨test.spells h.1.1, body.spells h.1.2⟩
    · exact ElseIf.spellsAll rest h.2 test' body' hmem

theorem Expression.spells : (e : Expression) → {power : Nat} → e.Proper power →
    Spells .start e.print.toList e.writing .stop
  | .nil, _, _ => by
    rw [Expression.print, Expression.writing]
    exact .word (y := .nilWord) (by decide) rfl fun _ _ hc => (Edge.stop_next hc).1
  | .boolean true, _, _ => by
    rw [Expression.print, Expression.writing]
    exact .word (y := .trueWord) (by decide) rfl fun _ _ hc => (Edge.stop_next hc).1
  | .boolean false, _, _ => by
    rw [Expression.print, Expression.writing]
    exact .word (y := .falseWord) (by decide) rfl fun _ _ hc => (Edge.stop_next hc).1
  | .number value, _, _ => by
    rw [Expression.print, Expression.writing]
    refine .number (fun c hc => ?_) fun _ _ => Edge.endsNumber_of_stop
    have hne : c ≠ '[' ∧ c ≠ '=' := by constructor <;> rintro rfl <;> cases hc
    simp [Edge.start, hne.1, hne.2]
  | .string text, _, _ => by
    rw [Expression.print, Expression.writing]
    exact .string rfl
  | .varargs, _, _ => by
    rw [Expression.print, Expression.writing]
    exact .mark (y := .dotDotDot) (by decide) rfl fun _ _ _ => rfl
  | .function body, _, h => by
    rw [Expression.Proper] at h
    have hword : Spells .start "function".toList [.mark .functionWord] .tail :=
      .word (y := .functionWord) (by decide) rfl fun _ _ hc => hc
    rw [Expression.print, Expression.writing, String.toList_append]
    exact hword.trans ((body.spells h).right (fun _ => rfl) fun _ _ => Edge.tail_of_stop)
  | .prefixed value, _, h => by
    rw [Expression.Proper] at h
    rw [Expression.print, Expression.writing]
    exact spells_prefixed (value.spells h)
  | .table fields, _, h => by
    rw [Expression.Proper] at h
    rw [Expression.print, Expression.writing]
    exact spells_braced rfl (Field.spellsAll fields h)
  | .unary .not operand, _, h => by
    rw [Expression.Proper] at h
    exact spells_not (operand.spells h)
  | .unary .negate operand, _, h => by
    rw [Expression.Proper] at h
    exact spells_sign (by decide) (operand.spells h)
  | .unary .length operand, _, h => by
    rw [Expression.Proper] at h
    exact spells_sign (by decide) (operand.spells h)
  | .binary op left right, _, h => by
    rw [Expression.Proper] at h
    exact spells_binary op (left.spells h.2.1) (right.spells h.2.2.2)

theorem Expression.spellsAll : (values : List Expression) → Expression.ProperAll values →
    ∀ e ∈ values, Spells .start e.print.toList e.writing .stop
  | [], _ => by simp
  | e :: rest, h => by
    rw [Expression.ProperAll] at h
    exact List.forall_mem_cons.2 ⟨e.spells h.1, Expression.spellsAll rest h.2⟩

theorem PrefixExpression.spells : (v : PrefixExpression) → v.Proper →
    Spells .head v.print.toList v.writing .tail
  | .var target, h => by
    rw [PrefixExpression.Proper] at h
    rw [PrefixExpression.print, PrefixExpression.writing]
    exact target.spells h
  | .paren value, h => by
    rw [PrefixExpression.Proper] at h
    exact spells_paren (value.spells h)
  | .call call, h => by
    rw [PrefixExpression.Proper] at h
    rw [PrefixExpression.print, PrefixExpression.writing]
    exact call.spells h

theorem Variable.spells : (v : Variable) → v.Proper → Spells .head v.print.toList v.writing .tail
  | .name text, _ => spells_nameVariable text
  | .index object key, h => by
    rw [Variable.Proper] at h
    exact spells_index (object.spells h.1) (key.spells h.2)
  | .field object text, h => by
    rw [Variable.Proper] at h
    exact spells_field (object.spells h) text

theorem Variable.spellsAll : (targets : List Variable) → Variable.ProperAll targets →
    ∀ v ∈ targets, Spells .head v.print.toList v.writing .tail
  | [], _ => by simp
  | v :: rest, h => by
    rw [Variable.ProperAll] at h
    exact List.forall_mem_cons.2 ⟨v.spells h.1, Variable.spellsAll rest h.2⟩

theorem Call.spells : (c : Call) → c.Proper → Spells .head c.print.toList c.writing .tail
  | .function callee a, h => by
    rw [Call.Proper] at h
    exact spells_call (callee.spells h.1) (a.spells h.2)
  | .method object text a, h => by
    rw [Call.Proper] at h
    exact spells_method (object.spells h.1) text (a.spells h.2)

theorem Arguments.spells : (a : Arguments) → a.Proper →
    Spells .tail a.print.toList a.writing .tail
  | .list values, h => by
    rw [Arguments.Proper] at h
    exact spells_list (Expression.spellsAll values h)
  | .table fields, h => by
    rw [Arguments.Proper] at h
    rw [Arguments.print, Arguments.writing]
    exact spells_braced rfl (Field.spellsAll fields h)
  | .string text, _ => by
    rw [Arguments.print, Arguments.writing]
    exact .string rfl

theorem Field.spells : (f : Field) → f.Proper → Spells .free f.print.toList f.writing .stop
  | .item value, h => by
    rw [Field.Proper] at h
    rw [Field.print, Field.writing]
    exact (value.spells h).left id fun _ _ _ => rfl
  | .keyed key value, h => by
    rw [Field.Proper] at h
    exact spells_keyed (key.spells h.1) (value.spells h.2)
  | .named text value, h => by
    rw [Field.Proper] at h
    exact spells_named text (value.spells h)

theorem Field.spellsAll : (fields : List Field) → Field.ProperAll fields →
    ∀ f ∈ fields, Spells .free f.print.toList f.writing .stop
  | [], _ => by simp
  | f :: rest, h => by
    rw [Field.ProperAll] at h
    exact List.forall_mem_cons.2 ⟨f.spells h.1, Field.spellsAll rest h.2⟩

theorem FunctionBody.spells : (body : FunctionBody) → body.Proper →
    Spells .tail body.print.toList body.writing .tail
  | .mk _ _ block, h => by
    rw [FunctionBody.Proper] at h
    exact spells_functionBody (block.spells h)

end

end LuaLang
