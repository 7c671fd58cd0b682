import Mathlib
import LuaLang.Operation.Operator
import LuaLang.Proofs.Machine.CallChains
import LuaLang.Proofs.Machine.Inheritance

/-!
# Comparisons ask a handler that both operands have

Values that have no order of their own are compared by a handler, and only if both are of one type
and have the same one. Which operand stands on the left makes no difference to that, so a comparison
that finds no handler finds none with its operands swapped either. A comparison that finds none runs
nothing.

## Main definitions

* `Machine.SharesHandler`: both operands have the same handler.
* `Machine.answer`: what comes of asking a handler.
* `Routine.Refused`: a comparison that fails because there is nothing to compare by.

## Main statements

* `Machine.SharesHandler.symm`: sharing does not depend on the order of the operands.
* `Routine.refused_less_iff`, `Routine.refused_lessEqual_iff`: what is refused.
* `Routine.comparisons_share_handlers`: what all comparisons do.
-/

namespace LuaLang

variable {H : Host} {m : Machine H} {method : Metamethod} {left right handler : Value}

theorem Value.rawEqual_comm (v w : Value) : v.rawEqual w = w.rawEqual v := by
  cases v with
  | number x =>
    cases w with
    | number y =>
      change x.equals y = y.equals x
      rw [Number.equals, Number.equals]
      cases x.place <;> cases y.place <;> simp [Bool.beq_comm]
    | _ => rfl
  | _ => cases w <;> simp [rawEqual, eq_comm]

theorem Value.kind_eq_of_rawEqual {v w : Value} (h : v.rawEqual w = true) : v.kind = w.kind := by
  have hform := congrArg Value.kind ((Value.rawEqual_iff v w).1 h).1
  cases v <;> cases w <;> first | rfl | cases hform

/-- Two values that have no order of their own: they are not both numbers and not both strings. -/
def Value.Unordered (left right : Value) : Prop :=
  ¬(left.kind = .number ∧ right.kind = .number) ∧ ¬(left.kind = .string ∧ right.kind = .string)

theorem Value.Unordered.symm (h : left.Unordered right) : right.Unordered left :=
  ⟨fun hkinds => h.1 hkinds.symm, fun hkinds => h.2 hkinds.symm⟩

namespace Machine

/-! ## Shared handlers -/

/-- Both operands have the same handler for an operation: they are of one type, and what each of
them has is raw equal. What is called is the one of the left operand. -/
structure SharesHandler (m : Machine H) (method : Metamethod) (left right handler : Value) :
    Prop where
  kind_eq : left.kind = right.kind
  left_eq : m.metamethod left method = some handler
  right_eq : ∃ other, m.metamethod right method = some other ∧ handler.rawEqual other = true

/-- With the operands swapped, the handler is raw equal. -/
theorem SharesHandler.symm (h : m.SharesHandler method left right handler) :
    ∃ other, m.SharesHandler method right left other ∧ handler.rawEqual other = true := by
  obtain ⟨other, hother, hequal⟩ := h.right_eq
  refine ⟨other, ⟨h.kind_eq.symm, hother, handler, h.left_eq, ?_⟩, hequal⟩
  rwa [Value.rawEqual_comm]

theorem sharesHandler_comm :
    (∃ handler, m.SharesHandler method left right handler) ↔
      ∃ handler, m.SharesHandler method right left handler := by
  constructor
  · rintro ⟨handler, h⟩
    exact ⟨_, h.symm.choose_spec.1⟩
  · rintro ⟨handler, h⟩
    exact ⟨_, h.symm.choose_spec.1⟩

/-- The handler that decides whether two values are equal: they are not raw equal, and share it. -/
structure EqualityHandler (m : Machine H) (left right handler : Value) : Prop where
  rawEqual_eq : left.rawEqual right = false
  shares : m.SharesHandler .equal left right handler

theorem EqualityHandler.symm (h : m.EqualityHandler left right handler) :
    ∃ other, m.EqualityHandler right left other ∧ handler.rawEqual other = true := by
  obtain ⟨other, hshares, hequal⟩ := h.shares.symm
  exact ⟨other, ⟨(Value.rawEqual_comm right left).trans h.rawEqual_eq, hshares⟩, hequal⟩

/-- What comes of asking a handler about two values: it is called once with both of them, through
the slot for two arguments, and the truth of its first result is the answer. -/
def answer (call : Routine.Invoker H) (m : Machine H) (handler left right : Value) :
    Routine.Ending H Bool :=
  ((Routine.call handler [left, right]).run call (m.prepare (.call 2))).map fun ending =>
    (ending.1.map fun results => (Value.first results).truth, ending.2)

end Machine

namespace Routine

variable {call : Invoker H}

/-! ## Asking -/

theorem run_sharedMetamethod (left right : Value) (method : Metamethod) :
    (sharedMetamethod left right method).run call m =
      some (.ok ((m.metamethod left method).bind fun handler =>
        (m.metamethod right method).bind fun other =>
          if handler.rawEqual other then some handler else none), m) := by
  rw [sharedMetamethod, run_bind, run_metamethod]
  cases m.metamethod left method with
  | none => rfl
  | some handler =>
    dsimp only
    rw [run_bind, run_metamethod]
    cases m.metamethod right method <;> rfl

/-- A shared handler is asked. -/
theorem run_compareBy_of_shares (h : m.SharesHandler method left right handler) :
    (compareBy method left right).run call m =
      (m.answer call handler left right).map fun ending => (ending.1.map some, ending.2) := by
  obtain ⟨other, hother, hequal⟩ := h.right_eq
  have hprepared : (callPrepared 2 handler [left, right]).run call m =
      (Routine.call handler [left, right]).run call (m.prepare (.call 2)) := rfl
  rw [compareBy, run_bind, run_sharedMetamethod, h.left_eq, Option.bind_some, hother,
    Option.bind_some, if_pos hequal]
  dsimp only
  rw [run_bind, callHandler, run_bind, hprepared, Machine.answer]
  cases (Routine.call handler [left, right]).run call (m.prepare (.call 2)) with
  | none => rfl
  | some ending =>
    obtain ⟨outcome, u⟩ := ending
    cases outcome <;> rfl

theorem run_compareBy_of_none (hkind : left.kind = right.kind)
    (h : ∀ handler, ¬m.SharesHandler method left right handler) :
    (compareBy method left right).run call m = some (.ok none, m) := by
  have hnone : ((m.metamethod left method).bind fun handler =>
      (m.metamethod right method).bind fun other =>
        if handler.rawEqual other then some handler else none) = none := by
    rw [Option.bind_eq_none_iff]
    intro handler hhandler
    rw [Option.bind_eq_none_iff]
    intro other hother
    exact if_neg fun hequal => h handler ⟨hkind, hhandler, other, hother, hequal⟩
  rw [compareBy, run_bind, run_sharedMetamethod, hnone]
  rfl

theorem run_compareAlike_of_shares (h : m.SharesHandler method left right handler) :
    (compareAlike method left right).run call m =
      (m.answer call handler left right).map fun ending => (ending.1.map some, ending.2) := by
  rw [compareAlike, if_pos h.kind_eq, run_compareBy_of_shares h]

theorem run_compareAlike_of_none (h : ∀ handler, ¬m.SharesHandler method left right handler) :
    (compareAlike method left right).run call m = some (.ok none, m) := by
  rw [compareAlike]
  split
  · next hkind => exact run_compareBy_of_none hkind h
  · rfl

/-- What hands on the answer of a handler ends as the handler does. -/
theorem run_answered {ending : Ending H Bool} {asked : Routine H (Option Bool)}
    {next : Option Bool → Routine H Bool}
    (hasked : asked.run call m = ending.map fun ending => (ending.1.map some, ending.2))
    (hnext : ∀ answer, next (some answer) = done answer) :
    (asked >>= next).run call m = ending := by
  rw [run_bind, hasked]
  cases ending with
  | none => rfl
  | some ending =>
    obtain ⟨outcome, u⟩ := ending
    cases outcome with
    | ok answer =>
      change (next (some answer)).run call u = _
      rw [hnext]
      rfl
    | error e => rfl

/-! ## The order -/

theorem less_of_unordered (h : left.Unordered right) :
    (less left right : Routine H Bool) = (do
      match ← compareAlike .less left right with
      | some answer => return answer
      | none => fault (.incomparable left.kind right.kind)) := by
  unfold less
  split
  · exact absurd ⟨rfl, rfl⟩ h.1
  · exact absurd ⟨rfl, rfl⟩ h.2
  · rfl

theorem lessEqual_of_unordered (h : left.Unordered right) :
    (lessEqual left right : Routine H Bool) = (do
      match ← compareAlike .lessEqual left right with
      | some answer => return answer
      | none =>
        match ← compareAlike .less right left with
        | some answer => return !answer
        | none => fault (.incomparable left.kind right.kind)) := by
  unfold lessEqual
  split
  · exact absurd ⟨rfl, rfl⟩ h.1
  · exact absurd ⟨rfl, rfl⟩ h.2
  · rfl

/-- The comparison of two values runs nothing and changes nothing, however functions are invoked,
and fails because there is nothing to compare them by. -/
def Refused (m : Machine H) (comparison : Routine H Bool) (left right : Value) : Prop :=
  ∀ call : Invoker H, comparison.run call m =
    some (.error (.ofMessage m.stack (Fault.incomparable left.kind right.kind).message), m)

theorem run_less_of_shares (h : left.Unordered right)
    (hshares : m.SharesHandler .less left right handler) :
    (less left right).run call m = m.answer call handler left right := by
  rw [less_of_unordered h]
  exact run_answered (run_compareAlike_of_shares hshares) fun answer => rfl

theorem refused_less_of_none (h : left.Unordered right)
    (hnone : ∀ handler, ¬m.SharesHandler .less left right handler) :
    Refused m (less left right) left right := by
  intro call
  rw [less_of_unordered h, run_bind, run_compareAlike_of_none hnone]
  rfl

theorem run_lessEqual_of_shares (h : left.Unordered right)
    (hshares : m.SharesHandler .lessEqual left right handler) :
    (lessEqual left right).run call m = m.answer call handler left right := by
  rw [lessEqual_of_unordered h]
  exact run_answered (run_compareAlike_of_shares hshares) fun answer => rfl

/-- Without a handler of its own, the order is the negation of the strict one the other way. -/
theorem run_lessEqual_of_shares_less (h : left.Unordered right)
    (hnone : ∀ handler, ¬m.SharesHandler .lessEqual left right handler)
    (hshares : m.SharesHandler .less right left handler) :
    (lessEqual left right).run call m =
      (m.answer call handler right left).map fun ending => (ending.1.map (! ·), ending.2) := by
  rw [lessEqual_of_unordered h, run_bind, run_compareAlike_of_none hnone]
  dsimp only
  rw [run_bind, run_compareAlike_of_shares hshares]
  cases m.answer call handler right left with
  | none => rfl
  | some ending =>
    obtain ⟨outcome, u⟩ := ending
    cases outcome <;> rfl

theorem refused_lessEqual_of_none (h : left.Unordered right)
    (hnone : ∀ handler, ¬m.SharesHandler .lessEqual left right handler)
    (hless : ∀ handler, ¬m.SharesHandler .less right left handler) :
    Refused m (lessEqual left right) left right := by
  intro call
  rw [lessEqual_of_unordered h, run_bind, run_compareAlike_of_none hnone]
  dsimp only
  rw [run_bind, run_compareAlike_of_none hless]
  rfl

/-! ## What is refused -/

theorem prefix_message_incomparable (l r : Kind) :
    "attempt to compare".toList <+: (Fault.incomparable l r).message.toList := by
  have htwo : "attempt to compare".toList <+: "attempt to compare two ".toList := by decide
  have hone : "attempt to compare".toList <+: "attempt to compare ".toList := by decide
  have hmessage : (Fault.incomparable l r).message =
      if l = r then "attempt to compare two " ++ l.name ++ " values"
      else "attempt to compare " ++ l.name ++ " with " ++ r.name := rfl
  rw [hmessage]
  split
  · simp only [String.toList_append, List.append_assoc]
    exact htwo.trans (List.prefix_append _ _)
  · simp only [String.toList_append, List.append_assoc]
    exact hone.trans (List.prefix_append _ _)

/-- No call complains about a comparison before it runs a function. -/
theorem run_call_ne_incomparable (callee : Value) (arguments : List Value) (l r : Kind)
    (u : Machine H) :
    (Routine.call callee arguments).run (fun _ _ _ => none) m ≠
      some (.error (.ofMessage m.stack (Fault.incomparable l r).message), u) := by
  have hdiffers : ∀ message : String, ¬"attempt to compare".toList <+: message.toList →
      (some (.error (.ofMessage m.stack message), m) : Ending H (List Value)) ≠
        some (.error (.ofMessage m.stack (Fault.incomparable l r).message), u) := by
    intro message hmessage heq
    simp only [Option.some.injEq, Prod.mk.injEq, Except.error.injEq] at heq
    rw [ofMessage_inj heq.1] at hmessage
    exact hmessage (prefix_message_incomparable l r)
  obtain ⟨hindirect, hlink⟩ | ⟨i, hi, hindirect, ⟨id, hlink⟩ | ⟨value, hlink, hplain, hnone⟩⟩ :=
    m.callee_cases callee 100
  · rw [run_call_of_indirect hindirect hlink]
    exact hdiffers _ (by decide)
  · rw [run_call_of_function hi hindirect hlink, Machine.callOnce]
    split
    · simp
    · exact hdiffers _ (by decide)
  · rw [run_call_of_none hi hindirect hlink hplain hnone]
    refine hdiffers _ ?_
    cases value.kind <;> decide

theorem answer_ne_incomparable (first second : Value) (l r : Kind) (u : Machine H) :
    m.answer (fun _ _ _ => none) handler first second ≠
      some (.error (.ofMessage m.stack (Fault.incomparable l r).message), u) := by
  intro hanswer
  obtain ⟨⟨outcome, v⟩, hrun, heq⟩ := Option.map_eq_some_iff.1 hanswer
  have hstack : (m.prepare (.call 2)).stack = m.stack := by
    rw [Machine.prepare]
    split <;> rfl
  cases outcome with
  | ok results => cases heq
  | error e =>
    obtain rfl : e = .ofMessage m.stack (Fault.incomparable l r).message :=
      Except.error.inj (congrArg Prod.fst heq)
    rw [← hstack] at hrun
    exact run_call_ne_incomparable handler [first, second] l r v hrun

theorem refused_less_iff (h : left.Unordered right) :
    Refused m (less left right) left right ↔
      ∀ handler, ¬m.SharesHandler .less left right handler := by
  refine ⟨fun hrefused handler hshares => ?_, refused_less_of_none h⟩
  have hrun := hrefused fun _ _ _ => none
  rw [run_less_of_shares h hshares] at hrun
  exact answer_ne_incomparable _ _ _ _ m hrun

theorem refused_lessEqual_iff (h : left.Unordered right) :
    Refused m (lessEqual left right) left right ↔
      (∀ handler, ¬m.SharesHandler .lessEqual left right handler) ∧
        ∀ handler, ¬m.SharesHandler .less right left handler := by
  refine ⟨fun hrefused => ?_, fun hnone => refused_lessEqual_of_none h hnone.1 hnone.2⟩
  have hrun := hrefused fun _ _ _ => none
  have hnone : ∀ handler, ¬m.SharesHandler .lessEqual left right handler := by
    intro handler hshares
    rw [run_lessEqual_of_shares h hshares] at hrun
    exact answer_ne_incomparable _ _ _ _ m hrun
  refine ⟨hnone, fun handler hshares => ?_⟩
  rw [run_lessEqual_of_shares_less h hnone hshares] at hrun
  obtain ⟨⟨outcome, u⟩, hanswer, heq⟩ := Option.map_eq_some_iff.1 hrun
  cases outcome with
  | ok answer => cases heq
  | error e =>
    obtain rfl : e = .ofMessage m.stack (Fault.incomparable left.kind right.kind).message :=
      Except.error.inj (congrArg Prod.fst heq)
    exact answer_ne_incomparable _ _ _ _ u hanswer

theorem refused_less_comm (h : left.Unordered right) :
    Refused m (less left right) left right ↔ Refused m (less right left) right left := by
  rw [refused_less_iff h, refused_less_iff h.symm, ← not_exists, ← not_exists,
    Machine.sharesHandler_comm]

theorem refused_lessEqual_comm (h : left.Unordered right) :
    Refused m (lessEqual left right) left right ↔
      Refused m (lessEqual right left) right left := by
  simp only [refused_lessEqual_iff h, refused_lessEqual_iff h.symm, ← not_exists]
  exact and_congr (not_congr Machine.sharesHandler_comm) (not_congr Machine.sharesHandler_comm)

/-! ## Equality -/

theorem run_equal_of_handler (h : m.EqualityHandler left right handler) :
    (equal left right).run call m = m.answer call handler left right := by
  rw [equal, if_neg (not_not.2 h.shares.kind_eq), h.rawEqual_eq, if_neg Bool.false_ne_true]
  exact run_answered (run_compareBy_of_shares h.shares) fun answer => rfl

theorem run_equal_of_none (h : ∀ handler, ¬m.EqualityHandler left right handler) :
    (equal left right).run call m = some (.ok (left.rawEqual right), m) := by
  rw [equal]
  split
  · next hkind =>
    have hraw : left.rawEqual right = false :=
      Bool.eq_false_iff.2 fun hequal => hkind (Value.kind_eq_of_rawEqual hequal)
    rw [hraw]
    rfl
  · next hkind =>
    cases hraw : left.rawEqual right with
    | true => rfl
    | false =>
      have hnone : ∀ handler, ¬m.SharesHandler .equal left right handler :=
        fun handler hshares => h handler ⟨hraw, hshares⟩
      rw [if_neg Bool.false_ne_true, run_bind, run_compareBy_of_none (not_not.1 hkind) hnone]
      rfl

/-- Two values that have no order of their own are compared by the handler that both of them have
for it, which is called once with them, and otherwise the comparison is refused; where the handler
is missing for `<=`, the one for `<` is asked the other way and its answer negated. A comparison is
refused just if it is with its operands swapped, and `<=` only where `<` is. `>` and `>=` are `<`
and `<=` with their operands swapped. Equality of any two values asks only a handler that both of
them have, and only if they are not raw equal; with the operands swapped it asks a raw equal one, or
none either. -/
theorem comparisons_share_handlers (m : Machine H) (a b : Value) :
    (a.Unordered b →
      (∀ call handler, m.SharesHandler .less a b handler →
        (less a b).run call m = m.answer call handler a b) ∧
      ((∀ handler, ¬m.SharesHandler .less a b handler) → Refused m (less a b) a b) ∧
      (∀ call handler, m.SharesHandler .lessEqual a b handler →
        (lessEqual a b).run call m = m.answer call handler a b) ∧
      ((∀ handler, ¬m.SharesHandler .lessEqual a b handler) →
        (∀ call handler, m.SharesHandler .less b a handler →
          (lessEqual a b).run call m =
            (m.answer call handler b a).map fun ending => (ending.1.map (! ·), ending.2)) ∧
        ((∀ handler, ¬m.SharesHandler .less b a handler) → Refused m (lessEqual a b) a b)) ∧
      (Refused m (less a b) a b ↔ Refused m (less b a) b a) ∧
      (Refused m (lessEqual a b) a b ↔ Refused m (lessEqual b a) b a) ∧
      (Refused m (lessEqual a b) a b → Refused m (less a b) a b)) ∧
    (binary .greater a b : Routine H Value) = binary .less b a ∧
    (binary .greaterEqual a b : Routine H Value) = binary .lessEqual b a ∧
    (∀ call handler, m.EqualityHandler a b handler →
      (equal a b).run call m = m.answer call handler a b) ∧
    ((∀ handler, ¬m.EqualityHandler a b handler) →
      ∀ call, (equal a b).run call m = some (.ok (a.rawEqual b), m)) ∧
    ((∃ handler other, m.EqualityHandler a b handler ∧ m.EqualityHandler b a other ∧
        handler.rawEqual other = true) ∨
      ∀ handler, ¬m.EqualityHandler a b handler ∧ ¬m.EqualityHandler b a handler) := by
  refine ⟨fun h => ⟨?_, ?_, ?_, fun hnone => ⟨?_, ?_⟩, ?_, ?_, ?_⟩, rfl, rfl, ?_, ?_, ?_⟩
  · intro call handler hshares
    exact run_less_of_shares h hshares
  · exact refused_less_of_none h
  · intro call handler hshares
    exact run_lessEqual_of_shares h hshares
  · intro call handler hshares
    exact run_lessEqual_of_shares_less h hnone hshares
  · exact refused_lessEqual_of_none h hnone
  · exact refused_less_comm h
  · exact refused_lessEqual_comm h
  · intro hrefused
    rw [refused_less_comm h, refused_less_iff h.symm]
    exact ((refused_lessEqual_iff h).1 hrefused).2
  · intro call handler hhandler
    exact run_equal_of_handler hhandler
  · intro hnone call
    exact run_equal_of_none hnone
  · by_cases hasks : ∃ handler, m.EqualityHandler a b handler
    · obtain ⟨handler, hhandler⟩ := hasks
      obtain ⟨other, hother, hequal⟩ := hhandler.symm
      exact .inl ⟨handler, other, hhandler, hother, hequal⟩
    · refine .inr fun handler => ⟨fun hhandler => hasks ⟨handler, hhandler⟩, fun hhandler => ?_⟩
      exact hasks ⟨_, hhandler.symm.choose_spec.1⟩

/-- Two tables with one metatable are compared by its function, for `<=` the other way round, and a
table is not compared with nil. -/
theorem comparisons_share_handlers_class :
    let host : Host := ⟨Unit, Unit⟩
    let call : Invoker host := fun _ arguments m => some (.ok arguments, m)
    let m : Machine host :=
      { Machine.start 5 () with
        tables := #[
          { metatable := some ⟨2⟩ },
          { metatable := some ⟨2⟩ },
          Table.empty.assignAll [(.string "__lt", .function ⟨0⟩)]]
        functions := #[⟨"f", .procedure ()⟩]
        shared := ⟨none, none, none, none⟩ }
    (less (.table ⟨0⟩) (.table ⟨1⟩)).run call m = some (.ok true, m.prepare (.call 2)) ∧
      (lessEqual (.table ⟨0⟩) (.table ⟨1⟩)).run call m = some (.ok false, m.prepare (.call 2)) ∧
      Refused m (less (.table ⟨0⟩) .nil) (.table ⟨0⟩) .nil ∧
      (equal (.table ⟨0⟩) (.table ⟨1⟩)).run call m = some (.ok false, m) := by
  intro host call m
  have hget : ∀ key, (m.table ⟨2⟩).get key =
      (Table.lastAssigned [(.string "__lt", .function ⟨0⟩)] key).getD (Table.empty.get key) :=
    (Table.valid_empty.assignAll [(.string "__lt", .function ⟨0⟩)]).2
  have hless : ∀ id, (m.table id).metatable = some ⟨2⟩ →
      m.metamethod (.table id) .less = some (.function ⟨0⟩) :=
    fun id hid => Machine.metamethod_of_get hid ((hget _).trans rfl) (by simp)
  have hmissing : ∀ method : Metamethod, (m.table ⟨2⟩).get (.string method.name) = .nil →
      ∀ handler, ¬m.SharesHandler method (.table ⟨0⟩) (.table ⟨1⟩) handler := by
    intro method hnil handler hshares
    have hleft := hshares.left_eq
    rw [Machine.metamethod, Machine.metatableOf, show (m.table ⟨0⟩).metatable = some ⟨2⟩ from rfl,
      Option.bind_some, hnil] at hleft
    cases hleft
  have hle : (m.table ⟨2⟩).get (.string "__le") = .nil := (hget _).trans (Table.get_empty _)
  have heq : (m.table ⟨2⟩).get (.string "__eq") = .nil := (hget _).trans (Table.get_empty _)
  have hshares : ∀ left right, (m.table left).metatable = some ⟨2⟩ →
      (m.table right).metatable = some ⟨2⟩ →
      m.SharesHandler .less (.table left) (.table right) (.function ⟨0⟩) :=
    fun left right hleft hright => ⟨rfl, hless left hleft, _, hless right hright, rfl⟩
  have hunordered : ∀ id other, (Value.table id).Unordered other := fun id other =>
    ⟨by simp [Value.kind], by simp [Value.kind]⟩
  obtain ⟨hasked, -, -, hother, -⟩ :=
    (comparisons_share_handlers m (.table ⟨0⟩) (.table ⟨1⟩)).1 (hunordered _ _)
  obtain ⟨-, hrefused, -⟩ := (comparisons_share_handlers m (.table ⟨0⟩) .nil).1 (hunordered _ _)
  obtain ⟨-, -, -, -, hequal, -⟩ := comparisons_share_handlers m (.table ⟨0⟩) (.table ⟨1⟩)
  refine ⟨?_, ?_, ?_, ?_⟩
  · exact (hasked call _ (hshares _ _ rfl rfl)).trans rfl
  · exact ((hother (hmissing .lessEqual hle)).1 call _ (hshares _ _ rfl rfl)).trans rfl
  · exact hrefused fun handler h => absurd h.kind_eq (by decide)
  · exact hequal (fun handler h => hmissing .equal heq handler h.shares) call

end Routine

end LuaLang
