import Mathlib
import LuaLang.Proofs.Grammar.Agreement
import LuaLang.Proofs.Grammar.Blocks

/-!
# The grammar in lockstep

Each rule of the grammar agrees with itself if the readings that it is given do, in any simulation.
With as many levels on both sides, or with fewer on the first one if it may leave when they run out,
the rules tie together to blocks and expressions that agree.

## Main definitions

* `Twins`: readings of expressions that agree, each of them exact.

## Main statements

* `agrees_operandWith`, `agrees_blockWith`: operands and blocks.
* `agreesWith`, `agrees_chunk`: the levels of the grammar, and whole sources.
-/

namespace LuaLang.Grammar

open Reading TokenStream Comparison Simulation

variable {α : Type} {c : Simulation}

section Rules

variable {expression expression' tight tight' : Reading Expression} {block block' : Reading Block}

/-- Two readings of expressions that agree, each of them exact. -/
structure Twins (c : Simulation) (expression expression' : Reading Expression) : Prop where
  agrees : c.Agrees expression expression'
  left : ∃ n, ReadsExpression n 0 expression
  right : ∃ n, ReadsExpression n 0 expression'

/-! ## Rows -/

theorem agrees_oneMore {mark : Symbol} {item item' : Reading α} (h : c.Agrees item item')
    (items : List α) : c.Agrees (oneMore mark item items) (oneMore mark item' items) := by
  refine (agrees_tryConsume mark).bind fun found => ?_
  cases found with
  | true => exact h.bind fun a => c.agrees_pure _
  | false => exact c.agrees_pure _

theorem agrees_optionalAfter {mark : Symbol} {item item' : Reading α} (h : c.Agrees item item') :
    c.Agrees (optionalAfter mark item) (optionalAfter mark item') := by
  refine (agrees_tryConsume mark).bind fun found => ?_
  cases found with
  | true => exact h.map some
  | false => exact c.agrees_pure _

theorem agrees_separated {mark : Symbol} {item item' : Reading α} (h : c.Agrees item item')
    (hitem : Progresses (oneMore mark item)) (hitem' : Progresses (oneMore mark item')) :
    c.Agrees (separated mark item) (separated mark item') := by
  refine h.bind fun first => ?_
  exact (agrees_loop hitem hitem' (agrees_oneMore h) [first]).bind fun items =>
    c.agrees_pure _

theorem progresses_names {mark : Symbol} (hm : mark ≠ .endOfFile) :
    Progresses (oneMore mark (expectLexeme .name)) := by
  have hreads : ∀ text s t, expectLexeme .name s = .ok text t ↔ expectLexeme .name s = .ok text t :=
    fun _ _ _ => Iff.rfl
  refine progresses_oneMore hm hreads fun h => ?_
  exact ((expectLexeme_eq_ok (by decide)).1 h).2.2.size_lt.le

theorem agrees_nameRow {mark : Symbol} (hm : mark ≠ .endOfFile) :
    c.Agrees (separated mark (expectLexeme .name)) (separated mark (expectLexeme .name)) :=
  agrees_separated (agrees_expectLexeme .name) (progresses_names hm) (progresses_names hm)

theorem agrees_functionName : c.Agrees functionName functionName := by
  refine (agrees_nameRow (by decide)).bind fun path => ?_
  refine (agrees_tryConsume .colon).bind fun found => ?_
  cases found with
  | true => exact (agrees_expectLexeme .name).bind fun name => c.agrees_pure _
  | false => exact c.agrees_pure _

theorem agrees_expressions (h : Twins c expression expression') :
    c.Agrees (expressions expression) (expressions expression') := by
  obtain ⟨n, he⟩ := h.left
  obtain ⟨n', he'⟩ := h.right
  exact agrees_separated h.agrees (progresses_oneMore (by decide) he fun h => h.2.1.size_le)
    (progresses_oneMore (by decide) he' fun h => h.2.1.size_le)

theorem agrees_parameterStep (found : List String × Bool) :
    c.Agrees (parameterStep found) (parameterStep found) := by
  obtain ⟨names, varargs⟩ := found
  refine agrees_symbol.bind fun y => ?_
  cases y
  case dotDotDot => exact agrees_consume.bind fun _ => c.agrees_pure _
  case name =>
    refine agrees_consumeLexeme.bind fun name => (agrees_tryConsume .comma).bind fun more => ?_
    exact c.agrees_pure _
  all_goals exact agrees_expected .name

theorem agrees_parameters : c.Agrees parameters parameters := by
  refine agrees_symbol.bind fun y => ?_
  split
  · exact c.agrees_pure _
  · exact (agrees_loop progresses_parameterStep progresses_parameterStep agrees_parameterStep
      ([], false)).bind fun found => c.agrees_pure _

/-! ## Tables and arguments -/

theorem agrees_field (h : c.Agrees expression expression') :
    c.Agrees (field expression) (field expression') := by
  refine (agrees_tryConsume .leftBracket).bind fun found => ?_
  cases found with
  | true =>
    refine h.bind fun key => (agrees_expect .rightBracket).bind fun _ => ?_
    exact (agrees_expect .equal).bind fun _ => h.bind fun value => c.agrees_pure _
  | false =>
    refine h.bind fun value => agrees_symbol.bind fun y => ?_
    split
    · refine agrees_consume.bind fun _ => ?_
      cases value.name? with
      | some name => exact h.bind fun value => c.agrees_pure _
      | none => exact agrees_unexpected
    · exact c.agrees_pure _

theorem agrees_fieldStep (h : c.Agrees expression expression') (entries : List Field) :
    c.Agrees (fieldStep expression entries) (fieldStep expression' entries) := by
  refine agrees_symbol.bind fun y => ?_
  split
  · exact c.agrees_pure _
  · refine (agrees_field h).bind fun entry => agrees_symbol.bind fun y => ?_
    cases y
    case comma => exact agrees_consume.bind fun _ => c.agrees_pure _
    case semicolon => exact agrees_consume.bind fun _ => c.agrees_pure _
    case rightBrace => exact c.agrees_pure _
    all_goals exact agrees_unexpected

theorem agrees_table (h : Twins c expression expression') :
    c.Agrees (table expression) (table expression') := by
  obtain ⟨n, he⟩ := h.left
  obtain ⟨n', he'⟩ := h.right
  have hfields : c.Agrees (fields expression) (fields expression') :=
    (agrees_loop (progresses_fieldStep he) (progresses_fieldStep he') (agrees_fieldStep h.agrees)
      []).bind fun entries => c.agrees_pure _
  refine (agrees_expect .leftBrace).bind fun _ => hfields.bind fun entries => ?_
  exact (agrees_expect .rightBrace).bind fun _ => c.agrees_pure _

theorem agrees_arguments (h : Twins c expression expression') :
    c.Agrees (arguments expression) (arguments expression') := by
  refine agrees_symbol_bind fun y => ?_
  cases y
  case leftParen =>
    refine agreesAt_callGuard.bind fun _ => agrees_consume.bind fun _ => ?_
    refine agrees_symbol.bind fun y => ?_
    split
    · refine (c.agrees_pure []).bind fun values => (agrees_expect .rightParen).bind fun _ => ?_
      exact c.agrees_pure _
    · refine (agrees_expressions h).bind fun values => (agrees_expect .rightParen).bind fun _ => ?_
      exact c.agrees_pure _
  case leftBrace => exact ((agrees_table h).bind fun fields => c.agrees_pure _).at
  case string => exact (agrees_consumeLexeme.bind fun text => c.agrees_pure _).at
  all_goals exact agrees_unexpected.at

/-! ## Expressions -/

theorem agrees_functionBody (h : c.Agrees block block') :
    c.Agrees (functionBody block) (functionBody block') := by
  refine (agrees_expect .leftParen).bind fun _ => agrees_parameters.bind fun found => ?_
  refine (agrees_expect .rightParen).bind fun _ => h.bind fun body => ?_
  exact (agrees_expect .endWord).bind fun _ => c.agrees_pure _

theorem agrees_primary (h : c.Agrees expression expression') :
    c.Agrees (primary expression) (primary expression') := by
  refine agrees_symbol.bind fun y => ?_
  cases y
  case name => exact agrees_consumeLexeme.bind fun name => c.agrees_pure _
  case leftParen =>
    refine agrees_consume.bind fun _ => h.bind fun value => ?_
    exact (agrees_expect .rightParen).bind fun _ => c.agrees_pure _
  all_goals exact agrees_unexpected

theorem agrees_suffix (h : Twins c expression expression') (object : PrefixExpression) :
    c.Agrees (suffix expression object) (suffix expression' object) := by
  have hcall : c.Agrees
      (do pure (PrefixExpression.call (.function object (← arguments expression)), true))
      (do pure (PrefixExpression.call (.function object (← arguments expression')), true)) :=
    (agrees_arguments h).bind fun _ => c.agrees_pure _
  refine agrees_symbol.bind fun y => ?_
  cases y
  case leftBracket =>
    refine agrees_consume.bind fun _ => h.agrees.bind fun key => ?_
    exact (agrees_expect .rightBracket).bind fun _ => c.agrees_pure _
  case dot =>
    refine agrees_consume.bind fun _ => (agrees_expectLexeme .name).bind fun name => ?_
    exact c.agrees_pure _
  case colon =>
    refine agrees_consume.bind fun _ => (agrees_expectLexeme .name).bind fun name => ?_
    exact (agrees_arguments h).bind fun _ => c.agrees_pure _
  case leftParen => exact hcall
  case leftBrace => exact hcall
  case string => exact hcall
  all_goals exact c.agrees_pure _

theorem agrees_prefixExpression (h : Twins c expression expression') :
    c.Agrees (prefixExpression expression) (prefixExpression expression') := by
  obtain ⟨n, he⟩ := h.left
  obtain ⟨n', he'⟩ := h.right
  exact (agrees_primary h.agrees).bind
    (agrees_loop (progresses_suffix he) (progresses_suffix he') (agrees_suffix h))

theorem agrees_operandWith (h : Twins c expression expression') (htight : c.Agrees tight tight')
    (hblock : c.Agrees block block') :
    c.Agrees (operandWith expression tight block) (operandWith expression' tight' block') := by
  have hword : ∀ value : Expression, c.Agrees (do consume; pure value) (do consume; pure value) :=
    fun value => agrees_consume.bind fun _ => c.agrees_pure value
  have hprefix : c.Agrees (do pure (Expression.prefixed (← prefixExpression expression)))
      (do pure (Expression.prefixed (← prefixExpression expression'))) :=
    (agrees_prefixExpression h).bind fun _ => c.agrees_pure _
  have hunary : ∀ op, c.Agrees (do consume; pure (Expression.unary op (← tight)))
      (do consume; pure (Expression.unary op (← tight'))) := fun op =>
    agrees_consume.bind fun _ => htight.bind fun _ => c.agrees_pure _
  refine agrees_symbol_bind fun y => ?_
  cases y
  case number => exact agreesAt_numeral.bind fun value => c.agrees_pure _
  case nilWord => exact (hword _).at
  case trueWord => exact (hword _).at
  case falseWord => exact (hword _).at
  case dotDotDot => exact (hword _).at
  case string => exact (agrees_consumeLexeme.bind fun text => c.agrees_pure _).at
  case functionWord =>
    exact (agrees_consume.bind fun _ => (agrees_functionBody hblock).bind fun _ =>
      c.agrees_pure _).at
  case name => exact hprefix.at
  case leftParen => exact hprefix.at
  case leftBrace => exact ((agrees_table h).bind fun fields => c.agrees_pure _).at
  case minus => exact (hunary .negate).at
  case notWord => exact (hunary .not).at
  case hash => exact (hunary .length).at
  all_goals exact agrees_unexpected.at

/-- What operators take over agrees if the readings of right operands do. -/
theorem agrees_climbWith {n n' : Nat} {right right' : Nat → Reading Expression}
    (h : ∀ power, c.Agrees (right power) (right' power))
    (hr : ∀ power, ReadsExpression n power (right power))
    (hr' : ∀ power, ReadsExpression n' power (right' power)) (limit : Nat) (left : Expression) :
    c.Agrees (climbWith right limit left) (climbWith right' limit left) := by
  have hstep : ∀ left, c.Agrees (climbStep right limit left) (climbStep right' limit left) := by
    intro left
    refine agrees_symbol.bind fun y => ?_
    cases BinaryOp.ofSymbol? y with
    | none => exact c.agrees_pure _
    | some op =>
      dsimp only
      split
      · exact c.agrees_pure _
      · exact agrees_consume.bind fun _ => (h op.rightPower).bind fun _ => c.agrees_pure _
  exact agrees_loop (progresses_climbStep hr limit) (progresses_climbStep hr' limit) hstep left

/-! ## Statements -/

/-- The readings that statements are made of: they agree, and on each side they are exact. -/
structure Parts (c : Simulation) (expression expression' : Reading Expression)
    (block block' : Reading Block) : Prop where
  expressions : c.Agrees expression expression'
  blocks : c.Agrees block block'
  left : ∃ n, ReadsExpression n 0 expression ∧ ReadsBlock n block
  right : ∃ n, ReadsExpression n 0 expression' ∧ ReadsBlock n block'

section Statements

variable (h : Parts c expression expression' block block')
include h

theorem Parts.twins : Twins c expression expression' := by
  obtain ⟨n, he, -⟩ := h.left
  obtain ⟨n', he', -⟩ := h.right
  exact ⟨h.expressions, ⟨n, he⟩, ⟨n', he'⟩⟩

theorem agrees_doStatement : c.Agrees (doStatement block) (doStatement block') := by
  refine (agrees_expect .doWord).bind fun _ => h.blocks.bind fun body => ?_
  exact (agrees_expect .endWord).bind fun _ => c.agrees_pure _

theorem agrees_whileStatement :
    c.Agrees (whileStatement expression block) (whileStatement expression' block') := by
  refine (agrees_expect .whileWord).bind fun _ => h.expressions.bind fun test => ?_
  refine (agrees_expect .doWord).bind fun _ => h.blocks.bind fun body => ?_
  exact (agrees_expect .endWord).bind fun _ => c.agrees_pure _

theorem agrees_repeatStatement :
    c.Agrees (repeatStatement expression block) (repeatStatement expression' block') := by
  refine (agrees_expect .repeatWord).bind fun _ => h.blocks.bind fun body => ?_
  exact (agrees_expect .untilWord).bind fun _ => h.expressions.bind fun test => c.agrees_pure _

theorem agrees_elseIfs : c.Agrees (elseIfs expression block) (elseIfs expression' block') := by
  obtain ⟨n, he, hb⟩ := h.left
  obtain ⟨n', he', hb'⟩ := h.right
  have hother : c.Agrees (elseIf expression block) (elseIf expression' block') := by
    refine h.expressions.bind fun test => (agrees_expect .thenWord).bind fun _ => ?_
    exact h.blocks.bind fun body => c.agrees_pure _
  rw [elseIfs_eq, elseIfs_eq]
  refine (agrees_loop ?_ ?_ (agrees_oneMore hother) []).bind fun others => c.agrees_pure _
  · exact progresses_oneMore (by decide) (elseIf_eq_ok he hb) fun h => h.2.1.size_le
  · exact progresses_oneMore (by decide) (elseIf_eq_ok he' hb') fun h => h.2.1.size_le

theorem agrees_ifStatement :
    c.Agrees (ifStatement expression block) (ifStatement expression' block') := by
  rw [ifStatement_eq, ifStatement_eq]
  refine (agrees_expect .ifWord).bind fun _ => h.expressions.bind fun test => ?_
  refine (agrees_expect .thenWord).bind fun _ => h.blocks.bind fun body => ?_
  refine (agrees_elseIfs h).bind fun others => (agrees_optionalAfter h.blocks).bind fun last => ?_
  exact (agrees_expect .endWord).bind fun _ => c.agrees_pure _

end Statements

/-! ### Loops over names and numbers

Which loop it is is told from the symbol after the first name, and there the two sides may differ.
But both sorts of loop move past that name first, and then the comparison is over. -/

/-- Two readings that move past a name and agree from there on. -/
def NameFirst (c : Simulation) (x x' : Reading α) : Prop :=
  ∃ rest rest' : String → Reading α, x = (expectLexeme .name >>= rest) ∧
    x' = (expectLexeme .name >>= rest') ∧ ∀ name, c.Agrees (rest name) (rest' name)

namespace NameFirst

variable {β : Type} {x x' : Reading α}

theorem agrees (h : NameFirst c x x') : c.Agrees x x' := by
  obtain ⟨rest, rest', rfl, rfl, hrest⟩ := h
  exact (agrees_expectLexeme .name).bind hrest

theorem bind {f f' : α → Reading β} (h : NameFirst c x x') (hf : ∀ a, c.Agrees (f a) (f' a)) :
    NameFirst c (x >>= f) (x' >>= f') := by
  obtain ⟨rest, rest', rfl, rfl, hrest⟩ := h
  refine ⟨fun name => rest name >>= f, fun name => rest' name >>= f', ?_, ?_, ?_⟩
  · rw [bind_assoc]
  · rw [bind_assoc]
  · exact fun name => (hrest name).bind hf

/-- Where there is no name, both fail. -/
theorem outcome_of_ne {z z' : Reading α} {s t : TokenStream} (h : NameFirst c x x')
    (h' : NameFirst c z z') (hst : c.Alike s t) (hs : s.symbol ≠ .name) :
    c.Outcome (x s) (z' t) := by
  obtain ⟨rest, -, rfl, -, -⟩ := h
  obtain ⟨-, rest', -, rfl, -⟩ := h'
  have hfirst : expectLexeme .name s = .error (s.fault (.expected .name s.near)) s := by
    rw [expectLexeme, if_neg hs]
    rfl
  have hsecond : expectLexeme .name t = .error (t.fault (.expected .name t.near)) t := by
    rw [expectLexeme, if_neg (c.symbol_eq hst ▸ hs)]
    rfl
  change c.Outcome (EStateM.bind _ rest s) (EStateM.bind _ rest' t)
  rw [EStateM.bind, EStateM.bind, hfirst, hsecond, near_eq hst]
  exact .inl (c.fault hst (near_eq hst ▸ .expected .name))

/-- If the comparison is over after the name, the first reading does not come back. -/
theorem safe_of_consume {s : TokenStream} (h : NameFirst c x x') (hs : s.symbol = .name)
    (hconsume : c.Safe (Reading.consume s)) : c.Safe (x s) := by
  obtain ⟨rest, rest', rfl, -, hrest⟩ := h
  refine safe_bind ?_ fun name _ ht => (hrest name).safe ht
  rw [expectLexeme, if_pos hs]
  exact safe_bind hconsume fun _ _ ht => ht

end NameFirst

theorem nameFirst_name : NameFirst c (expectLexeme .name) (expectLexeme .name) :=
  ⟨pure, pure, (bind_pure _).symm, (bind_pure _).symm, c.agrees_pure⟩

theorem nameFirst_names : NameFirst c names names := by
  have hprogress : Progresses (oneMore .comma (expectLexeme .name)) :=
    progresses_names (by decide)
  refine ⟨_, _, rfl, rfl, fun first => ?_⟩
  exact (agrees_loop hprogress hprogress (agrees_oneMore (agrees_expectLexeme .name)) [first]).bind
    fun items => c.agrees_pure _

section Statements

variable (h : Parts c expression expression' block block')
include h

theorem nameFirst_genericFor :
    NameFirst c (genericFor expression block) (genericFor expression' block') := by
  refine nameFirst_names.bind fun names => (agrees_expect .inWord).bind fun _ => ?_
  refine (agrees_expressions h.twins).bind fun values => (agrees_expect .doWord).bind fun _ => ?_
  exact h.blocks.bind fun body => c.agrees_pure _

theorem nameFirst_numericFor :
    NameFirst c (numericFor expression block) (numericFor expression' block') := by
  rw [numericFor_eq, numericFor_eq]
  refine nameFirst_name.bind fun name => (agrees_expect .equal).bind fun _ => ?_
  refine h.expressions.bind fun start => (agrees_expect .comma).bind fun _ => ?_
  refine h.expressions.bind fun limit => (agrees_optionalAfter h.expressions).bind fun step => ?_
  exact (agrees_expect .doWord).bind fun _ => h.blocks.bind fun body => c.agrees_pure _

theorem nameFirst_forLoop (y : Symbol) :
    NameFirst c (forLoop expression block y) (forLoop expression' block' y) := by
  have hend : ∀ st : Statement,
      c.Agrees (do expect .endWord; pure st) (do expect .endWord; pure st) :=
    fun st => (agrees_expect .endWord).bind fun _ => c.agrees_pure _
  cases y
  case comma => exact (nameFirst_genericFor h).bind hend
  case inWord => exact (nameFirst_genericFor h).bind hend
  all_goals exact (nameFirst_numericFor h).bind hend

omit h in
theorem forStatement_eq_lookahead (expression : Reading Expression) (block : Reading Block) :
    forStatement expression block = (do
      expect .forWord
      let s ← get
      forLoop expression block s.nextSymbol) :=
  rfl

theorem agrees_forStatement :
    c.Agrees (forStatement expression block) (forStatement expression' block') := by
  rw [forStatement_eq_lookahead, forStatement_eq_lookahead]
  refine (agrees_expect .forWord).bind fun _ => ⟨fun {s t} hst => ?_, fun {s} hs => ?_⟩
  · change c.Outcome (forLoop expression block s.nextSymbol s)
      (forLoop expression' block' t.nextSymbol t)
    rcases c.lookahead hst with heq | hsafe
    · rw [heq]
      exact (nameFirst_forLoop h _).agrees.alike hst
    · by_cases hname : s.symbol = .name
      · exact ((nameFirst_forLoop h _).safe_of_consume hname hsafe).outcome
      · exact (nameFirst_forLoop h _).outcome_of_ne (nameFirst_forLoop h _) hst hname
  · exact (nameFirst_forLoop h _).agrees.safe hs

theorem agrees_functionStatement :
    c.Agrees (functionStatement block) (functionStatement block') := by
  refine (agrees_expect .functionWord).bind fun _ => agrees_functionName.bind fun name => ?_
  exact (agrees_functionBody h.blocks).bind fun body => c.agrees_pure _

theorem agrees_localStatement :
    c.Agrees (localStatement expression block) (localStatement expression' block') := by
  refine (agrees_expect .localWord).bind fun _ => agrees_symbol.bind fun y => ?_
  cases y
  case functionWord =>
    refine agrees_consume.bind fun _ => (agrees_expectLexeme .name).bind fun name => ?_
    exact (agrees_functionBody h.blocks).bind fun body => c.agrees_pure _
  case name =>
    refine nameFirst_names.agrees.bind fun names => (agrees_tryConsume .equal).bind fun found => ?_
    cases found with
    | true => exact (agrees_expressions h.twins).bind fun values => c.agrees_pure _
    | false => exact c.agrees_pure _
  all_goals exact agrees_unexpected

end Statements

theorem agrees_variableOf (h : Twins c expression expression') :
    c.Agrees (variableOf expression) (variableOf expression') := by
  refine (agrees_prefixExpression h).bind fun start => ?_
  cases start.toVariable? with
  | some target => exact c.agrees_pure _
  | none => exact agrees_unexpected

theorem agrees_moreTargets (h : Twins c expression expression') (first : Variable) :
    c.Agrees (moreTargets expression first) (moreTargets expression' first) := by
  obtain ⟨n, he⟩ := h.left
  obtain ⟨n', he'⟩ := h.right
  have hloop : c.Agrees (loop (oneMore .comma (variableOf expression)) [first])
      (loop (oneMore .comma (variableOf expression')) [first]) :=
    agrees_loop (progresses_oneMore (by decide) (variableOf_eq_ok he) fun h => h.2.1.size_le)
      (progresses_oneMore (by decide) (variableOf_eq_ok he') fun h => h.2.1.size_le)
      (agrees_oneMore (agrees_variableOf h)) [first]
  exact hloop.bind fun targets => c.agrees_pure _

theorem agrees_assignOrCall (h : Twins c expression expression') :
    c.Agrees (assignOrCall expression) (assignOrCall expression') := by
  refine (agrees_prefixExpression h).bind fun start => ?_
  have hassign : c.Agrees (assignFrom expression start) (assignFrom expression' start) := by
    unfold assignFrom
    cases start.toVariable? with
    | some target =>
      refine (agrees_moreTargets h target).bind fun targets => ?_
      exact (agrees_expect .equal).bind fun _ => (agrees_expressions h).bind fun values =>
        c.agrees_pure _
    | none => exact agrees_unexpected
  have hcall : c.Agrees (callFrom start) (callFrom start) := by
    unfold callFrom
    cases start.toCall? with
    | some call => exact c.agrees_pure _
    | none => exact agrees_unexpected
  refine agrees_symbol.bind fun y => ?_
  cases y
  case comma => exact hassign
  case equal => exact hassign
  all_goals exact hcall

theorem agrees_returnStatement (h : Twins c expression expression') :
    c.Agrees (returnStatement expression) (returnStatement expression') := by
  have hvalues : c.Agrees (do pure (Ending.returns (← expressions expression)))
      (do pure (Ending.returns (← expressions expression'))) :=
    (agrees_expressions h).bind fun values => c.agrees_pure _
  refine (agrees_expect .returnWord).bind fun _ => agrees_symbol.bind fun y => ?_
  cases y
  case endWord | elseWord | elseifWord | untilWord | endOfFile | semicolon => exact c.agrees_pure _
  all_goals exact hvalues

/-! ## Blocks -/

theorem agrees_blockStep (h : Parts c expression expression' block block')
    (found : List Statement × Ending) :
    c.Agrees (blockStep expression block found) (blockStep expression' block' found) := by
  obtain ⟨statements, ending⟩ := found
  have hmore : ∀ {rule rule' : Reading Statement}, c.Agrees rule rule' →
      c.Agrees (do pure (((← rule) :: statements, ending), true))
        (do pure (((← rule') :: statements, ending), true)) :=
    fun hrule => hrule.bind fun st => c.agrees_pure _
  refine agrees_symbol.bind fun y => ?_
  cases y
  case semicolon => exact agrees_consume.bind fun _ => c.agrees_pure _
  case doWord => exact hmore (agrees_doStatement h)
  case whileWord => exact hmore (agrees_whileStatement h)
  case repeatWord => exact hmore (agrees_repeatStatement h)
  case ifWord => exact hmore (agrees_ifStatement h)
  case forWord => exact hmore (agrees_forStatement h)
  case functionWord => exact hmore (agrees_functionStatement h)
  case localWord => exact hmore (agrees_localStatement h)
  case name => exact hmore (agrees_assignOrCall h.twins)
  case leftParen => exact hmore (agrees_assignOrCall h.twins)
  case returnWord => exact (agrees_returnStatement h.twins).bind fun ending => c.agrees_pure _
  case breakWord => exact agrees_consume.bind fun _ => c.agrees_pure _
  all_goals exact c.agrees_pure _

theorem agrees_blockWith (h : Parts c expression expression' block block') :
    c.Agrees (blockWith expression block) (blockWith expression' block') := by
  obtain ⟨n, he, hb⟩ := h.left
  obtain ⟨n', he', hb'⟩ := h.right
  refine (agrees_loop (progresses_blockStep he hb) (progresses_blockStep he' hb')
    (agrees_blockStep h) ([], .falls)).bind fun found => ?_
  obtain ⟨statements, ending⟩ := found
  dsimp only
  split
  · exact (agrees_tryConsume .semicolon).bind fun _ => c.agrees_pure _
  · exact c.agrees_pure _

end Rules

/-! ## Levels -/

theorem readsExpression_tooManyLevels (power : Nat) :
    ReadsExpression 0 power tooManyLevels := by
  intro e s t
  constructor
  · exact fun h => absurd h tooManyLevels_ne_ok
  · rintro ⟨⟨hneed, -⟩, -⟩
    exact absurd hneed (by have := e.need_pos; omega)

/-- There are as many levels on both sides; or there are fewer on the first side, which may leave
when it runs out of them. -/
def Levels (c : Simulation) (m n : Nat) : Prop :=
  m = n ∨ m ≤ n ∧ ∀ e : SyntaxError, e.cause = .tooManyLevels → c.Leaves e

/-- The readings of some levels agree. -/
structure AgreesWith (c : Simulation) (m n : Nat) : Prop where
  operands : c.Agrees (operand m) (operand n)
  places : ∀ power, c.Agrees (place (operand m) (climb m) power)
    (place (operand n) (climb n) power)
  blocks : c.Agrees (block m) (block n)

theorem agreesWith_zero : AgreesWith c 0 0 := by
  have hoperand : c.Agrees (operand 0) (operand 0) := by
    rw [operand_zero]
    exact agrees_tooManyLevels
  refine ⟨hoperand, fun power => ?_, ?_⟩
  · refine hoperand.bind fun left => ?_
    rw [climb_zero]
    exact agrees_climbWith (fun _ => agrees_tooManyLevels) readsExpression_tooManyLevels
      readsExpression_tooManyLevels power left
  · rw [block_zero]
    exact agrees_tooManyLevels

/-- Without levels the first side leaves at once. -/
theorem agreesWith_of_leaves (h : ∀ e : SyntaxError, e.cause = .tooManyLevels → c.Leaves e)
    (n : Nat) : AgreesWith c 0 n := by
  have hsafe : ∀ {α : Type} (s : TokenStream), c.Safe ((tooManyLevels : Reading α) s) :=
    fun s => h _ rfl
  refine ⟨?_, fun power => agrees_of_safe (fun s => ?_) _, ?_⟩
  · rw [operand_zero]
    exact agrees_of_safe hsafe _
  · rw [operand_zero]
    exact hsafe s
  · rw [block_zero]
    exact agrees_of_safe hsafe _

theorem AgreesWith.succ {m n : Nat} (h : AgreesWith c m n) : AgreesWith c (m + 1) (n + 1) := by
  obtain ⟨-, hplaces, hblock⟩ := reads_levels m
  obtain ⟨-, hplaces', hblock'⟩ := reads_levels n
  have hparts : Parts c (place (operand m) (climb m) 0) (place (operand n) (climb n) 0)
      (block m) (block n) :=
    ⟨h.places 0, h.blocks, ⟨m, hplaces 0, hblock⟩, ⟨n, hplaces' 0, hblock'⟩⟩
  have hoperand : c.Agrees (operand (m + 1)) (operand (n + 1)) := by
    rw [operand_succ, operand_succ]
    exact agrees_operandWith hparts.twins (h.places UnaryOp.power) h.blocks
  refine ⟨hoperand, fun power => ?_, ?_⟩
  · refine hoperand.bind fun left => ?_
    rw [climb_succ, climb_succ]
    exact agrees_climbWith h.places hplaces hplaces' power left
  · rw [block_succ, block_succ]
    exact agrees_blockWith hparts

theorem agreesWith {m n : Nat} (h : Levels c m n) : AgreesWith c m n := by
  induction m generalizing n with
  | zero =>
    rcases h with rfl | ⟨-, hleaves⟩
    · exact agreesWith_zero
    · exact agreesWith_of_leaves hleaves n
  | succ m ih =>
    obtain ⟨n, rfl⟩ : ∃ k, n = k + 1 := ⟨n - 1, by rcases h with h | h <;> omega⟩
    refine (ih ?_).succ
    rcases h with h | ⟨hle, hleaves⟩
    · exact .inl (by omega)
    · exact .inr ⟨by omega, hleaves⟩

theorem agrees_chunk {m n : Nat} (h : Levels c m n) : c.Agrees (chunk m) (chunk n) := by
  refine (agreesWith h).blocks.bind fun tree => ?_
  exact (agrees_expect .endOfFile).bind fun _ => c.agrees_pure tree

end LuaLang.Grammar
