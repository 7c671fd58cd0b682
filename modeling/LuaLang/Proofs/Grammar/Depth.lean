import Mathlib
import LuaLang.Proofs.Grammar.Blocks
import LuaLang.Tree.Parser

/-!
# The depth of the parser

What the parser makes of its stream is what the grammar makes of it with as many levels as there are
left up to the limit. The depth is afterwards what it was before, whether the parse has succeeded or
failed.

## Main definitions

* `Parser.Follows`: a parse at a depth does what a reading does, and keeps the depth.

## Main statements

* `Parser.block_eq_resume`, `Parser.expression_eq_resume`: blocks and expressions.
* `Parser.block_eq`, `Parser.operand_eq`: the recursion of the parser, whatever the fuel.
* `Block.parse_eq`: parsing a source text is reading it with as many levels as the limit says.
-/

namespace LuaLang.Parser

open Grammar Reading

/-- From any stream on, the parse does what the reading does, and limit and depth stay. -/
def Follows {α : Type} (limit depth : Nat) (parse : Parsing α) (reading : Reading α) : Prop :=
  ∀ s, parse ⟨s, limit, depth⟩ = resume ⟨s, limit, depth⟩ (reading s)

namespace Follows

variable {α β : Type} {limit depth : Nat}

theorem lift (reading : Reading α) : Follows limit depth (liftM reading) reading :=
  fun _ => rfl

theorem pure (a : α) : Follows limit depth (Pure.pure a) (Pure.pure a) :=
  fun _ => rfl

theorem bind {parse : Parsing α} {reading : Reading α} {next : α → Parsing β}
    {next' : α → Reading β} (h : Follows limit depth parse reading)
    (hnext : ∀ a, Follows limit depth (next a) (next' a)) :
    Follows limit depth (parse >>= next) (reading >>= next') := by
  intro s
  change EStateM.bind parse next _ = resume _ (EStateM.bind reading next' s)
  unfold EStateM.bind
  rw [h s]
  cases reading s with
  | ok a t => exact hnext a t
  | error e t => rfl

theorem map (f : α → β) {parse : Parsing α} {reading : Reading α}
    (h : Follows limit depth parse reading) :
    Follows limit depth (f <$> parse) (f <$> reading) := by
  rw [map_eq_pure_bind, map_eq_pure_bind]
  exact h.bind fun a => .pure (f a)

/-! ## Levels -/

/-- One level deeper there is one level less. What was opened is closed after a failure too, and
nothing is opened where no level is left. -/
theorem nested {parse : Parsing α} {reading inner : Nat → Reading α}
    (hzero : reading 0 = tooManyLevels) (hsucc : ∀ levels, reading (levels + 1) = inner levels)
    (h : Follows limit (depth + 1) parse (inner (limit - (depth + 1)))) :
    Follows limit depth (Parser.nested parse) (reading (limit - depth)) := by
  intro s
  rcases Nat.lt_or_ge depth limit with hdepth | hdepth
  · rw [Parser.nested, if_neg (Nat.not_le.2 hdepth)]
    change close (parse ⟨s, limit, depth + 1⟩) = _
    rw [h s, show limit - depth = limit - (depth + 1) + 1 by omega, hsucc]
    cases inner (limit - (depth + 1)) s <;> rfl
  · rw [Parser.nested, if_pos hdepth, Nat.sub_eq_zero_of_le hdepth, hzero]

/-! ## Loops -/

theorem loopFor {step : α → Parsing (α × Bool)} {step' : α → Reading (α × Bool)}
    (h : ∀ a, Follows limit depth (step a) (step' a)) (fuel : Nat) (a : α) :
    Follows limit depth (Grammar.loopFor step fuel a) (Grammar.loopFor step' fuel a) := by
  induction fuel generalizing a with
  | zero => exact .pure a
  | succ fuel ih =>
    refine (h a).bind fun ⟨b, more⟩ => ?_
    cases more with
    | false => exact .pure b
    | true => exact ih b

theorem loop {step : α → Parsing (α × Bool)} {step' : α → Reading (α × Bool)}
    (h : ∀ a, Follows limit depth (step a) (step' a)) (a : α) :
    Follows limit depth (Grammar.loop step a) (Grammar.loop step' a) :=
  (lift get).bind fun s => loopFor h (s.rest.length + 2) a

/-! ## Rows, tables and arguments -/

/-- One more item, if a mark is in front of it. -/
theorem ifConsumed (mark : Symbol) {there notThere : Parsing α} {there' notThere' : Reading α}
    (h : Follows limit depth there there') (hnot : Follows limit depth notThere notThere') :
    Follows limit depth (do if ← tryConsume mark then there else notThere)
      (do if ← tryConsume mark then there' else notThere') := by
  refine (lift (tryConsume mark)).bind fun found => ?_
  cases found with
  | true => exact h
  | false => exact hnot

theorem separated {mark : Symbol} {item : Parsing α} {item' : Reading α}
    (h : Follows limit depth item item') :
    Follows limit depth (Grammar.separated mark item) (Grammar.separated mark item') := by
  refine h.bind fun first => Follows.bind (loop (fun items => ?_) [first]) fun items => .pure _
  exact .ifConsumed mark (h.bind fun a => .pure _) (.pure _)

variable {expression tight : Parsing Expression} {expression' tight' : Reading Expression}
  {block : Parsing Block} {block' : Reading Block}

theorem field (h : Follows limit depth expression expression') :
    Follows limit depth (Grammar.field expression) (Grammar.field expression') := by
  refine .ifConsumed .leftBracket ?_ ?_
  · refine h.bind fun key => (lift (expect .rightBracket)).bind fun _ => ?_
    exact (lift (expect .equal)).bind fun _ => h.bind fun value => .pure _
  · refine h.bind fun value => (lift symbol).bind fun y => ?_
    split
    · refine (lift consume).bind fun _ => ?_
      cases value.name? with
      | some name => exact h.bind fun value => .pure _
      | none => exact lift unexpected
    · exact .pure _

theorem table (h : Follows limit depth expression expression') :
    Follows limit depth (Grammar.table expression) (Grammar.table expression') := by
  have hfields : Follows limit depth (fields expression) (fields expression') := by
    refine Follows.bind (loop (fun entries => ?_) []) fun entries => .pure _
    refine (lift symbol).bind fun y => ?_
    split
    · exact .pure _
    · refine h.field.bind fun entry => (lift symbol).bind fun y => ?_
      split
      · exact (lift consume).bind fun _ => .pure _
      · exact (lift consume).bind fun _ => .pure _
      · exact .pure _
      · exact lift unexpected
  refine (lift (expect .leftBrace)).bind fun _ => hfields.bind fun entries => ?_
  exact (lift (expect .rightBrace)).bind fun _ => .pure _

theorem arguments (h : Follows limit depth expression expression') :
    Follows limit depth (Grammar.arguments expression) (Grammar.arguments expression') := by
  refine (lift symbol).bind fun y => ?_
  split
  · refine (lift callGuard).bind fun _ => (lift consume).bind fun _ => ?_
    refine (lift symbol).bind fun y => ?_
    split
    · exact Follows.bind (.pure []) fun values =>
        (lift (expect .rightParen)).bind fun _ => .pure _
    · exact h.separated.bind fun values => (lift (expect .rightParen)).bind fun _ => .pure _
  · exact h.table.bind fun fields => .pure _
  · exact (lift consumeLexeme).bind fun text => .pure _
  · exact lift unexpected

theorem functionBody (h : Follows limit depth block block') :
    Follows limit depth (Grammar.functionBody block) (Grammar.functionBody block') := by
  refine (lift (expect .leftParen)).bind fun _ => (lift parameters).bind fun found => ?_
  refine (lift (expect .rightParen)).bind fun _ => h.bind fun body => ?_
  exact (lift (expect .endWord)).bind fun _ => .pure _

/-! ## Expressions -/

theorem primary (h : Follows limit depth expression expression') :
    Follows limit depth (Grammar.primary expression) (Grammar.primary expression') := by
  refine (lift symbol).bind fun y => ?_
  split
  · exact (lift consumeLexeme).bind fun name => .pure _
  · refine (lift consume).bind fun _ => h.bind fun value => ?_
    exact (lift (expect .rightParen)).bind fun _ => .pure _
  · exact lift unexpected

theorem suffix (h : Follows limit depth expression expression') (object : PrefixExpression) :
    Follows limit depth (Grammar.suffix expression object) (Grammar.suffix expression' object) := by
  refine (lift symbol).bind fun y => ?_
  split
  · refine (lift consume).bind fun _ => h.bind fun key => ?_
    exact (lift (expect .rightBracket)).bind fun _ => .pure _
  · exact (lift consume).bind fun _ => (lift (expectLexeme .name)).bind fun name => .pure _
  · refine (lift consume).bind fun _ => (lift (expectLexeme .name)).bind fun name => ?_
    exact h.arguments.bind fun _ => .pure _
  iterate 3 exact h.arguments.bind fun _ => .pure _
  · exact .pure _

theorem prefixExpression (h : Follows limit depth expression expression') :
    Follows limit depth (Grammar.prefixExpression expression)
      (Grammar.prefixExpression expression') :=
  h.primary.bind (loop h.suffix)

theorem operandWith (h : Follows limit depth expression expression')
    (htight : Follows limit depth tight tight') (hblock : Follows limit depth block block') :
    Follows limit depth (Grammar.operandWith expression tight block)
      (Grammar.operandWith expression' tight' block') := by
  refine (lift symbol).bind fun y => ?_
  split
  iterate 3 exact (lift consume).bind fun _ => .pure _
  · exact (lift numeral).bind fun value => .pure _
  · exact (lift consumeLexeme).bind fun text => .pure _
  · exact (lift consume).bind fun _ => .pure _
  · exact (lift consume).bind fun _ => hblock.functionBody.bind fun _ => .pure _
  iterate 2 exact h.prefixExpression.bind fun _ => .pure _
  · exact h.table.bind fun _ => .pure _
  · split
    · exact (lift consume).bind fun _ => htight.bind fun _ => .pure _
    · exact lift unexpected

theorem climbWith {right : Nat → Parsing Expression} {right' : Nat → Reading Expression}
    (h : ∀ power, Follows limit depth (right power) (right' power)) (power : Nat)
    (left : Expression) :
    Follows limit depth (Grammar.climbWith right power left)
      (Grammar.climbWith right' power left) := by
  refine loop (fun left => (lift symbol).bind fun y => ?_) left
  cases BinaryOp.ofSymbol? y with
  | none => exact .pure _
  | some op =>
    dsimp only
    split
    · exact .pure _
    · exact (lift consume).bind fun _ => (h op.rightPower).bind fun _ => .pure _

theorem place {operand : Parsing Expression} {operand' : Reading Expression}
    {climb : Nat → Expression → Parsing Expression} {climb' : Nat → Expression → Reading Expression}
    (h : Follows limit depth operand operand')
    (hclimb : ∀ power left, Follows limit depth (climb power left) (climb' power left))
    (power : Nat) :
    Follows limit depth (Grammar.place operand climb power) (Grammar.place operand' climb' power) :=
  h.bind (hclimb power)

/-! ## Statements -/

section Statements

variable (h : Follows limit depth expression expression')
  (hblock : Follows limit depth block block')

include h in
theorem expressions : Follows limit depth (Grammar.expressions expression)
    (Grammar.expressions expression') :=
  h.separated

include hblock in
theorem doStatement : Follows limit depth (Grammar.doStatement block)
    (Grammar.doStatement block') := by
  refine (lift (expect .doWord)).bind fun _ => hblock.bind fun body => ?_
  exact (lift (expect .endWord)).bind fun _ => .pure _

include h hblock

theorem whileStatement : Follows limit depth (Grammar.whileStatement expression block)
    (Grammar.whileStatement expression' block') := by
  refine (lift (expect .whileWord)).bind fun _ => h.bind fun test => ?_
  refine (lift (expect .doWord)).bind fun _ => hblock.bind fun body => ?_
  exact (lift (expect .endWord)).bind fun _ => .pure _

theorem repeatStatement : Follows limit depth (Grammar.repeatStatement expression block)
    (Grammar.repeatStatement expression' block') := by
  refine (lift (expect .repeatWord)).bind fun _ => hblock.bind fun body => ?_
  exact (lift (expect .untilWord)).bind fun _ => h.bind fun test => .pure _

theorem elseIfs : Follows limit depth (Grammar.elseIfs expression block)
    (Grammar.elseIfs expression' block') := by
  refine Follows.bind (loop (fun others => ?_) []) fun others => .pure _
  refine .ifConsumed .elseifWord ?_ (.pure _)
  refine h.bind fun test => (lift (expect .thenWord)).bind fun _ => ?_
  exact hblock.bind fun body => .pure _

theorem ifStatement : Follows limit depth (Grammar.ifStatement expression block)
    (Grammar.ifStatement expression' block') := by
  refine (lift (expect .ifWord)).bind fun _ => h.bind fun test => ?_
  refine (lift (expect .thenWord)).bind fun _ => hblock.bind fun body => ?_
  refine (h.elseIfs hblock).bind fun others => .ifConsumed .elseWord ?_ ?_
  · refine (hblock.map some).bind fun last => ?_
    exact (lift (expect .endWord)).bind fun _ => .pure _
  · refine Follows.bind (.pure none) fun last => ?_
    exact (lift (expect .endWord)).bind fun _ => .pure _

theorem genericFor : Follows limit depth (Grammar.genericFor expression block)
    (Grammar.genericFor expression' block') := by
  refine (lift names).bind fun names => (lift (expect .inWord)).bind fun _ => ?_
  refine h.expressions.bind fun values => (lift (expect .doWord)).bind fun _ => ?_
  exact hblock.bind fun body => .pure _

theorem numericFor : Follows limit depth (Grammar.numericFor expression block)
    (Grammar.numericFor expression' block') := by
  refine (lift (expectLexeme .name)).bind fun name => (lift (expect .equal)).bind fun _ => ?_
  refine h.bind fun start => (lift (expect .comma)).bind fun _ => h.bind fun last => ?_
  refine .ifConsumed .comma ?_ ?_
  · refine (h.map some).bind fun step => (lift (expect .doWord)).bind fun _ => ?_
    exact hblock.bind fun body => .pure _
  · refine Follows.bind (.pure none) fun step => (lift (expect .doWord)).bind fun _ => ?_
    exact hblock.bind fun body => .pure _

theorem forStatement : Follows limit depth (Grammar.forStatement expression block)
    (Grammar.forStatement expression' block') := by
  refine (lift (expect .forWord)).bind fun _ => (lift peek).bind fun y => ?_
  have hend : ∀ statement, Follows limit depth (do expect .endWord; Pure.pure statement)
      (do expect .endWord; Pure.pure statement) := fun (statement : Statement) =>
    (lift (expect .endWord)).bind fun _ => .pure statement
  split
  iterate 2 exact (h.genericFor hblock).bind hend
  · exact (h.numericFor hblock).bind hend

omit h in
theorem functionStatement : Follows limit depth (Grammar.functionStatement block)
    (Grammar.functionStatement block') := by
  refine (lift (expect .functionWord)).bind fun _ => (lift functionName).bind fun name => ?_
  exact hblock.functionBody.bind fun body => .pure _

theorem localStatement : Follows limit depth (Grammar.localStatement expression block)
    (Grammar.localStatement expression' block') := by
  refine (lift (expect .localWord)).bind fun _ => (lift symbol).bind fun y => ?_
  split
  · refine (lift consume).bind fun _ => (lift (expectLexeme .name)).bind fun name => ?_
    exact hblock.functionBody.bind fun body => .pure _
  · refine (lift names).bind fun names => .ifConsumed .equal ?_ (.pure _)
    exact h.expressions.bind fun values => .pure _
  · exact lift unexpected

omit hblock

theorem variableOf : Follows limit depth (Grammar.variableOf expression)
    (Grammar.variableOf expression') := by
  refine h.prefixExpression.bind fun value => ?_
  cases value.toVariable? with
  | some target => exact .pure target
  | none => exact lift unexpected

theorem moreTargets (first : Variable) : Follows limit depth
    (Grammar.moreTargets expression first) (Grammar.moreTargets expression' first) := by
  refine Follows.bind (loop (fun targets => ?_) [first]) fun targets => .pure _
  exact .ifConsumed .comma (h.variableOf.bind fun target => .pure _) (.pure _)

theorem assignOrCall : Follows limit depth (Grammar.assignOrCall expression)
    (Grammar.assignOrCall expression') := by
  refine h.prefixExpression.bind fun start => (lift symbol).bind fun y => ?_
  split
  iterate 2
    · cases start.toVariable? with
      | some target =>
        refine (h.moreTargets target).bind fun targets => (lift (expect .equal)).bind fun _ => ?_
        exact h.expressions.bind fun values => .pure _
      | none => exact lift unexpected
  · cases start.toCall? with
    | some call => exact .pure _
    | none => exact lift unexpected

theorem returnStatement : Follows limit depth (Grammar.returnStatement expression)
    (Grammar.returnStatement expression') := by
  refine (lift (expect .returnWord)).bind fun _ => (lift symbol).bind fun y => ?_
  split
  iterate 6 exact .pure _
  · exact h.expressions.bind fun values => .pure _

include hblock

theorem blockStep (found : List Statement × Ending) : Follows limit depth
    (Grammar.blockStep expression block found) (Grammar.blockStep expression' block' found) := by
  obtain ⟨statements, ending⟩ := found
  have more : ∀ {statement : Parsing Statement} {statement' : Reading Statement},
      Follows limit depth statement statement' →
        Follows limit depth (do Pure.pure (((← statement) :: statements, ending), true))
          (do Pure.pure (((← statement') :: statements, ending), true)) :=
    fun h => h.bind fun _ => .pure _
  refine (lift symbol).bind fun y => ?_
  split
  · exact (lift consume).bind fun _ => .pure _
  · exact more hblock.doStatement
  · exact more (h.whileStatement hblock)
  · exact more (h.repeatStatement hblock)
  · exact more (h.ifStatement hblock)
  · exact more (h.forStatement hblock)
  · exact more hblock.functionStatement
  · exact more (h.localStatement hblock)
  iterate 2 exact more h.assignOrCall
  · exact h.returnStatement.bind fun ending => .pure _
  · exact (lift consume).bind fun _ => .pure _
  · exact .pure _

theorem blockWith : Follows limit depth (Grammar.blockWith expression block)
    (Grammar.blockWith expression' block') := by
  refine Follows.bind (loop (h.blockStep hblock) ([], .falls)) fun found => ?_
  obtain ⟨statements, ending⟩ := found
  dsimp only
  split
  · exact (lift (tryConsume .semicolon)).bind fun _ => .pure _
  · exact .pure _

end Statements

end Follows

/-! ## The levels tied together -/

/-- Right operands are opened by the loop that takes over operators. -/
theorem Follows.right {limit depth power : Nat} {parse : Parsing Expression}
    (h : Follows limit (depth + 1) parse (Grammar.place (Grammar.operand (limit - (depth + 1)))
      (Grammar.climb (limit - (depth + 1))) power)) :
    Follows limit depth (Parser.nested parse) (rightOperand (limit - depth) power) :=
  @Follows.nested _ _ _ _ (fun levels => rightOperand levels power) _ rfl (fun _ => rfl) h

/-- The parser at a depth, and the grammar with the levels that are left there. -/
structure FollowsWith (limit depth fuel : Nat) : Prop where
  operand : Follows limit depth (operandWithin fuel) (Grammar.operand (limit - depth))
  climb : ∀ power left, Follows limit depth (climbWithin fuel power left)
    (Grammar.climb (limit - depth) power left)
  block : Follows limit depth (blockWithin fuel) (Grammar.block (limit - depth))

/-- Fuel for the levels that are left is enough, and more changes nothing. -/
theorem followsWith {limit depth fuel : Nat} (hfuel : limit ≤ depth + fuel) :
    FollowsWith limit depth fuel := by
  induction fuel generalizing depth with
  | zero =>
    have hlevels : limit - depth = 0 := Nat.sub_eq_zero_of_le hfuel
    constructor
    · rw [operandWithin, hlevels, operand_zero]
      exact .lift tooManyLevels
    · rw [climbWithin, hlevels, climb_zero]
      exact .climbWith fun _ => .lift tooManyLevels
    · rw [blockWithin, hlevels, block_zero]
      exact .lift tooManyLevels
  | succ fuel ih =>
    have h : FollowsWith limit (depth + 1) fuel := ih (by omega)
    have hplace := h.operand.place h.climb
    constructor
    · rw [operandWithin]
      exact .nested operand_zero operand_succ
        ((hplace 0).operandWith (hplace UnaryOp.power) h.block)
    · rw [climbWithin, Grammar.climb_eq]
      exact .climbWith fun power => (hplace power).right
    · rw [blockWithin]
      exact .nested block_zero block_succ ((hplace 0).blockWith h.block)

section

variable {limit depth : Nat}

theorem follows_left : FollowsWith limit depth (limit - depth) :=
  followsWith (by omega)

theorem follows_operand : Follows limit depth operand (Grammar.operand (limit - depth)) :=
  follows_left.operand

theorem follows_climb (power : Nat) (left : Expression) :
    Follows limit depth (climb power left) (Grammar.climb (limit - depth) power left) :=
  follows_left.climb power left

theorem follows_block : Follows limit depth block (Grammar.block (limit - depth)) :=
  follows_left.block

theorem follows_place (power : Nat) : Follows limit depth (place operand climb power)
    (place (Grammar.operand (limit - depth)) (Grammar.climb (limit - depth)) power) :=
  follows_operand.place follows_climb power

theorem follows_expression :
    Follows limit depth expression (Grammar.expression (limit - depth)) :=
  follows_place 0

theorem follows_chunk : Follows limit depth chunk (Grammar.chunk (limit - depth)) :=
  follows_block.bind fun tree => (Follows.lift (expect .endOfFile)).bind fun _ => .pure tree

end

/-! ## The recursion of the parser -/

/-- Parses are the same if they follow the same readings from each limit and depth on. -/
theorem eq_of_follows {α : Type} {x y : Parsing α} {reading : Nat → Nat → Reading α}
    (hx : ∀ {limit depth}, Follows limit depth x (reading limit depth))
    (hy : ∀ {limit depth}, Follows limit depth y (reading limit depth)) : x = y := by
  funext ⟨s, limit, depth⟩
  rw [hx s, hy s]

theorem operand_eq :
    operand = nested (operandWith expression (place operand climb UnaryOp.power) block) :=
  eq_of_follows follows_operand <| .nested operand_zero operand_succ <|
    follows_expression.operandWith (follows_place UnaryOp.power) follows_block

theorem climb_eq (limit : Nat) (left : Expression) :
    climb limit left = climbWith (fun power => nested (place operand climb power)) limit left := by
  refine eq_of_follows (follows_climb limit left) fun s => ?_
  rw [Grammar.climb_eq]
  exact Follows.climbWith (fun power => (follows_place power).right) _ _ s

theorem block_eq : block = nested (blockWith expression block) :=
  eq_of_follows follows_block <| .nested block_zero block_succ <|
    follows_expression.blockWith follows_block

/-! ## What a parse comes to -/

theorem block_eq_resume (p : Parser) :
    block p = p.resume (Grammar.block (p.limit - p.depth) p.stream) :=
  follows_block p.stream

theorem expression_eq_resume (p : Parser) :
    expression p = p.resume (Grammar.expression (p.limit - p.depth) p.stream) :=
  follows_expression p.stream

/-- Parsing what was scanned is reading it with as many levels as the limit says. -/
theorem parse_eq (scanned : List Scanned) (limit : Nat) :
    parse scanned limit = (Grammar.chunk limit).ofScanned scanned := by
  rw [parse, Reading.ofScanned]
  cases TokenStream.ofScanned scanned with
  | error e => rfl
  | ok s =>
    have h : chunk { stream := s, limit } = resume { stream := s, limit } (Grammar.chunk limit s) :=
      follows_chunk s
    dsimp only
    rw [h]
    cases Grammar.chunk limit s <;> rfl

end LuaLang.Parser

namespace LuaLang.Block

theorem parse_eq (source : String) (levels : Nat) :
    parse source levels = (Grammar.chunk levels).ofScanned (Token.scan source) :=
  Parser.parse_eq _ _

theorem parseScript_eq (source : String) (levels : Nat) :
    parseScript source levels = (Grammar.chunk levels).ofScanned (Token.scanScript source) :=
  Parser.parse_eq _ _

end LuaLang.Block
