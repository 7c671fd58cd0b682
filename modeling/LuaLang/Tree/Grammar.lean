import LuaLang.Number.Numeral
import LuaLang.Token.Scan
import LuaLang.Token.Stream
import LuaLang.Tree.Basic

/-!
# Grammar

Trees are read from token streams by recursive descent, and expressions by the binding powers of
their operators. The first error ends the reading.

Blocks and operands nest up to a number of levels. Each rule is written once, over readings of the
level below it; `Grammar.operand`, `Grammar.climb` and `Grammar.block` tie the levels together by
recursion on how many are left.

## Main definitions

* `Grammar.chunk`: a block up to the end of the file.
* `Grammar.block`: a block, with `levels` levels left.
* `Grammar.expression`: an expression, with `levels` levels left.
* `Block.parse`: the tree of a source text.
-/

namespace LuaLang.Grammar

open Reading

variable {m : Type → Type} [Monad m] [MonadLiftT Reading m]

/-! ## Loops -/

/-- Repeats a reading on a value for as long as it says so, at most `fuel` times. -/
def loopFor {α : Type} (step : α → m (α × Bool)) : Nat → α → m α
  | 0, a => pure a
  | fuel + 1, a => do
    let (a, more) ← step a
    if more then loopFor step fuel a else pure a

/-- Repeats a reading on a value for as long as it says so. A reading that says so has moved past a
token, so there are no more rounds than tokens. -/
def loop {α : Type} (step : α → m (α × Bool)) (a : α) : m α := do
  let s ← (get : Reading TokenStream)
  loopFor step (s.rest.length + 2) a

/-- At least one item, with a separator between any two. -/
def separated {α : Type} (separator : Symbol) (item : m α) : m (List α) := do
  let first ← item
  let items ← loop (fun items => do
    if ← tryConsume separator then pure ((← item) :: items, true) else pure (items, false)) [first]
  pure items.reverse

/-! ## Names, tables and arguments -/

def names : Reading (List String) :=
  separated .comma (expectLexeme .name)

def functionName : Reading FunctionName := do
  let path ← separated .dot (expectLexeme .name)
  if ← tryConsume .colon then pure ⟨path, some (← expectLexeme .name)⟩ else pure ⟨path, none⟩

/-- An entry of a table constructor. What is in front of an equals sign has to be a name. -/
def field (expression : m Expression) : m Field := do
  if ← tryConsume .leftBracket then
    let key ← expression
    expect .rightBracket
    expect .equal
    pure (.keyed key (← expression))
  else
    let value ← expression
    if (← symbol) = .equal then
      consume
      match value.name? with
      | some name => pure (.named name (← expression))
      | none => unexpected
    else pure (.item value)

/-- The entries of a table constructor up to its closing brace, each but the last followed by a
separator. -/
def fields (expression : m Expression) : m (List Field) := do
  let entries ← loop (fun entries => do
    if (← symbol) = .rightBrace then pure (entries, false)
    else
      let entries := (← field expression) :: entries
      match ← symbol with
      | .comma | .semicolon => consume; pure (entries, true)
      | .rightBrace => pure (entries, false)
      | _ => unexpected) []
  pure entries.reverse

def table (expression : m Expression) : m (List Field) := do
  expect .leftBrace
  let entries ← fields expression
  expect .rightBrace
  pure entries

/-- Fails at a parenthesis that is not on the line that the callee ends on. -/
def callGuard : Reading Unit := do
  let s ← get
  if s.current.line ≠ s.last.endLine then fail fun s => .ambiguousCall s.near

def arguments (expression : m Expression) : m Arguments := do
  match ← symbol with
  | .leftParen =>
    callGuard
    consume
    let values ← if (← symbol) = .rightParen then pure [] else separated .comma expression
    expect .rightParen
    pure (.list values)
  | .leftBrace => pure (.table (← table expression))
  | .string => pure (.string (← consumeLexeme))
  | _ => unexpected

/-- The parameters of a function, and whether it takes more arguments than those. -/
def parameters : Reading (List String × Bool) := do
  if (← symbol) = .rightParen then pure ([], false)
  else
    let (names, varargs) ← loop (fun (names, _) => do
      match ← symbol with
      | .dotDotDot => consume; pure ((names, true), false)
      | .name =>
        let names := (← consumeLexeme) :: names
        pure ((names, false), ← tryConsume .comma)
      | _ => fail fun s => .expected .name s.near) ([], false)
    pure (names.reverse, varargs)

/-- Parameters in parentheses, then a block and its end. -/
def functionBody (block : m Block) : m FunctionBody := do
  expect .leftParen
  let (names, varargs) ← parameters
  expect .rightParen
  let body ← block
  expect .endWord
  pure (.mk names varargs body)

/-! ## Expressions -/

/-- What a prefix expression starts with. -/
def primary (expression : m Expression) : m PrefixExpression := do
  match ← symbol with
  | .name => pure (.var (.name (← consumeLexeme)))
  | .leftParen =>
    consume
    let value ← expression
    expect .rightParen
    pure (.paren value)
  | _ => unexpected

/-- One more index or call, if there is one. -/
def suffix (expression : m Expression) (object : PrefixExpression) :
    m (PrefixExpression × Bool) := do
  match ← symbol with
  | .leftBracket =>
    consume
    let key ← expression
    expect .rightBracket
    pure (.var (.index object key), true)
  | .dot =>
    consume
    let name ← expectLexeme .name
    pure (.var (.field object name), true)
  | .colon =>
    consume
    let name ← expectLexeme .name
    pure (.call (.method object name (← arguments expression)), true)
  | .leftParen | .leftBrace | .string =>
    pure (.call (.function object (← arguments expression)), true)
  | _ => pure (object, false)

/-- A name or an expression in parentheses, with any indices and calls after it. -/
def prefixExpression (expression : m Expression) : m PrefixExpression := do
  loop (suffix expression) (← primary expression)

def numeral : Reading Number := fun s =>
  match Number.ofLiteral? s.current.lexeme with
  | some value => (do consume; pure value : Reading Number) s
  | none => fail (fun s => .malformedNumber s.current.lexeme) s

/-- An operand, given readings of expressions, of operands of unary operators, and of blocks. -/
def operandWith (expression tight : m Expression) (block : m Block) :
    m Expression := do
  match ← symbol with
  | .nilWord => consume; pure .nil
  | .trueWord => consume; pure (.boolean true)
  | .falseWord => consume; pure (.boolean false)
  | .number => pure (.number (← numeral))
  | .string => pure (.string (← consumeLexeme))
  | .dotDotDot => consume; pure .varargs
  | .functionWord => consume; pure (.function (← functionBody block))
  | .name | .leftParen => pure (.prefixed (← prefixExpression expression))
  | .leftBrace => pure (.table (← table expression))
  | symbol =>
    match UnaryOp.ofSymbol? symbol with
    | some op => consume; pure (.unary op (← tight))
    | none => unexpected

/-- Takes binary operators over as long as they bind more tightly than `limit`, given the reading of
a right operand by the power of its place. -/
def climbWith (right : Nat → m Expression) (limit : Nat) (left : Expression) :
    m Expression :=
  loop (fun left => do
    match BinaryOp.ofSymbol? (← symbol) with
    | some op =>
      if op.leftPower ≤ limit then pure (left, false)
      else
        consume
        pure (.binary op left (← right op.rightPower), true)
    | none => pure (left, false)) left

/-! ## Statements -/

section Statements

variable (expression : m Expression) (block : m Block)

def expressions : m (List Expression) :=
  separated .comma expression

def doStatement : m Statement := do
  expect .doWord
  let body ← block
  expect .endWord
  pure (.doBlock body)

def whileStatement : m Statement := do
  expect .whileWord
  let test ← expression
  expect .doWord
  let body ← block
  expect .endWord
  pure (.whileLoop test body)

def repeatStatement : m Statement := do
  expect .repeatWord
  let body ← block
  expect .untilWord
  pure (.repeatLoop body (← expression))

/-- The tests and blocks after the first ones of a choice. -/
def elseIfs : m (List ElseIf) := do
  let others ← loop (fun others => do
    if ← tryConsume .elseifWord then
      let test ← expression
      expect .thenWord
      pure (.mk test (← block) :: others, true)
    else pure (others, false)) []
  pure others.reverse

def ifStatement : m Statement := do
  expect .ifWord
  let test ← expression
  expect .thenWord
  let body ← block
  let others ← elseIfs expression block
  let otherwise ← if ← tryConsume .elseWord then some <$> block else pure none
  expect .endWord
  pure (.choice test body others otherwise)

/-- A loop over an iterator, from its names on. -/
def genericFor : m Statement := do
  let names ← names
  expect .inWord
  let values ← expressions expression
  expect .doWord
  pure (.genericFor names values (← block))

/-- A loop over numbers, from its name on. -/
def numericFor : m Statement := do
  let name ← expectLexeme .name
  expect .equal
  let start ← expression
  expect .comma
  let limit ← expression
  let step ← if ← tryConsume .comma then some <$> expression else pure none
  expect .doWord
  pure (.numericFor name start limit step (← block))

/-- Which loop it is shows in the symbol after the first name. -/
def forStatement : m Statement := do
  expect .forWord
  let statement ← match ← peek with
    | .comma | .inWord => genericFor expression block
    | _ => numericFor expression block
  expect .endWord
  pure statement

def functionStatement : m Statement := do
  expect .functionWord
  let name ← functionName
  pure (.function name (← functionBody block))

def localStatement : m Statement := do
  expect .localWord
  match ← symbol with
  | .functionWord =>
    consume
    let name ← expectLexeme .name
    pure (.localFunction name (← functionBody block))
  | .name =>
    let names ← names
    if ← tryConsume .equal then pure (.localAssign names (← expressions expression))
    else pure (.localNames names)
  | _ => unexpected

/-- A prefix expression that has to be a variable. -/
def variableOf : m Variable := do
  match (← prefixExpression expression).toVariable? with
  | some target => pure target
  | none => unexpected

/-- The targets of an assignment after the first one. -/
def moreTargets (first : Variable) : m (List Variable) := do
  let targets ← loop (fun targets => do
    if ← tryConsume .comma then pure ((← variableOf expression) :: targets, true)
    else pure (targets, false)) [first]
  pure targets.reverse

/-- An assignment or a call; which one shows after the first prefix expression. -/
def assignOrCall : m Statement := do
  let start ← prefixExpression expression
  match ← symbol with
  | .comma | .equal =>
    match start.toVariable? with
    | some target =>
      let targets ← moreTargets expression target
      expect .equal
      pure (.assign targets (← expressions expression))
    | none => unexpected
  | _ =>
    match start.toCall? with
    | some call => pure (.call call)
    | none => unexpected

/-- The values of a return statement, which may be none in front of what can follow a block. -/
def returnStatement : m Ending := do
  expect .returnWord
  match ← symbol with
  | .endWord | .elseWord | .elseifWord | .untilWord | .endOfFile | .semicolon => pure (.returns [])
  | _ => pure (.returns (← expressions expression))

/-- One statement or the ending of the block, put behind the statements so far. -/
def blockStep : List Statement × Ending → m ((List Statement × Ending) × Bool) :=
  fun (statements, ending) => do
    let more (statement : m Statement) : m ((List Statement × Ending) × Bool) := do
      pure (((← statement) :: statements, ending), true)
    match ← symbol with
    | .semicolon => consume; pure ((statements, ending), true)
    | .doWord => more (doStatement block)
    | .whileWord => more (whileStatement expression block)
    | .repeatWord => more (repeatStatement expression block)
    | .ifWord => more (ifStatement expression block)
    | .forWord => more (forStatement expression block)
    | .functionWord => more (functionStatement block)
    | .localWord => more (localStatement expression block)
    | .name | .leftParen => more (assignOrCall expression)
    | .returnWord => pure ((statements, ← returnStatement expression), false)
    | .breakWord => consume; pure ((statements, .breaks), false)
    | _ => pure ((statements, ending), false)

/-- Statements up to an ending or to anything that starts no statement. Semicolons between them
mean nothing. -/
def blockWith : m Block := do
  let (statements, ending) ← loop (blockStep expression block) ([], .falls)
  if ending.isStatement then
    let _ ← tryConsume .semicolon
  pure (.mk statements.reverse ending)

end Statements

/-! ## Levels -/

def tooManyLevels {α : Type} : Reading α :=
  fail fun _ => .tooManyLevels

/-- An operand, then what a place of the given power takes over. -/
def place (operand : m Expression) (climb : Nat → Expression → m Expression)
    (power : Nat) : m Expression := do
  climb power (← operand)

mutual

/-- An operand, with `levels` levels left. -/
def operand : (levels : Nat) → TokenStream → EStateM.Result SyntaxError TokenStream Expression
  | 0, s => tooManyLevels s
  | n + 1, s =>
    operandWith (m := Reading) (place (operand n) (climb n) 0)
      (place (operand n) (climb n) UnaryOp.power) (block n) s

/-- Takes over binary operators, with `levels` levels left for their right operands. -/
def climb : (levels : Nat) → (limit : Nat) → Expression → TokenStream →
    EStateM.Result SyntaxError TokenStream Expression
  | 0, limit, left, s => climbWith (m := Reading) (fun _ => tooManyLevels) limit left s
  | n + 1, limit, left, s =>
    climbWith (m := Reading) (place (operand n) (climb n)) limit left s

/-- A block, with `levels` levels left. -/
def block : (levels : Nat) → TokenStream → EStateM.Result SyntaxError TokenStream Block
  | 0, s => tooManyLevels s
  | n + 1, s => blockWith (m := Reading) (place (operand n) (climb n) 0) (block n) s

end

/-- An expression, with `levels` levels left. -/
def expression (levels : Nat) : Reading Expression :=
  place (operand levels) (climb levels) 0

/-- A block up to the end of the file. -/
def chunk (levels : Nat) : Reading Block := do
  let tree : Block ← block levels
  expect .endOfFile
  pure tree

end LuaLang.Grammar

namespace LuaLang

/-- Reads what was scanned. -/
def Reading.ofScanned {α : Type} (reading : Reading α) (scanned : List Scanned) :
    Except SyntaxError α :=
  match TokenStream.ofScanned scanned with
  | .error e => .error e
  | .ok s =>
    match reading s with
    | .ok a _ => .ok a
    | .error e _ => .error e

end LuaLang
