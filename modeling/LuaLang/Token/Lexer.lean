import LuaLang.Token.Stream

/-!
# Lexers

What a parser needs of a source of tokens: one token is current, one was passed last, the symbol
after the current one can be asked for, and the source can move on. Everything else that is done
with such a source is built from that.

## Main definitions

* `Lexer`: a source of tokens.
* `Lexer.perform`: one operation on a source, with its answer.
* `Lexer.record`: what can be seen of a sequence of operations.
-/

namespace LuaLang

/-- A source of tokens with states of type `σ`. Asking for the next symbol may change the state. -/
class Lexer (σ : Type) where
  current : σ → Token
  last : σ → Token
  nextSymbol : σ → Symbol × σ
  consume : EStateM SyntaxError σ Unit

instance : Lexer TokenStream where
  current := TokenStream.current
  last := TokenStream.last
  nextSymbol s := (s.nextSymbol, s)
  consume := Reading.consume

namespace Lexer

variable {σ : Type} [Lexer σ]

def currentSymbol (s : σ) : Symbol :=
  (current s).symbol

def fault (s : σ) (cause : SyntaxError.Cause) : SyntaxError :=
  ⟨cause, (current s).line, (current s).column⟩

def consumeLexeme : EStateM SyntaxError σ String := fun s =>
  (do consume; pure (current s).lexeme : EStateM SyntaxError σ String) s

def tryConsume (symbol : Symbol) : EStateM SyntaxError σ Bool := fun s =>
  if currentSymbol s = symbol then (do consume; pure true : EStateM SyntaxError σ Bool) s
  else .ok false s

def expectLexeme (symbol : Symbol) : EStateM SyntaxError σ String := fun s =>
  if currentSymbol s = symbol then consumeLexeme s
  else .error (fault s (.expected symbol (current s).near)) s

def expect (symbol : Symbol) : EStateM SyntaxError σ Unit := do
  let _ ← expectLexeme symbol

/-- On a stream these are what a parser reads with. -/
theorem stream_eq_reading (symbol : Symbol) :
    (consumeLexeme : Reading String) = Reading.consumeLexeme ∧
      (tryConsume symbol : Reading Bool) = Reading.tryConsume symbol ∧
      (expectLexeme symbol : Reading String) = Reading.expectLexeme symbol ∧
      (expect symbol : Reading Unit) = Reading.expect symbol :=
  ⟨rfl, rfl, rfl, rfl⟩

/-- What can be asked of a source of tokens. -/
inductive Operation where
  | current
  | last
  | currentSymbol
  | nextSymbol
  | consume
  | consumeLexeme
  | tryConsume (symbol : Symbol)
  | expect (symbol : Symbol)
  | expectLexeme (symbol : Symbol)
  /-- An error at the current token, worded by a template. -/
  | syntaxError (template : String) (arguments : List String)
deriving DecidableEq, Repr

inductive Answer where
  | nothing
  | token (token : Token)
  | symbol (symbol : Symbol)
  | lexeme (text : String)
  | truth (truth : Bool)
  | error (error : SyntaxError)
deriving DecidableEq, Repr

def attempt {α : Type} (x : EStateM SyntaxError σ α) (answer : α → Answer) (s : σ) :
    Except SyntaxError Answer × σ :=
  match x s with
  | .ok a s => (.ok (answer a), s)
  | .error e s => (.error e, s)

/-- The answer of an operation, and the state after it. There is one after a failure too. -/
def perform : Operation → σ → Except SyntaxError Answer × σ
  | .current, s => (.ok (.token (current s)), s)
  | .last, s => (.ok (.token (last s)), s)
  | .currentSymbol, s => (.ok (.symbol (currentSymbol s)), s)
  | .nextSymbol, s => (.ok (.symbol (nextSymbol s).1), (nextSymbol s).2)
  | .consume, s => attempt consume (fun _ => .nothing) s
  | .consumeLexeme, s => attempt consumeLexeme .lexeme s
  | .tryConsume symbol, s => attempt (tryConsume symbol) .truth s
  | .expect symbol, s => attempt (expect symbol) (fun _ => .nothing) s
  | .expectLexeme symbol, s => attempt (expectLexeme symbol) .lexeme s
  | .syntaxError template arguments, s =>
    (.ok (.error (fault s (.custom (Text.fill template arguments)))), s)

/-- One operation of a sequence: its answer, and the tokens after it. -/
structure Step where
  operation : Operation
  answer : Except SyntaxError Answer
  current : Token
  last : Token

/-- What can be seen of a sequence of operations: its steps, and the tokens at its end. -/
structure Record where
  steps : List Step
  current : Token
  last : Token

/-- What can be seen of the given operations, one after the other. -/
def record : List Operation → σ → Record
  | [], s => ⟨[], current s, last s⟩
  | operation :: operations, s =>
    let (answer, s) := perform operation s
    let rest := record operations s
    { rest with steps := ⟨operation, answer, current s, last s⟩ :: rest.steps }

/-- The record less the steps that ask for the next symbol. -/
def Record.withoutLookahead (r : Record) : Record :=
  { r with steps := r.steps.filter (·.operation ≠ .nextSymbol) }

end Lexer

end LuaLang
