import LuaLang.Text.Quoted
import LuaLang.Tree.Parser

/-!
# Invocations

What the command line asks for. Options are taken out of the list of arguments one after the other,
wherever they stand; flags of one letter can be combined behind one hyphen. What is left is the
source.

## Main definitions

* `Invocation`: what to do.
* `UsageError`: why arguments make no sense.
* `Invocation.ofArguments`: reads the arguments.
-/

namespace LuaLang

inductive Source where
  | file (name : String)
  | code (text : String)
deriving DecidableEq, Repr

/-- What is shown of a source. -/
inductive View where
  | check
  | canonical
  | outline
  | tokens
deriving DecidableEq, Repr

inductive Command where
  | help
  | version
  | interactive
  | view (source : Source) (view : View)
deriving DecidableEq, Repr

structure Invocation where
  verbose : Bool
  levels : Nat
  command : Command
deriving DecidableEq, Repr

/-- Why a text is no count. -/
inductive CountError where
  | empty
  | invalidDigit
  | tooLarge
deriving DecidableEq, Repr

def CountError.message : CountError → String
  | empty => "cannot parse integer from empty string"
  | invalidDigit => "invalid digit found in string"
  | tooLarge => "number too large to fit in target type"

/-- Why arguments make no sense. -/
inductive UsageError where
  | missingValue (option : String)
  | malformedValue (value : String) (reason : CountError)
  | missingSource
  | unexpectedArguments (rest : List String)
  | checkCombined
deriving DecidableEq, Repr

def UsageError.message : UsageError → String
  | missingValue option => "the '" ++ option ++ "' option doesn't have an associated value"
  | malformedValue value reason => "failed to parse '" ++ value ++ "' cause " ++ reason.message
  | missingSource => "free-standing argument is missing"
  | unexpectedArguments rest =>
    "failed to parse a binary argument cause unexpected arguments [" ++
      ", ".intercalate (rest.map Text.quote) ++ "]"
  | checkCombined =>
    "failed to parse a binary argument cause " ++
      "--check can't be combined with other output options"

namespace Invocation

/-! ## Counts -/

/-- One more digit of a count that fits a word of 64 bits. -/
def appendCountDigit (n : Nat) (c : Char) : Except CountError Nat :=
  if !c.isDigit then .error .invalidDigit
  else
    let count := 10 * n + Number.decimalDigit c
    if count < 0x10000000000000000 then .ok count else .error .tooLarge

def readCount (text : String) : Except CountError Nat :=
  match text.toList with
  | [] => .error .empty
  | ['+'] => .error .invalidDigit
  | '+' :: digits => digits.foldlM appendCountDigit 0
  | digits => digits.foldlM appendCountDigit 0

/-! ## Taking options out -/

/-- What takes options out of the arguments. -/
abbrev Taking := StateT (List String) (Except UsageError)

def takeWord (word : String) : Taking Bool := fun arguments =>
  .ok (arguments.contains word, arguments.erase word)

/-- Whether an argument is a row of one-letter flags with the given letter among them. -/
def holdsLetter (letter : Char) (argument : String) : Bool :=
  argument.startsWith "-" && !argument.startsWith "--" && argument.toList.contains letter

/-- Takes a letter out of the first row of one-letter flags that holds it. -/
def takeLetter (letter : Char) : List String → Option (List String)
  | [] => none
  | argument :: rest =>
    if holdsLetter letter argument then
      if argument.utf8ByteSize = 2 then some rest
      else some (String.ofList (argument.toList.erase letter) :: rest)
    else (takeLetter letter rest).map (argument :: ·)

/-- Takes a flag out: by its letter alone, by its long name, or from a row of letters. -/
def takeFlag (letter : Char) (long : String) : Taking Bool := do
  if ← takeWord ("-" ++ letter.toString) then return true
  if ← takeWord long then return true
  match takeLetter letter (← get) with
  | some rest => set rest; return true
  | none => return false

/-- Takes an option and the argument after it out of the arguments. -/
def takePair (option : String) : List String → Except UsageError (String × List String)
  | [] => .error (.missingValue option)
  | argument :: rest =>
    if argument = option then
      match rest with
      | [] => .error (.missingValue option)
      | value :: rest => .ok (value, rest)
    else
      match takePair option rest with
      | .ok (value, rest) => .ok (value, argument :: rest)
      | .error e => .error e

/-- Drops a pair of quotes around a value; an opening quote needs its closing one. -/
def dropQuotes (value : List Char) : Option (List Char) :=
  match value with
  | [] => none
  | c :: rest =>
    if c = '"' || c = '\'' then
      if rest.getLast? = some c && rest.length > 1 then some rest.dropLast else none
    else some value

/-- The value of an option, in the argument after it or behind an equals sign. -/
def takeValue (option : String) : Taking (Option String) := do
  let arguments ← get
  if arguments.contains option then
    let (value, rest) ← takePair option arguments
    set rest
    return some value
  let assignment := option ++ "="
  match arguments.find? (·.startsWith assignment) with
  | none => return none
  | some argument =>
    match dropQuotes (argument.toList.drop assignment.length) with
    | some value => set (arguments.erase argument); return some (String.ofList value)
    | none => throw (.missingValue option)

def takeFirst : Taking (Option String) := do
  match ← get with
  | [] => return none
  | argument :: rest => set rest; return some argument

def takeLevels : Taking Nat := do
  match ← takeValue "--max-depth" with
  | none => return defaultLevels
  | some value =>
    match readCount value with
    | .ok levels => return levels
    | .error reason => throw (.malformedValue value reason)

/-- The source, whose text has to be there if it is given as code. -/
def takeSource : Taking (Option Source) := do
  if ← takeFlag 'e' "--evaluate" then
    match ← takeFirst with
    | some text => return some (.code text)
    | none => throw .missingSource
  else return (← takeFirst).map .file

/-- Everything but help and version, in the order in which it is taken out. -/
def takeCommand : Taking Command := do
  let interactive ← takeFlag 'i' "--interactive"
  let check ← takeFlag 'c' "--check"
  let canonical ← takeFlag 's' "--ast"
  let outline ← takeFlag 'd' "--debug-tree"
  let tokens ← takeFlag 't' "--tokens"
  let source ← takeSource
  let rest ← get
  if !rest.isEmpty then throw (.unexpectedArguments rest)
  if check && (canonical || outline || tokens) then throw .checkCombined
  let view : View :=
    if tokens then .tokens
    else if outline then .outline
    else if canonical then .canonical
    else .check
  match source with
  | some source => return if interactive then .interactive else .view source view
  | none => return .interactive

def takeInvocation : Taking Invocation := do
  let verbose ← takeFlag 'v' "--verbose"
  let levels ← takeLevels
  if ← takeFlag 'h' "--help" then return ⟨verbose, levels, .help⟩
  if ← takeFlag 'V' "--version" then return ⟨verbose, levels, .version⟩
  return ⟨verbose, levels, ← takeCommand⟩

end Invocation

def Invocation.ofArguments (arguments : List String) : Except UsageError Invocation :=
  (takeInvocation.run arguments).map (·.1)

end LuaLang
