import LuaLang.CommandLine.Invocation
import LuaLang.Tree.Outline
import LuaLang.Tree.Printer

/-!
# Sessions

What the program does with an invocation: which texts it writes, and the code that it exits with.
Reading files and lines is left to the outside, which gives their bytes.

The prompt reads lines until they make up an expression or a chunk, or cannot any more, and shows
the canonical source of what was read. A line that ends too early is kept and waits for more.

## Main definitions

* `Prompt.step`: the answer of the prompt to a line.
* `Session`: what was written, and the exit code.
* `Session.start`: a session from its arguments to its end.
-/

namespace LuaLang

namespace Prompt

/-- What to show before a line is read, given the text that waits for more. -/
def mark (pending : String) : String :=
  if pending.isEmpty then "> " else ">> "

/-- The tree of a text that is an expression or a chunk, an expression being what a return statement
returns. -/
def parse (text : String) (levels : Nat) : Except SyntaxError Block :=
  match Block.parseScript ("return " ++ text) levels with
  | .ok block => .ok block
  | .error _ => Block.parseScript text levels

structure Reply where
  output : String
  errors : String
  /-- The text that waits for more. -/
  pending : String
deriving DecidableEq, Repr

/-- Adds a line to the text that waits, and answers. -/
def step (levels : Nat) (pending line : String) : Reply :=
  let text := pending ++ line ++ "\n"
  match parse text levels with
  | .ok block => ⟨block.print, "", ""⟩
  | .error e =>
    if e.isIncomplete then ⟨"", "", text⟩
    else ⟨"", "syntax error: " ++ e.describe ++ "\n", ""⟩

end Prompt

/-- Why something could not be read. -/
inductive ReadFailure where
  | notFound
  | isDirectory
  | invalidText
  /-- Any other failure, in the words of the system. -/
  | other (message : String)
deriving DecidableEq, Repr

def ReadFailure.message : ReadFailure → String
  | notFound => "No such file or directory (os error 2)"
  | isDirectory => "Is a directory (os error 21)"
  | invalidText => "stream did not contain valid UTF-8"
  | other message => message

structure Session where
  code : Nat
  output : String
  errors : String
deriving DecidableEq, Repr

namespace Session

def versionText : String := "Selenite 0.1.0\nTargeting Lua 5.1"

def helpText : String := "\n".intercalate [
  "Selenite, a Lua 5.1 front end",
  "",
  "The Lua programming language is owned and copyrighted by PUC-Rio.",
  "",
  "SYNOPSIS:",
  "\tselenite [OPTIONS] [SOURCE]",
  "",
  "DESCRIPTION:",
  "\tselenite reads Lua source code and parses it, reporting the first syntax error it finds. " ++
    "It does not run the code.",
  "",
  "\tSOURCE is either the code itself, if -e is passed, or otherwise the name of a file to load." ++
    " Without further options, the source is only checked. If SOURCE is not provided, or -i is " ++
    "passed, an interactive prompt starts that prints back everything typed into it in canonical" ++
    " form.",
  "",
  "\tPassing -v will print verbose information to standard error.",
  "",
  "OPTIONS:",
  "\t-h, --help          Displays this and quits",
  "\t-V, --version       Displays version information",
  "\t-v, --verbose       Runs with verbose output",
  "\t-e, --evaluate      Treats SOURCE as source code, rather than a file",
  "\t-c, --check         Checks SOURCE for syntax errors, the default",
  "\t-s, --ast           Prints SOURCE back in canonical form",
  "\t-d, --debug-tree    Prints the syntax tree of SOURCE",
  "\t-t, --tokens        Prints the tokens of SOURCE",
  "\t-i, --interactive   Starts an interactive prompt",
  "\t--max-depth DEPTH   Limits how deeply SOURCE may nest"]

/-! ## Endings -/

def done (output : String) : Session := ⟨0, output, ""⟩

def usageError (e : UsageError) : Session :=
  ⟨64, "", "usage error: " ++ e.message ++ "\n\n" ++ helpText ++ "\n"⟩

def readFailureText (e : ReadFailure) : String := "io error: " ++ e.message ++ "\n"

def syntaxErrorText (e : SyntaxError) : String := "syntax error: " ++ e.describe ++ "\n"

def readFailure (output : String) (e : ReadFailure) : Session :=
  ⟨3, output, readFailureText e⟩

def syntaxError (output : String) (e : SyntaxError) : Session :=
  ⟨2, output, syntaxErrorText e⟩

/-! ## Views -/

/-- Lists tokens, a line each, up to the end of the file or an error. -/
def listTokens (output : String) : List Scanned → Session
  | [] => done output
  | .error e :: _ => syntaxError output e
  | .ok token :: rest =>
    if token.symbol = .endOfFile then done output
    else listTokens (output ++ token.describe ++ "\n") rest

def view (levels : Nat) (text : String) : View → Session
  | .tokens => listTokens "" (Token.scanScript text)
  | view =>
    match Block.parseScript text levels with
    | .error e => syntaxError "" e
    | .ok block =>
      match view with
      | .canonical => done block.print
      | .outline => done (block.outline.render "" ++ "\n")
      | _ => done ""

/-! ## Lines of input -/

def splitLines (bytes : ByteArray) : List ByteArray :=
  let (lines, last) := bytes.toList.foldl (fun (lines, line) byte =>
    if byte = 10 then ((line.push byte) :: lines, ByteArray.empty)
    else (lines, line.push byte)) (([] : List ByteArray), ByteArray.empty)
  (if last.isEmpty then lines else last :: lines).reverse

def dropLineEnd (line : String) : String :=
  match line.toList.reverse with
  | '\n' :: '\r' :: cs => String.ofList cs.reverse
  | '\n' :: cs => String.ofList cs.reverse
  | _ => line

/-- Answers the lines of standard input, behind what was written so far. -/
def interact (levels : Nat) (output errors pending : String) : List ByteArray → Session
  | [] => ⟨0, output ++ Prompt.mark pending ++ "\n", errors⟩
  | bytes :: rest =>
    let output := output ++ Prompt.mark pending
    match String.fromUTF8? bytes with
    | none => ⟨3, output, errors ++ readFailureText .invalidText⟩
    | some line =>
      let reply := Prompt.step levels pending (dropLineEnd line)
      interact levels (output ++ reply.output) (errors ++ reply.errors) reply.pending rest

/-! ## Whole sessions -/

def load (read : String → Except ReadFailure ByteArray) : Source → Except ReadFailure String
  | .code text => .ok text
  | .file name =>
    match read name with
    | .error e => .error e
    | .ok bytes =>
      match String.fromUTF8? bytes with
      | some text => .ok text
      | none => .error .invalidText

/-- Runs a command, given how files are read and what standard input holds. -/
def run (read : String → Except ReadFailure ByteArray) (input : ByteArray) (levels : Nat) :
    Command → Session
  | .help => ⟨0, "", helpText ++ "\n"⟩
  | .version => ⟨0, "", versionText ++ "\n"⟩
  | .interactive => interact levels "" "" "" (splitLines input)
  | .view source form =>
    match load read source with
    | .error e => readFailure "" e
    | .ok text => view levels text form

/-- A session from its arguments to its end. -/
def start (read : String → Except ReadFailure ByteArray) (input : ByteArray)
    (arguments : List String) : Session :=
  match Invocation.ofArguments arguments with
  | .error e => usageError e
  | .ok invocation => run read input invocation.levels invocation.command

end Session

end LuaLang
