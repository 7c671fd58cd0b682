import LuaLang.CommandLine.Session

/-!
# The program

Reads files and lines for a session, and writes what it says.
-/

namespace LuaLang.Program

def readFile (name : String) : IO (Except ReadFailure ByteArray) := do
  try
    return .ok (← IO.FS.readBinFile name)
  catch
    | .noFileOrDirectory .. => return .error .notFound
    | .inappropriateType .. => return .error .isDirectory
    | e => return .error (.other (toString e))

def finish (session : Session) : IO UInt32 := do
  IO.print session.output
  IO.eprint session.errors
  return session.code.toUInt32

/-- Answers lines until there are none left. -/
partial def interact (levels : Nat) (pending : String) : IO UInt32 := do
  IO.print (Prompt.mark pending)
  (← IO.getStdout).flush
  let line ← try some <$> (← IO.getStdin).getLine catch _ => pure none
  match line with
  | none => finish (.readFailure "" .invalidText)
  | some "" => finish (.done "\n")
  | some line =>
    let reply := Prompt.step levels pending (Session.dropLineEnd line)
    IO.print reply.output
    IO.eprint reply.errors
    interact levels reply.pending

def run (invocation : Invocation) : IO UInt32 := do
  match invocation.command with
  | .interactive => interact invocation.levels ""
  | .view (.file name) form =>
    let bytes ← readFile name
    finish (.run (fun _ => bytes) .empty invocation.levels (.view (.file name) form))
  | command => finish (.run (fun _ => .error .notFound) .empty invocation.levels command)

end LuaLang.Program

def main (arguments : List String) : IO UInt32 :=
  match LuaLang.Invocation.ofArguments arguments with
  | .error e => LuaLang.Program.finish (.usageError e)
  | .ok invocation => LuaLang.Program.run invocation
