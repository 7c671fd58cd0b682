/-!
# Call stack frames

One frame stands for one call that is under way: where it is in which source, and how reports of
errors mention it.
-/

namespace LuaLang

inductive FrameKind where
  /-- A function of the language. -/
  | lua
  /-- The top level of a source file. -/
  | chunk
  /-- A function that the host provides. -/
  | native
deriving DecidableEq, Repr

structure Frame where
  kind : FrameKind
  name : String
  source : String
  line : Nat
deriving DecidableEq, Repr

def FrameKind.label : FrameKind → String
  | lua => "Lua"
  | chunk => "Chunk"
  | native => "Native"

namespace Frame

def lua (name source : String) (line : Nat) : Frame :=
  ⟨.lua, name, source, line⟩

def chunk (source : String) (line : Nat) : Frame :=
  ⟨.chunk, "main chunk", source, line⟩

def native (name : String) : Frame :=
  ⟨.native, name, "[native]", 0⟩

def place (f : Frame) : String :=
  f.source ++ ":" ++ toString f.line ++ ":"

/-- What stands in front of the message of an error in this frame. Native code has no position. -/
def position? (f : Frame) : Option String :=
  match f.kind with
  | .native => none
  | _ => some f.place

def describe (f : Frame) : String :=
  match f.kind with
  | .lua => f.place ++ " in function '" ++ f.name ++ "'"
  | .chunk => f.place ++ " in main chunk"
  | .native => "[native]: in function '" ++ f.name ++ "'"

end Frame

end LuaLang
