import LuaLang.Machine.Basic
import LuaLang.Text.Quoted

/-!
# Outlines

Values and the machine written out for whoever looks for a mistake. A table is written with all its
entries, and where a table is reached again from within itself, that is said instead.
-/

namespace LuaLang.Machine

variable {H : Host}

/-- Writes a value out, following tables `levels` deep, but none of those that are open already. -/
def outlineWithin (m : Machine H) : Nat → List TableId → Value → String
  | 0, _, _ => ""
  | levels + 1, opened, value =>
    match value with
    | .string s => Text.quote s
    | .function id => value.display ++ " (" ++ m.functionName id ++ ")"
    | .table id =>
      if id ∈ opened then "\x7b<table is being accessed>\x7d"
      else
        let write := m.outlineWithin levels (id :: opened)
        let entries := (m.table id).pairs.map fun (key, value) =>
          "[" ++ write key ++ "] = " ++ write value
        "\x7b" ++ ", ".intercalate entries ++ "\x7d"
    | value => value.display

/-- Writes a value out. No path through different tables is longer than the number of tables. -/
def outline (m : Machine H) (value : Value) : String :=
  m.outlineWithin (m.tables.size + 1) [] value

end LuaLang.Machine

namespace LuaLang

def Frame.outline (f : Frame) : String :=
  "StackFrame \x7b kind: " ++ f.kind.label ++ ", name: " ++ Text.quote f.name ++ ", source: " ++
    Text.quote f.source ++ ", line: " ++ toString f.line ++ " \x7d"

/-- What the machine looks like from outside, with the oldest frame first. -/
def Machine.summary (globals : TableId) (populated : Nat) (stack : List Frame) (maxDepth : Nat) :
    String :=
  "Context \x7b globals: " ++ globals.address ++
    ", cache: CallCache \x7b populated: " ++ toString populated ++
    " \x7d, stack: [" ++ ", ".intercalate (stack.reverse.map Frame.outline) ++
    "], options: ContextOptions \x7b max_depth: " ++ toString maxDepth ++ " \x7d \x7d"

end LuaLang
