/-!
# The functions of the base library

Their names only; what they do is in `LuaLang.Library.Base`.
-/

namespace LuaLang

inductive Builtin where
  | assert | error | getmetatable | setmetatable | ipairs | next | pairs | pcall | print | rawequal
  | rawget | rawset | select | tonumber | tostring | type | unpack
  /-- The step of a traversal over positions, which `ipairs` gives. -/
  | ipairsStep
deriving DecidableEq, Repr

namespace Builtin

/-- The name of a function, in the globals and on the call stack. -/
def name : Builtin → String
  | assert => "assert"
  | error => "error"
  | getmetatable => "getmetatable"
  | setmetatable => "setmetatable"
  | ipairs => "ipairs"
  | next => "next"
  | pairs => "pairs"
  | pcall => "pcall"
  | print => "print"
  | rawequal => "rawequal"
  | rawget => "rawget"
  | rawset => "rawset"
  | select => "select"
  | tonumber => "tonumber"
  | tostring => "tostring"
  | type => "type"
  | unpack => "unpack"
  | ipairsStep => "ipairs_step"

def globals : List Builtin :=
  [assert, error, getmetatable, setmetatable, ipairs, next, pairs, pcall, print, rawequal, rawget,
    rawset, select, tonumber, tostring, type, unpack]

end Builtin

end LuaLang
