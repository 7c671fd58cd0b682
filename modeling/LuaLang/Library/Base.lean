import LuaLang.Operation.Operator
import LuaLang.Text.Basic

/-!
# The base library

The functions that programs find in their globals. Each takes the list of its arguments and is a
routine; an argument that it cannot take is a fault. Words wrap around when they overflow, as in a
build without overflow checks.

## Main definitions

* `Library.body`: what each function does.
-/

namespace LuaLang.Library

open Routine

variable {H : Host} {α : Type}

/-! ## Arguments -/

def badArgument (function : Builtin) (position : Nat) (problem : ArgumentFault) : Routine H α :=
  fault (.badArgument (position + 1) (nameInMessages function) problem)
where
  /-- The step of a traversal is blamed on the function that gave it. -/
  nameInMessages : Builtin → String
    | .ipairsStep => Builtin.ipairs.name
    | function => function.name

def mismatch (function : Builtin) (arguments : List Value) (position : Nat) (expected : Kind) :
    Routine H α :=
  badArgument function position (.mismatch expected (arguments[position]?.map Value.kind))

/-- The argument at a position, which may be nil but has to be there. -/
def anyArgument (function : Builtin) (arguments : List Value) (position : Nat) :
    Routine H Value :=
  match arguments[position]? with
  | some value => return value
  | none => badArgument function position .missing

def tableArgument (function : Builtin) (arguments : List Value) (position : Nat) :
    Routine H TableId :=
  match Value.nth arguments position with
  | .table id => return id
  | _ => mismatch function arguments position .table

/-- Strings that read as numbers count as numbers. -/
def numberArgument (function : Builtin) (arguments : List Value) (position : Nat) :
    Routine H Number :=
  match (Value.nth arguments position).toNumber? with
  | some x => return x
  | none => mismatch function arguments position .number

def optionalNumber (function : Builtin) (arguments : List Value) (position : Nat)
    (default : Number) : Routine H Number :=
  if (Value.nth arguments position).isNil then return default
  else numberArgument function arguments position

/-! ## Errors -/

def assert (arguments : List Value) : Routine H (List Value) := do
  if (← anyArgument .assert arguments 0).truth then return arguments
  else
    let message := Value.nth arguments 1
    raise (if message.isNil then .string "assertion failed!" else message) 0

/-- A level as a count, at most what a word of 64 bits holds. -/
def levelOf (level : Number) : Nat :=
  (level.truncate 0 0xffffffffffffffff).toNat

def error (arguments : List Value) : Routine H (List Value) := do
  let level ← optionalNumber .error arguments 1 (.ofNat 1)
  raise (Value.first arguments) (levelOf level)

/-- Calls its first argument with the others, and gives true and the results, or false and the value
of the error. Frames that an error has left behind are dropped. -/
def pcall (arguments : List Value) : Routine H (List Value) := do
  let function ← anyArgument .pcall arguments 0
  let before ← depth
  match ← (callByCount function (arguments.drop 1)).attempt with
  | .ok results => return .boolean true :: results
  | .error e =>
    truncate before
    return [.boolean false, e.value]

/-! ## Metatables -/

/-- The key under which a metatable says what is to be shown in its place. -/
def protection : Value := .string "__metatable"

def getmetatable (arguments : List Value) : Routine H (List Value) := do
  match ← metatableOf (← anyArgument .getmetatable arguments 0) with
  | none => return [.nil]
  | some id =>
    let shown := (← table id).get protection
    return [if shown.isNil then .table id else shown]

def isProtected (id : TableId) : Routine H Bool := do
  match (← table id).metatable with
  | some metatable => return (← table metatable).contains protection
  | none => return false

def metatableArgument (arguments : List Value) : Routine H (Option TableId) :=
  match Value.nth arguments 1 with
  | .nil => return none
  | .table id => return some id
  | _ => badArgument .setmetatable 1 .notMetatable

def setmetatable (arguments : List Value) : Routine H (List Value) := do
  let id ← tableArgument .setmetatable arguments 0
  let metatable ← metatableArgument arguments
  if ← isProtected id then fault .protectedMetatable
  else
    setMetatable id metatable
    return [.table id]

/-! ## Traversal -/

def next (arguments : List Value) : Routine H (List Value) := do
  let id ← tableArgument .next arguments 0
  match (← table id).next (Value.nth arguments 1) with
  | .ok (some (key, value)) => return [key, value]
  | .ok none => return [.nil]
  | .error e => fault (.badKey e)

def pairs (arguments : List Value) : Routine H (List Value) := do
  let id ← tableArgument .pairs arguments 0
  return [.function (← addFunction (.ofBuiltin .next)), .table id, .nil]

/-- The position after a given one, with its value; nil at the end. -/
def ipairsStep (arguments : List Value) : Routine H (List Value) := do
  let id ← tableArgument .ipairsStep arguments 0
  let position := (← numberArgument .ipairsStep arguments 1) + .ofNat 1
  let value := (← table id).get (.number position)
  return if value.isNil then [.nil] else [.number position, value]

def ipairs (arguments : List Value) : Routine H (List Value) := do
  let id ← tableArgument .ipairs arguments 0
  return [.function (← addFunction (.ofBuiltin .ipairsStep)), .table id, .ofNat 0]

/-! ## Raw access -/

def rawequal (arguments : List Value) : Routine H (List Value) := do
  let left ← anyArgument .rawequal arguments 0
  let right ← anyArgument .rawequal arguments 1
  return [.boolean (left.rawEqual right)]

def rawget (arguments : List Value) : Routine H (List Value) := do
  let id ← tableArgument .rawget arguments 0
  return [(← table id).get (Value.nth arguments 1)]

def rawset (arguments : List Value) : Routine H (List Value) := do
  let id ← tableArgument .rawset arguments 0
  setEntry id (Value.nth arguments 1) (Value.nth arguments 2)
  return [.table id]

/-! ## Lists of values -/

/-- A position as a signed word of 64 bits, the nearest one if it is out of their range. -/
def indexOf (position : Number) : Int64 :=
  .ofInt (position.truncate (-0x8000000000000000) 0x7fffffffffffffff)

/-- The arguments from a position on, counted from the end if negative; or how many there are. The
lowest word is its own negative, so it is not out of range, and no argument is left after it. -/
def select (arguments : List Value) : Routine H (List Value) := do
  let rest := arguments.drop 1
  if Value.nth arguments 0 = .string "#" then return [.ofNat rest.length]
  else
    let index := indexOf (← numberArgument .select arguments 0)
    let count := Int64.ofNat rest.length
    if 0 < index then return rest.drop (index - 1).toUInt64.toNat
    else if index < 0 ∧ -index ≤ count then return rest.drop (count + index).toUInt64.toNat
    else badArgument .select 0 .indexOutOfRange

/-- How many values a call may give. -/
def maxResults : Nat := 8000

/-- The numbers from `start` to `last` in steps of one, if that takes less than `rounds` steps. -/
def countUpWithin (last : Number) : (rounds : Nat) → (start : Number) → Option (List Number)
  | 0, _ => none
  | rounds + 1, start => do
    if start.lessEqual last then
      let rest ← countUpWithin last rounds (start + .ofNat 1)
      return start :: rest
    else return []

/-- The numbers from `start` to `last` in steps of one. There are fewer numbers than rounds, so if
they are not enough the steps never lead beyond `last`, as where adding one is lost in rounding. -/
def countUp (start last : Number) : Option (List Number) :=
  countUpWithin last 0x10000000000000000 start

/-- The values of a table from one position to another. -/
def unpack (arguments : List Value) : Routine H (List Value) := do
  let id ← tableArgument .unpack arguments 0
  let start ← optionalNumber .unpack arguments 1 (.ofNat 1)
  let t ← table id
  let last ← optionalNumber .unpack arguments 2 (.ofNat t.length)
  if (Number.ofNat maxResults).lessEqual (last - start) then fault .tooManyResults
  else
    match countUp start last with
    | some positions => return positions.map fun position => t.get (.number position)
    | none => endless

/-! ## Conversion -/

/-- Reads digits of a base among blanks, with an optional minus sign. -/
def readInBase? (base : Nat) (text : String) : Option Number :=
  match Number.trimBoth Text.isBlank text.toList with
  | '-' :: digits => (Number.readDigits? base digits).map (- ·)
  | digits => Number.readDigits? base digits

def numberOrNil (x : Option Number) : Value :=
  .ofOption (x.map .number)

def tonumber (arguments : List Value) : Routine H (List Value) := do
  let value ← anyArgument .tonumber arguments 0
  let base ← optionalNumber .tonumber arguments 1 (.ofNat 10)
  if base.equals (.ofNat 10) then return [numberOrNil value.toNumber?]
  else if !((Number.ofNat 2).lessEqual base && base.lessEqual (.ofNat 36)) then
    badArgument .tonumber 1 .baseOutOfRange
  else
    match value.toText? with
    | some text => return [numberOrNil (readInBase? (base.truncate 0 36).toNat text)]
    | none => mismatch .tonumber arguments 0 .string

def tostring (arguments : List Value) : Routine H (List Value) := do
  return [← toText (← anyArgument .tostring arguments 0)]

def type (arguments : List Value) : Routine H (List Value) := do
  return [.string (← anyArgument .type arguments 0).kind.name]

/-- Prints its arguments in a line, with tabs between them. -/
def print (arguments : List Value) : Routine H (List Value) := do
  let texts ← arguments.mapM toText
  Routine.print ("\t".intercalate (texts.map Value.display) ++ "\n")
  return []

/-! ## The library as a whole -/

def body : Builtin → List Value → Routine H (List Value)
  | .assert => assert
  | .error => error
  | .getmetatable => getmetatable
  | .setmetatable => setmetatable
  | .ipairs => ipairs
  | .next => next
  | .pairs => pairs
  | .pcall => pcall
  | .print => print
  | .rawequal => rawequal
  | .rawget => rawget
  | .rawset => rawset
  | .select => select
  | .tonumber => tonumber
  | .tostring => tostring
  | .type => type
  | .unpack => unpack
  | .ipairsStep => ipairsStep

end LuaLang.Library

namespace LuaLang

/-- The bodies of all functions, given those of the host's procedures. -/
def Bodies.ofHost {H : Host}
    (procedures : H.Procedure → List Value → Routine H (List Value)) : Bodies H
  | .builtin function => Library.body function
  | .procedure procedure => procedures procedure

end LuaLang
