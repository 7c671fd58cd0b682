import LuaLang.Number.Numeral
import LuaLang.Number.Digits

/-!
# Values

The values of the language. Tables and functions are named by where they live, so two of them are
the same value exactly if they are the same object.

## Main definitions

* `Value`, and `Kind`, what sort of thing a value is.
* `Value.rawEqual`: equality without metamethods.
* `Value.keyForm`: the form under which a value is found as a key, the same for raw equal values.
* `Value.toNumber?`, `Value.toText?`: what operators make of a value.
* `Value.display`: the text of any value.
-/

namespace LuaLang

structure TableId where
  index : Nat
deriving DecidableEq, Hashable, Repr, Inhabited

structure FunctionId where
  index : Nat
deriving DecidableEq, Hashable, Repr, Inhabited

inductive Kind where
  | nil | boolean | number | string | table | function
deriving DecidableEq, Repr

inductive Value where
  | nil
  | boolean (b : Bool)
  | number (x : Number)
  | string (s : String)
  | table (id : TableId)
  | function (id : FunctionId)
deriving DecidableEq, Hashable, Repr, Inhabited

namespace Kind

def name : Kind → String
  | nil => "nil"
  | boolean => "boolean"
  | number => "number"
  | string => "string"
  | table => "table"
  | function => "function"

def all : List Kind := [nil, boolean, number, string, table, function]

def ofName? (name : String) : Option Kind :=
  all.find? (·.name = name)

end Kind

/-- A name in the form of a memory address, of twelve digits. -/
def addressText (address : Nat) : String :=
  "0x" ++ String.ofList (Nat.toDigits 16 address)

/-- Tables have the even multiples of 32 above a fixed start. -/
def TableId.address (id : TableId) : String :=
  addressText (0x560000000000 + 64 * id.index)

/-- Functions have the odd multiples of 32 above the same start. -/
def FunctionId.address (id : FunctionId) : String :=
  addressText (0x560000000020 + 64 * id.index)

namespace Value

def kind : Value → Kind
  | nil => .nil
  | boolean _ => .boolean
  | number _ => .number
  | string _ => .string
  | table _ => .table
  | function _ => .function

def isNil : Value → Bool
  | nil => true
  | _ => false

/-- Everything is true but nil and false. -/
def truth : Value → Bool
  | nil => false
  | boolean b => b
  | _ => true

def ofOption : Option Value → Value
  | some v => v
  | none => nil

def ofNat (n : Nat) : Value :=
  number (.ofNat n)

def ofTable? (id : Option TableId) : Value :=
  ofOption (id.map table)

/-- A number is worth itself, a string what it reads as. -/
def toNumber? : Value → Option Number
  | number x => some x
  | string s => Number.ofText? s
  | _ => none

/-- The text that a string or a number contributes to a concatenation. -/
def toText? : Value → Option String
  | string s => some s
  | number x => some x.toText
  | _ => none

def number? : Value → Option Number
  | number x => some x
  | _ => none

def string? : Value → Option String
  | string s => some s
  | _ => none

def table? : Value → Option TableId
  | table id => some id
  | _ => none

/-- The text of a value, without metamethods. -/
def display : Value → String
  | nil => "nil"
  | boolean b => if b then "true" else "false"
  | number x => x.toText
  | string s => s
  | table id => "table: " ++ id.address
  | function id => "function: " ++ id.address

/-- Equality without metamethods. The two zeros are equal, and NaN is not equal to itself. -/
def rawEqual : Value → Value → Bool
  | number x, number y => x.equals y
  | v, w => v = w

/-- The form under which a value is found as a key: one zero stands for both. -/
def keyForm : Value → Value
  | number x => number (if x = .zero true then .zero false else x)
  | v => v

/-- Raw equal values are those with one form as keys, NaN apart. -/
theorem rawEqual_iff (v w : Value) :
    v.rawEqual w = true ↔ v.keyForm = w.keyForm ∧ v ≠ number .nan := by
  cases v with
  | number x =>
    cases w with
    | number y =>
      have distinct : Number.zero true ≠ Number.zero false := by simp [Number.zero]
      simp only [rawEqual, keyForm, Number.equals_iff, Value.number.injEq, ne_eq]
      grind
    | _ => simp [rawEqual, keyForm]
  | _ => cases w <;> simp [rawEqual, keyForm]

end Value

end LuaLang
