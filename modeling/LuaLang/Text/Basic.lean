/-!
# Texts

White space, lines that are moved to the right, and templates.

A line ends at a line feed; a carriage return before that belongs to the line end. A template holds
places such as `{0}`, which stand for arguments counted from zero. A place that names no argument is
left as it is.

## Main definitions

* `Text.isBlank`: the characters that Unicode counts as white space.
* `Text.indent`: a tab in front of each line.
* `Text.fill`: a template with its arguments.
-/

namespace LuaLang.Text

/-! ## White space -/

/-- The ranges of code points of white space, in ascending order. -/
def blankRanges : List (Nat × Nat) :=
  [(0x9, 0xd), (0x20, 0x20), (0x85, 0x85), (0xa0, 0xa0), (0x1680, 0x1680), (0x2000, 0x200a),
    (0x2028, 0x2029), (0x202f, 0x202f), (0x205f, 0x205f), (0x3000, 0x3000)]

def isBlank (c : Char) : Bool :=
  blankRanges.any fun (first, last) => first ≤ c.toNat && c.toNat ≤ last

/-! ## Lines -/

/-- Writes the characters behind `out` with a tab in front of each line, and ends the last line.
`fresh` says that a line is about to start. -/
def indentChars : List Char → Bool → String → String
  | [], fresh, out => if fresh then out else out.push '\n'
  | '\r' :: '\n' :: cs, fresh, out =>
    indentChars cs true ((if fresh then out.push '\t' else out).push '\n')
  | c :: cs, fresh, out =>
    let out := if fresh then out.push '\t' else out
    indentChars cs (c = '\n') (out.push c)

/-- The text with a tab in front of each line. -/
def indent (text : String) : String :=
  indentChars text.toList true ""

/-! ## Templates -/

/-- One more digit, as long as the value still fits a word. -/
def appendIndexDigit (n : Nat) (c : Char) : Option Nat :=
  if c.isDigit ∧ 10 * n + (c.toNat - '0'.toNat) < 0x10000000000000000 then
    some (10 * n + (c.toNat - '0'.toNat))
  else none

/-- Reads a count that fits a word of 64 bits: an optional plus sign, then digits. -/
def readCount? (cs : List Char) : Option Nat :=
  let digits := match cs with
    | '+' :: rest => rest
    | _ => cs
  if digits.isEmpty then none else digits.foldlM appendIndexDigit 0

/-- What stands in the place that opens before `cs`: the argument, and the text after the place. -/
def place? (arguments : List String) (cs : List Char) : Option (String × List Char) := do
  let (name, rest) := cs.span (· != '\x7d')
  let rest ← rest.tail?
  let argument ← arguments[← readCount? name]?
  pure (argument, rest)

/-- Fills the places of a template, taking at most `fuel` characters or places. -/
def fillChars (arguments : List String) : Nat → List Char → String → String
  | fuel + 1, c :: cs, filled =>
    if c = '\x7b' then
      match place? arguments cs with
      | some (argument, rest) => fillChars arguments fuel rest (filled ++ argument)
      | none => fillChars arguments fuel cs (filled.push c)
    else fillChars arguments fuel cs (filled.push c)
  | _, _, filled => filled

/-- Fills the places of a template with the arguments that they name. -/
def fill (template : String) (arguments : List String) : String :=
  fillChars arguments template.length template.toList ""

end LuaLang.Text
