import LuaLang.Value.Basic
import Std.Data.HashMap

/-!
# Tables

A table maps keys to values. Its entries stay in the order in which their keys came, which is the
order of a traversal. Taking a value away leaves the entry in its place, with nil for a value, so a
traversal can go on from a key that was cleared on the way. Only a new key makes the table drop such
entries, once they are at least eight and at least half of all.

## Main definitions

* `Table.get`, `Table.set`: raw reading and writing.
* `Table.next`, `Table.pairs`: traversal.
* `Table.length`: a border, that is, a present position whose successor is absent.
* `Table.ofList`: the values of a list at the positions 1, 2, ….
-/

namespace LuaLang

inductive TableError where
  | nilKey
  | nanKey
  /-- A traversal cannot go on from a key that the table does not have. -/
  | unknownKey
deriving DecidableEq, Repr

def TableError.message : TableError → String
  | nilKey => "table index is nil"
  | nanKey => "table index is NaN"
  | unknownKey => "invalid key to 'next'"

structure Table where
  /-- The keys with their values, in order of arrival; nil marks a value that was taken away. -/
  entries : Array (Value × Value) := #[]
  /-- Where the entry of a key is, by the form of the key. -/
  places : Std.HashMap Value Nat := {}
  /-- How many entries have no value. -/
  removed : Nat := 0
  metatable : Option TableId := none

namespace Table

def empty : Table := {}

instance : Inhabited Table := ⟨empty⟩

/-! ## Reading -/

def place? (t : Table) (key : Value) : Option Nat :=
  t.places[key.keyForm]?

/-- The value in a place, nil where there is no place. -/
def valueAt (t : Table) (place : Nat) : Value :=
  match t.entries[place]? with
  | some entry => entry.2
  | none => .nil

def get (t : Table) (key : Value) : Value :=
  match t.place? key with
  | some place => t.valueAt place
  | none => .nil

@[simp]
theorem get_empty (key : Value) : empty.get key = .nil := by
  simp [get, place?, empty]

def contains (t : Table) (key : Value) : Bool :=
  !(t.get key).isNil

def isEmpty (t : Table) : Bool :=
  t.entries.size = t.removed

/-! ## Writing -/

def push (t : Table) (key value : Value) : Table :=
  let place := t.entries.size
  { t with
    entries := t.entries.push (key, value)
    places := t.places.insert key.keyForm place }

/-- The table that has some entries, and nothing else but the metatable of `t`. -/
def rebuild (t : Table) (entries : List (Value × Value)) : Table :=
  entries.foldl (fun t entry => t.push entry.1 entry.2) { metatable := t.metatable }

/-- The entries that have a value. -/
def pairs (t : Table) : List (Value × Value) :=
  t.entries.toList.filter fun entry => !entry.2.isNil

/-- Whether entries without a value are worth dropping. -/
def isSparse (t : Table) : Bool :=
  8 ≤ t.removed && t.entries.size ≤ 2 * t.removed

/-- Drops the entries without a value, if that is worth it. -/
def compact (t : Table) : Table :=
  if t.isSparse then t.rebuild t.pairs else t

/-- How many entries have no value after one with the value `old` has got the value `new`. -/
def removedAfter (removed : Nat) (old new : Value) : Nat :=
  match old.isNil, new.isNil with
  | false, true => removed + 1
  | true, false => removed - 1
  | _, _ => removed

def replace (t : Table) (place : Nat) (value : Value) : Table :=
  let removed := removedAfter t.removed (t.valueAt place) value
  { t with
    entries := t.entries.modify place fun entry => (entry.1, value)
    removed }

/-- Puts a value under a key that is neither nil nor NaN; nil takes the value away. -/
def put (t : Table) (key value : Value) : Table :=
  match t.place? key with
  | some place => t.replace place value
  | none => if value.isNil then t else t.compact.push key value

/-- What is wrong with a key, if something is. -/
def keyFault? : Value → Option TableError
  | .nil => some .nilKey
  | .number x => if x.isNaN then some .nanKey else none
  | _ => none

/-- Everything can be a key but nil and NaN. -/
theorem keyFault?_eq_none_iff (key : Value) :
    keyFault? key = none ↔ key ≠ .nil ∧ key ≠ .number .nan := by
  cases key with
  | number x => cases x <;> simp [keyFault?, Number.isNaN]
  | _ => simp [keyFault?]

/-- Puts a value under a key; nil takes the value away. -/
def set (t : Table) (key value : Value) : Except TableError Table :=
  match keyFault? key with
  | some e => .error e
  | none => .ok (t.put key value)

/-- The values of a list at the positions from the given one on, leaving nil out. Positions are
words of 32 bits, and zero comes after the last one. -/
def pushFrom (t : Table) (position : UInt32) : List Value → Table
  | [] => t
  | value :: rest =>
    (if value.isNil then t else t.push (.ofNat position.toNat) value).pushFrom (position + 1) rest

/-- The values of a list at the positions 1, 2, …, leaving nil out. -/
def ofList (values : List Value) : Table :=
  empty.pushFrom 1 values

/-! ## Traversal -/

/-- The first entry with a value from a place on. -/
def nextFrom (t : Table) (place : Nat) : Option (Value × Value) :=
  (t.entries.toList.drop place).find? fun entry => !entry.2.isNil

/-- The entry after a key, or the first one after nil; none at the end. -/
def next (t : Table) (key : Value) : Except TableError (Option (Value × Value)) :=
  if key.isNil then .ok (t.nextFrom 0)
  else
    match t.place? key with
    | some place => .ok (t.nextFrom (place + 1))
    | none => .error .unknownKey

/-! ## Length -/

def present (t : Table) (position : Nat) : Bool :=
  t.contains (.ofNat position)

/-- A border between a present position and an absent one above it, by bisection. -/
def bisect (t : Table) (low high : Nat) : Nat :=
  if low + 1 < high then
    let middle := low + (high - low) / 2
    if t.present middle then t.bisect middle high else t.bisect low middle
  else low
termination_by high - low

/-- A border above the present position `low`, which is doubled until an absent position is found,
but not more than `doublings` times after the first. -/
def search (t : Table) (low : Nat) : Nat → Nat
  | 0 => if t.present (2 * low) then 2 * low else t.bisect low (2 * low)
  | doublings + 1 =>
    if t.present (2 * low) then t.search (2 * low) doublings else t.bisect low (2 * low)

/-- A border: zero if the first position is absent, otherwise a present position whose successor is
absent. Positions beyond `2 ^ 63` are not looked at. -/
def length (t : Table) : Nat :=
  if t.present 1 then t.search 1 62 else 0

end Table

end LuaLang
