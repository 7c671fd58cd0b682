import LuaLang.Operation.Call

/-!
# Indexing

Reading and writing `base[key]`. A table answers by itself as long as it holds the key; otherwise
its metamethod decides, and so it does for everything that is no table. A metamethod that is a
function is called; any other one takes the place of the base.

## Main definitions

* `Routine.index`: reading.
* `Routine.newIndex`: writing.
-/

namespace LuaLang.Routine

variable {H : Host}

/-- The value under a key that a base itself holds. -/
def ownEntry (base key : Value) : Routine H (Option Value) :=
  match base with
  | .table id => do
    let value := (← table id).get key
    return if value.isNil then none else some value
  | _ => return none

/-- Reads `base[key]`, looking at no more than `links` values on the way. -/
def indexWithin : Nat → Value → Value → Routine H Value
  | 0, _, _ => fault .readLoop
  | links + 1, base, key => do
    match ← ownEntry base key with
    | some value => return value
    | none =>
      match ← metamethod base .index with
      | some (.function id) => callHandler (.function id) base key
      | some handler => indexWithin links handler key
      | none =>
        match base with
        | .table _ => return .nil
        | base => fault (.unsupported .index base.kind)

def index (base key : Value) : Routine H Value :=
  indexWithin maxLinks base key

/-- Reads `base[key]` through the slot for it. -/
def indexPrepared (base key : Value) : Routine H Value := do
  prepare .index
  index base key

/-- The handler that decides about writing `base[key]`, none if the base itself holds the key. -/
def writeHandler (base key : Value) : Routine H (Option Value) := do
  match ← ownEntry base key with
  | some _ => return none
  | none => metamethod base .newIndex

/-- Writes `base[key]`, looking at no more than `links` values on the way. -/
def newIndexWithin : Nat → Value → Value → Value → Routine H Unit
  | 0, _, _, _ => fault .writeLoop
  | links + 1, base, key, value => do
    match ← writeHandler base key with
    | some (.function id) =>
      let _ ← callPrepared 3 (.function id) [base, key, value]
    | some handler => newIndexWithin links handler key value
    | none =>
      match base with
      | .table id => setEntry id key value
      | base => fault (.unsupported .index base.kind)

def newIndex (base key value : Value) : Routine H Unit :=
  newIndexWithin maxLinks base key value

/-- Writes `base[key] = value` through the slot for it. -/
def newIndexPrepared (base key value : Value) : Routine H Unit := do
  prepare .newIndex
  newIndex base key value

end LuaLang.Routine
