import Mathlib
import LuaLang.Library.Base
import LuaLang.Proofs.Machine.Dispatch

/-!
# What operations are made of

Operators, calls of all sorts and library functions are made of the same few things: results and
failures, requests that leave the call stack alone, and calls of functions, one after the other. The
only one that does more is the protected call, which catches errors. So what holds of these things
and of sequences holds of all operations.

## Main definitions

* `Routine.MadeOf`: what is made of these things, with requests that are allowed.
* `Routine.Plain`, `Routine.Modest`: with requests that leave the call stack alone, and with those
  of them that leave the metatables of tables alone too.
* `Routine.OfOperations`: a property that all operations have.

## Main statements

* `Routine.ofOperations_of_plain`: what holds of everything plain holds of all operations.
* `Routine.ofOperations_of_modest`: all operations are modest, but for one that changes metatables.
-/

namespace LuaLang

variable {H : Host} {α β : Type}

/-- The requests that leave the call stack as it is and do not ask how many slots are filled. -/
def Request.IsQuiet : Request H → Prop
  | .enter _ | .leave | .setLine _ | .truncate _ | .populated => False
  | _ => True

/-- The quiet requests that leave the metatables of tables as they are. -/
def Request.IsModest : Request H → Prop
  | .setMetatable .. => False
  | request => request.IsQuiet

theorem Request.IsModest.isQuiet {request : Request H} (h : request.IsModest) :
    request.IsQuiet := by
  cases request <;> first | exact h | exact h.elim

namespace Routine

/-- What is made of results, failures, loops without an end, calls of functions and allowed
requests. -/
inductive MadeOf (allowed : Request H → Prop) : {α : Type} → Routine H α → Prop where
  | pure {α : Type} (result : α) : MadeOf allowed (pure result)
  | fail {α : Type} (error : RuntimeError) : MadeOf allowed (fail error : Routine H α)
  | endless {α : Type} : MadeOf allowed (endless : Routine H α)
  | request (request : Request H) (h : allowed request) : MadeOf allowed (Routine.request request)
  | bind {α β : Type} {routine : Routine H α} {next : α → Routine H β}
    (h : MadeOf allowed routine) (hnext : ∀ result, MadeOf allowed (next result)) :
    MadeOf allowed (routine >>= next)
  | callFunction (function : FunctionId) (arguments : List Value) :
    MadeOf allowed (callFunction function arguments)

theorem MadeOf.mono {allowed allowed' : Request H → Prop} {routine : Routine H α}
    (h : MadeOf allowed routine) (hallowed : ∀ request, allowed request → allowed' request) :
    MadeOf allowed' routine := by
  induction h with
  | pure result => exact .pure result
  | fail error => exact .fail error
  | endless => exact .endless
  | request request h => exact .request request (hallowed request h)
  | bind _ _ ih ihnext => exact .bind ih ihnext
  | callFunction function arguments => exact .callFunction function arguments

/-- What is made of results, failures, loops without an end, quiet requests and calls of
functions. -/
abbrev Plain (routine : Routine H α) : Prop :=
  MadeOf Request.IsQuiet routine

/-- What is plain and leaves the metatables of tables as they are, apart from the functions that it
calls. -/
abbrev Modest (routine : Routine H α) : Prop :=
  MadeOf Request.IsModest routine

theorem Modest.plain {routine : Routine H α} (h : Modest routine) : Plain routine :=
  h.mono fun _ => Request.IsModest.isQuiet

theorem Plain.pure (result : α) : Plain (pure result : Routine H α) :=
  MadeOf.pure result

attribute [grind ←] MadeOf.pure MadeOf.fail MadeOf.endless MadeOf.bind MadeOf.callFunction

/-! ## Requests -/

@[grind ←]
theorem modest_table (id : TableId) : Modest (table id : Routine H Table) :=
  .request _ trivial

@[grind ←]
theorem modest_sharedMetatable (kind : Kind) :
    Modest (sharedMetatable kind : Routine H (Option TableId)) :=
  .request _ trivial

@[grind ←]
theorem modest_addFunction (function : Function H) : Modest (addFunction function) :=
  .request _ trivial

@[grind ←]
theorem modest_print (text : String) : Modest (print text : Routine H Unit) :=
  .request _ trivial

@[grind ←]
theorem modest_prepare (slot : Slot) : Modest (prepare slot : Routine H Unit) :=
  .request _ trivial

@[grind ←]
theorem modest_set (id : TableId) (key value : Value) :
    Modest (set id key value : Routine H (Except TableError Unit)) :=
  .request _ trivial

@[grind ←]
theorem modest_stack : Modest (stack : Routine H (List Frame)) :=
  .request _ trivial

@[grind ←]
theorem modest_fault (error : Fault) : Modest (fault error : Routine H α) := by
  unfold fault failWith
  grind

@[grind ←]
theorem modest_raise (value : Value) (level : Nat) : Modest (raise value level : Routine H α) := by
  unfold raise
  grind

@[grind ←]
theorem modest_setEntry (id : TableId) (key value : Value) :
    Modest (setEntry id key value : Routine H Unit) := by
  unfold setEntry
  grind

/-! ## Metamethods -/

@[grind ←]
theorem modest_metatableOf (value : Value) :
    Modest (metatableOf value : Routine H (Option TableId)) := by
  unfold metatableOf
  grind

@[grind ←]
theorem modest_metamethod (value : Value) (method : Metamethod) :
    Modest (metamethod value method : Routine H (Option Value)) := by
  unfold metamethod metavalue
  grind

@[grind ←]
theorem modest_eitherMetamethod (left right : Value) (method : Metamethod) :
    Modest (eitherMetamethod left right method : Routine H (Option Value)) := by
  unfold eitherMetamethod
  grind

@[grind ←]
theorem modest_sharedMetamethod (left right : Value) (method : Metamethod) :
    Modest (sharedMetamethod left right method : Routine H (Option Value)) := by
  unfold sharedMetamethod
  grind

/-! ## Calls -/

@[grind ←]
theorem modest_callWithin (links : Nat) (callee : Value) (arguments : List Value) :
    Modest (callWithin links callee arguments : Routine H (List Value)) := by
  induction links generalizing callee arguments with
  | zero => exact modest_fault _
  | succ links ih =>
    have hother : Modest (callThrough links callee arguments : Routine H (List Value)) := by
      unfold callThrough
      grind
    cases callee with
    | function function => exact .callFunction function arguments
    | _ => exact hother

@[grind ←]
theorem modest_callPrepared (arity : Nat) (callee : Value) (arguments : List Value) :
    Modest (callPrepared arity callee arguments : Routine H (List Value)) := by
  unfold callPrepared Routine.call
  grind

@[grind ←]
theorem modest_callByCount (callee : Value) (arguments : List Value) :
    Modest (callByCount callee arguments : Routine H (List Value)) := by
  unfold callByCount Routine.call
  grind

theorem plain_callByCount (callee : Value) (arguments : List Value) :
    Plain (callByCount callee arguments : Routine H (List Value)) :=
  (modest_callByCount callee arguments).plain

@[grind ←]
theorem modest_callHandler (handler left right : Value) :
    Modest (callHandler handler left right : Routine H Value) := by
  unfold callHandler
  grind

/-! ## Operators -/

@[grind ←]
theorem modest_indexWithin (links : Nat) (base key : Value) :
    Modest (indexWithin links base key : Routine H Value) := by
  induction links generalizing base with
  | zero => exact modest_fault _
  | succ links ih =>
    unfold indexWithin ownEntry
    grind

@[grind ←]
theorem modest_newIndexWithin (links : Nat) (base key value : Value) :
    Modest (newIndexWithin links base key value : Routine H Unit) := by
  induction links generalizing base with
  | zero => exact modest_fault _
  | succ links ih =>
    unfold newIndexWithin writeHandler ownEntry
    grind

@[grind ←]
theorem modest_applyHandler (method : Metamethod) (purpose : Purpose) (left right : Value)
    (leftFine : Bool) :
    Modest (applyHandler method purpose left right leftFine : Routine H Value) := by
  unfold applyHandler
  grind

@[grind ←]
theorem modest_arithmetic (op : ArithmeticOp) (left right : Value) :
    Modest (arithmetic op left right : Routine H Value) := by
  unfold arithmetic
  grind

@[grind ←]
theorem modest_concat (left right : Value) : Modest (concat left right : Routine H Value) := by
  unfold concat
  grind

@[grind ←]
theorem modest_compareBy (method : Metamethod) (left right : Value) :
    Modest (compareBy method left right : Routine H (Option Bool)) := by
  unfold compareBy
  grind

@[grind ←]
theorem modest_compareAlike (method : Metamethod) (left right : Value) :
    Modest (compareAlike method left right : Routine H (Option Bool)) := by
  unfold compareAlike
  grind

@[grind ←]
theorem modest_less (left right : Value) : Modest (less left right : Routine H Bool) := by
  unfold less
  grind

@[grind ←]
theorem modest_lessEqual (left right : Value) : Modest (lessEqual left right : Routine H Bool) := by
  unfold lessEqual
  grind

@[grind ←]
theorem modest_equal (left right : Value) : Modest (equal left right : Routine H Bool) := by
  unfold equal
  grind

theorem modest_unary (op : UnaryOp) (value : Value) :
    Modest (unary op value : Routine H Value) := by
  unfold unary negate length
  grind

theorem modest_binary (op : BinaryOp) (left right : Value) :
    Modest (binary op left right : Routine H Value) := by
  unfold binary
  grind

@[grind ←]
theorem modest_toText (value : Value) : Modest (toText value : Routine H Value) := by
  unfold toText
  grind

end Routine

/-! ## The library -/

namespace Library

open Routine

@[grind ←]
theorem modest_badArgument (function : Builtin) (position : Nat) (problem : ArgumentFault) :
    Modest (badArgument function position problem : Routine H α) :=
  modest_fault _

@[grind ←]
theorem modest_anyArgument (function : Builtin) (arguments : List Value) (position : Nat) :
    Modest (anyArgument function arguments position : Routine H Value) := by
  unfold anyArgument
  grind

theorem plain_anyArgument (function : Builtin) (arguments : List Value) (position : Nat) :
    Plain (anyArgument function arguments position : Routine H Value) :=
  (modest_anyArgument function arguments position).plain

@[grind ←]
theorem modest_tableArgument (function : Builtin) (arguments : List Value) (position : Nat) :
    Modest (tableArgument function arguments position : Routine H TableId) := by
  unfold tableArgument mismatch
  grind

@[grind ←]
theorem modest_numberArgument (function : Builtin) (arguments : List Value) (position : Nat) :
    Modest (numberArgument function arguments position : Routine H Number) := by
  unfold numberArgument mismatch
  grind

@[grind ←]
theorem modest_optionalNumber (function : Builtin) (arguments : List Value) (position : Nat)
    (default : Number) :
    Modest (optionalNumber function arguments position default : Routine H Number) := by
  unfold optionalNumber
  grind

@[grind ←]
theorem modest_metatableArgument (arguments : List Value) :
    Modest (metatableArgument arguments : Routine H (Option TableId)) := by
  unfold metatableArgument
  grind

@[grind ←]
theorem modest_isProtected (id : TableId) : Modest (isProtected id : Routine H Bool) := by
  unfold isProtected
  grind

theorem modest_print (arguments : List Value) :
    Modest (Library.print arguments : Routine H (List Value)) := by
  have htexts : Modest (arguments.mapM (toText : Value → Routine H Value)) := by
    induction arguments with
    | nil => exact .pure []
    | cons value rest ih =>
      rw [List.mapM_cons]
      grind
  unfold Library.print
  grind

/-- Every function of the library is modest, apart from the one that catches errors and the one that
changes metatables. -/
theorem modest_body {function : Builtin} (h : function ≠ .pcall) (hset : function ≠ .setmetatable)
    (arguments : List Value) : Modest (body function arguments : Routine H (List Value)) := by
  cases function with
  | pcall => exact absurd rfl h
  | setmetatable => exact absurd rfl hset
  | print => exact modest_print arguments
  | assert => unfold body Library.assert; grind
  | error => unfold body error; grind
  | getmetatable => unfold body getmetatable; grind
  | ipairs => unfold body ipairs; grind
  | next => unfold body next; grind
  | pairs => unfold body pairs; grind
  | rawequal => unfold body rawequal; grind
  | rawget => unfold body rawget; grind
  | rawset => unfold body rawset; grind
  | select => unfold body select; grind
  | tonumber => unfold body tonumber mismatch; grind
  | tostring => unfold body tostring; grind
  | type => unfold body Library.type; grind
  | unpack => unfold body unpack; grind
  | ipairsStep => unfold body ipairsStep; grind

theorem plain_setmetatable (arguments : List Value) :
    Plain (setmetatable arguments : Routine H (List Value)) := by
  refine (modest_tableArgument _ _ _).plain.bind fun id => ?_
  refine (modest_metatableArgument _).plain.bind fun metatable => ?_
  refine (modest_isProtected id).plain.bind fun isProtected => ?_
  split
  · exact (modest_fault _).plain
  · exact MadeOf.bind (.request _ trivial) fun _ => .pure _

/-- Every function of the library is plain, apart from the one that catches errors. -/
theorem plain_body {function : Builtin} (h : function ≠ .pcall) (arguments : List Value) :
    Plain (body function arguments : Routine H (List Value)) := by
  by_cases hset : function = .setmetatable
  · rw [hset]
    exact plain_setmetatable arguments
  · exact (modest_body h hset arguments).plain

end Library

/-! ## All operations -/

namespace Routine

/-- A property of calls of all sorts, of operators, of the text of a value, and of the functions of
the library that do not catch errors. -/
structure OfOperations (has : {α : Type} → Routine H α → Prop) : Prop where
  call (callee : Value) (arguments : List Value) : has (Routine.call callee arguments)
  callPrepared (arity : Nat) (callee : Value) (arguments : List Value) :
    has (Routine.callPrepared arity callee arguments)
  callByCount (callee : Value) (arguments : List Value) :
    has (Routine.callByCount callee arguments)
  index (base key : Value) : has (Routine.index base key)
  indexPrepared (base key : Value) : has (Routine.indexPrepared base key)
  newIndex (base key value : Value) : has (Routine.newIndex base key value)
  newIndexPrepared (base key value : Value) : has (Routine.newIndexPrepared base key value)
  unary (op : UnaryOp) (value : Value) : has (Routine.unary op value)
  binary (op : BinaryOp) (left right : Value) : has (Routine.binary op left right)
  toText (value : Value) : has (Routine.toText value)
  body (function : Builtin) (h : function ≠ .pcall) (arguments : List Value) :
    has (Library.body function arguments)

/-- What holds of everything modest, and of the function that changes metatables, holds of all
operations. -/
theorem ofOperations_of_modest {has : {α : Type} → Routine H α → Prop}
    (h : ∀ {α : Type} {routine : Routine H α}, routine.Modest → has routine)
    (hset : ∀ arguments, has (Library.setmetatable arguments)) : OfOperations has where
  call callee arguments := h (modest_callWithin maxLinks callee arguments)
  callPrepared arity callee arguments := h (modest_callPrepared arity callee arguments)
  callByCount callee arguments := h (modest_callByCount callee arguments)
  index base key := h (modest_indexWithin maxLinks base key)
  indexPrepared base key :=
    h ((modest_prepare _).bind fun _ => modest_indexWithin maxLinks base key)
  newIndex base key value := h (modest_newIndexWithin maxLinks base key value)
  newIndexPrepared base key value :=
    h ((modest_prepare _).bind fun _ => modest_newIndexWithin maxLinks base key value)
  unary op value := h (modest_unary op value)
  binary op left right := h (modest_binary op left right)
  toText value := h (modest_toText value)
  body function hne arguments := by
    by_cases hfunction : function = .setmetatable
    · rw [hfunction]
      exact hset arguments
    · exact h (Library.modest_body hne hfunction arguments)

theorem ofOperations_of_plain {has : {α : Type} → Routine H α → Prop}
    (h : ∀ {α : Type} {routine : Routine H α}, routine.Plain → has routine) :
    OfOperations has :=
  ofOperations_of_modest (fun hmodest => h hmodest.plain) fun arguments =>
    h (Library.plain_setmetatable arguments)

end Routine

end LuaLang
