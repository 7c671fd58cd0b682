import Mathlib
import LuaLang.Library.Base
import LuaLang.Proofs.Number.Integers
import LuaLang.Proofs.Table.Length
import LuaLang.Proofs.Table.Traversal

/-!
# Views of a list in a table

A table that is made from a list of values can be looked at in several ways: by its length, by its
positions one after the other, by its entries in their order, and by all values between two
positions. All of them show the list.

## Main definitions

* `Table.numbered`: the values of a list with their positions.
* `Table.elementOf`: the value of a list at any integer.
* `Library.Steps`: what the steps of a traversal give.
* `Library.ahead`: what is reached in steps of one.

## Main statements

* `Table.toList_entries_ofList`, `Table.length_ofList`, `Table.get_ofList_ofInt`: what is in the
  table.
* `Library.steps_of_getElem?`: traversals step by step.
* `Library.countUp_eq_none_iff`: when counting never ends.
* `Library.countUp_ofInt`: counting from one integer to another.
* `Library.views_of_list_agree`: what all views show.
-/

namespace LuaLang

variable {values : List Value}

namespace Table

/-! ## What is in the table -/

/-- The values of a list with their positions, counted from one. -/
def numbered (values : List Value) : List (Value × Value) :=
  values.mapIdx fun i value => (.ofNat (i + 1), value)

/-- The value of a list at a position, counted from one, and nil at all other integers. -/
def elementOf (values : List Value) (position : ℤ) : Value :=
  if 1 ≤ position then values.getD (position - 1).toNat .nil else .nil

theorem getElem?_numbered (k : Nat) :
    (numbered values)[k]? = values[k]?.map fun value => (.ofNat (k + 1), value) :=
  List.getElem?_mapIdx

theorem getElem?_numbered_eq_some {k : Nat} {key value : Value}
    (h : (numbered values)[k]? = some (key, value)) :
    key = .ofNat (k + 1) ∧ values[k]? = some value := by
  rw [getElem?_numbered] at h
  obtain ⟨v, hv, hpair⟩ := Option.map_eq_some_iff.1 h
  cases hpair
  exact ⟨rfl, hv⟩

theorem toList_entries_pushFrom (t : Table) {start : Nat} (hvalues : ∀ v ∈ values, v ≠ .nil)
    (hlength : start + values.length ≤ 2 ^ 32) :
    (t.pushFrom (.ofNat start) values).entries.toList =
      t.entries.toList ++ values.mapIdx fun i value => (.ofNat (start + i), value) := by
  induction values generalizing t start with
  | nil => simp [pushFrom]
  | cons first rest ih =>
    obtain ⟨hfirst, hrest⟩ := List.forall_mem_cons.1 hvalues
    rw [List.length_cons] at hlength
    rw [pushFrom_cons t (by omega), isNil_eq_false_iff.2 hfirst, if_neg Bool.false_ne_true,
      ih _ hrest (by omega), toList_entries_push, List.mapIdx_cons, List.append_assoc,
      List.singleton_append]
    simp only [Nat.add_zero, Nat.add_right_comm start 1, Nat.add_assoc]

/-- The entries of a table made from a list are the values with their positions, in order. -/
theorem toList_entries_ofList (hvalues : ∀ v ∈ values, v ≠ .nil)
    (hlength : values.length < 2 ^ 32) : (ofList values).entries.toList = numbered values := by
  have hfrom : 1 + values.length ≤ 2 ^ 32 := by omega
  refine (toList_entries_pushFrom empty hvalues hfrom).trans ?_
  simp [empty, numbered, Nat.add_comm]

theorem nextFrom_ofList (hvalues : ∀ v ∈ values, v ≠ .nil) (hlength : values.length < 2 ^ 32)
    (k : Nat) : (ofList values).nextFrom k = (numbered values)[k]? := by
  rw [nextFrom, toList_entries_ofList hvalues hlength, ← List.head?_drop]
  cases hdrop : (numbered values).drop k with
  | nil => rfl
  | cons entry rest =>
    have hentry : (numbered values)[k]? = some entry := by rw [← List.head?_drop, hdrop]; rfl
    obtain ⟨-, hv⟩ := getElem?_numbered_eq_some hentry
    have hne := isNil_eq_false_iff.2 (hvalues _ (List.mem_of_getElem? hv))
    rw [List.find?_cons_of_pos (by simp [hne])]
    rfl

/-- The length of a table made from a list is the length of the list. -/
theorem length_ofList (hvalues : ∀ v ∈ values, v ≠ .nil) (hlength : values.length < 2 ^ 32) :
    (ofList values).length = values.length := by
  have hpresent : ∀ i, 1 ≤ i → i ≤ 2 ^ 52 →
      ((ofList values).present i = true ↔ i ≤ values.length) := by
    intro i hfrom hto
    rw [present_iff, get_ofList_ofNat hlength hfrom (by omega)]
    by_cases hi : i - 1 < values.length
    · rw [List.getD_eq_getElem _ _ hi]
      exact iff_of_true (hvalues _ (List.getElem_mem hi)) (by omega)
    · rw [List.getD_eq_default _ _ (by omega)]
      exact iff_of_false (fun h => h rfl) (by omega)
  refine length_eq le_rfl ?_ hpresent
  rw [← Bool.not_eq_true, hpresent _ Nat.one_le_two_pow le_rfl]
  omega

theorem elementAt_ofInt_of_nonpos {z : ℤ} (hz : z ≤ 0) (hsmall : z.natAbs < 2 ^ 53)
    (hlength : values.length < 2 ^ 32) : elementAt 1 values (.number (.ofInt z)) = .nil := by
  have hnone : (values.zipIdx 1).find? (fun element =>
      (Value.ofNat element.2).rawEqual (.number (.ofInt z))) = none := by
    rw [List.find?_eq_none]
    rintro ⟨value, n⟩ hmem hequal
    obtain ⟨hfrom, hto, -⟩ := List.mem_zipIdx hmem
    have hposition : ((n : ℤ) : ℚ) = (z : ℚ) := (Number.equals_iff_eq
      (Number.toRat?_ofNat (by omega)) (Number.toRat?_ofInt hsmall.le)).1 hequal
    have : (n : ℤ) = z := by exact_mod_cast hposition
    omega
  rw [elementAt, hnone]

/-- A table made from a list has the values of the list at their positions, and nothing at the
integers before and after them. -/
theorem get_ofList_ofInt {z : ℤ} (hsmall : z.natAbs < 2 ^ 53) (hlength : values.length < 2 ^ 32) :
    (ofList values).get (.number (.ofInt z)) = elementOf values z := by
  rw [elementOf]
  split
  · next hpos =>
    obtain ⟨n, rfl⟩ := Int.eq_ofNat_of_zero_le (by omega : 0 ≤ z)
    rw [Number.ofInt_natCast]
    rw [show (Value.number (.ofNat n)) = Value.ofNat n from rfl,
      get_ofList_ofNat hlength (by omega) (by omega)]
    congr 1
    omega
  · next hpos =>
    rw [(valid_ofList hlength).2, elementAt_ofInt_of_nonpos (by omega) hsmall hlength]

end Table

namespace Library

open Routine

variable {H : Host} {call : Invoker H} {m : Machine H} {id : TableId}

/-! ## Traversals -/

/-- Steps from a control value on give pairs, one after the other, and then come to an end: each
step is given the key of the one before. Nothing changes on the way. -/
inductive Steps (call : Invoker H) (m : Machine H) (step : Value → Routine H (List Value)) :
    Value → List (Value × Value) → Prop where
  | finish {control : Value} (h : (step control).run call m = some (.ok [.nil], m)) :
    Steps call m step control []
  | step {control key value : Value} {rest : List (Value × Value)}
    (h : (step control).run call m = some (.ok [key, value], m)) (hkey : key ≠ .nil)
    (hrest : Steps call m step key rest) : Steps call m step control ((key, value) :: rest)

/-- A traversal gives the pairs that its steps give, if each pair has the next control value as its
key. -/
theorem steps_of_getElem? {step : Value → Routine H (List Value)} {pairs : List (Value × Value)}
    (control : Nat → Value)
    (hstep : ∀ k key value, pairs[k]? = some (key, value) → key = control (k + 1) ∧ key ≠ .nil ∧
      (step (control k)).run call m = some (.ok [key, value], m))
    (hend : (step (control pairs.length)).run call m = some (.ok [.nil], m)) :
    Steps call m step (control 0) pairs := by
  have hfrom : ∀ rest k, pairs.drop k = rest → k ≤ pairs.length →
      Steps call m step (control k) rest := by
    intro rest
    induction rest with
    | nil =>
      intro k hdrop hk
      obtain rfl : k = pairs.length := le_antisymm hk (List.drop_eq_nil_iff.1 hdrop)
      exact .finish hend
    | cons pair rest ih =>
      intro k hdrop hk
      have hpair : pairs[k]? = some pair := by rw [← List.head?_drop, hdrop]; rfl
      obtain ⟨hlt, -⟩ := List.getElem?_eq_some_iff.1 hpair
      obtain ⟨hkey, hne, hrun⟩ := hstep k pair.1 pair.2 hpair
      refine .step hrun hne ?_
      rw [hkey]
      refine ih (k + 1) ?_ hlt
      rw [← List.tail_drop, hdrop, List.tail_cons]
  exact hfrom pairs 0 rfl (Nat.zero_le _)

theorem run_ipairsStep (x : Number) :
    (ipairsStep [.table id, .number x]).run call m =
      some (.ok (if ((m.table id).get (.number (x + .ofNat 1))).isNil then [.nil]
        else [.number (x + .ofNat 1), (m.table id).get (.number (x + .ofNat 1))]), m) :=
  rfl

theorem run_next {key : Value} {entry : Option (Value × Value)}
    (h : (m.table id).next key = .ok entry) :
    (next [.table id, key]).run call m =
      some (.ok (entry.elim [.nil] fun entry => [entry.1, entry.2]), m) := by
  have hargument : (tableArgument (H := H) .next [.table id, key] 0).run call m =
      some (.ok id, m) := rfl
  have hread : (table id).run call m = some (.ok (m.table id), m) := rfl
  have hkey : Value.nth [.table id, key] 1 = key := rfl
  simp only [next, run_bind, hargument, hread, hkey, h]
  cases entry <;> rfl

/-- The steps over positions give the values of the list with their positions. -/
theorem steps_ipairsStep (hvalues : ∀ v ∈ values, v ≠ .nil) (hlength : values.length < 2 ^ 32)
    (htable : m.table id = .ofList values) :
    Steps call m (fun control => ipairsStep [.table id, control]) (.ofNat 0)
      (Table.numbered values) := by
  have hrun : ∀ k ≤ values.length, (ipairsStep [.table id, .ofNat k]).run call m =
      some (.ok (if (values.getD k .nil).isNil then [.nil]
        else [.ofNat (k + 1), values.getD k .nil]), m) := by
    intro k hk
    have hnext : Number.ofNat k + .ofNat 1 = .ofNat (k + 1) := by
      rw [← Number.ofInt_natCast, Number.ofInt_add_one (by omega), ← Number.ofInt_natCast]
      rfl
    have hget : (m.table id).get (.number (.ofNat (k + 1))) = values.getD k .nil := by
      rw [htable]
      exact Table.get_ofList_ofNat (by omega) (by omega) (by omega)
    rw [Value.ofNat, run_ipairsStep, hnext, hget]
    rfl
  refine steps_of_getElem? Value.ofNat (fun k key value hpair => ?_) ?_
  · obtain ⟨rfl, hv⟩ := Table.getElem?_numbered_eq_some hpair
    obtain ⟨hlt, -⟩ := List.getElem?_eq_some_iff.1 hv
    have hne := hvalues value (List.mem_of_getElem? hv)
    refine ⟨rfl, by simp [Value.ofNat], ?_⟩
    rw [hrun k hlt.le, List.getD_eq_getElem?_getD, hv, Option.getD_some,
      Table.isNil_eq_false_iff.2 hne]
    rfl
  · rw [Table.numbered, List.length_mapIdx, hrun _ le_rfl, List.getD_eq_default _ _ le_rfl]
    rfl

/-- The steps over entries give the values of the list with their positions. -/
theorem steps_next (hvalues : ∀ v ∈ values, v ≠ .nil) (hlength : values.length < 2 ^ 32)
    (htable : m.table id = .ofList values) :
    Steps call m (fun control => next [.table id, control]) .nil (Table.numbered values) := by
  have hvalid := (Table.valid_ofList hlength).1
  have hrun : ∀ k key, (Table.ofList values).passed? key = some k →
      (next [.table id, key]).run call m =
        some (.ok ((Table.numbered values)[k]?.elim [.nil] fun entry => [entry.1, entry.2]),
          m) := by
    intro k key hpassed
    refine run_next ?_
    rw [htable, Table.next_of_passed? hpassed, Table.nextFrom_ofList hvalues hlength]
  have hpassed : ∀ k ≤ values.length,
      (Table.ofList values).passed? (if k = 0 then .nil else .ofNat k) = some k := by
    rintro (_ | k) hk
    · rfl
    · have hentry : (Table.ofList values).entries.toList[k]? =
          some (.ofNat (k + 1), values[k]) := by
        rw [Table.toList_entries_ofList hvalues hlength, Table.getElem?_numbered,
          List.getElem?_eq_getElem hk]
        rfl
      exact hvalid.passed?_of_getElem? hentry
  refine steps_of_getElem? (fun k => if k = 0 then .nil else .ofNat k)
    (fun k key value hpair => ?_) ?_
  · obtain ⟨rfl, hv⟩ := Table.getElem?_numbered_eq_some hpair
    obtain ⟨hlt, -⟩ := List.getElem?_eq_some_iff.1 hv
    refine ⟨rfl, by simp [Value.ofNat], ?_⟩
    rw [hrun k _ (hpassed k hlt.le), hpair]
    rfl
  · rw [Table.numbered, List.length_mapIdx, hrun _ _ (hpassed _ le_rfl), Table.getElem?_numbered,
      List.getElem?_eq_none le_rfl]
    rfl

/-! ## Values between two positions -/

/-- What is reached from a number in steps of one. Each step is rounded. -/
def ahead (start : Number) (steps : Nat) : Number :=
  (· + Number.ofNat 1)^[steps] start

variable {start last : Number}

theorem ahead_add (start : Number) (steps before : Nat) :
    ahead start (steps + before) = ahead (ahead start before) steps :=
  Function.iterate_add_apply ..

/-- There are fewer than `2 ^ 64` numbers, so after so many steps some number has come again. -/
theorem exists_ahead_eq (start : Number) {k : Nat} (hk : 2 ^ 64 ≤ k) :
    ∃ j < k, ahead start j = ahead start k := by
  have again : ∀ {i j : Nat}, i < j → j ≤ k → (ahead start i).toBits = (ahead start j).toBits →
      ∃ j < k, ahead start j = ahead start k := by
    intro i j hij hjk hbits
    refine ⟨k - j + i, by omega, ?_⟩
    calc ahead start (k - j + i) = ahead (ahead start j) (k - j) := by
          rw [ahead_add, Number.ofBits_toBits.injective hbits]
      _ = ahead start k := by rw [← ahead_add, Nat.sub_add_cancel hjk]
  obtain ⟨i, j, hne, hword⟩ := Fintype.exists_ne_map_eq_of_card_lt
    (fun i : Fin (k + 1) => (ahead start i).toBits.toFin) (by simpa using Nat.lt_succ_of_le hk)
  have hbits : (ahead start i).toBits = (ahead start j).toBits := UInt64.toFin_inj.1 hword
  rcases lt_or_gt_of_ne hne with hij | hij
  · exact again hij (Nat.lt_succ_iff.1 j.isLt) hbits
  · exact again hij (Nat.lt_succ_iff.1 i.isLt) hbits.symm

theorem countUpWithin_eq_iterate {rounds count : Nat} (hrounds : count < rounds)
    (hwithin : ∀ k < count, (ahead start k).lessEqual last = true)
    (hbeyond : (ahead start count).lessEqual last = false) :
    countUpWithin last rounds start =
      some (List.iterate (· + Number.ofNat 1) start count) := by
  obtain ⟨rounds, rfl⟩ : ∃ n, rounds = n + 1 := ⟨rounds - 1, by omega⟩
  induction count generalizing start rounds with
  | zero =>
    have hstart : start.lessEqual last = false := hbeyond
    rw [countUpWithin, if_neg (Bool.eq_false_iff.1 hstart)]
    rfl
  | succ count ih =>
    obtain ⟨rounds, rfl⟩ : ∃ n, rounds = n + 1 := ⟨rounds - 1, by omega⟩
    have hstart : start.lessEqual last = true := hwithin 0 count.succ_pos
    have hrest := ih (fun k hk => hwithin (k + 1) (Nat.succ_lt_succ hk)) hbeyond rounds (by omega)
    rw [countUpWithin, if_pos hstart, hrest]
    rfl

/-- Counting gives what comes before the first number beyond the last one. -/
theorem countUp_eq_iterate {count : Nat}
    (hwithin : ∀ k < count, (ahead start k).lessEqual last = true)
    (hbeyond : (ahead start count).lessEqual last = false) :
    countUp start last = some (List.iterate (· + Number.ofNat 1) start count) := by
  refine countUpWithin_eq_iterate ?_ hwithin hbeyond
  by_contra hrounds
  -- A number that comes again is not the first one beyond the last one.
  obtain ⟨j, hj, hagain⟩ := exists_ahead_eq start (Nat.le_of_not_lt hrounds)
  rw [← hagain, hwithin j hj] at hbeyond
  cases hbeyond

/-- Counting has no result just if it never leads beyond the last number. -/
theorem countUp_eq_none_iff :
    countUp start last = none ↔ ∀ k, (ahead start k).lessEqual last = true := by
  constructor
  · intro hnone
    by_contra hbeyond
    rw [not_forall] at hbeyond
    have hsome := countUp_eq_iterate
      (fun k hk => by_contra fun h => Nat.find_min hbeyond hk h)
      (Bool.eq_false_iff.2 (Nat.find_spec hbeyond))
    rw [hnone] at hsome
    cases hsome
  · intro hwithin
    have hnone : ∀ rounds, countUpWithin last rounds start = none := by
      intro rounds
      induction rounds generalizing start with
      | zero => rfl
      | succ rounds ih =>
        have hstart : start.lessEqual last = true := hwithin 0
        rw [countUpWithin, if_pos hstart, ih fun k => hwithin (k + 1)]
        rfl
    exact hnone _

/-- Counting stays where adding one is lost in rounding. -/
theorem countUp_of_fixed (hfixed : start + .ofNat 1 = start) (hle : start.lessEqual last = true) :
    countUp start last = none := by
  have hstays : ∀ k, ahead start k = start :=
    fun k => Function.iterate_fixed (f := (· + Number.ofNat 1)) hfixed k
  exact countUp_eq_none_iff.2 fun k => (hstays k).symm ▸ hle

example : let limit := Number.ofNat 0x20000000000000; limit + .ofNat 1 = limit := by
  decide +kernel

/-- Up to `2 ^ 53` no step is rounded. -/
theorem ahead_ofInt {i : ℤ} {k : Nat} (hi : i.natAbs ≤ 2 ^ 53) (hk : (i + k).natAbs ≤ 2 ^ 53) :
    ahead (.ofInt i) k = .ofInt (i + k) := by
  induction k with
  | zero => rw [Nat.cast_zero, add_zero, ahead, Function.iterate_zero_apply]
  | succ k ih =>
    have hbefore : (i + k).natAbs ≤ 2 ^ 53 := by omega
    have hstep := ih hbefore
    rw [ahead] at hstep ⊢
    rw [Function.iterate_succ_apply', hstep, Number.ofInt_add_one hbefore, Nat.cast_succ, add_assoc]

/-- Counting from one integer to another gives all integers between them. -/
theorem countUp_ofInt {i j : ℤ} (hi : i.natAbs ≤ 2 ^ 53) (hj : j.natAbs < 2 ^ 53) :
    countUp (.ofInt i) (.ofInt j) =
      some ((List.range (j + 1 - i).toNat).map fun k => .ofInt (i + (k : Nat))) := by
  have hahead : ∀ k ≤ (j + 1 - i).toNat, ahead (.ofInt i) k = .ofInt (i + k) :=
    fun k hk => ahead_ofInt hi (by omega)
  have hle : ∀ k ≤ (j + 1 - i).toNat,
      ((ahead (.ofInt i) k).lessEqual (.ofInt j) = true ↔ i + k ≤ j) := by
    intro k hk
    rw [hahead k hk, Number.lessEqual_iff (Number.toRat?_ofInt (by omega))
      (Number.toRat?_ofInt hj.le)]
    exact_mod_cast Iff.rfl
  rw [countUp_eq_iterate (fun k hk => (hle k hk.le).2 (by omega))
    (Bool.eq_false_iff.2 fun h => by have := (hle _ le_rfl).1 h; omega), ← List.range_map_iterate]
  refine congrArg some (List.map_congr_left fun k hk => ?_)
  exact hahead k (List.mem_range.1 hk).le

/-- Whether there are too many integers between two of them is found out exactly, also where their
difference is rounded. -/
theorem maxResults_lessEqual_iff {i j : ℤ} (hi : i.natAbs < 2 ^ 53) (hj : j.natAbs < 2 ^ 53) :
    (Number.ofNat maxResults).lessEqual (.ofInt j - .ofInt i) = true ↔ 8000 ≤ j - i := by
  obtain ⟨zeroIsNegative, hsub⟩ :=
    Number.sub_eq_ofRat (Number.toRat?_ofInt hj.le) (Number.toRat?_ofInt hi.le)
  rw [hsub, ← Int.cast_sub]
  obtain ⟨rank, hrank, hvalue, hlow, -⟩ :=
    Number.ofNat_eq_finite (by decide : maxResults ≠ 0) (by decide : maxResults < 2 ^ 53)
  have hexact : (Number.ofNat maxResults).toRat? = some ((maxResults : Nat) : ℚ) :=
    Number.toRat?_ofNat (by decide)
  by_cases hsmall : (j - i).natAbs ≤ 2 ^ 53
  · rw [Number.lessEqual_iff hexact (Number.toRat?_ofRat_intCast hsmall)]
    exact_mod_cast Iff.rfl
  rw [hrank] at hexact ⊢
  rcases lt_or_ge (j - i) 0 with hneg | hpos
  · have hne : rank.val ≠ 0 := by
      have : 0 < Number.binade := by decide
      omega
    rw [Number.lessEqual_ofRat_of_neg hne (by exact_mod_cast hneg)]
    exact iff_of_false Bool.false_ne_true (by omega)
  · refine iff_of_true (Number.lessEqual_ofRat ?_) (by omega)
    have hmagnitude : Number.magnitude rank = ((maxResults : Nat) : ℚ) := Option.some.inj hexact
    rw [hmagnitude]
    have hle : ((maxResults : Nat) : ℤ) ≤ j - i := by
      have : maxResults = 8000 := rfl
      omega
    exact_mod_cast hle

theorem run_unpack {arguments : List Value} {x y : Number}
    (htable : (tableArgument (H := H) .unpack arguments 0).run call m = some (.ok id, m))
    (hstart : (optionalNumber .unpack arguments 1 (.ofNat 1)).run call m = some (.ok x, m))
    (hlast : (optionalNumber .unpack arguments 2 (.ofNat (m.table id).length)).run call m =
      some (.ok y, m)) :
    (unpack arguments).run call m =
      if (Number.ofNat maxResults).lessEqual (y - x) then
        some (.error (.ofMessage m.stack "too many results to unpack"), m)
      else
        (countUp x y).map fun positions =>
          (.ok (positions.map fun position => (m.table id).get (.number position)), m) := by
  have hread : (table id).run call m = some (.ok (m.table id), m) := rfl
  simp only [unpack, run_bind, htable, hstart, hread, hlast]
  split
  · rfl
  · cases countUp x y <;> rfl

/-- The values of a table made from a list between two integers are those of the list, as long as
they are not too many. -/
theorem run_unpack_ofInt {arguments : List Value} {i j : ℤ}
    (hid : (tableArgument (H := H) .unpack arguments 0).run call m = some (.ok id, m))
    (hstart : (optionalNumber .unpack arguments 1 (.ofNat 1)).run call m = some (.ok (.ofInt i), m))
    (hlast : (optionalNumber .unpack arguments 2 (.ofNat (m.table id).length)).run call m =
      some (.ok (.ofInt j), m))
    (hlength : values.length < 2 ^ 32) (htable : m.table id = .ofList values)
    (hi : i.natAbs < 2 ^ 53) (hj : j.natAbs < 2 ^ 53) :
    (unpack arguments).run call m =
      if 8000 ≤ j - i then some (.error (.ofMessage m.stack "too many results to unpack"), m)
      else some (.ok ((List.range (j + 1 - i).toNat).map fun k =>
        Table.elementOf values (i + (k : Nat))), m) := by
  rw [run_unpack hid hstart hlast, if_congr (maxResults_lessEqual_iff hi hj) rfl rfl]
  split
  · rfl
  · rw [countUp_ofInt hi.le hj, Option.map_some, List.map_map, htable]
    congr 3
    refine List.map_congr_left fun k hk => ?_
    rw [List.mem_range] at hk
    exact Table.get_ofList_ofInt (by omega) hlength

theorem map_elementOf_range (values : List Value) :
    ((List.range values.length).map fun k => Table.elementOf values (1 + (k : Nat))) = values := by
  refine List.ext_getElem (by simp) fun k hk hlt => ?_
  rw [List.getElem_map, List.getElem_range, Table.elementOf, if_pos (by omega),
    show (1 + (k : ℤ) - 1).toNat = k by omega, List.getD_eq_getElem _ _ hlt]

/-- Without positions, all values of the list are given. -/
theorem run_unpack_ofList (hvalues : ∀ v ∈ values, v ≠ .nil) (hlength : values.length ≤ 8000)
    (htable : m.table id = .ofList values) :
    (unpack [.table id]).run call m = some (.ok values, m) := by
  have hstart : (optionalNumber (H := H) .unpack [.table id] 1 (.ofNat 1)).run call m =
      some (.ok (.ofInt 1), m) := by
    rw [← Number.ofInt_natCast]
    rfl
  have hlast : (optionalNumber (H := H) .unpack [.table id] 2
      (.ofNat (m.table id).length)).run call m = some (.ok (.ofInt values.length), m) := by
    rw [htable, Table.length_ofList hvalues (by omega), Number.ofInt_natCast]
    rfl
  rw [run_unpack_ofInt rfl hstart hlast (by omega) htable (by decide) (by omega),
    if_neg (by omega), show ((values.length : ℤ) + 1 - 1).toNat = values.length by omega,
    map_elementOf_range]

/-- All views of a table that is made from a list of up to 8000 values without nil show the list:
its length, unpacking it, stepping over its positions from zero and stepping over its entries from
nil. Unpacking it between any two integers below `2 ^ 53` gives the values at all integers from the
first one to the last one, nil where the list has none, if they are at most 8000, and fails
otherwise. -/
theorem views_of_list_agree (call : Invoker H) (hvalues : ∀ v ∈ values, v ≠ .nil)
    (hlength : values.length ≤ 8000) (htable : m.table id = .ofList values) :
    (m.table id).length = values.length ∧
    (unpack [.table id]).run call m = some (.ok values, m) ∧
    Steps call m (fun control => ipairsStep [.table id, control]) (.ofNat 0)
      (Table.numbered values) ∧
    Steps call m (fun control => next [.table id, control]) .nil (Table.numbered values) ∧
    ∀ i j : ℤ, i.natAbs < 2 ^ 53 → j.natAbs < 2 ^ 53 →
      (j - i < 8000 → (unpack [.table id, .number (.ofInt i), .number (.ofInt j)]).run call m =
        some (.ok ((List.range (j + 1 - i).toNat).map fun k =>
          Table.elementOf values (i + (k : Nat))), m)) ∧
      (8000 ≤ j - i → (unpack [.table id, .number (.ofInt i), .number (.ofInt j)]).run call m =
        some (.error (.ofMessage m.stack "too many results to unpack"), m)) := by
  refine ⟨?_, ?_, steps_ipairsStep hvalues (by omega) htable,
    steps_next hvalues (by omega) htable, fun i j hi hj => ⟨fun hfew => ?_, fun hmany => ?_⟩⟩
  · rw [htable]
    exact Table.length_ofList hvalues (by omega)
  · exact run_unpack_ofList hvalues hlength htable
  · rw [run_unpack_ofInt rfl rfl rfl (by omega) htable hi hj, if_neg (by omega)]
  · rw [run_unpack_ofInt rfl rfl rfl (by omega) htable hi hj, if_pos hmany]

/-- Two values, unpacked as they are, from minus one to three, and with far too many positions. -/
theorem views_of_list_agree_two :
    let host : Host := ⟨Unit, Unit⟩
    let call : Invoker host := fun _ _ _ => none
    let values : List Value := [.boolean true, .string "a"]
    let m : Machine host := ((Machine.start 5 ()).addTable (.ofList values)).2
    let unpackFrom := fun i j : ℤ =>
      (unpack [.table ⟨5⟩, .number (.ofInt i), .number (.ofInt j)]).run call m
    (unpack [.table ⟨5⟩]).run call m = some (.ok values, m) ∧
      unpackFrom (-1) 3 = some (.ok [.nil, .nil, .boolean true, .string "a", .nil], m) ∧
      unpackFrom (-9007199254740991) 9007199254740991 =
        some (.error (.ofMessage m.stack "too many results to unpack"), m) := by
  intro host call values m unpackFrom
  have hvalues : ∀ v ∈ values, v ≠ .nil := by simp [values]
  have htable : m.table ⟨5⟩ = .ofList values := rfl
  obtain ⟨-, hall, -, -, hbetween⟩ := views_of_list_agree call hvalues (by decide) htable
  refine ⟨hall, ?_, ?_⟩
  · exact ((hbetween (-1) 3 (by decide) (by decide)).1 (by decide)).trans rfl
  · exact (hbetween _ _ (by decide) (by decide)).2 (by decide)

end Library

end LuaLang
