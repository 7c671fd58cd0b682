import Mathlib
import LuaLang.Machine.Request
import LuaLang.Proofs.Number.Rounding
import LuaLang.Proofs.Table.Invariant

/-!
# Tables are finite maps

A table that starts as a list of values and is written to any number of times is the map that its
history describes: under each key is what the last assignment to it that was not refused has put
there, or else the value that the list had there. Whatever the table has dropped on the way does not
show.

## Main definitions

* `Table.assignAll`: a table after assignments, of which some may be refused.
* `Table.lastAssigned`: what a history says of a key.
* `Table.elementAt`: what a list has under a key.

## Main statements

* `Table.Valid.assignAll`: the state and the contents of a table after assignments.
* `Table.valid_ofList`: the state and the contents of a table made from a list.
* `Table.refines_map`: both, for all histories.
-/

namespace LuaLang.Table

variable {t : Table} {key value : Value}

/-! ## Assignments -/

/-- The table after an assignment. One that is refused leaves it as it is. -/
def assign (t : Table) (key value : Value) : Table :=
  match t.set key value with
  | .ok changed => changed
  | .error _ => t

/-- The table after assignments in a row. -/
def assignAll (t : Table) (history : List (Value × Value)) : Table :=
  history.foldl (fun t entry => t.assign entry.1 entry.2) t

/-- The value of the last assignment to a key that is not refused, if there is one. -/
def lastAssigned (history : List (Value × Value)) (key : Value) : Option Value :=
  (history.reverse.find? fun entry =>
    keyFault? entry.1 = none && entry.1.rawEqual key).map Prod.snd

theorem Valid.assign (h : t.Valid) (key value : Value) :
    (t.assign key value).Valid ∧ ∀ k, (t.assign key value).get k =
      if keyFault? key = none ∧ key.rawEqual k = true then value else t.get k := by
  rw [Table.assign, set]
  cases hfault : keyFault? key with
  | some e => exact ⟨h, fun k => by simp⟩
  | none =>
    have hkey := (keyFault?_eq_none_iff key).1 hfault
    obtain ⟨hvalid, hget⟩ := h.put value hkey
    refine ⟨hvalid, fun k => ?_⟩
    rw [hget]
    simp [Value.rawEqual_iff, hkey.2]

/-- After any assignments a table is valid, and each key has what was assigned to it last. -/
theorem Valid.assignAll (h : t.Valid) (history : List (Value × Value)) :
    (t.assignAll history).Valid ∧
      ∀ k, (t.assignAll history).get k = (lastAssigned history k).getD (t.get k) := by
  induction history generalizing t with
  | nil => exact ⟨h, fun k => rfl⟩
  | cons entry rest ih =>
    obtain ⟨hvalid, hget⟩ := h.assign entry.1 entry.2
    obtain ⟨hrest, hgetRest⟩ := ih hvalid
    refine ⟨hrest, fun k => (hgetRest k).trans ?_⟩
    rw [hget, lastAssigned, lastAssigned, List.reverse_cons, List.find?_append]
    cases rest.reverse.find? fun entry =>
        decide (keyFault? entry.1 = none) && entry.1.rawEqual k with
    | some found => simp
    | none =>
      by_cases hlast : keyFault? entry.1 = none ∧ entry.1.rawEqual k = true
      · simp [hlast.1, hlast.2]
      · rw [if_neg hlast]
        have : (decide (keyFault? entry.1 = none) && entry.1.rawEqual k) = false := by
          simpa using hlast
        simp [this]

/-! ## Lists -/

/-- The value that a list has under a key, its first one being at `start`. -/
def elementAt (start : Nat) (values : List Value) (key : Value) : Value :=
  match (values.zipIdx start).find? fun element => (Value.ofNat element.2).rawEqual key with
  | some element => element.1
  | none => .nil

theorem keyForm_ofNat_inj {m n : Nat} (hm : m ≠ 0 ∧ m < 2 ^ 53) (hn : n ≠ 0 ∧ n < 2 ^ 53)
    (h : (Value.ofNat m).keyForm = (Value.ofNat n).keyForm) : m = n := by
  obtain ⟨i, hi, -⟩ := Number.ofNat_eq_finite hm.1 hm.2
  obtain ⟨j, hj, -⟩ := Number.ofNat_eq_finite hn.1 hn.2
  refine Number.ofNat_inj hm hn ?_
  rw [hi, hj]
  simpa [Value.ofNat, Value.keyForm, hi, hj, Number.zero] using h

theorem ofNat_ne {n : Nat} (hn : n ≠ 0 ∧ n < 2 ^ 53) :
    Value.ofNat n ≠ .nil ∧ Value.ofNat n ≠ .number .nan := by
  obtain ⟨i, hi, -⟩ := Number.ofNat_eq_finite hn.1 hn.2
  simp [Value.ofNat, hi]

theorem rawEqual_ofNat_iff {n : Nat} (hn : n ≠ 0 ∧ n < 2 ^ 53) (k : Value) :
    (Value.ofNat n).rawEqual k = true ↔ (Value.ofNat n).keyForm = k.keyForm := by
  rw [Value.rawEqual_iff]
  exact and_iff_left (ofNat_ne hn).2

theorem elementAt_cons (start : Nat) (first : Value) (rest : List Value) (k : Value) :
    elementAt start (first :: rest) k =
      if (Value.ofNat start).rawEqual k then first else elementAt (start + 1) rest k := by
  rw [elementAt, List.zipIdx_cons, List.find?_cons]
  cases (Value.ofNat start).rawEqual k <;> rfl

/-- A list has nothing at the positions before it. -/
theorem elementAt_of_lt {start n : Nat} {values : List Value} (hn : n ≠ 0 ∧ n < start)
    (hlength : start + values.length ≤ 2 ^ 53) {k : Value}
    (hk : (Value.ofNat n).keyForm = k.keyForm) : elementAt start values k = .nil := by
  have hnone : (values.zipIdx start).find? (fun element =>
      (Value.ofNat element.2).rawEqual k) = none := by
    rw [List.find?_eq_none]
    intro element hmem hequal
    have hfrom := List.le_snd_of_mem_zipIdx hmem
    have hto := List.snd_lt_add_of_mem_zipIdx hmem
    have hform := ((Value.rawEqual_iff _ _).1 hequal).1
    have := keyForm_ofNat_inj ⟨by omega, by omega⟩ ⟨by omega, by omega⟩ (hform.trans hk.symm)
    omega
  rw [elementAt, hnone]

/-- A value is added at its position as long as that is a word. -/
theorem pushFrom_cons (t : Table) {start : Nat} (hstart : start < 2 ^ 32) (first : Value)
    (rest : List Value) :
    t.pushFrom (.ofNat start) (first :: rest) =
      (if first.isNil then t else t.push (.ofNat start) first).pushFrom (.ofNat (start + 1))
        rest := by
  rw [Table.pushFrom, UInt32.toNat_ofNat_of_lt' hstart, UInt32.ofNat_add]
  rfl

/-- The values of a list are added at the positions past those that are taken. -/
theorem Valid.pushFrom (h : t.Valid) {start : Nat} {values : List Value} (hstart : start ≠ 0)
    (hlength : start + values.length ≤ 2 ^ 32)
    (hfree : ∀ n, start ≤ n → n < 2 ^ 53 →
      ∀ entry ∈ t.entries.toList, entry.1.keyForm ≠ (Value.ofNat n).keyForm) :
    (t.pushFrom (.ofNat start) values).Valid ∧ ∀ k, (t.pushFrom (.ofNat start) values).get k =
      if (t.get k).isNil then elementAt start values k else t.get k := by
  induction values generalizing t start with
  | nil =>
    refine ⟨h, fun k => ?_⟩
    rw [Table.pushFrom]
    split
    · next hnil => exact isNil_iff.1 hnil
    · rfl
  | cons first rest ih =>
    rw [List.length_cons] at hlength
    have hposition : start ≠ 0 ∧ start < 2 ^ 53 := ⟨hstart, by omega⟩
    have hnone := hfree start le_rfl hposition.2
    rw [pushFrom_cons t (by omega)]
    by_cases hfirst : first = .nil
    · -- Nothing is added for nil, and nothing else is at its position.
      obtain ⟨hvalid, hget⟩ := ih h (Nat.succ_ne_zero start) (by omega) fun n hn =>
        hfree n (by omega)
      rw [if_pos (isNil_iff.2 hfirst)]
      refine ⟨hvalid, fun k => ?_⟩
      rw [hget, elementAt_cons]
      by_cases hequal : (Value.ofNat start).rawEqual k = true
      · have hform := (rawEqual_ofNat_iff hposition k).1 hequal
        have hrest : elementAt (start + 1) rest k = .nil :=
          elementAt_of_lt ⟨hstart, Nat.lt_succ_self start⟩ (by omega) hform
        rw [if_pos hequal, hrest, hfirst]
      · rw [if_neg hequal]
    · have hpush := h.push (ofNat_ne hposition) hfirst hnone
      have hfreeRest : ∀ n, start + 1 ≤ n → n < 2 ^ 53 →
          ∀ entry ∈ (t.push (.ofNat start) first).entries.toList,
            entry.1.keyForm ≠ (Value.ofNat n).keyForm := by
        intro n hn hlt
        rw [toList_entries_push, List.forall_mem_append]
        refine ⟨hfree n (by omega) hlt, ?_⟩
        rw [List.forall_mem_singleton]
        intro hform
        have := keyForm_ofNat_inj hposition ⟨by omega, hlt⟩ hform
        omega
      obtain ⟨hvalid, hget⟩ := ih hpush (Nat.succ_ne_zero start) (by omega) hfreeRest
      rw [if_neg (by simpa [isNil_iff] using hfirst)]
      refine ⟨hvalid, fun k => ?_⟩
      rw [hget, h.get_push hpush, elementAt_cons]
      by_cases hequal : (Value.ofNat start).rawEqual k = true
      · have hform := (rawEqual_ofNat_iff hposition k).1 hequal
        have hnil : t.get k = .nil := h.get_of_not_mem (hform ▸ hnone)
        rw [if_pos hform, isNil_eq_false_iff.2 hfirst, hnil, if_pos hequal]
        rfl
      · rw [if_neg fun hform => hequal ((rawEqual_ofNat_iff hposition k).2 hform), if_neg hequal]

/-- A table made from a list has its values at the positions from one on. -/
theorem valid_ofList {values : List Value} (hlength : values.length < 2 ^ 32) :
    (ofList values).Valid ∧ ∀ k, (ofList values).get k = elementAt 1 values k := by
  have hfrom : 1 + values.length ≤ 2 ^ 32 := by omega
  obtain ⟨hvalid, hget⟩ := valid_empty.pushFrom (by decide) hfrom (by simp [empty])
  refine ⟨hvalid, fun k => (hget k).trans ?_⟩
  rw [get_empty]
  rfl

/-! ## What a table shows -/

theorem Valid.isEmpty_iff (h : t.Valid) : t.isEmpty = true ↔ ∀ k, t.get k = .nil := by
  have hsize : t.isEmpty = true ↔ ∀ entry ∈ t.entries.toList, entry.2 = .nil := by
    rw [isEmpty, decide_eq_true_eq, h.counted, ← Array.length_toList, eq_comm,
      List.countP_eq_length]
    exact forall₂_congr fun entry _ => isNil_iff
  rw [hsize]
  constructor
  · intro hall k
    by_contra hne
    obtain ⟨entry, hentry, -, -⟩ := (h.get_eq_iff hne).1 rfl
    exact (mem_pairs.1 hentry).2 (hall entry (mem_pairs.1 hentry).1)
  · intro hall entry hentry
    rw [← h.get_of_mem hentry rfl]
    exact hall entry.1

theorem Valid.pairwise_rawEqual (h : t.Valid) :
    t.entries.toList.Pairwise fun a b => a.1.rawEqual b.1 = false := by
  refine h.pairwise.imp fun hform => ?_
  rw [Bool.eq_false_iff]
  exact fun hequal => hform ((Value.rawEqual_iff _ _).1 hequal).1

/-- Each key that has a value is listed once, all others not at all. -/
theorem Valid.countP_pairs (h : t.Valid) (k : Value) :
    t.pairs.countP (fun entry => entry.1.rawEqual k) = if (t.get k).isNil then 0 else 1 := by
  have hequal : ∀ entry ∈ t.pairs,
      (entry.1.rawEqual k = true ↔ entry.1.keyForm = k.keyForm) := by
    intro entry hentry
    rw [Value.rawEqual_iff]
    exact and_iff_left (h.keys entry (mem_pairs.1 hentry).1).2
  split
  · next hnil =>
    rw [List.countP_eq_zero]
    intro entry hentry hk
    have hget := h.get_of_mem (mem_pairs.1 hentry).1 ((hequal entry hentry).1 hk)
    exact (mem_pairs.1 hentry).2 (hget ▸ isNil_iff.1 hnil)
  · next hvalue =>
    obtain ⟨entry, hentry, hform, -⟩ :=
      (h.get_eq_iff (fun heq => hvalue (isNil_iff.2 heq))).1 rfl
    obtain ⟨as, bs, hsplit⟩ := List.append_of_mem hentry
    have hforms : t.pairs.Pairwise fun a b => a.1.keyForm ≠ b.1.keyForm := h.pairwise.filter _
    rw [hsplit, List.pairwise_append, List.pairwise_cons] at hforms
    obtain ⟨-, ⟨hafter, -⟩, hbefore⟩ := hforms
    have hk := (hequal entry hentry).2 hform
    rw [hsplit] at hequal ⊢
    have hnone : ∀ others : List (Value × Value),
        (∀ other ∈ others, other ∈ as ++ entry :: bs ∧ other.1.keyForm ≠ entry.1.keyForm) →
          others.countP (fun entry => entry.1.rawEqual k) = 0 := by
      intro others hothers
      rw [List.countP_eq_zero]
      intro other hother hotherEqual
      obtain ⟨hmem, hne⟩ := hothers other hother
      exact hne (((hequal other hmem).1 hotherEqual).trans hform.symm)
    rw [List.countP_append, List.countP_cons, hnone as, hnone bs, if_pos hk]
    · exact fun other hother => ⟨by simp [hother], (hafter other hother).symm⟩
    · exact fun other hother => ⟨by simp [hother], hbefore other hother entry (by simp)⟩

/-- An entry without a value has been counted. -/
theorem Valid.removed_pos (h : t.Valid) {place : Nat} (hplace : t.place? key = some place)
    (hnil : (t.valueAt place).isNil = true) : 0 < t.removed := by
  obtain ⟨entry, hentry, -⟩ := (place?_eq_some h).1 hplace
  rw [valueAt_of_getElem? hentry] at hnil
  rw [h.counted, List.countP_pos_iff]
  exact ⟨entry, List.mem_of_getElem? hentry, hnil⟩

theorem set_eq_error_iff {t : Table} (key value : Value) {e : TableError} :
    t.set key value = .error e ↔ keyFault? key = some e := by
  rw [set]
  cases keyFault? key <;> simp

theorem keyFault?_eq_some {key : Value} {e : TableError} (h : keyFault? key = some e) :
    e = .nilKey ∧ key = .nil ∨ e = .nanKey ∧ key = .number .nan := by
  cases key with
  | nil => exact .inl ⟨(Option.some.inj h).symm, rfl⟩
  | number x => cases x <;> simp_all [keyFault?, Number.isNaN]
  | _ => simp [keyFault?] at h

/-- A table made from a list, the empty one among them, represents the map of its history after any
assignments. Its keys are neither nil nor NaN and no two of them are raw equal, its index and its
count agree with its entries, and so does what it shows: the value under each key, whether there is
any, and the pairs. An assignment that is refused has changed nothing. -/
theorem refines_map {values : List Value} (hlength : values.length < 2 ^ 32)
    (history : List (Value × Value)) {t : Table} (ht : t = (ofList values).assignAll history) :
    t.Valid ∧ t.entries.toList.Pairwise (fun a b => a.1.rawEqual b.1 = false) ∧
      (∀ key place, t.place? key = some place → (t.valueAt place).isNil = true →
        0 < t.removed) ∧
      (∀ k, t.get k = (lastAssigned history k).getD (elementAt 1 values k)) ∧
      (t.isEmpty = true ↔ ∀ k, t.get k = .nil) ∧
      (∀ k, t.pairs.countP (fun entry => entry.1.rawEqual k) =
        if (t.get k).isNil then 0 else 1) ∧
      (∀ entry ∈ t.pairs, t.get entry.1 = entry.2 ∧ entry.2 ≠ .nil) ∧
      ∀ key value e, t.set key value = .error e →
        (e = .nilKey ∧ key = .nil ∨ e = .nanKey ∧ key = .number .nan) ∧
          ∀ (H : Host) (m : Machine H) (id : TableId),
            m.perform (.set id key value) = ((.error e : Except TableError Unit), m) := by
  obtain ⟨hlist, helements⟩ := valid_ofList hlength
  obtain ⟨hvalid, hget⟩ := hlist.assignAll history
  subst ht
  refine ⟨hvalid, hvalid.pairwise_rawEqual, fun _ _ => hvalid.removed_pos, fun k => ?_,
    hvalid.isEmpty_iff, hvalid.countP_pairs, fun entry hentry => ?_, fun key value e he => ?_⟩
  · rw [hget, helements]
  · obtain ⟨hmem, hvalue⟩ := mem_pairs.1 hentry
    exact ⟨hvalid.get_of_mem hmem rfl, hvalue⟩
  · have hfault := (set_eq_error_iff key value).1 he
    refine ⟨keyFault?_eq_some hfault, fun H m id => ?_⟩
    rw [Machine.perform, hfault]
    rfl

example : ofList [] = empty := rfl

/-- A name is cleared and written to again, with a refused assignment in between. -/
theorem refines_map_revived :
    ((ofList [.boolean true]).assignAll [(.string "a", .boolean true), (.string "a", .nil),
      (.string "a", .boolean false), (.nil, .boolean true)]).get (.string "a") =
        .boolean false := by
  have hlength : [Value.boolean true].length < 2 ^ 32 := by decide
  obtain ⟨-, -, -, hget, -⟩ := refines_map hlength [(.string "a", .boolean true),
    (.string "a", .nil), (.string "a", .boolean false), (.nil, .boolean true)] rfl
  exact (hget (.string "a")).trans rfl

end LuaLang.Table
