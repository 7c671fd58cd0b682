import Mathlib
import LuaLang.Table

/-!
# What holds of every table

The index of a table and its count of entries without a value agree with its entries, and every
operation keeps it so. What is under the keys after an operation can then be said without speaking
of places: `put` changes the value under one key, and dropping entries changes none.

## Main definitions

* `Table.Valid`: the index and the count agree with the entries.

## Main statements

* `Table.Valid.put`: putting a value keeps a table valid and changes what is under one key.
* `Table.Valid.rebuild`: a table that is rebuilt has the pairs and nothing else.
* `Table.Valid.compact`: dropping entries changes nothing under any key.
* `Table.Valid.get_eq_iff`: values are found where the pairs say.
-/

namespace LuaLang.Table

/-- What holds of every table: its keys are neither nil nor NaN, each form of a key has the one
place where its entry is and no other form has a place, and the entries without a value are
counted. -/
structure Valid (t : Table) : Prop where
  keys : ∀ entry ∈ t.entries.toList, entry.1 ≠ .nil ∧ entry.1 ≠ .number .nan
  indexed : ∀ form place, t.places[form]? = some place ↔
    ∃ entry : Value × Value, t.entries.toList[place]? = some entry ∧ entry.1.keyForm = form
  counted : t.removed = t.entries.toList.countP fun entry => entry.2.isNil

variable {t : Table} {key value : Value} {place : Nat}

theorem isNil_iff {v : Value} : v.isNil = true ↔ v = .nil := by
  cases v <;> simp [Value.isNil]

theorem isNil_eq_false_iff {v : Value} : v.isNil = false ↔ v ≠ .nil := by
  cases v <;> simp [Value.isNil]

theorem valid_empty : empty.Valid := by
  constructor <;> simp [empty]

/-- The metatable has no part in what is valid. -/
theorem Valid.withMetatable (h : t.Valid) (metatable : Option TableId) :
    Valid { t with metatable } :=
  ⟨h.keys, h.indexed, h.counted⟩

theorem place?_eq_some (h : t.Valid) :
    t.place? key = some place ↔ ∃ entry : Value × Value,
      t.entries.toList[place]? = some entry ∧ entry.1.keyForm = key.keyForm :=
  h.indexed key.keyForm place

theorem place?_eq_none (h : t.Valid) :
    t.place? key = none ↔ ∀ entry ∈ t.entries.toList, entry.1.keyForm ≠ key.keyForm := by
  rw [Option.eq_none_iff_forall_ne_some]
  constructor
  · intro hnone entry hmem hform
    obtain ⟨i, hi⟩ := List.mem_iff_getElem?.1 hmem
    exact hnone i ((place?_eq_some h).2 ⟨entry, hi, hform⟩)
  · intro hall i hi
    obtain ⟨entry, hentry, hform⟩ := (place?_eq_some h).1 hi
    exact hall entry (List.mem_of_getElem? hentry) hform

theorem valueAt_of_getElem? {entry : Value × Value} (h : t.entries.toList[place]? = some entry) :
    t.valueAt place = entry.2 := by
  rw [Array.getElem?_toList] at h
  rw [valueAt, h]

/-- The value under the key of an entry is the value of the entry. -/
theorem Valid.get_of_mem (h : t.Valid) {entry : Value × Value} (hmem : entry ∈ t.entries.toList)
    (hform : entry.1.keyForm = key.keyForm) : t.get key = entry.2 := by
  obtain ⟨i, hi⟩ := List.mem_iff_getElem?.1 hmem
  rw [get, (place?_eq_some h).2 ⟨entry, hi, hform⟩]
  exact valueAt_of_getElem? hi

theorem Valid.get_of_not_mem (h : t.Valid)
    (hnone : ∀ entry ∈ t.entries.toList, entry.1.keyForm ≠ key.keyForm) : t.get key = .nil := by
  rw [get, (place?_eq_none h).2 hnone]

/-! ## Adding an entry -/

@[simp] theorem toList_entries_push :
    (t.push key value).entries.toList = t.entries.toList ++ [(key, value)] := by
  simp [push]

theorem Valid.push (h : t.Valid) (hkey : key ≠ .nil ∧ key ≠ .number .nan) (hvalue : value ≠ .nil)
    (hnone : ∀ entry ∈ t.entries.toList, entry.1.keyForm ≠ key.keyForm) :
    (t.push key value).Valid := by
  constructor
  · rw [toList_entries_push, List.forall_mem_append]
    exact ⟨h.keys, by simpa using hkey⟩
  · intro form i
    have hplaces : (t.push key value).places[form]? =
        if key.keyForm = form then some t.entries.size else t.places[form]? := by
      simp [Table.push, Std.HashMap.getElem?_insert]
    have hlast : ∀ entry, t.entries.toList[i]? = some entry → i < t.entries.size := by
      intro entry hentry
      rw [← Array.length_toList]
      exact (List.getElem?_eq_some_iff.1 hentry).1
    rw [hplaces, toList_entries_push, List.getElem?_append, Array.length_toList]
    split
    · next hform =>
      rw [Option.some.injEq]
      constructor
      · rintro rfl
        exact ⟨(key, value), by simp, hform⟩
      · rintro ⟨entry, hentry, hentryForm⟩
        split at hentry
        · exact absurd (hentryForm.trans hform.symm) (hnone entry (List.mem_of_getElem? hentry))
        · next hge =>
          have := (List.getElem?_eq_some_iff.1 hentry).1
          simp at this
          omega
    · next hform =>
      rw [h.indexed]
      constructor
      · rintro ⟨entry, hentry, hentryForm⟩
        exact ⟨entry, by rw [if_pos (hlast entry hentry), hentry], hentryForm⟩
      · rintro ⟨entry, hentry, hentryForm⟩
        split at hentry
        · exact ⟨entry, hentry, hentryForm⟩
        · have := List.mem_of_getElem? hentry
          obtain rfl : entry = (key, value) := by simpa using this
          exact absurd hentryForm hform
  · rw [toList_entries_push, List.countP_append, ← h.counted]
    simp [Table.push, isNil_eq_false_iff.2 hvalue]

/-- Two valid tables with the same entries for a key have the same value under it. -/
theorem Valid.get_congr {t' : Table} (h : t.Valid) (h' : t'.Valid)
    (hsame : ∀ entry : Value × Value, entry.1.keyForm = key.keyForm →
      (entry ∈ t.entries.toList ↔ entry ∈ t'.entries.toList)) : t.get key = t'.get key := by
  by_cases hmem : ∃ entry ∈ t.entries.toList, entry.1.keyForm = key.keyForm
  · obtain ⟨entry, hentry, hform⟩ := hmem
    rw [h.get_of_mem hentry hform, h'.get_of_mem ((hsame entry hform).1 hentry) hform]
  · have hnone : ∀ entry ∈ t.entries.toList, entry.1.keyForm ≠ key.keyForm :=
      fun entry hentry hform => hmem ⟨entry, hentry, hform⟩
    rw [h.get_of_not_mem hnone, h'.get_of_not_mem]
    exact fun entry hentry hform => hnone entry ((hsame entry hform).2 hentry) hform

theorem Valid.get_push (h : t.Valid) (hpush : (t.push key value).Valid) (k : Value) :
    (t.push key value).get k = if key.keyForm = k.keyForm then value else t.get k := by
  split
  · next hform =>
    have hmem : (key, value) ∈ (t.push key value).entries.toList := by simp
    exact hpush.get_of_mem hmem hform
  · next hform =>
    refine (h.get_congr hpush fun entry hentry => ?_).symm
    rw [toList_entries_push, List.mem_append, List.mem_singleton]
    refine ⟨.inl, fun hmem => hmem.resolve_right ?_⟩
    rintro rfl
    exact hform hentry

/-! ## Dropping entries -/

/-- No two entries have keys of one form. -/
theorem Valid.pairwise (h : t.Valid) :
    t.entries.toList.Pairwise fun a b => a.1.keyForm ≠ b.1.keyForm := by
  rw [List.pairwise_iff_getElem]
  intro i j hi hj hlt hform
  have hfirst := (h.indexed _ i).2 ⟨_, List.getElem?_eq_getElem hi, hform⟩
  have hsecond := (h.indexed _ j).2 ⟨_, List.getElem?_eq_getElem hj, rfl⟩
  rw [hfirst, Option.some.injEq] at hsecond
  omega

theorem mem_pairs {entry : Value × Value} :
    entry ∈ t.pairs ↔ entry ∈ t.entries.toList ∧ entry.2 ≠ .nil := by
  rw [pairs, List.mem_filter, Bool.not_eq_true', isNil_eq_false_iff]

/-- Values are found under the keys of the pairs and nowhere else. -/
theorem Valid.get_eq_iff (h : t.Valid) (hvalue : value ≠ .nil) :
    t.get key = value ↔ ∃ entry ∈ t.pairs, entry.1.keyForm = key.keyForm ∧ entry.2 = value := by
  constructor
  · rintro rfl
    by_cases hmem : ∃ entry ∈ t.entries.toList, entry.1.keyForm = key.keyForm
    · obtain ⟨entry, hentry, hform⟩ := hmem
      have hget := h.get_of_mem hentry hform
      exact ⟨entry, mem_pairs.2 ⟨hentry, hget ▸ hvalue⟩, hform, hget.symm⟩
    · refine absurd (h.get_of_not_mem fun entry hentry hform => ?_) hvalue
      exact hmem ⟨entry, hentry, hform⟩
  · rintro ⟨entry, hentry, hform, rfl⟩
    exact h.get_of_mem (mem_pairs.1 hentry).1 hform

/-- The pairs settle what is under the keys. -/
theorem Valid.get_eq_of_pairs_eq {t' : Table} (h : t.Valid) (h' : t'.Valid)
    (hpairs : t.pairs = t'.pairs) (k : Value) : t.get k = t'.get k := by
  by_cases hget : t'.get k = .nil
  · by_contra hne
    rw [hget] at hne
    obtain ⟨entry, hentry, hform, hvalue⟩ := (h.get_eq_iff hne).1 rfl
    rw [hpairs] at hentry
    exact hne (hget ▸ ((h'.get_eq_iff hne).2 ⟨entry, hentry, hform, hvalue⟩).symm)
  · exact (h.get_eq_iff hget).2 (hpairs ▸ (h'.get_eq_iff hget).1 rfl)

theorem valid_foldl_push {entries : List (Value × Value)} (h : t.Valid)
    (hkeys : ∀ entry ∈ entries, entry.1 ≠ .nil ∧ entry.1 ≠ .number .nan)
    (hvalues : ∀ entry ∈ entries, entry.2 ≠ .nil)
    (hforms : (t.entries.toList ++ entries).Pairwise fun a b => a.1.keyForm ≠ b.1.keyForm) :
    (entries.foldl (fun t entry => t.push entry.1 entry.2) t).Valid ∧
      (entries.foldl (fun t entry => t.push entry.1 entry.2) t).entries.toList =
        t.entries.toList ++ entries := by
  induction entries generalizing t with
  | nil => exact ⟨h, by simp⟩
  | cons entry rest ih =>
    rw [List.forall_mem_cons] at hkeys hvalues
    have hnone : ∀ other ∈ t.entries.toList, other.1.keyForm ≠ entry.1.keyForm := by
      intro other hother
      exact (List.pairwise_append.1 hforms).2.2 other hother entry (by simp)
    have hpush := h.push hkeys.1 hvalues.1 hnone
    rw [List.append_cons, ← toList_entries_push] at hforms
    obtain ⟨hvalid, hentries⟩ := ih hpush hkeys.2 hvalues.2 hforms
    refine ⟨hvalid, hentries.trans ?_⟩
    simp

/-- The table that is rebuilt from the pairs is valid, and has nothing but the pairs. -/
theorem Valid.rebuild (h : t.Valid) :
    (t.rebuild t.pairs).Valid ∧ (t.rebuild t.pairs).entries.toList = t.pairs := by
  have hvalid : Valid { metatable := t.metatable } := valid_empty.withMetatable t.metatable
  have hforms : (([] : List (Value × Value)) ++ t.pairs).Pairwise
      fun a b => a.1.keyForm ≠ b.1.keyForm := h.pairwise.filter _
  exact valid_foldl_push hvalid (fun entry hentry => h.keys entry (mem_pairs.1 hentry).1)
    (fun entry hentry => (mem_pairs.1 hentry).2) hforms

/-- Compaction drops no value, and adds nothing. -/
theorem Valid.compact (h : t.Valid) :
    t.compact.Valid ∧ t.compact.pairs = t.pairs ∧
      ∀ entry ∈ t.compact.entries.toList, entry ∈ t.entries.toList := by
  rw [Table.compact]
  split
  · obtain ⟨hrebuilt, hentries⟩ := h.rebuild
    refine ⟨hrebuilt, ?_, fun entry hentry => ?_⟩
    · rw [pairs, hentries]
      simp [pairs]
    · rw [hentries] at hentry
      exact (mem_pairs.1 hentry).1
  · exact ⟨h, rfl, fun _ => id⟩

/-! ## Changing a value -/

theorem toList_entries_replace (value : Value) {entry : Value × Value}
    (hentry : t.entries.toList[place]? = some entry) :
    t.entries.toList =
        t.entries.toList.take place ++ entry :: t.entries.toList.drop (place + 1) ∧
      (t.replace place value).entries.toList =
        t.entries.toList.take place ++ (entry.1, value) :: t.entries.toList.drop (place + 1) := by
  obtain ⟨hlt, rfl⟩ := List.getElem?_eq_some_iff.1 hentry
  refine ⟨?_, ?_⟩
  · rw [← List.drop_eq_getElem_cons hlt, List.take_append_drop]
  · rw [replace]
    dsimp only
    rw [Array.toList_modify, List.modify_eq_take_cons_drop hlt]

/-- The count is never taken below zero: an entry without a value has been counted. -/
theorem Valid.counted_replace (h : t.Valid) {entry : Value × Value}
    (hentry : t.entries.toList[place]? = some entry) :
    (t.replace place value).removed =
      (t.replace place value).entries.toList.countP fun entry => entry.2.isNil := by
  obtain ⟨hold, hnew⟩ := toList_entries_replace value hentry
  have hcounted := h.counted
  rw [hold, List.countP_append, List.countP_cons] at hcounted
  rw [hnew, List.countP_append, List.countP_cons, replace]
  dsimp only
  rw [valueAt_of_getElem? hentry, removedAfter]
  cases ho : entry.2.isNil <;> cases hn : value.isNil <;> simp [ho] at hcounted ⊢ <;> omega

theorem Valid.replace (h : t.Valid) (value : Value) {entry : Value × Value}
    (hentry : t.entries.toList[place]? = some entry) : (t.replace place value).Valid := by
  have hentries : (t.replace place value).entries.toList =
      t.entries.toList.modify place fun entry => (entry.1, value) := by
    simp [Table.replace]
  have hkeys : ∀ i : Nat, (t.replace place value).entries.toList[i]?.map Prod.fst =
      t.entries.toList[i]?.map Prod.fst := by
    intro i
    rw [hentries, List.getElem?_modify]
    split <;> cases t.entries.toList[i]? <;> rfl
  refine ⟨fun changed hmem => ?_, fun form i => ?_, h.counted_replace hentry⟩
  · obtain ⟨i, hi⟩ := List.mem_iff_getElem?.1 hmem
    have hkey := hkeys i
    rw [hi] at hkey
    obtain ⟨original, horiginal, hsame⟩ := Option.map_eq_some_iff.1 hkey.symm
    exact hsame ▸ h.keys original (List.mem_of_getElem? horiginal)
  · have hforms : (∃ changed : Value × Value,
        (t.replace place value).entries.toList[i]? = some changed ∧ changed.1.keyForm = form) ↔
        ∃ key, (t.replace place value).entries.toList[i]?.map Prod.fst = some key ∧
          key.keyForm = form := by
      simp
    rw [hforms, hkeys]
    refine (h.indexed form i).trans ?_
    simp

theorem Valid.get_replace (h : t.Valid) {entry : Value × Value}
    (hentry : t.entries.toList[place]? = some entry) (k : Value) :
    (t.replace place value).get k =
      if entry.1.keyForm = k.keyForm then value else t.get k := by
  obtain ⟨hold, hnew⟩ := toList_entries_replace value hentry
  have hvalid := h.replace value hentry
  split
  · next hform =>
    have hmem : (entry.1, value) ∈ (t.replace place value).entries.toList := by simp [hnew]
    exact hvalid.get_of_mem hmem hform
  · next hform =>
    refine (h.get_congr hvalid fun other hother => ?_).symm
    rw [hnew]
    nth_rewrite 1 [hold]
    have hne : other ≠ entry ∧ other ≠ (entry.1, value) := by
      constructor <;> rintro rfl <;> exact hform hother
    simp [hne.1, hne.2]

/-! ## Putting -/

theorem Valid.put (h : t.Valid) (value : Value) (hkey : key ≠ .nil ∧ key ≠ .number .nan) :
    (t.put key value).Valid ∧
      ∀ k, (t.put key value).get k = if key.keyForm = k.keyForm then value else t.get k := by
  rw [Table.put]
  cases hplace : t.place? key with
  | some place =>
    obtain ⟨entry, hentry, hform⟩ := (place?_eq_some h).1 hplace
    exact ⟨h.replace value hentry, fun k => hform ▸ h.get_replace hentry k⟩
  | none =>
    have hnone := (place?_eq_none h).1 hplace
    dsimp only
    split
    · next hnil =>
      refine ⟨h, fun k => ?_⟩
      split
      · next hform =>
        rw [isNil_iff.1 hnil]
        exact h.get_of_not_mem fun entry hentry => hform ▸ hnone entry hentry
      · rfl
    · next hvalue =>
      obtain ⟨hcompact, hpairs, hless⟩ := h.compact
      have hpush : (t.compact.push key value).Valid :=
        hcompact.push hkey (fun heq => hvalue (isNil_iff.2 heq))
          fun entry hentry => hnone entry (hless entry hentry)
      refine ⟨hpush, fun k => ?_⟩
      rw [hcompact.get_push hpush, hcompact.get_eq_of_pairs_eq h hpairs]

end LuaLang.Table
