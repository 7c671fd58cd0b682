import Mathlib
import LuaLang.Proofs.Table.History

/-!
# Entries without a value do not pile up

A table keeps the entry of a key whose value was taken away, until a new key comes at a time when
such entries are at least eight and at least half of all. So a new key either finds the entries
without a value few, or finds them dropped, and in between no entry is added. The number of entries
is then bounded by how many keys have had a value at one time, whatever was assigned and taken away.

## Main definitions

* `Table.held`: how many keys have a value.
* `Table.peak`: how many keys have had a value at the same time, at most, in the course of a
  history.
* `Table.room`: how many entries there may be for such a number of keys.

## Main statements

* `Table.Valid.isGreatest_held`: what `held` counts.
* `Table.Valid.size_put`, `Table.Valid.size_assignAll`: the bound after one assignment, and after a
  history.
* `Table.entries_bounded`: what follows for tables that are made from lists.
-/

namespace LuaLang.Table

variable {t : Table} {key value : Value}

/-! ## Keys that have a value -/

/-- How many keys have a value. -/
def held (t : Table) : Nat :=
  t.pairs.length

/-- Keys of which no two are raw equal, and each of which has a value. -/
def HoldsAll (t : Table) (keys : List Value) : Prop :=
  keys.Pairwise (fun a b => a.rawEqual b = false) ∧ ∀ k ∈ keys, t.get k ≠ .nil

theorem Valid.holdsAll_pairs (h : t.Valid) : t.HoldsAll (t.pairs.map Prod.fst) := by
  refine ⟨List.pairwise_map.2 (h.pairwise_rawEqual.filter _), fun k hk => ?_⟩
  obtain ⟨entry, hentry, rfl⟩ := List.mem_map.1 hk
  obtain ⟨hmem, hvalue⟩ := mem_pairs.1 hentry
  rwa [h.get_of_mem hmem rfl]

/-- NaN has a form of its own. -/
theorem eq_nan_of_keyForm (h : key.keyForm = (Value.number .nan).keyForm) :
    key = .number .nan := by
  cases key with
  | number x =>
    by_cases hx : x = .zero true <;> simp_all [Value.keyForm, Number.zero]
  | _ => simp [Value.keyForm] at h

/-- The forms of keys that have a value are among those of the pairs, each at most once. -/
theorem Valid.length_le_held (h : t.Valid) {keys : List Value} (hkeys : t.HoldsAll keys) :
    keys.length ≤ t.held := by
  obtain ⟨hdistinct, hvalues⟩ := hkeys
  have hnan : ∀ k ∈ keys, k ≠ .number .nan := by
    rintro k hk rfl
    obtain ⟨entry, hentry, hform, -⟩ := (h.get_eq_iff (hvalues _ hk)).1 rfl
    exact (h.keys entry (mem_pairs.1 hentry).1).2 (eq_nan_of_keyForm hform)
  have hnodup : (keys.map Value.keyForm).Nodup := by
    refine List.pairwise_map.2 (hdistinct.imp_of_mem fun ha _ hne hform => ?_)
    rw [(Value.rawEqual_iff _ _).2 ⟨hform, hnan _ ha⟩] at hne
    cases hne
  have hsubset : keys.map Value.keyForm ⊆ t.pairs.map fun entry => entry.1.keyForm := by
    intro form hmem
    obtain ⟨k, hk, rfl⟩ := List.mem_map.1 hmem
    obtain ⟨entry, hentry, hform, -⟩ := (h.get_eq_iff (hvalues k hk)).1 rfl
    exact List.mem_map.2 ⟨entry, hentry, hform⟩
  simpa [held] using (List.subperm_of_subset hnodup hsubset).length_le

theorem Valid.isGreatest_held (h : t.Valid) :
    IsGreatest {n | ∃ keys, t.HoldsAll keys ∧ keys.length = n} t.held := by
  refine ⟨⟨t.pairs.map Prod.fst, h.holdsAll_pairs, by simp [held]⟩, ?_⟩
  rintro n ⟨keys, hkeys, rfl⟩
  exact h.length_le_held hkeys

/-- An entry has a value, or it has been counted as one that has none. -/
theorem Valid.size_eq (h : t.Valid) : t.entries.size = t.held + t.removed := by
  rw [h.counted, held, pairs, ← List.countP_eq_length_filter, ← Array.length_toList, Nat.add_comm,
    t.entries.toList.length_eq_countP_add_countP fun entry => entry.2.isNil]
  simp

/-! ## One assignment -/

/-- How many entries a table may have if so many keys have had a value at the same time. -/
def room (keys : Nat) : Nat :=
  max (2 * keys) (keys + 7)

theorem room_mono {m n : Nat} (h : m ≤ n) : room m ≤ room n := by
  simp only [room]
  omega

/-- After compaction there is room for one more key. -/
theorem Valid.size_compact (h : t.Valid) : t.compact.entries.size + 1 ≤ room (t.held + 1) := by
  rw [Table.compact]
  split
  · have hsize : (t.rebuild t.pairs).entries.size = t.held := by
      rw [← Array.length_toList, h.rebuild.2, held]
    simp only [hsize, room]
    omega
  · next hdense =>
    have hsize := h.size_eq
    simp only [isSparse, Bool.and_eq_true, decide_eq_true_eq] at hdense
    simp only [room]
    omega

theorem pairs_push (hvalue : value ≠ .nil) :
    (t.push key value).pairs = t.pairs ++ [(key, value)] := by
  simp [pairs, isNil_eq_false_iff.2 hvalue]

/-- Putting a value adds no entry, or one for which there is room. -/
theorem Valid.size_put (h : t.Valid) (key value : Value) :
    (t.put key value).entries.size ≤ max t.entries.size (room (t.put key value).held) := by
  rw [Table.put]
  cases t.place? key with
  | some place =>
    have hsize : (t.replace place value).entries.size = t.entries.size := by simp [Table.replace]
    exact hsize.le.trans (le_max_left _ _)
  | none =>
    dsimp only
    split
    · exact le_max_left _ _
    · next hvalue =>
      have hheld : (t.compact.push key value).held = t.held + 1 := by
        rw [held, pairs_push fun heq => hvalue (isNil_iff.2 heq), h.compact.2.1]
        simp [held]
      have hsize : (t.compact.push key value).entries.size = t.compact.entries.size + 1 := by
        simp [Table.push]
      rw [hheld, hsize]
      exact h.size_compact.trans (le_max_right _ _)

theorem Valid.size_assign (h : t.Valid) (key value : Value) :
    (t.assign key value).entries.size ≤ max t.entries.size (room (t.assign key value).held) := by
  rw [Table.assign, set]
  cases keyFault? key with
  | some e => exact le_max_left _ _
  | none => exact h.size_put key value

/-! ## Histories -/

/-- How many keys have had a value at the same time, at most, from the start of a history on. -/
def peak (t : Table) : List (Value × Value) → Nat
  | [] => t.held
  | entry :: rest => max t.held ((t.assign entry.1 entry.2).peak rest)

theorem held_le_peak (t : Table) (history : List (Value × Value)) : t.held ≤ t.peak history := by
  cases history with
  | nil => exact le_rfl
  | cons entry rest => exact le_max_left _ _

theorem isGreatest_peak (t : Table) (history : List (Value × Value)) :
    IsGreatest {n | ∃ past, past <+: history ∧ (t.assignAll past).held = n} (t.peak history) := by
  induction history generalizing t with
  | nil =>
    refine ⟨⟨[], List.prefix_refl _, rfl⟩, ?_⟩
    rintro n ⟨past, hpast, rfl⟩
    rw [List.prefix_nil.1 hpast]
    exact le_rfl
  | cons entry rest ih =>
    obtain ⟨⟨past, hpast, hheld⟩, hle⟩ := ih (t.assign entry.1 entry.2)
    constructor
    · rcases max_choice t.held ((t.assign entry.1 entry.2).peak rest) with hmax | hmax
      · exact ⟨[], List.nil_prefix, hmax.symm⟩
      · exact ⟨entry :: past, List.cons_prefix_cons.2 ⟨rfl, hpast⟩, hheld.trans hmax.symm⟩
    · rintro n ⟨past, hpast, rfl⟩
      cases past with
      | nil => exact le_max_left _ _
      | cons first past =>
        obtain ⟨rfl, hrest⟩ := List.cons_prefix_cons.1 hpast
        exact (hle ⟨past, hrest, rfl⟩).trans (le_max_right _ _)

/-- A table that has no more entries than there is room for stays so. -/
theorem Valid.size_assignAll (h : t.Valid) {keys : Nat} (hsize : t.entries.size ≤ room keys)
    (history : List (Value × Value)) :
    (t.assignAll history).entries.size ≤ room (max keys (t.peak history)) := by
  induction history generalizing t keys with
  | nil => exact hsize.trans (room_mono (le_max_left _ _))
  | cons entry rest ih =>
    have hnext : (t.assign entry.1 entry.2).entries.size ≤
        room (max keys (t.assign entry.1 entry.2).held) := by
      refine (h.size_assign entry.1 entry.2).trans (max_le (hsize.trans ?_) ?_)
      · exact room_mono (le_max_left _ _)
      · exact room_mono (le_max_right _ _)
    refine (ih (h.assign entry.1 entry.2).1 hnext).trans (room_mono ?_)
    have hheld := held_le_peak (t.assign entry.1 entry.2) rest
    simp only [peak]
    omega

theorem removed_pushFrom (t : Table) (position : UInt32) (values : List Value) :
    (t.pushFrom position values).removed = t.removed := by
  induction values generalizing t position with
  | nil => rfl
  | cons first rest ih =>
    rw [pushFrom, ih]
    split <;> rfl

/-- A table that is made from a list, the empty one among them, has after any assignments at most
twice as many entries as keys have had a value at the same time, or seven more than that. Here the
keys that have a value are counted without regard to the entries: as the longest list of keys that
all have one and of which no two are raw equal. Compaction, at whatever time, changes neither the
pairs nor their order, and nothing under any key. -/
theorem entries_bounded {values : List Value} (hlength : values.length < 2 ^ 32)
    (history : List (Value × Value)) {t u : Table} (ht : t = ofList values)
    (hu : u = t.assignAll history) :
    u.entries.size ≤ max (2 * t.peak history) (t.peak history + 7) ∧
      IsGreatest {n | ∃ past, past <+: history ∧ (t.assignAll past).held = n} (t.peak history) ∧
      IsGreatest {n | ∃ keys, u.HoldsAll keys ∧ keys.length = n} u.held ∧
      u.compact.pairs = u.pairs ∧ ∀ k, u.compact.get k = u.get k := by
  subst ht hu
  have hlist := (valid_ofList hlength).1
  have hvalid := (hlist.assignAll history).1
  have hstart : (ofList values).entries.size ≤ room (ofList values).held := by
    have hremoved : (ofList values).removed = 0 := removed_pushFrom empty 1 values
    rw [hlist.size_eq, hremoved, room]
    omega
  have hbound := hlist.size_assignAll hstart history
  rw [max_eq_right (held_le_peak _ history)] at hbound
  obtain ⟨hcompact, hpairs, -⟩ := hvalid.compact
  exact ⟨hbound, isGreatest_peak _ history, hvalid.isGreatest_held, hpairs,
    hcompact.get_eq_of_pairs_eq hvalid hpairs⟩

/-- Eight names get a value and lose it, one after the other. There are as many entries then as the
bound allows, and a ninth name finds them dropped. -/
theorem entries_bounded_passing :
    let history : List (Value × Value) := ["a", "b", "c", "d", "e", "f", "g", "h"].flatMap
      fun name => [(.string name, .boolean true), (.string name, .nil)]
    let passed := (ofList []).assignAll history
    passed.entries.size = 8 ∧ passed.entries.size ≤ max (2 * 1) (1 + 7) ∧ passed.pairs = [] ∧
      (passed.assign (.string "i") (.boolean true)).entries.size = 1 := by
  intro history passed
  have hpeak : (ofList []).peak history = 1 := by
    simp [history, peak, held, pairs, assign, set, keyFault?, put, place?, ofList, pushFrom, empty,
      Value.isNil, compact, isSparse, push, Value.keyForm, replace, removedAfter, valueAt]
  have hpassed : passed.entries.size = 8 ∧ passed.pairs = [] ∧
      (passed.assign (.string "i") (.boolean true)).entries.size = 1 := by
    simp [history, passed, assignAll, rebuild, pairs, assign, set, keyFault?, put, place?, ofList,
      pushFrom, empty, Value.isNil, compact, isSparse, push, Value.keyForm, replace, removedAfter,
      valueAt]
  have hlength : ([] : List Value).length < 2 ^ 32 := by decide
  obtain ⟨hbound, -⟩ := entries_bounded hlength history rfl rfl
  rw [hpeak] at hbound
  exact ⟨hpassed.1, hbound, hpassed.2⟩

end LuaLang.Table
