import Mathlib
import LuaLang.Machine.Request
import LuaLang.Proofs.Table.History

/-!
# Heaps

The tables of a machine are named by numbers, and nothing in the type of a machine says that a name
that is found in a table is the name of a table. Machines keep it that way: the tables of a machine
at its start are valid and empty, a request changes one table at most, and the only values that come
into tables are those that the request brings along.

## Main definitions

* `Machine.Knows`: a value is no table, or a table of the machine.
* `Machine.SoundHeap`: tables are valid, and the tables that are found in tables are there.
* `Request.BringsKnown`: a request brings nothing unknown into tables.

## Main statements

* `Machine.soundHeap_start`, `Machine.SoundHeap.perform`: heaps are sound and stay sound.
-/

namespace LuaLang

variable {H : Host} {m u : Machine H} {key value : Value} {id : TableId}

namespace Machine

/-- If the value is a table, it is one that the machine has. -/
def Knows (m : Machine H) : Value → Prop
  | .table id => id.index < m.tables.size
  | _ => True

theorem Knows.mono (h : m.Knows value) (hsize : m.tables.size ≤ u.tables.size) :
    u.Knows value := by
  cases value with
  | table id => exact Nat.lt_of_lt_of_le h hsize
  | _ => trivial

/-- Every table is valid, and the tables that are found in tables are there. -/
structure SoundHeap (m : Machine H) : Prop where
  valid : ∀ id, (m.table id).Valid
  known : ∀ id key, m.Knows ((m.table id).get key)

/-! ## What becomes of single tables -/

theorem table_addTable (t : Table) (id : TableId) :
    (m.addTable t).2.table id = if id.index = m.tables.size then t else m.table id := by
  simp only [addTable, table, Array.getD_eq_getD_getElem?, Array.getElem?_push]
  split <;> rfl

/-- A table that is there is not one that is added. -/
theorem table_addTable_of_ne (t : Table) (h : m.table id ≠ .empty) :
    (m.addTable t).2.table id = m.table id := by
  rw [table_addTable, if_neg]
  intro hid
  refine h ?_
  rw [table, hid, Array.getD_eq_getD_getElem?, Array.getElem?_eq_none le_rfl]
  rfl

/-- A change to a table that is there shows in that table alone. -/
theorem table_modify (id other : TableId) (change : Table → Table) :
    ({ m with tables := m.tables.modify id.index change } : Machine H).table other =
      if other = id ∧ id.index < m.tables.size then change (m.table id) else m.table other := by
  simp only [table, Array.getD_eq_getD_getElem?, Array.getElem?_modify]
  by_cases hother : other = id
  · subst hother
    by_cases hid : other.index < m.tables.size <;> simp [hid]
  · have hindex : id.index ≠ other.index := fun heq => hother (by cases id; cases other; simp_all)
    rw [if_neg hindex, if_neg fun h => hother h.1]

theorem table_putEntry (id other : TableId) (key value : Value) :
    (m.putEntry id key value).table other =
      if other = id ∧ id.index < m.tables.size then (m.table id).put key value
      else m.table other :=
  table_modify id other (·.put key value)

theorem table_setMetatable (id other : TableId) (metatable : Option TableId) :
    (m.setMetatable id metatable).table other =
      if other = id ∧ id.index < m.tables.size then { m.table id with metatable }
      else m.table other :=
  table_modify id other ({ · with metatable })

/-! ## Sound heaps -/

theorem soundHeap_start (maxDepth : Nat) (memory : H.Memory) :
    (start maxDepth memory).SoundHeap := by
  have htable : ∀ id, (start maxDepth memory).table id = .empty := by
    intro id
    simp only [start, table, Array.getD_eq_getD_getElem?, Array.getElem?_replicate]
    split <;> rfl
  constructor
  · intro id
    rw [htable]
    exact Table.valid_empty
  · intro id key
    rw [htable, Table.get_empty]
    trivial

theorem SoundHeap.addTable (h : m.SoundHeap) {t : Table} (hvalid : t.Valid)
    (hknown : ∀ key, m.Knows (t.get key)) : (m.addTable t).2.SoundHeap := by
  have hsize : m.tables.size ≤ (m.addTable t).2.tables.size := by simp [Machine.addTable]
  constructor
  · intro id
    rw [table_addTable]
    split
    · exact hvalid
    · exact h.valid id
  · intro id key
    rw [table_addTable]
    split
    · exact (hknown key).mono hsize
    · exact (h.known id key).mono hsize

theorem SoundHeap.putEntry (h : m.SoundHeap) (hkey : Table.keyFault? key = none)
    (hvalue : m.Knows value) (id : TableId) : (m.putEntry id key value).SoundHeap := by
  obtain ⟨hvalid, hget⟩ := (h.valid id).put value ((Table.keyFault?_eq_none_iff key).1 hkey)
  have hsize : m.tables.size ≤ (m.putEntry id key value).tables.size := by simp [Machine.putEntry]
  constructor
  · intro other
    rw [table_putEntry]
    split
    · exact hvalid
    · exact h.valid other
  · intro other k
    refine Knows.mono ?_ hsize
    rw [table_putEntry]
    split
    · rw [hget]
      split
      · exact hvalue
      · exact h.known id k
    · exact h.known other k

theorem SoundHeap.setMetatable (h : m.SoundHeap) (id : TableId) (metatable : Option TableId) :
    (m.setMetatable id metatable).SoundHeap := by
  have hsize : m.tables.size ≤ (m.setMetatable id metatable).tables.size := by
    simp [Machine.setMetatable]
  constructor
  · intro other
    rw [table_setMetatable]
    split
    · exact (h.valid id).withMetatable metatable
    · exact h.valid other
  · intro other key
    refine Knows.mono ?_ hsize
    rw [table_setMetatable]
    split
    · exact h.known id key
    · exact h.known other key

end Machine

/-- A new table is valid and holds nothing unknown, and a value that is put into one is known. -/
def Request.BringsKnown (m : Machine H) : Request H → Prop
  | .addTable t => t.Valid ∧ ∀ key, m.Knows (t.get key)
  | .set _ _ value => m.Knows value
  | _ => True

/-- A request keeps a heap sound if it brings nothing unknown into tables. -/
theorem Machine.SoundHeap.perform (h : m.SoundHeap) {request : Request H}
    (hknown : request.BringsKnown m) : (m.perform request).2.SoundHeap := by
  cases request with
  | addTable t => exact h.addTable hknown.1 hknown.2
  | set id key value =>
    rw [Machine.perform]
    split
    · exact h
    · next hkey => exact h.putEntry hkey hknown id
  | setMetatable id metatable => exact h.setMetatable id metatable
  | prepare slot =>
    rw [Machine.perform, prepare]
    split
    · exact h
    · exact ⟨h.valid, h.known⟩
  | enter frame =>
    rw [Machine.perform, enter]
    split
    · exact ⟨h.valid, h.known⟩
    · exact h
  | _ => exact ⟨h.valid, h.known⟩

end LuaLang
