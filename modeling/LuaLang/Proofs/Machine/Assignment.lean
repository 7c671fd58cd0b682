import Mathlib
import LuaLang.Proofs.Machine.Heap
import LuaLang.Proofs.Machine.Links

/-!
# Writing changes one entry or nothing

Writing `base[key]` goes along the chain of handlers to the first table that already holds the key
or has no handler, and puts the value there. As long as no handler on the way is a function, that is
all it does: nothing else in that table, no other table and no metatable changes, and if the writing
fails, nothing changes at all.

## Main definitions

* `Machine.IsTarget`: the table that takes the value.
* `Machine.WritesOnly`: what changes and what stays.

## Main statements

* `Machine.writesOnly_putEntry`: putting an entry changes one key of one table.
* `Routine.newIndex_writes_one_slot`: what comes of writing.
-/

namespace LuaLang

variable {H : Host} {m u : Machine H} {base key value : Value} {id : TableId} {i links : Nat}

/-! ## Tables keep their metatables -/

namespace Table

theorem metatable_foldl_push (t : Table) (entries : List (Value × Value)) :
    (entries.foldl (fun t entry => t.push entry.1 entry.2) t).metatable = t.metatable := by
  induction entries generalizing t with
  | nil => rfl
  | cons entry rest ih => exact ih (t.push entry.1 entry.2)

theorem metatable_compact (t : Table) : t.compact.metatable = t.metatable := by
  rw [compact]
  split
  · exact metatable_foldl_push { metatable := t.metatable } t.pairs
  · rfl

theorem metatable_put (t : Table) (key value : Value) :
    (t.put key value).metatable = t.metatable := by
  rw [put]
  cases t.place? key with
  | some place => rfl
  | none =>
    dsimp only
    split
    · rfl
    · exact t.metatable_compact

end Table

namespace Machine

/-! ## Heaps -/

theorem SoundHeap.knows_metamethod (h : m.SoundHeap) {method : Metamethod} {handler : Value}
    (hhandler : m.metamethod value method = some handler) : m.Knows handler := by
  obtain ⟨id, -, hget⟩ := Option.bind_eq_some_iff.1 hhandler
  dsimp only at hget
  split at hget
  · cases hget
  · cases hget
    exact h.known id _

theorem SoundHeap.knows_link (h : m.SoundHeap) (hbase : m.Knows base) {method : Metamethod}
    (hlink : m.link method base i = some value) : m.Knows value := by
  cases i with
  | zero =>
    cases hlink
    exact hbase
  | succ i =>
    obtain ⟨before, -, hhandler⟩ := link_succ_eq_some.1 hlink
    exact h.knows_metamethod hhandler

/-! ## Putting an entry -/

/-- The second machine differs from the first one in the value under one key of one table, and in
nothing else. -/
structure WritesOnly (m u : Machine H) (id : TableId) (key value : Value) : Prop where
  written : (u.table id).get key = value
  otherKeys : ∀ k, key.rawEqual k = false → (u.table id).get k = (m.table id).get k
  otherTables : ∀ other, other ≠ id → u.table other = m.table other
  metatables : ∀ other, (u.table other).metatable = (m.table other).metatable
  count : u.tables.size = m.tables.size
  rest : { u with tables := m.tables } = m

theorem writesOnly_putEntry (hvalid : (m.table id).Valid) (hid : id.index < m.tables.size)
    (hkey : Table.keyFault? key = none) (value : Value) :
    m.WritesOnly (m.putEntry id key value) id key value := by
  have hfine := (Table.keyFault?_eq_none_iff key).1 hkey
  obtain ⟨-, hget⟩ := hvalid.put value hfine
  constructor
  · rw [table_putEntry, if_pos ⟨rfl, hid⟩, hget, if_pos rfl]
  · intro k hk
    rw [table_putEntry, if_pos ⟨rfl, hid⟩, hget, if_neg]
    intro hform
    rw [(Value.rawEqual_iff key k).2 ⟨hform, hfine.2⟩] at hk
    cases hk
  · intro other hother
    rw [table_putEntry, if_neg fun h => hother h.1]
  · intro other
    rw [table_putEntry]
    split
    · next h => rw [Table.metatable_put, h.1]
    · rfl
  · simp [putEntry]
  · rfl

/-! ## The table that takes the value -/

/-- The link `i` is the first table on the chain that already holds the key or has no handler. -/
structure IsTarget (m : Machine H) (base key : Value) (i : Nat) (id : TableId) : Prop where
  link : m.link .newIndex base i = some (.table id)
  takes : (m.table id).get key ≠ .nil ∨ m.metamethod (.table id) .newIndex = none
  first : ∀ j < i, ∀ other, m.link .newIndex base j = some (.table other) →
    (m.table other).get key = .nil ∧ m.metamethod (.table other) .newIndex ≠ none

theorem IsTarget.misses (h : m.IsTarget base key i id) : m.Misses .newIndex base key i :=
  fun j hj other hother => (h.first j hj other hother).1

theorem isTarget_of_misses (hlink : m.link .newIndex base i = some (.table id))
    (hmisses : m.Misses .newIndex base key i)
    (htakes : (m.table id).get key ≠ .nil ∨ m.metamethod (.table id) .newIndex = none) :
    m.IsTarget base key i id := by
  refine ⟨hlink, htakes, fun j hj other hother => ⟨hmisses j hj other hother, ?_⟩⟩
  have hgoes : m.link .newIndex base i ≠ none := by simp [hlink]
  rw [← link_succ hother]
  exact link_ne_none_of_le hgoes hj

/-- A chain goes on for 100 links without the key, or there is a table that takes the value, or the
chain ends at something that is no table. -/
theorem target_cases (m : Machine H) (base key : Value) :
    (m.Misses .newIndex base key 100 ∧ m.link .newIndex base 100 ≠ none) ∨
      (∃ i < 100, ∃ id, m.IsTarget base key i id) ∨
      ∃ i < 100, ∃ link, m.link .newIndex base i = some link ∧ link.kind ≠ .table ∧
        m.Misses .newIndex base key i ∧ m.metamethod link .newIndex = none := by
  obtain hundecided | ⟨i, hi, link, hlink, hmisses, ⟨id, rfl, hget⟩ | ⟨-, hnone⟩⟩ :=
    m.link_cases .newIndex base key 100
  · exact .inl hundecided
  · exact .inr (.inl ⟨i, hi, id, isTarget_of_misses hlink hmisses (.inl hget)⟩)
  · rw [link_succ hlink] at hnone
    cases link with
    | table id => exact .inr (.inl ⟨i, hi, id, isTarget_of_misses hlink hmisses (.inr hnone)⟩)
    | _ => exact .inr (.inr ⟨i, hi, _, hlink, nofun, hmisses, hnone⟩)

end Machine

namespace Routine

variable {call : Invoker H}

/-! ## One link -/

theorem run_setEntry (id : TableId) (key value : Value) :
    (setEntry id key value).run call m =
      match Table.keyFault? key with
      | some e => some (.error (.ofMessage m.stack e.message), m)
      | none => some (.ok (), m.putEntry id key value) := by
  have hset : (set id key value).run call m =
      some (.ok (m.perform (.set id key value)).1, (m.perform (.set id key value)).2) := rfl
  rw [setEntry, run_bind, hset, Machine.perform]
  cases Table.keyFault? key <;> rfl

theorem run_writeHandler_of_misses
    (hmisses : ∀ id, base = .table id → (m.table id).get key = .nil) :
    (writeHandler base key).run call m = some (.ok (m.metamethod base .newIndex), m) := by
  rw [writeHandler, run_bind, run_ownEntry_of_misses hmisses]
  exact run_metamethod base .newIndex

theorem run_writeHandler_of_takes
    (h : (m.table id).get key ≠ .nil ∨ m.metamethod (.table id) .newIndex = none) :
    (writeHandler (.table id) key).run call m = some (.ok none, m) := by
  by_cases hget : (m.table id).get key = .nil
  · rw [run_writeHandler_of_misses, h.resolve_left (not_not.2 hget)]
    rintro other ⟨⟩
    exact hget
  · have hholds : ((m.table id).get key).isNil = false := Table.isNil_eq_false_iff.2 hget
    rw [writeHandler, run_bind, run_ownEntry_table, hholds]
    rfl

/-- A table that takes the value is written to, if nothing is wrong with the key. -/
theorem run_newIndexWithin_of_takes
    (h : (m.table id).get key ≠ .nil ∨ m.metamethod (.table id) .newIndex = none) :
    (newIndexWithin (links + 1) (.table id) key value).run call m =
      (setEntry id key value).run call m := by
  unfold newIndexWithin
  rw [run_bind, run_writeHandler_of_takes h]

/-- A handler that is not a function takes the place of the base. -/
theorem run_newIndexWithin_of_handler {handler : Value}
    (hmisses : ∀ id, base = .table id → (m.table id).get key = .nil)
    (h : m.metamethod base .newIndex = some handler) (hfunction : ∀ id, handler ≠ .function id) :
    (newIndexWithin (links + 1) base key value).run call m =
      (newIndexWithin links handler key value).run call m := by
  conv_lhs => unfold newIndexWithin
  rw [run_bind, run_writeHandler_of_misses hmisses, h]
  cases handler with
  | function id => exact absurd rfl (hfunction id)
  | _ => rfl

theorem run_newIndexWithin_of_none (hkind : base.kind ≠ .table)
    (h : m.metamethod base .newIndex = none) :
    (newIndexWithin (links + 1) base key value).run call m =
      some (.error (.ofMessage m.stack ("attempt to index a " ++ base.kind.name ++ " value")),
        m) := by
  unfold newIndexWithin
  rw [run_bind, run_writeHandler_of_misses, h]
  · cases base with
    | table id => exact absurd rfl hkind
    | _ => rfl
  · rintro id rfl
    exact absurd rfl hkind

/-! ## Whole chains -/

/-- Writing to a base is writing to any link before the decision, with fewer links to go. -/
theorem run_newIndex_of_link {link : Value} (h : m.MeetsNoFunction .newIndex base key)
    (hcount : links + i = 100) (hmisses : m.Misses .newIndex base key i)
    (hlink : m.link .newIndex base i = some link) :
    (newIndex base key value).run call m = (newIndexWithin links link key value).run call m := by
  rw [newIndex, maxLinks, ← hcount]
  exact run_eq_of_link (fun links link => newIndexWithin links link key value)
    (fun _ _ _ hmisses => run_newIndexWithin_of_handler hmisses) hmisses
    (h.link_ne (by omega) hmisses) hlink links

theorem run_newIndex_of_isTarget (h : m.MeetsNoFunction .newIndex base key) (hi : i < 100)
    (htarget : m.IsTarget base key i id) :
    (newIndex base key value).run call m =
      match Table.keyFault? key with
      | some e => some (.error (.ofMessage m.stack e.message), m)
      | none => some (.ok (), m.putEntry id key value) := by
  obtain ⟨links, hcount⟩ : ∃ links, links + 1 + i = 100 := ⟨99 - i, by omega⟩
  rw [run_newIndex_of_link h hcount htarget.misses htarget.link,
    run_newIndexWithin_of_takes htarget.takes, run_setEntry]

/-- As long as no handler that is met is a function, writing `base[key]` either succeeds and has
changed the value under one key of one table, namely of the first one on the chain, among 100 links,
that already held the key or had no handler; or it fails and has changed nothing, because the chain
ends at something that is no table, because the key is nil or NaN, or because the first 100 links
neither hold the key nor end the chain. -/
theorem newIndex_writes_one_slot (call : Invoker H) (hheap : m.SoundHeap) (hbase : m.Knows base)
    (h : m.MeetsNoFunction .newIndex base key) (value : Value) :
    (∃ i < 100, ∃ id u, (newIndex base key value).run call m = some (.ok (), u) ∧
      m.IsTarget base key i id ∧ m.WritesOnly u id key value) ∨
    ∃ e, (newIndex base key value).run call m = some (.error e, m) ∧
      ((∃ i < 100, ∃ link, m.link .newIndex base i = some link ∧ link.kind ≠ .table ∧
          m.Misses .newIndex base key i ∧ m.metamethod link .newIndex = none ∧
          e = .ofMessage m.stack ("attempt to index a " ++ link.kind.name ++ " value")) ∨
        (∃ i < 100, ∃ id, m.IsTarget base key i id ∧
          (key = .nil ∧ e = .ofMessage m.stack "table index is nil" ∨
            key = .number .nan ∧ e = .ofMessage m.stack "table index is NaN")) ∨
        m.Misses .newIndex base key 100 ∧ m.link .newIndex base 100 ≠ none ∧
          e = .ofMessage m.stack "loop in settable") := by
  obtain ⟨hmisses, hlink⟩ | ⟨i, hi, id, htarget⟩ | ⟨i, hi, link, hlink, hkind, hmisses, hnone⟩ :=
    m.target_cases base key
  · obtain ⟨link, hlast⟩ := Option.ne_none_iff_exists'.1 hlink
    refine .inr ⟨_, ?_, .inr (.inr ⟨hmisses, hlink, rfl⟩)⟩
    rw [run_newIndex_of_link h (Nat.zero_add 100) hmisses hlast]
    rfl
  · rw [run_newIndex_of_isTarget h hi htarget]
    cases hfault : Table.keyFault? key with
    | none =>
      have hid : id.index < m.tables.size := hheap.knows_link hbase htarget.link
      exact .inl ⟨i, hi, id, _, rfl, htarget,
        Machine.writesOnly_putEntry (hheap.valid id) hid hfault value⟩
    | some e =>
      refine .inr ⟨_, rfl, .inr (.inl ⟨i, hi, id, htarget, ?_⟩)⟩
      obtain ⟨rfl, hkey⟩ | ⟨rfl, hkey⟩ := Table.keyFault?_eq_some hfault
      · exact .inl ⟨hkey, rfl⟩
      · exact .inr ⟨hkey, rfl⟩
  · obtain ⟨links, hcount⟩ : ∃ links, links + 1 + i = 100 := ⟨99 - i, by omega⟩
    refine .inr ⟨_, ?_, .inl ⟨i, hi, link, hlink, hkind, hmisses, hnone, rfl⟩⟩
    rw [run_newIndex_of_link h hcount hmisses hlink, run_newIndexWithin_of_none hkind hnone]

/-- What is written to a table that hands on to another one ends up in the other one. -/
theorem newIndex_writes_one_slot_proxy :
    let host : Host := ⟨Unit, Unit⟩
    let call : Invoker host := fun _ _ _ => none
    let linked : Machine host := ((Machine.start 5 ()).perform (.setMetatable ⟨0⟩ (some ⟨1⟩))).2
    let m := (linked.perform (.set ⟨1⟩ (.string "__newindex") (.table ⟨2⟩))).2
    ∃ u, (newIndex (.table ⟨0⟩) (.string "k") (.boolean true)).run call m = some (.ok (), u) ∧
      (u.table ⟨2⟩).get (.string "k") = .boolean true ∧ u.table ⟨0⟩ = m.table ⟨0⟩ ∧
      u.table ⟨1⟩ = m.table ⟨1⟩ := by
  intro host call linked m
  have hstart := Machine.soundHeap_start (H := host) 5 ()
  have hlinked : linked.SoundHeap := by
    refine hstart.perform ?_
    trivial
  have hheap : m.SoundHeap := by
    refine hlinked.perform ?_
    exact (by decide : 2 < 5)
  have hbare : ∀ key, (m.table ⟨0⟩).get key = .nil := Table.get_empty
  have hget : (m.table ⟨1⟩).get (.string "__newindex") = .table ⟨2⟩ :=
    (Machine.writesOnly_putEntry (hlinked.valid ⟨1⟩) (by decide : 1 < 5) rfl (.table ⟨2⟩)).written
  have hhandler : m.link .newIndex (.table ⟨0⟩) 1 = some (.table ⟨2⟩) :=
    (Machine.link_succ rfl).trans (Machine.metamethod_of_get rfl hget nofun)
  have hend : m.link .newIndex (.table ⟨0⟩) 2 = none := (Machine.link_succ hhandler).trans rfl
  have hlinks : ∀ i link, m.link .newIndex (.table ⟨0⟩) i = some link →
      i = 0 ∧ link = .table ⟨0⟩ ∨ i = 1 ∧ link = .table ⟨2⟩ := by
    rintro (_ | _ | i) link hlink
    · exact .inl ⟨rfl, (Option.some.inj hlink).symm⟩
    · exact .inr ⟨rfl, Option.some.inj (hlink.symm.trans hhandler)⟩
    · exact absurd hend (Machine.link_ne_none_of_le (by simp [hlink]) (Nat.le_add_left 2 i))
  have hplain : m.MeetsNoFunction .newIndex (.table ⟨0⟩) (.string "k") := by
    intro i _ _ id hid
    obtain ⟨-, ⟨⟩⟩ | ⟨-, ⟨⟩⟩ := hlinks (i + 1) _ hid
  have hbase : m.Knows (.table ⟨0⟩) := (by decide : 0 < 5)
  obtain ⟨i, -, id, u, hrun, htarget, hwrites⟩ | ⟨e, -, hfails⟩ :=
    newIndex_writes_one_slot call hheap hbase hplain (.boolean true)
  · obtain ⟨rfl, ⟨⟩⟩ | ⟨-, ⟨⟩⟩ := hlinks i _ htarget.link
    · obtain hholds | hnone := htarget.takes
      · exact absurd (hbare _) hholds
      · cases hhandler.symm.trans ((Machine.link_succ htarget.link).trans hnone)
    · exact ⟨u, hrun, hwrites.written, hwrites.otherTables _ nofun, hwrites.otherTables _ nofun⟩
  · obtain ⟨i, -, link, hlink, hkind, -⟩ | ⟨-, -, -, -, ⟨⟨⟩, -⟩ | ⟨⟨⟩, -⟩⟩ | ⟨-, hgoes, -⟩ := hfails
    · obtain ⟨-, rfl⟩ | ⟨-, rfl⟩ := hlinks i _ hlink <;> exact absurd rfl hkind
    · exact absurd hend (Machine.link_ne_none_of_le hgoes (by decide))

end Routine

end LuaLang
