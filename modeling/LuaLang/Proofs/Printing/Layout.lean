import Mathlib
import LuaLang.Text.Basic

/-!
# Layout

A block that stands inside another one is printed with a tab in front of each of its lines, once for
each block around it. What matters of that is that tabs are put after line ends and nowhere else.

## Main definitions

* `Respaced`: a text with tabs put after its line ends.
* `Text.IsLines`: a text of whole lines.

## Main statements

* `Respaced.of_indent`: an indented text is a tab and a respaced text.
-/

namespace LuaLang

/-- The second text is the first one with any number of tabs after each line end. -/
inductive Respaced : List Char → List Char → Prop
  | nil : Respaced [] []
  | char {c : Char} {cs t : List Char} : c ≠ '\n' → Respaced cs t → Respaced (c :: cs) (c :: t)
  | line {cs t : List Char} (tabs : Nat) :
    Respaced cs t → Respaced ('\n' :: cs) ('\n' :: (List.replicate tabs '\t' ++ t))

namespace Respaced

theorem refl (cs : List Char) : Respaced cs cs := by
  induction cs with
  | nil => exact .nil
  | cons c cs ih =>
    by_cases hc : c = '\n'
    · rw [hc]
      exact .line 0 ih
    · exact .char hc ih

/-- Tabs that follow the last line end of the first part belong to it. -/
theorem of_append {as bs t : List Char} (h : Respaced (as ++ bs) t) :
    ∃ u v, t = u ++ v ∧ Respaced as u ∧ Respaced bs v := by
  induction as generalizing t with
  | nil => exact ⟨[], t, rfl, .nil, h⟩
  | cons a as ih =>
    cases h with
    | char hc h =>
      obtain ⟨u, v, rfl, hu, hv⟩ := ih h
      exact ⟨a :: u, v, rfl, .char hc hu, hv⟩
    | line tabs h =>
      obtain ⟨u, v, rfl, hu, hv⟩ := ih h
      exact ⟨'\n' :: (List.replicate tabs '\t' ++ u), v, by simp, .line tabs hu, hv⟩

theorem head?_eq {cs t : List Char} (h : Respaced cs t) : t.head? = cs.head? := by
  cases h <;> rfl

/-- A text on one line stays as it is. -/
theorem eq_of_plain {cs t : List Char} (h : Respaced cs t) (hcs : '\n' ∉ cs) : t = cs := by
  induction h with
  | nil => rfl
  | char _ _ ih => rw [ih fun hmem => hcs (List.mem_cons_of_mem _ hmem)]
  | line => exact absurd (List.mem_cons_self ..) hcs

end Respaced

namespace Text

/-- The text consists of whole lines. -/
def IsLines (cs : List Char) : Prop :=
  cs = [] ∨ cs.getLast? = some '\n'

theorem isLines_append {as bs : List Char} (ha : IsLines as) (hb : IsLines bs) :
    IsLines (as ++ bs) := by
  obtain rfl | hb := hb
  · simpa using ha
  · exact .inr (by simp [List.getLast?_append, hb])

theorem IsLines.tail {c : Char} {cs : List Char} (h : IsLines (c :: cs)) :
    IsLines cs ∧ (cs = [] → c = '\n') := by
  obtain h | h := h
  · cases h
  · cases cs with
    | nil => exact ⟨.inl rfl, fun _ => by simpa using h⟩
    | cons d cs => exact ⟨.inr (by rwa [List.getLast?_cons_cons] at h), by simp⟩

/-- What `indentChars` adds to the text that it is given. -/
def indented : List Char → Bool → List Char
  | [], fresh => if fresh then [] else ['\n']
  | c :: cs, fresh => (if fresh then ['\t'] else []) ++ c :: indented cs (c = '\n')

theorem toList_indentChars {cs : List Char} (h : '\r' ∉ cs) (fresh : Bool) (out : String) :
    (indentChars cs fresh out).toList = out.toList ++ indented cs fresh := by
  induction cs generalizing fresh out with
  | nil => cases fresh <;> simp [indentChars, indented]
  | cons c cs ih =>
    have hc : c ≠ '\r' := fun hc => h (by simp [hc])
    have hcs : '\r' ∉ cs := fun hmem => h (List.mem_cons_of_mem _ hmem)
    rw [indentChars]
    · rw [ih hcs, indented]
      cases fresh <;> simp
    · exact fun _ heq _ => hc heq

theorem toList_indent {text : String} (h : '\r' ∉ text.toList) :
    (indent text).toList = indented text.toList true := by
  rw [indent, toList_indentChars h]
  rfl

theorem not_mem_indented {cs : List Char} (h : '\r' ∉ cs) (fresh : Bool) :
    '\r' ∉ indented cs fresh := by
  induction cs generalizing fresh with
  | nil => cases fresh <;> simp [indented]
  | cons c cs ih =>
    rw [List.mem_cons, not_or] at h
    cases fresh <;> simp [indented, h.1, ih h.2]

/-- Within a line, tabs are put in front of the lines that follow. At the start of a line one tab
comes first. -/
theorem respaced_of_indented {cs : List Char} (h : IsLines cs) :
    (∀ t, cs ≠ [] → Respaced (indented cs false) t → Respaced cs t) ∧
      ∀ t, Respaced (indented cs true) t →
        (cs = [] ∧ t = []) ∨ ∃ u, t = '\t' :: u ∧ Respaced cs u := by
  induction cs with
  | nil =>
    refine ⟨fun t hne => absurd rfl hne, fun t ht => ?_⟩
    cases ht
    exact .inl ⟨rfl, rfl⟩
  | cons c cs ih =>
    obtain ⟨htail, hlast⟩ := h.tail
    obtain ⟨within, fresh⟩ := ih htail
    have hwithin : ∀ t, Respaced (indented (c :: cs) false) t → Respaced (c :: cs) t := by
      intro t ht
      cases ht with
      | char hc ht =>
        rw [decide_eq_false hc] at ht
        exact .char hc (within _ (fun hcs => hc (hlast hcs)) ht)
      | line tabs ht =>
        obtain ⟨rfl, rfl⟩ | ⟨u, rfl, hu⟩ := fresh _ ht
        · exact .line tabs .nil
        · have hline := Respaced.line (tabs + 1) hu
          rwa [List.replicate_succ', List.append_assoc, List.singleton_append] at hline
    refine ⟨fun t _ => hwithin t, fun t ht => .inr ?_⟩
    cases ht with
    | char _ ht => exact ⟨_, rfl, hwithin _ ht⟩

end Text

/-- An indented text, respaced, is empty or a tab and the text itself, respaced. -/
theorem Respaced.of_indent {text : String} (hlines : Text.IsLines text.toList)
    (hplain : '\r' ∉ text.toList) {t : List Char}
    (h : Respaced (Text.indent text).toList t) :
    (text.toList = [] ∧ t = []) ∨ ∃ u, t = '\t' :: u ∧ Respaced text.toList u := by
  rw [Text.toList_indent hplain] at h
  exact (Text.respaced_of_indented hlines).2 t h

end LuaLang
