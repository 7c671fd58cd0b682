import Mathlib
import LuaLang.Tree.Grammar

/-!
# What readings do when they succeed

One fact for each primitive of `Reading` says exactly when it succeeds, with what and where it
leaves the stream. Loops are opened by `Grammar.loop_eq`: rounds that go on have moved past a
token, so the bound on their number is never reached.

## Main definitions

* `TokenStream.Next`: a stream and the stream one token on.
* `TokenStream.size`: how many tokens are left before the end of the file.
* `Grammar.Progresses`: each round of a loop that goes on has moved past a token.
* `Grammar.Run`: readings of one kind in a row, each after a mark.
* `Grammar.optionalAfter`: a reading that is made only after a mark.
-/

namespace LuaLang

namespace TokenStream

/-- The second stream is the first one moved past its current token. -/
def Next (s t : TokenStream) : Prop :=
  s.symbol ≠ .endOfFile ∧ Reading.consume s = .ok () t

/-- How many tokens there are at most before the end of the file. -/
def size (s : TokenStream) : Nat :=
  if s.symbol = .endOfFile then 0 else s.rest.length + 1

theorem size_le (s : TokenStream) : s.size ≤ s.rest.length + 1 := by
  unfold size
  split <;> omega

theorem Next.cases {s t : TokenStream} (h : Next s t) :
    (s.rest = [] ∧ t = ⟨.endOfFile s.current.line s.current.column, s.current, []⟩) ∨
      ∃ token rest, s.rest = .ok token :: rest ∧ t = ⟨token, s.current, rest⟩ := by
  obtain ⟨hs, h⟩ := h
  rw [Reading.consume, if_neg hs] at h
  split at h
  · next hr => exact .inl ⟨hr, by cases h; rfl⟩
  · next token rest hr => exact .inr ⟨token, rest, hr, by cases h; rfl⟩
  · cases h

theorem Next.last {s t : TokenStream} (h : Next s t) : t.last = s.current := by
  obtain ⟨-, rfl⟩ | ⟨token, rest, -, rfl⟩ := h.cases <;> rfl

theorem Next.size_lt {s t : TokenStream} (h : Next s t) : t.size < s.size := by
  have hs : s.size = s.rest.length + 1 := if_neg h.1
  obtain ⟨hr, rfl⟩ | ⟨token, rest, hr, rfl⟩ := h.cases
  · rw [hs]
    exact Nat.succ_pos _
  · have ht : size ⟨token, s.current, rest⟩ ≤ rest.length + 1 := size_le _
    rw [hs, hr, List.length_cons]
    omega

/-- The symbol after the current one is the one that comes next. -/
theorem Next.nextSymbol {s t : TokenStream} (h : Next s t) : s.nextSymbol = t.symbol := by
  rw [TokenStream.nextSymbol, if_neg h.1]
  obtain ⟨hr, rfl⟩ | ⟨token, rest, hr, rfl⟩ := h.cases <;> rw [hr] <;> rfl

end TokenStream

open TokenStream

namespace Reading

variable {α β : Type} {s t : TokenStream}

theorem bind_eq_ok {x : Reading α} {f : α → Reading β} {b : β} :
    (x >>= f) s = .ok b t ↔ ∃ a u, x s = .ok a u ∧ f a u = .ok b t := by
  change EStateM.bind x f s = _ ↔ _
  unfold EStateM.bind
  constructor
  · intro h
    split at h
    · next a u hx => exact ⟨a, u, hx, h⟩
    · cases h
  · rintro ⟨a, u, hx, h⟩
    rw [hx]
    exact h

/-- A reading that succeeds is passed by what follows it. -/
theorem bind_of_ok {x : Reading α} {f : α → Reading β} {a : α} (h : x s = .ok a t) :
    (x >>= f) s = f a t := by
  change EStateM.bind x f s = _
  rw [EStateM.bind, h]

theorem pure_eq_ok {a b : α} : (pure a : Reading α) s = .ok b t ↔ a = b ∧ s = t := by
  change EStateM.Result.ok a s = _ ↔ _
  simp

theorem map_eq_ok {f : α → β} {x : Reading α} {b : β} :
    (f <$> x) s = .ok b t ↔ ∃ a, x s = .ok a t ∧ f a = b := by
  change EStateM.map f x s = _ ↔ _
  unfold EStateM.map
  constructor
  · intro h
    split at h
    · next a u hx => cases h; exact ⟨a, hx, rfl⟩
    · cases h
  · rintro ⟨a, hx, rfl⟩
    rw [hx]

theorem symbol_eq_ok {y : Symbol} : symbol s = .ok y t ↔ s.symbol = y ∧ s = t := by
  simp [symbol]

theorem fail_ne_ok {cause : TokenStream → SyntaxError.Cause} {a : α} :
    (fail cause : Reading α) s ≠ .ok a t := by
  simp [fail]

theorem unexpected_ne_ok {a : α} : (unexpected : Reading α) s ≠ .ok a t :=
  fail_ne_ok

theorem consume_eq_ok (hs : s.symbol ≠ .endOfFile) {x : Unit} :
    consume s = .ok x t ↔ Next s t :=
  ⟨fun h => ⟨hs, h⟩, fun h => h.2⟩

theorem consumeLexeme_eq_ok (hs : s.symbol ≠ .endOfFile) {x : String} :
    consumeLexeme s = .ok x t ↔ s.current.lexeme = x ∧ Next s t := by
  simp only [consumeLexeme, bind_eq_ok, pure_eq_ok, consume_eq_ok hs]
  constructor
  · rintro ⟨-, u, h, rfl, rfl⟩
    exact ⟨rfl, h⟩
  · rintro ⟨rfl, h⟩
    exact ⟨(), t, h, rfl, rfl⟩

theorem tryConsume_eq_ok {y : Symbol} (hy : y ≠ .endOfFile) {b : Bool} :
    tryConsume y s = .ok b t ↔
      (b = true ∧ s.symbol = y ∧ Next s t) ∨ (b = false ∧ s.symbol ≠ y ∧ s = t) := by
  unfold tryConsume
  split
  · next hs =>
    simp only [bind_eq_ok, pure_eq_ok, consume_eq_ok (hs ▸ hy)]
    constructor
    · rintro ⟨-, u, h, rfl, rfl⟩
      exact .inl ⟨rfl, hs, h⟩
    · rintro (⟨rfl, -, h⟩ | ⟨-, h, -⟩)
      · exact ⟨(), t, h, rfl, rfl⟩
      · exact absurd hs h
  · next hs =>
    constructor
    · intro h
      cases h
      exact .inr ⟨rfl, hs, rfl⟩
    · rintro (⟨-, h, -⟩ | ⟨rfl, -, rfl⟩)
      · exact absurd h hs
      · rfl

theorem expectLexeme_eq_ok {y : Symbol} (hy : y ≠ .endOfFile) {x : String} :
    expectLexeme y s = .ok x t ↔ s.symbol = y ∧ s.current.lexeme = x ∧ Next s t := by
  unfold expectLexeme
  split
  · next hs => simp [consumeLexeme_eq_ok (hs ▸ hy), hs]
  · next hs => simp [fail_ne_ok, hs]

theorem expect_eq_ok {y : Symbol} (hy : y ≠ .endOfFile) {x : Unit} :
    expect y s = .ok x t ↔ s.symbol = y ∧ Next s t := by
  simp only [expect, bind_eq_ok, pure_eq_ok, expectLexeme_eq_ok hy]
  constructor
  · rintro ⟨_, u, ⟨hs, -, h⟩, -, rfl⟩
    exact ⟨hs, h⟩
  · rintro ⟨hs, h⟩
    exact ⟨_, t, ⟨hs, rfl, h⟩, trivial, rfl⟩

/-! What the primitives give on a stream that can move on. -/

theorem consumeLexeme_of_next (h : Next s t) : consumeLexeme s = .ok s.current.lexeme t :=
  (consumeLexeme_eq_ok h.1).2 ⟨rfl, h⟩

theorem tryConsume_of_next {y : Symbol} (hs : s.symbol = y) (h : Next s t) :
    tryConsume y s = .ok true t :=
  (tryConsume_eq_ok (hs ▸ h.1)).2 (.inl ⟨rfl, hs, h⟩)

theorem tryConsume_of_ne {y : Symbol} (hs : s.symbol ≠ y) : tryConsume y s = .ok false s := by
  rw [tryConsume, if_neg hs]

theorem expect_of_next {y : Symbol} (hs : s.symbol = y) (h : Next s t) :
    expect y s = .ok () t :=
  (expect_eq_ok (hs ▸ h.1)).2 ⟨hs, h⟩

theorem symbol_eq : symbol s = .ok s.symbol s := rfl

theorem peek_eq : peek s = .ok s.nextSymbol s := rfl

/-- The end of the file is found without moving. -/
theorem expect_endOfFile_eq_ok {x : Unit} :
    expect .endOfFile s = .ok x t ↔ s.symbol = .endOfFile ∧ s = t := by
  have hc : s.symbol = .endOfFile → consume s = .ok () s := fun hs => by
    rw [consume, if_pos hs]
  simp only [expect, bind_eq_ok, pure_eq_ok, expectLexeme]
  constructor
  · rintro ⟨lexeme, u, h, -, rfl⟩
    split at h
    · next hs =>
      simp only [consumeLexeme, bind_of_ok (hc hs), pure_eq_ok] at h
      exact ⟨hs, h.2⟩
    · exact absurd h fail_ne_ok
  · rintro ⟨hs, rfl⟩
    refine ⟨s.current.lexeme, s, ?_, trivial, rfl⟩
    rw [if_pos hs, consumeLexeme, bind_of_ok (hc hs)]
    rfl

end Reading

namespace Grammar

open Reading

variable {α : Type}

theorem callGuard_eq (s : TokenStream) :
    callGuard s = if s.current.line = s.last.endLine then .ok () s
      else .error (s.fault (.ambiguousCall s.near)) s := by
  change (if s.current.line ≠ s.last.endLine then fail fun s => .ambiguousCall s.near
    else pure () : Reading Unit) s = _
  by_cases hline : s.current.line = s.last.endLine
  · rw [if_neg (not_not.2 hline), if_pos hline]
    rfl
  · rw [if_pos hline, if_neg hline]
    rfl

theorem callGuard_eq_ok {s t : TokenStream} {x : Unit} :
    callGuard s = .ok x t ↔ s.current.line = s.last.endLine ∧ s = t := by
  rw [callGuard_eq]
  split
  · next hline => simp [hline]
  · next hline => simp [hline]

/-! ## Loops -/

/-- Each round that is not the last one leaves fewer tokens than it found. -/
def Progresses (step : α → Reading (α × Bool)) : Prop :=
  ∀ a a' s t, step a s = .ok (a', true) t → t.size < s.size

theorem loopFor_eq_of_size_lt {step : α → Reading (α × Bool)} (hstep : Progresses step)
    {m n : Nat} {a : α} {s : TokenStream} (hm : s.size < m) (hn : s.size < n) :
    loopFor step m a s = loopFor step n a s := by
  induction m generalizing n a s with
  | zero => omega
  | succ m ih =>
    obtain ⟨n, rfl⟩ : ∃ k, n = k + 1 := ⟨n - 1, by omega⟩
    change EStateM.bind (step a) _ s = EStateM.bind (step a) _ s
    unfold EStateM.bind
    cases h : step a s with
    | error e t => rfl
    | ok r t =>
      obtain ⟨a', more⟩ := r
      cases more with
      | false => rfl
      | true =>
        have ht := hstep _ _ _ _ h
        exact ih (by omega) (by omega)

/-- A loop is a round, and the loop again if the round says so. -/
theorem loop_eq {step : α → Reading (α × Bool)} (hstep : Progresses step) (a : α)
    (s : TokenStream) :
    loop step a s = (step a >>= fun r => if r.2 then loop step r.1 else pure r.1) s := by
  change EStateM.bind (step a) _ s = EStateM.bind (step a) _ s
  unfold EStateM.bind
  cases h : step a s with
  | error e t => rfl
  | ok r t =>
    obtain ⟨a', more⟩ := r
    cases more with
    | false => rfl
    | true =>
      have ht := hstep _ _ _ _ h
      have hs := size_le s
      have hu := size_le t
      exact loopFor_eq_of_size_lt hstep (by omega) (by omega)

theorem loop_of_more {step : α → Reading (α × Bool)} (hstep : Progresses step) {a a' : α}
    {s t : TokenStream} (h : step a s = .ok (a', true) t) : loop step a s = loop step a' t := by
  rw [loop_eq hstep, bind_of_ok h]
  rfl

theorem loop_of_done {step : α → Reading (α × Bool)} (hstep : Progresses step) {a a' : α}
    {s t : TokenStream} (h : step a s = .ok (a', false) t) : loop step a s = .ok a' t := by
  rw [loop_eq hstep, bind_of_ok h]
  rfl

/-- What holds of a round if it holds of the next one, in case there is one, holds of all rounds: a
round that goes on has fewer tokens left. -/
@[elab_as_elim]
theorem Progresses.induction {step : α → Reading (α × Bool)} (hstep : Progresses step)
    {motive : α → TokenStream → Prop} (a : α) (s : TokenStream)
    (round : ∀ a s, (∀ a' t, step a s = .ok (a', true) t → motive a' t) → motive a s) :
    motive a s := by
  induction hn : s.size using Nat.strong_induction_on generalizing a s with
  | _ n ih => exact round a s fun a' t h => ih t.size (hn ▸ hstep _ _ _ _ h) a' t rfl

/-- What holds when a loop starts and is kept by each round that goes on gives what the last round
gives. -/
theorem loop_invariant {step : α → Reading (α × Bool)} (hstep : Progresses step)
    (inv post : α → TokenStream → Prop)
    (more : ∀ {a a' s t}, inv a s → step a s = .ok (a', true) t → inv a' t)
    (done : ∀ {a a' s t}, inv a s → step a s = .ok (a', false) t → post a' t)
    {a b : α} {s t : TokenStream} (hs : inv a s) (h : loop step a s = .ok b t) : post b t := by
  induction a, s using hstep.induction with
  | round a s ih =>
    rw [loop_eq hstep] at h
    obtain ⟨⟨a', again⟩, u, hu, h⟩ := bind_eq_ok.1 h
    cases again with
    | false =>
      obtain ⟨rfl, rfl⟩ := pure_eq_ok.1 h
      exact done hs hu
    | true => exact ih a' u hu (more hs hu) h

/-! ## Rows -/

/-- Things in a row, each after a mark. -/
def Run (mark : Symbol) (reads : α → TokenStream → TokenStream → Prop) :
    List α → TokenStream → TokenStream → Prop
  | [], s, t => s = t
  | a :: rest, s, t =>
    ∃ u v, s.symbol = mark ∧ Next s u ∧ reads a u v ∧ Run mark reads rest v t

theorem Run.append {mark : Symbol} {reads : α → TokenStream → TokenStream → Prop} {as bs : List α}
    {s t u : TokenStream} (h : Run mark reads as s t) (g : Run mark reads bs t u) :
    Run mark reads (as ++ bs) s u := by
  induction as generalizing s with
  | nil =>
    cases h
    exact g
  | cons a rest ih =>
    obtain ⟨v, w, hs, hv, hw, h⟩ := h
    exact ⟨v, w, hs, hv, hw, ih h⟩

/-- A round of a loop that reads one more item after each mark. -/
def oneMore (mark : Symbol) (item : Reading α) (items : List α) : Reading (List α × Bool) := do
  if ← tryConsume mark then pure ((← item) :: items, true) else pure (items, false)

section OneMore

variable {mark : Symbol} {item : Reading α} {reads : α → TokenStream → TokenStream → Prop}

theorem oneMore_eq_ok (hm : mark ≠ .endOfFile) (hi : ∀ a s t, item s = .ok a t ↔ reads a s t)
    {items : List α} {r : List α × Bool} {s t : TokenStream} :
    oneMore mark item items s = .ok r t ↔
      (∃ a u, s.symbol = mark ∧ Next s u ∧ reads a u t ∧ r = (a :: items, true)) ∨
        (s.symbol ≠ mark ∧ s = t ∧ r = (items, false)) := by
  simp only [oneMore, bind_eq_ok, tryConsume_eq_ok hm]
  constructor
  · rintro ⟨b, u, ⟨rfl, hs, hu⟩ | ⟨rfl, hs, rfl⟩, h⟩
    · rw [if_pos rfl] at h
      obtain ⟨a, v, ha, h⟩ := bind_eq_ok.1 h
      obtain ⟨rfl, rfl⟩ := pure_eq_ok.1 h
      exact .inl ⟨a, u, hs, hu, (hi _ _ _).1 ha, rfl⟩
    · obtain ⟨rfl, rfl⟩ := pure_eq_ok.1 h
      exact .inr ⟨hs, rfl, rfl⟩
  · rintro (⟨a, u, hs, hu, ha, rfl⟩ | ⟨hs, rfl, rfl⟩)
    · refine ⟨true, u, .inl ⟨rfl, hs, hu⟩, ?_⟩
      rw [if_pos rfl]
      exact bind_eq_ok.2 ⟨a, t, (hi _ _ _).2 ha, rfl⟩
    · exact ⟨false, s, .inr ⟨rfl, hs, rfl⟩, rfl⟩

theorem progresses_oneMore (hm : mark ≠ .endOfFile)
    (hi : ∀ a s t, item s = .ok a t ↔ reads a s t)
    (shrinks : ∀ {a s t}, reads a s t → t.size ≤ s.size) : Progresses (oneMore mark item) := by
  intro items items' s t h
  obtain ⟨a, u, -, hu, ha, -⟩ | ⟨-, -, h⟩ := (oneMore_eq_ok hm hi).1 h
  · exact (shrinks ha).trans_lt hu.size_lt
  · cases h

/-- The loop reads as many items as there are after marks. -/
theorem loop_oneMore_eq_ok (hm : mark ≠ .endOfFile) (hi : ∀ a s t, item s = .ok a t ↔ reads a s t)
    (shrinks : ∀ {a s t}, reads a s t → t.size ≤ s.size) {items all : List α}
    {s t : TokenStream} :
    loop (oneMore mark item) items s = .ok all t ↔
      ∃ more, all = more.reverse ++ items ∧ Run mark reads more s t ∧ t.symbol ≠ mark := by
  have progress := progresses_oneMore hm hi shrinks
  constructor
  · apply loop_invariant progress
      (fun found u => ∃ more, found = more.reverse ++ items ∧ Run mark reads more s u)
    · rintro found found' u v ⟨more, rfl, run⟩ h
      obtain ⟨a, w, hu, hw, ha, h⟩ | ⟨-, -, h⟩ := (oneMore_eq_ok hm hi).1 h
      · cases h
        exact ⟨more ++ [a], by simp, run.append ⟨w, v, hu, hw, ha, rfl⟩⟩
      · cases h
    · rintro found found' u v ⟨more, rfl, run⟩ h
      obtain ⟨a, w, -, -, -, hr⟩ | ⟨hu, rfl, hr⟩ := (oneMore_eq_ok hm hi).1 h
      · cases hr
      · cases hr
        exact ⟨more, rfl, run, hu⟩
    · exact ⟨[], rfl, rfl⟩
  · rintro ⟨more, rfl, run, ht⟩
    induction more generalizing s items with
    | nil =>
      cases run
      exact loop_of_done progress ((oneMore_eq_ok hm hi).2 (.inr ⟨ht, rfl, rfl⟩))
    | cons a rest ih =>
      obtain ⟨u, v, hs, hu, ha, run⟩ := run
      rw [loop_of_more progress ((oneMore_eq_ok hm hi).2 (.inl ⟨a, u, hs, hu, ha, rfl⟩)), ih run]
      simp

/-- What `separated` reads: one item, and more of them after marks. -/
theorem separated_eq_ok (hm : mark ≠ .endOfFile) (hi : ∀ a s t, item s = .ok a t ↔ reads a s t)
    (shrinks : ∀ {a s t}, reads a s t → t.size ≤ s.size) {all : List α} {s t : TokenStream} :
    separated mark item s = .ok all t ↔
      ∃ a more u, all = a :: more ∧ reads a s u ∧ Run mark reads more u t ∧ t.symbol ≠ mark := by
  change (item >>= fun first => loop (oneMore mark item) [first] >>= fun items =>
    pure items.reverse) s = _ ↔ _
  simp only [bind_eq_ok, pure_eq_ok, loop_oneMore_eq_ok hm hi shrinks, hi]
  constructor
  · rintro ⟨a, u, ha, -, v, ⟨more, rfl, run, ht⟩, rfl, rfl⟩
    exact ⟨a, more, u, by simp, ha, run, ht⟩
  · rintro ⟨a, more, u, rfl, ha, run, ht⟩
    exact ⟨a, u, ha, _, t, ⟨more, rfl, run, ht⟩, by simp, rfl⟩

/-- One item if there is a mark in front of it. -/
def optionalAfter (mark : Symbol) (item : Reading α) : Reading (Option α) := do
  if ← tryConsume mark then some <$> item else pure none

theorem optionalAfter_bind {β : Type} (next : Option α → Reading β) :
    optionalAfter mark item >>= next = (do
      if ← tryConsume mark then
        let a ← some <$> item
        next a
      else
        let a ← pure none
        next a) := by
  rw [optionalAfter, bind_assoc]
  congr
  funext found
  cases found <;> rfl

theorem optionalAfter_eq_ok (hm : mark ≠ .endOfFile)
    (hi : ∀ a s t, item s = .ok a t ↔ reads a s t) {o : Option α} {s t : TokenStream} :
    optionalAfter mark item s = .ok o t ↔
      (∃ a u, o = some a ∧ (s.symbol = mark ∧ Next s u) ∧ reads a u t) ∨
        (o = none ∧ s.symbol ≠ mark ∧ s = t) := by
  simp only [optionalAfter, bind_eq_ok, tryConsume_eq_ok hm]
  constructor
  · rintro ⟨b, u, ⟨rfl, hs, hu⟩ | ⟨rfl, hs, rfl⟩, h⟩
    · rw [if_pos rfl] at h
      obtain ⟨a, ha, rfl⟩ := map_eq_ok.1 h
      exact .inl ⟨a, u, rfl, ⟨hs, hu⟩, (hi _ _ _).1 ha⟩
    · obtain ⟨rfl, rfl⟩ := pure_eq_ok.1 h
      exact .inr ⟨rfl, hs, rfl⟩
  · rintro (⟨a, u, rfl, ⟨hs, hu⟩, ha⟩ | ⟨rfl, hs, rfl⟩)
    · refine ⟨true, u, .inl ⟨rfl, hs, hu⟩, ?_⟩
      rw [if_pos rfl]
      exact map_eq_ok.2 ⟨a, (hi _ _ _).2 ha, rfl⟩
    · exact ⟨false, s, .inr ⟨rfl, hs, rfl⟩, rfl⟩

end OneMore

end Grammar

end LuaLang
