import LuaLang.Token.Cursor

/-!
# Looking ahead leaves no trace

A cursor holds what it drew to look ahead, passes over markers while it draws, and makes up an end
of the file where nothing is left. None of this can be seen. Whatever is asked of a cursor, it
answers as the stream does that has no markers and holds nothing, and asking that stream for the
next symbol does not change it.

The comparison is made one operation at a time (`Mirrors.perform`) and carried along a sequence of
operations by induction (`Mirrors.record_eq`).
-/

namespace LuaLang

namespace Lexer

variable {σ τ : Type} {R : σ → τ → Prop} {s : σ} {t : τ}

/-- Two results that tell the same, in related states. -/
inductive Alike (R : σ → τ → Prop) {α : Type} :
    EStateM.Result SyntaxError σ α → EStateM.Result SyntaxError τ α → Prop where
  | ok {s : σ} {t : τ} (a : α) : R s t → Alike R (.ok a s) (.ok a t)
  | error {s : σ} {t : τ} (e : SyntaxError) : R s t → Alike R (.error e s) (.error e t)

/-- What is done with an answer does not show which of the two sources gave it. -/
theorem Alike.bind {α β : Type} {x : EStateM SyntaxError σ α} {y : EStateM SyntaxError τ α}
    (h : Alike R (x s) (y t)) {f : α → EStateM SyntaxError σ β} {g : α → EStateM SyntaxError τ β}
    (hf : ∀ a s t, R s t → Alike R (f a s) (g a t)) : Alike R ((x >>= f) s) ((y >>= g) t) := by
  change Alike R (EStateM.bind x f s) (EStateM.bind y g t)
  unfold EStateM.bind
  generalize x s = first at h
  generalize y t = second at h
  cases h with
  | ok a hr => exact hf a _ _ hr
  | error e hr => exact .error e hr

theorem Alike.attempt {α : Type} {x : EStateM SyntaxError σ α} {y : EStateM SyntaxError τ α}
    (h : Alike R (x s) (y t)) (answer : α → Answer) :
    (attempt x answer s).1 = (attempt y answer t).1 ∧
      R (attempt x answer s).2 (attempt y answer t).2 := by
  unfold Lexer.attempt
  generalize x s = first at h
  generalize y t = second at h
  cases h with
  | ok a hr => exact ⟨rfl, hr⟩
  | error e hr => exact ⟨rfl, hr⟩

variable [Lexer σ] [Lexer τ]

/-- In related states two sources show the same tokens, and moving on or asking for the next
symbol relates the states after it. -/
structure Mirrors (R : σ → τ → Prop) : Prop where
  current : ∀ {s t}, R s t → current s = current t
  last : ∀ {s t}, R s t → last s = last t
  nextSymbol : ∀ {s t}, R s t →
    (nextSymbol s).1 = (nextSymbol t).1 ∧ R (nextSymbol s).2 (nextSymbol t).2
  consume : ∀ {s t}, R s t → Alike R (consume s) (consume t)

namespace Mirrors

theorem currentSymbol_eq (m : Mirrors R) (h : R s t) : currentSymbol s = currentSymbol t := by
  rw [currentSymbol, currentSymbol, m.current h]

theorem fault_eq (m : Mirrors R) (h : R s t) (cause : SyntaxError.Cause) :
    fault s cause = fault t cause := by
  rw [fault, fault, m.current h]

theorem consumeLexeme (m : Mirrors R) (h : R s t) :
    Alike R (consumeLexeme s) (consumeLexeme t) := by
  rw [Lexer.consumeLexeme, Lexer.consumeLexeme, m.current h]
  exact (m.consume h).bind fun _ _ _ => .ok _

theorem tryConsume (m : Mirrors R) (symbol : Symbol) (h : R s t) :
    Alike R (tryConsume symbol s) (tryConsume symbol t) := by
  rw [Lexer.tryConsume, Lexer.tryConsume, m.currentSymbol_eq h]
  by_cases hsymbol : currentSymbol t = symbol
  · rw [if_pos hsymbol, if_pos hsymbol]
    exact (m.consume h).bind fun _ _ _ => .ok true
  · rw [if_neg hsymbol, if_neg hsymbol]
    exact .ok false h

theorem expectLexeme (m : Mirrors R) (symbol : Symbol) (h : R s t) :
    Alike R (expectLexeme symbol s) (expectLexeme symbol t) := by
  rw [Lexer.expectLexeme, Lexer.expectLexeme, m.currentSymbol_eq h]
  by_cases hsymbol : currentSymbol t = symbol
  · rw [if_pos hsymbol, if_pos hsymbol]
    exact m.consumeLexeme h
  · rw [if_neg hsymbol, if_neg hsymbol, m.fault_eq h, m.current h]
    exact .error _ h

theorem expect (m : Mirrors R) (symbol : Symbol) (h : R s t) :
    Alike R (expect symbol s) (expect symbol t) :=
  (m.expectLexeme symbol h).bind fun _ _ _ => .ok ()

/-- One operation gets the same answer from both sources. -/
theorem perform (m : Mirrors R) (operation : Operation) (h : R s t) :
    (perform operation s).1 = (perform operation t).1 ∧
      R (perform operation s).2 (perform operation t).2 := by
  cases operation with
  | current => exact ⟨by simp only [Lexer.perform, m.current h], h⟩
  | last => exact ⟨by simp only [Lexer.perform, m.last h], h⟩
  | currentSymbol => exact ⟨by simp only [Lexer.perform, m.currentSymbol_eq h], h⟩
  | nextSymbol =>
    obtain ⟨heq, hnext⟩ := m.nextSymbol h
    exact ⟨by simp only [Lexer.perform, heq], hnext⟩
  | consume => exact (m.consume h).attempt _
  | consumeLexeme => exact (m.consumeLexeme h).attempt _
  | tryConsume symbol => exact (m.tryConsume symbol h).attempt _
  | expect symbol => exact (m.expect symbol h).attempt _
  | expectLexeme symbol => exact (m.expectLexeme symbol h).attempt _
  | syntaxError template arguments => exact ⟨by simp only [Lexer.perform, m.fault_eq h], h⟩

/-- Sequences of operations look the same on both sources. -/
theorem record_eq (m : Mirrors R) (operations : List Operation) (h : R s t) :
    record operations s = record operations t := by
  induction operations generalizing s t with
  | nil => simp only [record, m.current h, m.last h]
  | cons operation operations ih =>
    obtain ⟨hanswer, hnext⟩ := m.perform operation h
    simp only [record, hanswer, m.current hnext, m.last hnext, ih hnext]

end Mirrors

/-- Where asking for the next symbol changes nothing, it can be left out. -/
theorem record_filter_nextSymbol (h : ∀ s : σ, (nextSymbol s).2 = s) (operations : List Operation)
    (s : σ) :
    record (operations.filter (· ≠ .nextSymbol)) s = (record operations s).withoutLookahead := by
  induction operations generalizing s with
  | nil => rfl
  | cons operation operations ih =>
    by_cases hlook : operation = .nextSymbol
    · subst hlook
      rw [List.filter_cons_of_neg (by simp), ih]
      simp [record, Record.withoutLookahead, perform, h]
    · rw [List.filter_cons_of_pos (by simpa using hlook)]
      simp only [record, ih]
      simp [Record.withoutLookahead, hlook]

end Lexer

namespace TokenCursor

open Lexer TokenStream

variable {c : TokenCursor} {s : TokenStream}

/-- What is still to come: what was drawn to look ahead, and what is not drawn, without markers. -/
def coming (c : TokenCursor) : List Scanned :=
  c.ahead.toList ++ c.undrawn.filter isMeaningful

/-- The end of the file that is made up at the current token. -/
def madeUpEnd (c : TokenCursor) : Scanned :=
  .ok (.endOfFile c.current.line c.current.column)

/-- A cursor and a stream at the same place. At the end of the file the rest is of no interest, and
before it the cursor may hold an end of the file that the stream did not make up yet. -/
structure Follows (c : TokenCursor) (s : TokenStream) : Prop where
  current : c.current = s.current
  last : c.last = s.last
  coming : c.current.symbol = .endOfFile ∨ c.coming = s.rest ∨
    c.coming = [c.madeUpEnd] ∧ s.rest = []

/-- Drawing finds the first item that a stream would have, or makes up an end. -/
theorem draw_cases (token : Token) (undrawn : List Scanned) :
    (∃ item rest, draw token undrawn = (item, rest) ∧
      undrawn.filter isMeaningful = item :: rest.filter isMeaningful) ∨
    draw token undrawn = (.ok (.endOfFile token.line token.column), []) ∧
      undrawn.filter isMeaningful = [] := by
  unfold draw
  induction undrawn with
  | nil => exact .inr ⟨rfl, rfl⟩
  | cons item undrawn ih =>
    by_cases hitem : isMeaningful item = true
    · refine .inl ⟨item, undrawn, ?_, ?_⟩
      · simp [hitem]
      · simp [hitem]
    · simpa [hitem] using ih

/-- The next item of a cursor is the first of what is still to come, or a made up end. -/
theorem next_cases (c : TokenCursor) :
    (∃ item rest, c.next = (item, rest) ∧ c.coming = item :: rest.filter isMeaningful) ∨
      c.next = (c.madeUpEnd, []) ∧ c.coming = [] := by
  unfold next coming
  cases hahead : c.ahead with
  | some item => exact .inl ⟨item, c.undrawn, rfl, rfl⟩
  | none => exact draw_cases c.current c.undrawn

/-- Before the end of the file: both have the same next item, or both are about to make up the end
of the file. -/
theorem Follows.next_cases (h : Follows c s) (hend : c.current.symbol ≠ .endOfFile) :
    (∃ item rest, c.next = (item, rest) ∧ s.rest = item :: rest.filter isMeaningful) ∨
      ∃ rest, c.next = (c.madeUpEnd, rest) ∧ rest.filter isMeaningful = [] ∧ s.rest = [] := by
  obtain ⟨item, rest, hnext, hcoming⟩ | ⟨hnext, hcoming⟩ := c.next_cases <;>
    obtain hs | hs | ⟨hs, hrest⟩ := h.coming
  · exact absurd hs hend
  · exact .inl ⟨item, rest, hnext, hs ▸ hcoming⟩
  · obtain ⟨rfl, hmarkers⟩ := List.cons.inj (hcoming.symm.trans hs)
    exact .inr ⟨rest, hnext, hmarkers, hrest⟩
  · exact absurd hs hend
  · exact .inr ⟨[], hnext, rfl, hs ▸ hcoming⟩
  · exact absurd (hcoming.symm.trans hs) (by simp)

theorem Follows.nextSymbol (h : Follows c s) :
    (nextSymbol c).1 = s.nextSymbol ∧ Follows (nextSymbol c).2 s := by
  by_cases hend : c.current.symbol = .endOfFile
  · have hs : s.symbol = .endOfFile := by rw [TokenStream.symbol, ← h.current, hend]
    rw [TokenCursor.nextSymbol, if_pos hend, TokenStream.nextSymbol, if_pos hs]
    exact ⟨rfl, h⟩
  have hs : s.symbol ≠ .endOfFile := by rwa [TokenStream.symbol, ← h.current]
  rw [TokenCursor.nextSymbol, if_neg hend, TokenStream.nextSymbol, if_neg hs]
  obtain ⟨item, rest, hnext, hrest⟩ | ⟨rest, hnext, hmarkers, hrest⟩ := h.next_cases hend
  · rw [hnext, hrest]
    refine ⟨?_, h.current, h.last, .inr (.inl hrest.symm)⟩
    cases item <;> rfl
  · rw [hnext, hrest]
    refine ⟨rfl, h.current, h.last, .inr (.inr ⟨?_, hrest⟩)⟩
    exact congrArg (c.madeUpEnd :: ·) hmarkers

theorem Follows.consume (h : Follows c s) : Alike Follows (consume c) (Reading.consume s) := by
  by_cases hend : c.current.symbol = .endOfFile
  · have hs : s.symbol = .endOfFile := by rw [TokenStream.symbol, ← h.current, hend]
    rw [TokenCursor.consume, if_pos hend, Reading.consume, if_pos hs]
    exact .ok () h
  have hs : s.symbol ≠ .endOfFile := by rwa [TokenStream.symbol, ← h.current]
  rw [TokenCursor.consume, if_neg hend, Reading.consume, if_neg hs]
  obtain ⟨item, rest, hnext, hrest⟩ | ⟨rest, hnext, hmarkers, hrest⟩ := h.next_cases hend
  · rw [hnext, hrest]
    cases item with
    | ok token => exact .ok () ⟨rfl, h.current, .inr (.inl rfl)⟩
    | error e => exact .error e ⟨h.current, h.last, .inr (.inl rfl)⟩
  · rw [hnext, hrest, ← h.current]
    exact .ok () ⟨rfl, rfl, .inl rfl⟩

theorem mirrors_stream : Mirrors Follows where
  current h := h.current
  last h := h.last
  nextSymbol h := h.nextSymbol
  consume h := h.consume

/-- What can be seen of operations on a cursor is what can be seen of them on a stream. -/
theorem record_ofScanned (scanned : List Scanned) (operations : List Operation) :
    (ofScanned scanned).map (record operations) =
      (TokenStream.ofScanned scanned).map (record operations) := by
  unfold ofScanned TokenStream.ofScanned
  obtain ⟨item, rest, hdraw, hfilter⟩ | ⟨hdraw, hfilter⟩ := draw_cases (.endOfFile 1 1) scanned
  · rw [hdraw, hfilter]
    cases item with
    | ok token =>
      have h : Follows ⟨token, .endOfFile token.line 0, none, rest⟩
          ⟨token, .endOfFile token.line 0, rest.filter isMeaningful⟩ :=
        ⟨rfl, rfl, .inr (.inl rfl)⟩
      exact congrArg Except.ok (mirrors_stream.record_eq operations h)
    | error e => rfl
  · rw [hdraw, hfilter]
    have h : Follows ⟨.endOfFile 1 1, .endOfFile 1 0, none, []⟩
        ⟨.endOfFile 1 1, .endOfFile 1 0, []⟩ := ⟨rfl, rfl, .inl rfl⟩
    exact congrArg Except.ok (mirrors_stream.record_eq operations h)

theorem record_of_filter_eq {scanned other : List Scanned} (operations : List Operation)
    (h : other.filter isMeaningful = scanned.filter isMeaningful) :
    (ofScanned other).map (record operations) = (ofScanned scanned).map (record operations) := by
  rw [record_ofScanned, record_ofScanned, TokenStream.ofScanned, TokenStream.ofScanned, h]

theorem record_withoutLookahead (scanned : List Scanned) (operations : List Operation) :
    (ofScanned scanned).map (record (operations.filter (· ≠ .nextSymbol))) =
      (ofScanned scanned).map fun c => (record operations c).withoutLookahead := by
  have hstream : record (operations.filter (· ≠ .nextSymbol)) =
      fun s : TokenStream => (record operations s).withoutLookahead :=
    funext (record_filter_nextSymbol (fun _ => rfl) operations)
  have hmap (scan : Except SyntaxError TokenStream) :
      (scan.map fun s => (record operations s).withoutLookahead) =
        (scan.map (record operations)).map Record.withoutLookahead := by cases scan <;> rfl
  have hmap' (scan : Except SyntaxError TokenCursor) :
      (scan.map fun c => (record operations c).withoutLookahead) =
        (scan.map (record operations)).map Record.withoutLookahead := by cases scan <;> rfl
  rw [record_ofScanned, hstream, hmap, hmap', record_ofScanned]

/-- Asking for the next symbol holds what the cursor moves on to. -/
theorem nextSymbol_of_ne (h : c.current.symbol ≠ .endOfFile) :
    nextSymbol c = (symbolOf c.next.1, { c with ahead := some c.next.1, undrawn := c.next.2 }) := by
  rw [nextSymbol, if_neg h]

theorem nextSymbol_of_eq (h : c.current.symbol = .endOfFile) : nextSymbol c = (.endOfFile, c) := by
  rw [nextSymbol, if_pos h]

theorem consume_nextSymbol (c : TokenCursor) : consume (nextSymbol c).2 = consume c := by
  by_cases hend : c.current.symbol = .endOfFile
  · rw [nextSymbol_of_eq hend]
  · rw [nextSymbol_of_ne hend, consume, consume, if_neg hend, if_neg hend]
    rfl

/-- The symbol that is answered is the one that moving on makes current, and `error` where moving
on fails. -/
theorem nextSymbol_eq_of_consume (c : TokenCursor) :
    (nextSymbol c).1 = match consume c with
      | .ok _ d => d.current.symbol
      | .error _ _ => .error := by
  by_cases hend : c.current.symbol = .endOfFile
  · rw [nextSymbol_of_eq hend, consume, if_pos hend]
    exact hend.symm
  · rw [nextSymbol_of_ne hend, consume, if_neg hend]
    obtain ⟨item, rest⟩ := c.next
    cases item <;> rfl

/-- Whatever was scanned and whatever is done with it: a cursor cannot be told from the stream that
holds nothing and has no markers; leaving out the questions for the next symbol changes no other
answer and no token; scans that differ in markers only look the same. On every cursor the next
symbol is the one that moving on will make current, `error` if moving on will fail, and the end of
the file at the end of the file; and what moves past a given symbol leaves a cursor that is at
another one as it is. -/
theorem lookahead_transparent (scanned : List Scanned) (operations : List Operation) :
    (ofScanned scanned).map (record operations) =
        (TokenStream.ofScanned scanned).map (record operations) ∧
      (ofScanned scanned).map (record (operations.filter (· ≠ .nextSymbol))) =
        ((ofScanned scanned).map fun c => (record operations c).withoutLookahead) ∧
      (∀ other : List Scanned, other.filter isMeaningful = scanned.filter isMeaningful →
        (ofScanned other).map (record operations) = (ofScanned scanned).map (record operations)) ∧
      (∀ c : TokenCursor,
        ((nextSymbol c).1 = match consume (nextSymbol c).2 with
          | .ok _ d => d.current.symbol
          | .error _ _ => .error) ∧
        (c.current.symbol = .endOfFile → (nextSymbol c).1 = .endOfFile)) ∧
      ∀ (c : TokenCursor) (symbol : Symbol), c.current.symbol ≠ symbol →
        tryConsume symbol c = .ok false c ∧
        expectLexeme symbol c = .error (fault c (.expected symbol c.current.near)) c ∧
        expect symbol c = .error (fault c (.expected symbol c.current.near)) c := by
  refine ⟨record_ofScanned scanned operations, record_withoutLookahead scanned operations,
    fun other h => record_of_filter_eq operations h, fun c => ⟨?_, fun hend => ?_⟩,
    fun c symbol hsymbol => ?_⟩
  · rw [consume_nextSymbol]
    exact nextSymbol_eq_of_consume c
  · rw [nextSymbol_of_eq hend]
  · have hexpect : expectLexeme symbol c =
        .error (fault c (.expected symbol c.current.near)) c := if_neg hsymbol
    refine ⟨if_neg hsymbol, hexpect, ?_⟩
    change EStateM.bind _ _ _ = _
    rw [EStateM.bind, hexpect]

/-- A scan error behind a comment, asked about twice; the end of the file; and a name where a comma
is looked for. -/
theorem lookahead_transparent_error :
    let name : Token := ⟨.name, "x", 1, 1, 1⟩
    let comment : Scanned := .ok ⟨.comment, " c", 1, 3, 1⟩
    let fault : Scanned := .error ⟨.unexpected "?", 2, 1⟩
    let start : TokenCursor := ⟨name, .endOfFile 1 0, none, [comment, fault]⟩
    let ended : TokenCursor := ⟨.endOfFile 2 1, name, none, []⟩
    (ofScanned [.ok name, comment, fault]).map (record [.nextSymbol, .nextSymbol, .consume]) =
        (ofScanned [.ok name, fault]).map (record [.nextSymbol, .nextSymbol, .consume]) ∧
      (nextSymbol start).1 = .error ∧
      (nextSymbol ended).1 = .endOfFile ∧
      tryConsume .comma start = .ok false start := by
  intro name comment fault start ended
  obtain ⟨_, _, hmarkers, hnext, hother⟩ :=
    lookahead_transparent [.ok name, fault] [.nextSymbol, .nextSymbol, .consume]
  refine ⟨hmarkers _ rfl, ?_, (hnext ended).2 rfl, (hother start .comma (by decide)).1⟩
  rw [(hnext start).1]
  rfl

end TokenCursor

end LuaLang
