import Mathlib
import LuaLang.Proofs.Grammar.Reading

/-!
# Two readings side by side

Two readings run on two streams, and the results are compared: the first may have fewer levels than
the second, or its stream may end where that of the second goes on. As long as the streams are alike
the readings do the same. The comparison can come to an end: the first stream comes to a place from
where on nothing is promised, or one of the two readings fails in a way that the other need not
follow.

What `Simulation` asks for concerns single steps only. It holds of what is put together from steps
that have it, of loops among them.

## Main definitions

* `Comparison`: when streams are alike, when a comparison is over, and which errors are the same.
* `Comparison.Outcome`: what may come of the two readings.
* `Comparison.Agrees`: two readings whose outcomes are as they may be, on all streams.
* `Simulation`: a comparison in which the single steps agree.

## Main statements

* `Comparison.Agrees.bind`, `Comparison.agrees_loop`: sequences and loops.
-/

namespace LuaLang

/-- What was scanned cannot be read if it starts with an error, or if reading its stream fails. -/
theorem Reading.ofScanned_eq_error {α : Type} {reading : Reading α} {scanned : List Scanned}
    {e : SyntaxError} :
    reading.ofScanned scanned = .error e ↔ TokenStream.ofScanned scanned = .error e ∨
      ∃ s t, TokenStream.ofScanned scanned = .ok s ∧ reading s = .error e t := by
  unfold Reading.ofScanned
  cases TokenStream.ofScanned scanned with
  | error f => simp
  | ok s =>
    dsimp only
    cases hresult : reading s with
    | ok a t => simp [hresult]
    | error f t => simp [hresult]

namespace Grammar

open Reading TokenStream

/-- How two readings are compared. -/
structure Comparison where
  /-- On these streams both readings have to do the same. -/
  Alike : TokenStream → TokenStream → Prop
  /-- When the first reading is here, nothing is promised about the second any more. -/
  Over : TokenStream → Prop
  /-- These errors count as the same. -/
  Same : SyntaxError → SyntaxError → Prop
  /-- With these errors of the first reading nothing is promised about the second. -/
  Leaves : SyntaxError → Prop
  /-- With these errors the second reading may fail where the first does not. -/
  Strays : SyntaxError → Prop

namespace Comparison

variable {α β : Type} {c : Comparison}

/-- The first reading stays where the comparison is over, or fails without a promise. -/
def Safe (c : Comparison) : EStateM.Result SyntaxError TokenStream α → Prop
  | .ok _ s => c.Over s
  | .error e _ => c.Leaves e

/-- What may come of the two readings. -/
def Outcome (c : Comparison) : EStateM.Result SyntaxError TokenStream α →
    EStateM.Result SyntaxError TokenStream α → Prop
  | .ok a s, .ok b t => (a = b ∧ c.Alike s t) ∨ c.Over s
  | .ok _ s, .error e _ => c.Over s ∨ c.Strays e
  | .error e _, .ok _ _ => c.Leaves e
  | .error e _, .error f _ => c.Same e f ∨ c.Leaves e ∨ c.Strays f

theorem Safe.outcome {r r' : EStateM.Result SyntaxError TokenStream α} (h : c.Safe r) :
    c.Outcome r r' := by
  cases r with
  | ok a s =>
    cases r' with
    | ok => exact .inr h
    | error => exact .inl h
  | error e s =>
    cases r' with
    | ok => exact h
    | error => exact .inr (.inl h)

/-- Where the first reading fails it leaves, or the second fails too. -/
theorem Outcome.of_error {e : SyntaxError} {s : TokenStream}
    {r : EStateM.Result SyntaxError TokenStream α} (h : c.Outcome (.error e s) r) :
    c.Leaves e ∨ ∃ f t, r = .error f t ∧ (c.Same e f ∨ c.Strays f) := by
  cases r with
  | ok a t => exact .inl h
  | error f t =>
    rcases h with hsame | hleaves | hstrays
    · exact .inr ⟨f, t, rfl, .inl hsame⟩
    · exact .inl hleaves
    · exact .inr ⟨f, t, rfl, .inr hstrays⟩

/-- The readings agree wherever the current symbol is the given one. -/
structure AgreesAt (c : Comparison) (y : Symbol) (x x' : Reading α) : Prop where
  alike : ∀ {s t}, c.Alike s t → s.symbol = y → c.Outcome (x s) (x' t)
  safe : ∀ {s}, c.Over s → s.symbol = y → c.Safe (x s)

/-- The readings agree. -/
structure Agrees (c : Comparison) (x x' : Reading α) : Prop where
  alike : ∀ {s t}, c.Alike s t → c.Outcome (x s) (x' t)
  safe : ∀ {s}, c.Over s → c.Safe (x s)

theorem Agrees.at {y : Symbol} {x x' : Reading α} (h : c.Agrees x x') : c.AgreesAt y x x' :=
  ⟨fun hs _ => h.alike hs, fun hs _ => h.safe hs⟩

theorem agrees_of_safe {x : Reading α} (h : ∀ s, c.Safe (x s)) (x' : Reading α) :
    c.Agrees x x' :=
  ⟨fun {s _} _ => (h s).outcome, fun {s} _ => h s⟩

theorem agrees_pure (a : α) : c.Agrees (pure a) (pure a) :=
  ⟨fun hs => .inl ⟨rfl, hs⟩, fun hs => hs⟩

/-! ## Sequences -/

theorem safe_bind {x : Reading α} {f : α → Reading β} {s : TokenStream} (hx : c.Safe (x s))
    (hf : ∀ a {t}, c.Over t → c.Safe (f a t)) : c.Safe ((x >>= f) s) := by
  change c.Safe (EStateM.bind x f s)
  unfold EStateM.bind
  cases h : x s with
  | ok a t =>
    rw [h] at hx
    exact hf a hx
  | error e t =>
    rw [h] at hx
    exact hx

/-- What comes of two sequences is settled by what comes of their first parts. -/
theorem outcome_bind {x x' : Reading α} {f f' : α → Reading β} {s t : TokenStream}
    (hx : c.Outcome (x s) (x' t)) (halike : ∀ a {u v}, x s = .ok a u → x' t = .ok a v →
      c.Alike u v → c.Outcome (f a u) (f' a v))
    (hover : ∀ a {u}, x s = .ok a u → c.Over u → c.Safe (f a u)) :
    c.Outcome ((x >>= f) s) ((x' >>= f') t) := by
  change c.Outcome (EStateM.bind x f s) (EStateM.bind x' f' t)
  unfold EStateM.bind
  cases h : x s with
  | ok a u =>
    cases h' : x' t with
    | ok b v =>
      rw [h, h'] at hx
      rcases hx with ⟨rfl, huv⟩ | hu
      · exact halike a h h' huv
      · exact (hover a h hu).outcome
    | error e v =>
      rw [h, h'] at hx
      rcases hx with hu | he
      · exact (hover a h hu).outcome
      · -- The second reading has gone astray, whatever the first one still does.
        change c.Outcome (f a u) (.error e v)
        cases f a u with
        | ok => exact .inr he
        | error => exact .inr (.inr he)
  | error e u =>
    cases h' : x' t with
    | ok b v =>
      rw [h, h'] at hx
      exact Safe.outcome (r := .error e u) hx
    | error f v =>
      rw [h, h'] at hx
      exact hx

theorem AgreesAt.bind {y : Symbol} {x x' : Reading α} {f f' : α → Reading β}
    (hx : c.AgreesAt y x x') (hf : ∀ a, c.Agrees (f a) (f' a)) :
    c.AgreesAt y (x >>= f) (x' >>= f') where
  alike hs hy := outcome_bind (hx.alike hs hy) (fun a _ _ _ _ huv => (hf a).alike huv)
    fun a _ _ hu => (hf a).safe hu
  safe hs hy := safe_bind (hx.safe hs hy) fun a _ hu => (hf a).safe hu

theorem Agrees.bind {x x' : Reading α} {f f' : α → Reading β} (hx : c.Agrees x x')
    (hf : ∀ a, c.Agrees (f a) (f' a)) : c.Agrees (x >>= f) (x' >>= f') where
  alike hs := outcome_bind (hx.alike hs) (fun a _ _ _ _ huv => (hf a).alike huv)
    fun a _ _ hu => (hf a).safe hu
  safe hs := safe_bind (hx.safe hs) fun a _ hu => (hf a).safe hu

theorem Agrees.map {x x' : Reading α} (f : α → β) (hx : c.Agrees x x') :
    c.Agrees (f <$> x) (f <$> x') := by
  rw [map_eq_pure_bind, map_eq_pure_bind]
  exact hx.bind fun a => agrees_pure (f a)

/-! ## Loops -/

/-- A loop stays where the comparison is over if its rounds do. -/
theorem safe_loop {step : α → Reading (α × Bool)} (hstep : Progresses step)
    (h : ∀ a {s}, c.Over s → c.Safe (step a s)) (a : α) {s : TokenStream} (hs : c.Over s) :
    c.Safe (loop step a s) := by
  induction a, s using hstep.induction with
  | round a s ih =>
    have hround := h a hs
    rw [loop_eq hstep]
    change c.Safe (EStateM.bind (step a) _ s)
    unfold EStateM.bind
    cases hr : step a s with
    | error e t =>
      rw [hr] at hround
      exact hround
    | ok r t =>
      rw [hr] at hround
      obtain ⟨a', more⟩ := r
      cases more with
      | false => exact hround
      | true => exact ih a' t hr hround

/-- Loops agree if their rounds do. The rounds of the first one carry the induction. -/
theorem agrees_loop {step step' : α → Reading (α × Bool)} (hstep : Progresses step)
    (hstep' : Progresses step') (h : ∀ a, c.Agrees (step a) (step' a)) (a : α) :
    c.Agrees (loop step a) (loop step' a) where
  safe hs := safe_loop hstep (fun a _ hs => (h a).safe hs) a hs
  alike {s t} hst := by
    induction a, s using hstep.induction generalizing t with
    | round a s ih =>
      rw [loop_eq hstep, loop_eq hstep']
      refine outcome_bind ((h a).alike hst) (fun r u v hu _ huv => ?_) fun r u _ hover => ?_
      · obtain ⟨a', more⟩ := r
        cases more with
        | false => exact .inl ⟨rfl, huv⟩
        | true => exact ih a' u hu huv
      · obtain ⟨a', more⟩ := r
        cases more with
        | false => exact hover
        | true => exact safe_loop hstep (fun a _ hs => (h a).safe hs) a' hover

end Comparison

/-! ## Simulations -/

/-- Where both streams are at the same token, after the same one, the parenthesis is as well placed
on one side as on the other. -/
theorem outcome_callGuard {c : Comparison} {s t : TokenStream} (hst : c.Alike s t)
    (hcurrent : s.current = t.current) (hlast : s.last = t.last) (hsame : ∀ e, c.Same e e) :
    c.Outcome (callGuard s) (callGuard t) := by
  have hfault : s.fault (.ambiguousCall s.near) = t.fault (.ambiguousCall t.near) := by
    rw [fault, fault, near, near, hcurrent]
  rw [callGuard_eq, callGuard_eq, ← hfault, ← hcurrent, ← hlast]
  split
  · exact .inl ⟨rfl, hst⟩
  · exact .inl (hsame _)

/-- What a reading can find wrong with a token. -/
inductive Complains (token : Token) : SyntaxError.Cause → Prop where
  | unexpected : Complains token (.unexpected token.near)
  | expected (symbol : Symbol) : Complains token (.expected symbol token.near)
  | ambiguousCall : Complains token (.ambiguousCall token.near)
  | malformedNumber (h : token.symbol = .number) : Complains token (.malformedNumber token.lexeme)
  | tooManyLevels : Complains token .tooManyLevels

/-- A comparison in which the single steps agree. -/
structure Simulation extends Comparison where
  symbol_eq : ∀ {s t}, Alike s t → s.symbol = t.symbol
  lexeme_eq : ∀ {s t}, Alike s t → s.current.lexeme = t.current.lexeme
  consume : ∀ {s t}, Alike s t → toComparison.Outcome (Reading.consume s) (Reading.consume t)
  fault : ∀ {s t cause}, Alike s t → Complains s.current cause →
    Same (s.fault cause) (t.fault cause)
  callGuard : ∀ {s t}, Alike s t → s.symbol = .leftParen →
    toComparison.Outcome (Grammar.callGuard s) (Grammar.callGuard t)
  /-- If the symbols after the current ones differ, the comparison is over with the next token. -/
  lookahead : ∀ {s t}, Alike s t →
    s.nextSymbol = t.nextSymbol ∨ toComparison.Safe (Reading.consume s)
  over_consume : ∀ {s}, Over s → toComparison.Safe (Reading.consume s)
  over_fault : ∀ {s cause}, Over s → Complains s.current cause → Leaves (s.fault cause)

namespace Simulation

variable {α β : Type} {c : Simulation}

theorem near_eq {s t : TokenStream} (h : c.Alike s t) : s.near = t.near := by
  have hsymbol := c.symbol_eq h
  have hlexeme := c.lexeme_eq h
  simp only [TokenStream.symbol] at hsymbol
  simp only [TokenStream.near, Token.near, hsymbol, hlexeme]

theorem agrees_consume : c.Agrees Reading.consume Reading.consume where
  alike := c.consume
  safe := c.over_consume

theorem agrees_symbol : c.Agrees Reading.symbol Reading.symbol where
  alike hst := .inl ⟨c.symbol_eq hst, hst⟩
  safe hs := hs

/-- What depends on the current symbol has to agree only where that is the symbol. -/
theorem agrees_symbol_bind {f f' : Symbol → Reading β} (h : ∀ y, c.AgreesAt y (f y) (f' y)) :
    c.Agrees (Reading.symbol >>= f) (Reading.symbol >>= f') where
  alike {s t} hst := by
    rw [bind_of_ok Reading.symbol_eq, bind_of_ok Reading.symbol_eq, ← c.symbol_eq hst]
    exact (h s.symbol).alike hst rfl
  safe {s} hs := by
    rw [bind_of_ok Reading.symbol_eq]
    exact (h s.symbol).safe hs rfl

theorem agrees_consumeLexeme : c.Agrees consumeLexeme consumeLexeme where
  alike {s t} hst := by
    rw [consumeLexeme, consumeLexeme, c.lexeme_eq hst]
    exact (agrees_consume.bind fun _ => c.agrees_pure _).alike hst
  safe hs := (agrees_consume.bind fun _ => c.agrees_pure _).safe hs

/-- A failure of the same cause, which is about the current token. -/
theorem agrees_fail {cause : TokenStream → SyntaxError.Cause}
    (halike : ∀ {s t}, c.Alike s t → cause s = cause t)
    (hcause : ∀ s : TokenStream, Complains s.current (cause s)) :
    c.Agrees (fail cause : Reading α) (fail cause) where
  alike {s t} hst := by
    refine .inl ?_
    rw [← halike hst]
    exact c.fault hst (hcause s)
  safe {s} hs := c.over_fault hs (hcause s)

theorem agrees_unexpected : c.Agrees (unexpected : Reading α) unexpected :=
  agrees_fail (fun hst => by rw [near_eq hst]) fun _ => .unexpected

theorem agrees_tooManyLevels : c.Agrees (tooManyLevels : Reading α) tooManyLevels :=
  agrees_fail (fun _ => rfl) fun _ => .tooManyLevels

theorem agrees_expected (y : Symbol) :
    c.Agrees (fail (fun s => .expected y s.near) : Reading α) (fail fun s => .expected y s.near) :=
  agrees_fail (fun hst => by rw [near_eq hst]) fun _ => .expected y

theorem agrees_tryConsume (y : Symbol) : c.Agrees (tryConsume y) (tryConsume y) where
  alike {s t} hst := by
    rw [tryConsume, tryConsume, c.symbol_eq hst]
    split
    · exact (agrees_consume.bind fun _ => c.agrees_pure true).alike hst
    · exact .inl ⟨rfl, hst⟩
  safe {s} hs := by
    rw [tryConsume]
    split
    · exact (agrees_consume.bind fun _ => c.agrees_pure true).safe hs
    · exact hs

theorem agrees_expectLexeme (y : Symbol) : c.Agrees (expectLexeme y) (expectLexeme y) where
  alike {s t} hst := by
    rw [expectLexeme, expectLexeme, c.symbol_eq hst]
    split
    · exact agrees_consumeLexeme.alike hst
    · exact (agrees_expected y).alike hst
  safe {s} hs := by
    rw [expectLexeme]
    split
    · exact agrees_consumeLexeme.safe hs
    · exact (agrees_expected y).safe hs

theorem agrees_expect (y : Symbol) : c.Agrees (expect y) (expect y) :=
  (agrees_expectLexeme y).bind fun _ => c.agrees_pure ()

theorem agreesAt_callGuard :
    c.AgreesAt .leftParen Grammar.callGuard Grammar.callGuard where
  alike := c.callGuard
  safe {s} hs _ := by
    rw [callGuard_eq]
    split
    · exact hs
    · exact c.over_fault hs .ambiguousCall

/-- A numeral is read where there is one. -/
theorem agreesAt_numeral : c.AgreesAt .number numeral numeral where
  alike {s t} hst hy := by
    rw [numeral, numeral, c.lexeme_eq hst]
    split
    · next value _ => exact (agrees_consume.bind fun _ => c.agrees_pure value).alike hst
    · refine .inl ?_
      simp only [← c.lexeme_eq hst]
      exact c.fault hst (.malformedNumber hy)
  safe {s} hs hy := by
    rw [numeral]
    split
    · next value _ => exact (agrees_consume.bind fun _ => c.agrees_pure value).safe hs
    · exact c.over_fault hs (.malformedNumber hy)

end Simulation

end Grammar

end LuaLang
