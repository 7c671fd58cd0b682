import Mathlib
import LuaLang.Proofs.Grammar.Finality
import LuaLang.Proofs.Grammar.Layout
import LuaLang.Proofs.Printing.Spelling

/-!
# Going on at the end of the file

A stream comes to the end of the file. Other tokens can be put in its place, and a reading that has
not come to the end does not notice. A reading that fails at the end is mended if there are tokens
to put there with which some tree is written out in full.

What a reading takes up is given by stretches. A part of a rule that was read stays where it is when
the source goes on. A part that is not there at all, because the source has ended before it, is
filled in. So a rule is mended if each part of it is, and if each part after the first one can be
filled in. What is filled in for one part must not be taken for more of the part before it; blocks
are the only parts that look ahead in this way.

There is one way to fail at the end of the file for good, an equals sign after something that is no
name, and it is kept apart.

## Main definitions

* `Brink`: the last token of a source and the place of its end.
* `TokenStream.onto`: a stream with tokens in place of the end.
* `Fits`, `Filled`: tokens that stretches can be filled in with, from nothing or from a stream that
  has begun with them.
* `Brink.Mends`: a reading whose failures at the end of the file are mended.

## Main statements

* `Brink.Mends.bind`, `Brink.mendsAt_loop`: sequences and loops.
-/

namespace LuaLang

/-- A sequence fails in its first part, or after it. -/
theorem Reading.bind_eq_error {α β : Type} {x : Reading α} {f : α → Reading β} {s t : TokenStream}
    {e : SyntaxError} :
    (x >>= f) s = .error e t ↔
      x s = .error e t ∨ ∃ a u, x s = .ok a u ∧ f a u = .error e t := by
  change EStateM.bind x f s = _ ↔ _
  unfold EStateM.bind
  cases x s <;> simp

/-! ## Streams that come to an end -/

/-- Where a token starts. -/
def Token.place (token : Token) : Position :=
  ⟨token.line, token.column⟩

/-- Where an error is. -/
def SyntaxError.place (e : SyntaxError) : Position :=
  ⟨e.line, e.column⟩

/-- How a source ends: its last token, and the place of the end of the file. -/
structure Brink where
  last : Token
  place : Position

/-- The stream has tokens up to the end of the file, which is the only one at its place. -/
inductive Brink.Ends (z : Brink) : TokenStream → Prop where
  | here {s : TokenStream} (hs : s.symbol = .endOfFile) (hp : s.current.place = z.place) : Ends z s
  | later {s : TokenStream} {token : Token} {rest : List Scanned} (hs : s.symbol ≠ .endOfFile)
      (hp : s.current.place ≠ z.place) (hrest : s.rest = .ok token :: rest)
      (hlast : token.symbol = .endOfFile → rest = [] ∧ s.current = z.last)
      (h : Ends z ⟨token, s.current, rest⟩) : Ends z s

namespace TokenStream

/-- The stream with tokens in place of the end of the file. -/
def onto (s : TokenStream) (after : List Token) : TokenStream :=
  if s.symbol = .endOfFile then
    match after with
    | [] => s
    | token :: rest => ⟨token, s.last, rest.map .ok⟩
  else { s with rest := s.rest.dropLast ++ after.map .ok }

variable {s t : TokenStream} {after : List Token}

theorem onto_of_ne (hs : s.symbol ≠ .endOfFile) (after : List Token) :
    s.onto after = { s with rest := s.rest.dropLast ++ after.map .ok } :=
  if_neg hs

theorem current_onto (hs : s.symbol ≠ .endOfFile) (after : List Token) :
    (s.onto after).current = s.current := by
  rw [onto_of_ne hs]

theorem symbol_onto (hs : s.symbol ≠ .endOfFile) (after : List Token) :
    (s.onto after).symbol = s.symbol :=
  congrArg Token.symbol (current_onto hs after)

/-- At the end of the file, the tokens in its place are what the stream has. -/
theorem stands_onto (hs : s.symbol = .endOfFile) (hafter : after ≠ []) :
    (s.onto after).Stands after := by
  obtain ⟨token, rest, rfl⟩ := List.exists_cons_of_ne_nil hafter
  rw [onto, if_pos hs]
  exact ⟨rfl, rfl⟩

end TokenStream

namespace Brink

variable {z : Brink} {s t : TokenStream}

/-- Only the end of the file is at its place. -/
theorem Ends.symbol_eq (h : z.Ends s) (hp : s.current.place = z.place) :
    s.symbol = .endOfFile := by
  cases h with
  | here hs => exact hs
  | later _ hne => exact absurd hp hne

/-- A stream that is not at its end moves on, also if it goes on there. -/
theorem Ends.next (h : z.Ends s) (hs : s.symbol ≠ .endOfFile) :
    ∃ t, s.Next t ∧ z.Ends t ∧ (t.symbol = .endOfFile → s.current = z.last) ∧
      ∀ after, after ≠ [] → (s.onto after).Next (t.onto after) := by
  cases h with
  | here hend => exact absurd hend hs
  | @later _ token rest _ _ hrest hlast h =>
    refine ⟨_, ⟨hs, TokenStream.consume_of_ok hs hrest⟩, h, fun hend => (hlast hend).2,
      fun after hafter => ⟨by rwa [TokenStream.symbol_onto hs], ?_⟩⟩
    rw [TokenStream.onto_of_ne hs]
    by_cases htoken : token.symbol = .endOfFile
    · obtain ⟨rfl, -⟩ := hlast htoken
      obtain ⟨first, more, rfl⟩ := List.exists_cons_of_ne_nil hafter
      have honto : TokenStream.onto ⟨token, s.current, []⟩ (first :: more) =
          ⟨first, s.current, more.map .ok⟩ := if_pos htoken
      rw [honto, hrest]
      exact TokenStream.consume_of_ok hs rfl
    · have hne : rest ≠ [] := by
        cases h with
        | here hend => exact absurd hend htoken
        | later _ _ hmore =>
          rintro rfl
          cases hmore
      have honto : TokenStream.onto ⟨token, s.current, rest⟩ after =
          ⟨token, s.current, rest.dropLast ++ after.map .ok⟩ := if_neg htoken
      rw [honto, hrest, List.dropLast_cons_of_ne_nil hne]
      exact TokenStream.consume_of_ok hs rfl

theorem Ends.next_onto (h : z.Ends s) (hst : s.Next t) :
    z.Ends t ∧ (t.symbol = .endOfFile → s.current = z.last) ∧
      ∀ after, after ≠ [] → (s.onto after).Next (t.onto after) := by
  obtain ⟨u, hu, h⟩ := h.next hst.1
  have heq := hu.2.symm.trans hst.2
  cases heq
  exact h

end Brink

/-! ## What can be filled in -/

/-- The symbol of a terminal. -/
def Terminal.symbol : Terminal → Symbol
  | .mark y => y
  | .name _ => .name
  | .string _ => .string
  | .number _ => .number

theorem Terminal.Matches.symbol_eq {terminal : Terminal} {token : Token}
    (h : terminal.Matches token) : token.symbol = terminal.symbol := by
  cases terminal with
  | mark => exact h
  | name | string | number => exact h.1

/-- A terminal that can be filled in: it is in the language, and it does not end the file. -/
def Terminal.Spellable (terminal : Terminal) : Prop :=
  terminal.Lexical ∧ ∀ y, terminal = .mark y → y ∈ Symbol.reserved ++ Symbol.punctuation

theorem Terminal.Spellable.symbol_ne {terminal : Terminal} (h : terminal.Spellable) :
    terminal.symbol ≠ .endOfFile := by
  cases terminal with
  | mark y =>
    have hfixed : ∀ y ∈ Symbol.reserved ++ Symbol.punctuation, y ≠ .endOfFile := by decide
    exact hfixed y (h.2 y rfl)
  | name | string | number => exact nofun

theorem Terminal.spellable_mark {y : Symbol} (hy : y ∈ Symbol.reserved ++ Symbol.punctuation) :
    (Terminal.mark y).Spellable :=
  ⟨trivial, by rintro _ ⟨⟩; exact hy⟩

theorem Terminal.spellable_name : (Terminal.name "x").Spellable := by
  have hname : Lexeme.IsName "x" := ⟨⟨'x', [], rfl, by decide⟩, by simp [Lexeme.isNameChar],
    by decide +kernel⟩
  exact ⟨hname, by rintro _ ⟨⟩⟩

theorem Terminal.spellable_string : (Terminal.string "").Spellable :=
  ⟨trivial, nofun⟩

/-- The tokens are the terminals, one by one. -/
def Terminal.MatchesAll (ys : List Terminal) (ts : List Token) : Prop :=
  List.Forall₂ (fun token terminal => terminal.Matches token) ts ys

theorem Terminal.MatchesAll.split {ys zs : List Terminal} {ts : List Token}
    (h : MatchesAll (ys ++ zs) ts) :
    ∃ us vs, ts = us ++ vs ∧ MatchesAll ys us ∧ MatchesAll zs vs :=
  ⟨_, _, (List.take_append_drop ys.length ts).symm, List.forall₂_take_append _ _ _ h,
    List.forall₂_drop_append _ _ _ h⟩

/-- The tokens start with an allowed symbol. -/
def Heads (F : Symbol → Prop) (after : List Token) : Prop :=
  ∃ token rest, after = token :: rest ∧ F token.symbol

/-- The symbol is what comes first if the terminals are followed by an allowed symbol. -/
def Leads (ys : List Terminal) (F : Symbol → Prop) (y : Symbol) : Prop :=
  match ys with
  | [] => F y
  | first :: _ => y = first.symbol

section Filling

variable {F G : Symbol → Prop} {ys zs : List Terminal} {l m : List Stretch} {s t : TokenStream}
  {ts after : List Token}

theorem Heads.ne_nil (h : Heads F after) : after ≠ [] := by
  obtain ⟨token, rest, rfl, -⟩ := h
  exact List.cons_ne_nil _ _

theorem Heads.append (hafter : Heads F after) (hts : Terminal.MatchesAll ys ts)
    (h : ∀ y, Leads ys F y → G y) : Heads G (ts ++ after) := by
  cases hts with
  | nil =>
    obtain ⟨token, rest, rfl, hF⟩ := hafter
    exact ⟨token, rest, rfl, h _ hF⟩
  | cons hmatch _ => exact ⟨_, _, rfl, h _ hmatch.symbol_eq⟩

/-- The terminals fill the stretches, if an allowed symbol follows. -/
def Fits (ys : List Terminal) (F : Symbol → Prop) (l : List Stretch) : Prop :=
  (∀ terminal ∈ ys, terminal.Spellable) ∧ ∀ (s : TokenStream) (ts after : List Token),
    Terminal.MatchesAll ys ts → Heads F after → s.Stands (ts ++ after) →
      ∃ t, Spans l s t ∧ t.Stands after

/-- The terminals fill what is left of the stretches when the stream has come to its end, if an
allowed symbol follows. -/
def Filled (ys : List Terminal) (F : Symbol → Prop) (l : List Stretch) (s : TokenStream) : Prop :=
  (∀ terminal ∈ ys, terminal.Spellable) ∧ ∀ ts after : List Token,
    Terminal.MatchesAll ys ts → Heads F after →
      ∃ t, Spans l (s.onto (ts ++ after)) t ∧ t.Stands after

/-- The stretches were passed, and they still are if the source goes on with an allowed symbol. -/
def Stays (F : Symbol → Prop) (l : List Stretch) (s t : TokenStream) : Prop :=
  ∀ after, after ≠ [] → (t.symbol = .endOfFile → Heads F after) →
    Spans l (s.onto after) (t.onto after)

theorem fits_nil : Fits [] F [] := by
  refine ⟨by simp, fun s ts after hts _ hs => ?_⟩
  cases hts
  exact ⟨s, rfl, hs⟩

theorem fits_one {terminal : Terminal} (h : terminal.Spellable) :
    Fits [terminal] F [.one terminal] := by
  refine ⟨by simpa using h, fun s ts after hts hafter hs => ?_⟩
  cases hts with
  | cons hmatch hnil =>
    cases hnil
    obtain ⟨token, rest, rfl, -⟩ := hafter
    obtain ⟨rfl, hrest⟩ := hs
    have hne : s.symbol ≠ .endOfFile := by
      rw [TokenStream.symbol, hmatch.symbol_eq]
      exact h.symbol_ne
    exact ⟨⟨token, s.current, rest.map .ok⟩,
      ⟨_, ⟨hmatch, hne, TokenStream.consume_of_ok hne hrest⟩, rfl⟩, rfl, rfl⟩

theorem fits_ahead {allowed : Symbol → Prop} (h : ∀ y, F y → allowed y) :
    Fits [] F [.ahead allowed] := by
  refine ⟨by simp, fun s ts after hts hafter hs => ?_⟩
  cases hts
  obtain ⟨token, rest, rfl, hF⟩ := hafter
  refine ⟨s, ⟨s, ⟨h _ ?_, rfl⟩, rfl⟩, hs⟩
  rwa [TokenStream.symbol, hs.1]

theorem Fits.append (hl : Fits ys F l) (hm : Fits zs G m) (h : ∀ y, Leads zs G y → F y) :
    Fits (ys ++ zs) G (l ++ m) := by
  refine ⟨List.forall_mem_append.2 ⟨hl.1, hm.1⟩, fun s ts after hts hafter hs => ?_⟩
  obtain ⟨us, vs, rfl, hus, hvs⟩ := hts.split
  rw [List.append_assoc] at hs
  obtain ⟨t, hspans, ht⟩ := hl.2 s us _ hus (hafter.append hvs h) hs
  obtain ⟨u, hspans', hu⟩ := hm.2 t vs after hvs hafter ht
  exact ⟨u, spans_append.2 ⟨t, hspans, hspans'⟩, hu⟩

theorem Filled.append (hl : Filled ys F l s) (hm : Fits zs G m) (h : ∀ y, Leads zs G y → F y) :
    Filled (ys ++ zs) G (l ++ m) s := by
  refine ⟨List.forall_mem_append.2 ⟨hl.1, hm.1⟩, fun ts after hts hafter => ?_⟩
  obtain ⟨us, vs, rfl, hus, hvs⟩ := hts.split
  obtain ⟨t, hspans, ht⟩ := hl.2 us _ hus (hafter.append hvs h)
  obtain ⟨u, hspans', hu⟩ := hm.2 t vs after hvs hafter ht
  rw [List.append_assoc]
  exact ⟨u, spans_append.2 ⟨t, hspans, hspans'⟩, hu⟩

/-- What was read up to the end of the file is followed by what is filled in there. -/
theorem Stays.fill (hl : Stays F l s t) (ht : t.symbol = .endOfFile) (hm : Fits ys G m)
    (h : ∀ y, Leads ys G y → F y) : Filled ys G (l ++ m) s := by
  refine ⟨hm.1, fun ts after hts hafter => ?_⟩
  have hheads := hafter.append hts h
  have hspans := hl _ hheads.ne_nil fun _ => hheads
  obtain ⟨u, hspans', hu⟩ :=
    hm.2 _ ts after hts hafter (TokenStream.stands_onto ht hheads.ne_nil)
  exact ⟨u, spans_append.2 ⟨_, hspans, hspans'⟩, hu⟩

/-- What was read before the end of the file stays in front of what is filled in later. -/
theorem Stays.append_filled (hl : Stays F l s t) (ht : t.symbol ≠ .endOfFile)
    (hm : Filled ys G m t) : Filled ys G (l ++ m) s := by
  refine ⟨hm.1, fun ts after hts hafter => ?_⟩
  have hne : ts ++ after ≠ [] := List.append_ne_nil_of_right_ne_nil _ hafter.ne_nil
  obtain ⟨u, hspans, hu⟩ := hm.2 ts after hts hafter
  exact ⟨u, spans_append.2 ⟨_, hl _ hne fun hend => absurd hend ht, hspans⟩, hu⟩

theorem Stays.append {u : TokenStream} (hl : Stays F l s t) (hm : Stays G m t u)
    (h : t.symbol = .endOfFile → u.symbol = .endOfFile ∧ ∀ y, G y → F y) :
    Stays G (l ++ m) s u := by
  intro after hafter hheads
  refine spans_append.2 ⟨_, hl after hafter fun ht => ?_, hm after hafter hheads⟩
  obtain ⟨hu, hFG⟩ := h ht
  obtain ⟨token, rest, heq, hG⟩ := hheads hu
  exact ⟨token, rest, heq, hFG _ hG⟩

theorem stays_nil : Stays F [] s s :=
  fun _ _ _ => rfl

theorem stays_ahead {allowed : Symbol → Prop} (hs : s.symbol ≠ .endOfFile → allowed s.symbol)
    (h : ∀ y, F y → allowed y) : Stays F [.ahead allowed] s s := by
  intro after hafter hheads
  refine ⟨_, ⟨?_, rfl⟩, rfl⟩
  by_cases hend : s.symbol = .endOfFile
  · obtain ⟨token, rest, rfl, hF⟩ := hheads hend
    rw [TokenStream.symbol, (TokenStream.stands_onto hend hafter).1]
    exact h _ hF
  · rw [TokenStream.symbol_onto hend]
    exact hs hend

/-- A stretch that takes up the current token stays. -/
theorem stays_of_next {z : Brink} {stretch : Stretch} (hs : z.Ends s) (hst : s.Next t)
    (hpass : ∀ u v : TokenStream, u.current = s.current → u.last = s.last → u.Next v →
      stretch.Passes u v) : Stays F [stretch] s t := by
  intro after hafter _
  refine ⟨_, hpass _ _ (TokenStream.current_onto hst.1 after) ?_
    ((hs.next_onto hst).2.2 after hafter), rfl⟩
  rw [TokenStream.onto_of_ne hst.1]

/-- Stretches stay if they are implied by stretches that do. -/
theorem Stays.mono (h : Stays F l s t) (himp : ∀ s t, Spans l s t → Spans m s t) :
    Stays F m s t :=
  fun after hafter hheads => himp _ _ (h after hafter hheads)

theorem Filled.mono (h : Filled ys F l s) (himp : ∀ s t, Spans l s t → Spans m s t) :
    Filled ys F m s := by
  refine ⟨h.1, fun ts after hts hafter => ?_⟩
  obtain ⟨t, hspans, ht⟩ := h.2 ts after hts hafter
  exact ⟨t, himp _ _ hspans, ht⟩

theorem Fits.mono (h : Fits ys F l) (himp : ∀ s t, Spans l s t → Spans m s t) :
    Fits ys F m := by
  refine ⟨h.1, fun s ts after hts hafter hs => ?_⟩
  obtain ⟨t, hspans, ht⟩ := h.2 s ts after hts hafter hs
  exact ⟨t, himp _ _ hspans, ht⟩

end Filling

/-! ## Readings that are mended -/

namespace Brink

open Reading TokenStream Grammar

variable {α β : Type} {z : Brink} {F G : Symbol → Prop} {ys zs : List Terminal}
  {s t : TokenStream}

/-- The source ends with an equals sign, and whatever follows it the reading fails. -/
def Refuses (z : Brink) (x : Reading α) (s : TokenStream) : Prop :=
  z.last.symbol = .equal ∧ ∀ t, s.Extended t → ∃ e u, x t = .error e u

/-- What a reading does with a stream that ends: what it reads stays when the source goes on; at
the end of the file it reads something only if it need not read anything; and if it fails at the end
of the file, something can be filled in with which it would have read one of the trees, unless it
refuses to go on. -/
structure MendsAt (z : Brink) (L : α → List Stretch → Prop) (F : Symbol → Prop)
    (ys : List Terminal) (x : Reading α) (s : TokenStream) : Prop where
  reads : ∀ {a t}, x s = .ok a t → z.Ends t ∧ ∃ l, L a l ∧ Stays F l s t
  keeps : ∀ {a t s'}, x s = .ok a t → t.symbol ≠ .endOfFile → s.Extended s' →
    ∃ t', x s' = .ok a t' ∧ t.Extended t'
  atEnd : s.symbol = .endOfFile → ∀ {a t}, x s = .ok a t → ys = [] ∧ s = t
  fails : s.symbol ≠ .endOfFile → ∀ {e u}, x s = .error e u → e.place = z.place →
    z.Refuses x s ∨ ∃ a l zs, L a l ∧ Filled zs F l s

/-- A reading that does so with every stream that ends, and for which `ys` can be filled in where
the source has ended before it. -/
structure Mends (z : Brink) (L : α → List Stretch → Prop) (F : Symbol → Prop)
    (ys : List Terminal) (x : Reading α) : Prop where
  mendsAt : ∀ {s}, z.Ends s → z.MendsAt L F ys x s
  fills : ∃ a l, L a l ∧ Fits ys F l

variable {L : β → List Stretch → Prop} {K : α → List Stretch → Prop}

/-- A sequence is mended if what comes after the first part is, and can be filled in: what is filled
in may depend on the first part. -/
theorem MendsAt.bind_of {x : Reading α} {f : α → Reading β} (hx : z.MendsAt K F ys x s)
    (hf : ∀ a l t, x s = .ok a t → K a l → z.Ends t →
      ∃ us, z.MendsAt (fun b m => L b (l ++ m)) G us (f a) t ∧ (∀ y, Leads us G y → F y) ∧
        (ys = [] → us = [] → zs = []))
    (hfills : ∀ a l, K a l → ∃ b m us, L b (l ++ m) ∧ Fits us G m ∧ ∀ y, Leads us G y → F y) :
    z.MendsAt L G zs (x >>= f) s where
  reads {b u} h := by
    obtain ⟨a, t, ha, hb⟩ := bind_eq_ok.1 h
    obtain ⟨ht, l, hK, hl⟩ := hx.reads ha
    obtain ⟨us, hat, hlead, -⟩ := hf a l t ha hK ht
    obtain ⟨hu, m, hL, hm⟩ := hat.reads hb
    refine ⟨hu, l ++ m, hL, hl.append hm fun hend => ?_⟩
    obtain ⟨rfl, rfl⟩ := hat.atEnd hend hb
    exact ⟨hend, hlead⟩
  keeps {b u s'} h hu hs' := by
    obtain ⟨a, t, ha, hb⟩ := bind_eq_ok.1 h
    obtain ⟨ht, l, hK, -⟩ := hx.reads ha
    obtain ⟨us, hat, -⟩ := hf a l t ha hK ht
    have hne : t.symbol ≠ .endOfFile := by
      intro hend
      obtain ⟨-, rfl⟩ := hat.atEnd hend hb
      exact hu hend
    obtain ⟨t', ha', ht'⟩ := hx.keeps ha hne hs'
    obtain ⟨u', hb', hu'⟩ := hat.keeps hb hu ht'
    exact ⟨u', bind_eq_ok.2 ⟨a, t', ha', hb'⟩, hu'⟩
  atEnd hs b u h := by
    obtain ⟨a, t, ha, hb⟩ := bind_eq_ok.1 h
    obtain ⟨hend, l, hK, -⟩ := hx.reads ha
    obtain ⟨hys, rfl⟩ := hx.atEnd hs ha
    obtain ⟨us, hat, -, hnil⟩ := hf a l s ha hK hend
    obtain ⟨hus, rfl⟩ := hat.atEnd hs hb
    exact ⟨hnil hys hus, rfl⟩
  fails hs e u h hp := by
    rcases bind_eq_error.1 h with hfirst | ⟨a, t, ha, hb⟩
    · rcases hx.fails hs hfirst hp with ⟨hlast, hrefuses⟩ | ⟨a, l, vs, hK, hl⟩
      · refine .inl ⟨hlast, fun t ht => ?_⟩
        obtain ⟨e, u, hu⟩ := hrefuses t ht
        exact ⟨e, u, bind_eq_error.2 (.inl hu)⟩
      · obtain ⟨b, m, us, hL, hm, hlead⟩ := hfills a l hK
        exact .inr ⟨b, l ++ m, vs ++ us, hL, hl.append hm hlead⟩
    · obtain ⟨ht, l, hK, hl⟩ := hx.reads ha
      by_cases hend : t.symbol = .endOfFile
      · obtain ⟨b, m, us, hL, hm, hlead⟩ := hfills a l hK
        exact .inr ⟨b, l ++ m, us, hL, hl.fill hend hm hlead⟩
      · obtain ⟨us, hat, -⟩ := hf a l t ha hK ht
        rcases hat.fails hend hb hp with ⟨hlast, hrefuses⟩ | ⟨b, m, vs, hL, hm⟩
        · refine .inl ⟨hlast, fun s' hs' => ?_⟩
          obtain ⟨t', ha', ht'⟩ := hx.keeps ha hend hs'
          obtain ⟨e, u, hu⟩ := hrefuses t' ht'
          exact ⟨e, u, bind_eq_error.2 (.inr ⟨a, t', ha', hu⟩)⟩
        · exact .inr ⟨b, l ++ m, vs, hL, hl.append_filled hend hm⟩

theorem MendsAt.bind {x : Reading α} {f : α → Reading β} (hx : z.MendsAt K F ys x s)
    (hf : ∀ a l t, x s = .ok a t → K a l → z.Ends t →
      z.MendsAt (fun b m => L b (l ++ m)) G zs (f a) t)
    (hfills : ∀ a l, K a l → ∃ b m, L b (l ++ m) ∧ Fits zs G m)
    (hlead : ∀ y, Leads zs G y → F y) : z.MendsAt L G (ys ++ zs) (x >>= f) s := by
  refine hx.bind_of (fun a l t ha hK ht => ?_) fun a l hK => ?_
  · refine ⟨zs, hf a l t ha hK ht, hlead, ?_⟩
    rintro rfl rfl
    rfl
  · obtain ⟨b, m, hL, hm⟩ := hfills a l hK
    exact ⟨b, m, zs, hL, hm, hlead⟩

theorem Mends.bind {x : Reading α} {f : α → Reading β} (hx : z.Mends K F ys x)
    (hf : ∀ a l, K a l → z.Mends (fun b m => L b (l ++ m)) G zs (f a))
    (hlead : ∀ y, Leads zs G y → F y) : z.Mends L G (ys ++ zs) (x >>= f) where
  mendsAt hs := (hx.mendsAt hs).bind (fun a l _ _ hK ht => (hf a l hK).mendsAt ht)
    (fun a l hK => (hf a l hK).fills) hlead
  fills := by
    obtain ⟨a, l, hK, hl⟩ := hx.fills
    obtain ⟨b, m, hL, hm⟩ := (hf a l hK).fills
    exact ⟨b, l ++ m, hL, hl.append hm hlead⟩

/-! ## Single steps -/

section Steps

variable {x : Reading α} {f : α → Reading β} {y : Symbol}

/-- Away from the end of the file it does not matter what is filled in there. -/
theorem MendsAt.of_ne (h : z.MendsAt K F ys x s) (hs : s.symbol ≠ .endOfFile) :
    z.MendsAt K F zs x s :=
  ⟨h.reads, h.keeps, fun hend => absurd hend hs, h.fails⟩

/-- If something has to be filled in, nothing is read at the end of the file. -/
theorem MendsAt.of_cons {terminal : Terminal} (h : z.MendsAt K F (terminal :: ys) x s) :
    z.MendsAt K F zs x s :=
  ⟨h.reads, h.keeps, fun hend _ _ ha => absurd (h.atEnd hend ha).1 (List.cons_ne_nil _ _), h.fails⟩

/-- Other stretches that are passed in the same way will do, too. -/
theorem MendsAt.mono {M : α → List Stretch → Prop} (h : z.MendsAt K F ys x s)
    (himp : ∀ a l, K a l → ∃ m, M a m ∧ ∀ s t, Spans l s t → Spans m s t) :
    z.MendsAt M F ys x s where
  reads ha := by
    obtain ⟨ht, l, hK, hl⟩ := h.reads ha
    obtain ⟨m, hM, hspans⟩ := himp _ l hK
    exact ⟨ht, m, hM, hl.mono hspans⟩
  keeps := h.keeps
  atEnd := h.atEnd
  fails hs e u he hp := by
    refine (h.fails hs he hp).imp_right ?_
    rintro ⟨a, l, us, hK, hl⟩
    obtain ⟨m, hM, hspans⟩ := himp a l hK
    exact ⟨a, m, us, hM, hl.mono hspans⟩

theorem Mends.mono {M : α → List Stretch → Prop} (h : z.Mends K F ys x)
    (himp : ∀ a l, K a l → ∃ m, M a m ∧ ∀ s t, Spans l s t → Spans m s t) :
    z.Mends M F ys x where
  mendsAt hs := (h.mendsAt hs).mono himp
  fills := by
    obtain ⟨a, l, hK, hl⟩ := h.fills
    obtain ⟨m, hM, hspans⟩ := himp a l hK
    exact ⟨a, m, hM, hl.mono hspans⟩

/-- Nothing is read, where stretches are passed without a token. -/
theorem mendsAt_pure_of_stays {a : α} {l : List Stretch} (h : K a l) (hs : z.Ends s)
    (hl : Stays F l s s) : z.MendsAt K F [] (pure a) s where
  reads ha := by
    obtain ⟨rfl, rfl⟩ := pure_eq_ok.1 ha
    exact ⟨hs, l, h, hl⟩
  keeps {_ _ s'} ha _ hs' := by
    obtain ⟨rfl, rfl⟩ := pure_eq_ok.1 ha
    exact ⟨s', rfl, hs'⟩
  atEnd _ _ _ ha := ⟨rfl, (pure_eq_ok.1 ha).2⟩
  fails _ _ _ he := nomatch he

theorem mendsAt_pure {a : α} (h : K a []) (hs : z.Ends s) : z.MendsAt K F [] (pure a) s :=
  mendsAt_pure_of_stays h hs stays_nil

theorem mends_pure {a : α} (h : K a []) : z.Mends K F [] (pure a) :=
  ⟨mendsAt_pure h, a, [], h, fits_nil⟩

/-- What was read is put into a tree. -/
theorem Mends.bind_pure {g : α → β} (h : z.Mends K F ys x) (hg : ∀ a l, K a l → L (g a) l) :
    z.Mends L F ys (x >>= fun a => pure (g a)) := by
  have hbind : z.Mends L F (ys ++ []) (x >>= fun a => pure (g a)) :=
    h.bind (fun a l hK => mends_pure (by simpa using hg a l hK)) fun _ hy => hy
  simpa using hbind

/-- A failure is at the current token, so before the end of the file it is not there. -/
theorem mendsAt_of_fault {cause : SyntaxError.Cause} {u : TokenStream} (hs : z.Ends s)
    (h : x s = .error (s.fault cause) u) : z.MendsAt K F ys x s := by
  refine ⟨?_, ?_, fun _ => ?_, fun hne => ?_⟩ <;> rw [h]
  · exact nofun
  · exact nofun
  · exact nofun
  · rintro _ _ ⟨⟩ hp
    exact absurd (hs.symbol_eq hp) hne

/-- A reading that does the same here, and where the source goes on. -/
theorem MendsAt.congr {x' : Reading α} (h : z.MendsAt K F ys x s) (hs : x' s = x s)
    (hlater : ∀ {s'}, s.Extended s' → x' s' = x s') : z.MendsAt K F ys x' s := by
  refine ⟨?_, ?_, ?_, ?_⟩ <;> rw [hs]
  · exact h.reads
  · intro a t s' ha ht hs'
    rw [hlater hs']
    exact h.keeps ha ht hs'
  · exact h.atEnd
  · intro hne e u he hp
    refine (h.fails hne he hp).imp_left fun ⟨hlast, hrefuses⟩ => ⟨hlast, fun t ht => ?_⟩
    rw [hlater ht]
    exact hrefuses t ht

theorem mendsAt_symbol {f : Symbol → Reading β} (h : z.MendsAt L F ys (f s.symbol) s) :
    z.MendsAt L F ys (symbol >>= f) s := by
  refine h.congr (bind_of_ok symbol_eq) fun hs' => ?_
  rw [bind_of_ok symbol_eq, hs'.symbol_eq]

/-- What is read before the end of the file is read if the source goes on. -/
theorem keeps_of_outcome {a : α} {s' : TokenStream} (houtcome : moreSource.Outcome (x s) (x s'))
    (ha : x s = .ok a t) (ht : t.symbol ≠ .endOfFile) : ∃ t', x s' = .ok a t' ∧ t.Extended t' := by
  rw [ha] at houtcome
  cases ha' : x s' with
  | ok b t' =>
    rw [ha'] at houtcome
    obtain ⟨rfl, ht'⟩ | hend := houtcome
    · exact ⟨t', rfl, ht'⟩
    · exact absurd hend ht
  | error e t' =>
    rw [ha'] at houtcome
    obtain hend | hstrays := houtcome
    · exact absurd hend ht
    · exact hstrays.elim

/-- Moving past a token before the end of the file. -/
theorem mendsAt_of_next {a : α} (stretch : Stretch) (hs : z.Ends s)
    (hne : s.symbol ≠ .endOfFile) (hpass : ∀ u v : TokenStream, u.current = s.current →
      u.last = s.last → u.Next v → stretch.Passes u v)
    (hx : ∀ t, s.Next t → x s = .ok a t)
    (halike : ∀ {s'}, s.Extended s' → moreSource.Outcome (x s) (x s'))
    (hK : K a [stretch]) : z.MendsAt K F ys x s := by
  obtain ⟨t, hst, ht, -⟩ := hs.next hne
  have hread := hx t hst
  refine ⟨fun ha => ?_, fun ha ht hs' => keeps_of_outcome (halike hs') ha ht,
    fun hend => absurd hend hne, fun _ e u he => ?_⟩
  · rw [hread] at ha
    cases ha
    exact ⟨ht, _, hK, stays_of_next hs hst hpass⟩
  · rw [hread] at he
    cases he

/-- Moving past a token before the end of the file, and what comes after it. -/
theorem mendsAt_next_bind {a : α} (stretch : Stretch) (hs : z.Ends s)
    (hne : s.symbol ≠ .endOfFile) (hpass : ∀ u v : TokenStream, u.current = s.current →
      u.last = s.last → u.Next v → stretch.Passes u v)
    (hx : ∀ t, s.Next t → x s = .ok a t)
    (halike : ∀ {s'}, s.Extended s' → moreSource.Outcome (x s) (x s'))
    (hf : z.Mends (fun b m => L b (stretch :: m)) F zs (f a)) :
    z.MendsAt L F ys (x >>= f) s := by
  have hfirst : z.MendsAt (fun a' l => a' = a ∧ l = [stretch]) (fun _ => True) [] x s :=
    mendsAt_of_next stretch hs hne hpass hx halike ⟨rfl, rfl⟩
  have hbind : z.MendsAt L F ([] ++ zs) (x >>= f) s := by
    refine hfirst.bind ?_ ?_ fun _ _ => trivial
    · rintro _ _ t - ⟨rfl, rfl⟩ ht
      exact hf.mendsAt ht
    · rintro _ _ ⟨rfl, rfl⟩
      exact hf.fills
  exact hbind.of_ne hne

/-- Moving past a token that is the given terminal. -/
theorem mendsAt_of_matches {a : α} (terminal : Terminal) (hs : z.Ends s)
    (hmatch : terminal.Matches s.current) (hne : terminal.symbol ≠ .endOfFile)
    (hx : ∀ t, s.Next t → x s = .ok a t)
    (halike : ∀ {s'}, s.Extended s' → moreSource.Outcome (x s) (x s'))
    (hK : K a [.one terminal]) : z.MendsAt K F ys x s :=
  mendsAt_of_next (.one terminal) hs (by rwa [TokenStream.symbol, hmatch.symbol_eq])
    (fun _ _ hu _ huv => ⟨hu ▸ hmatch, huv⟩) hx halike hK

/-- Moving past a token that is the given terminal, and what comes after it. -/
theorem mendsAt_matches_bind {a : α} (terminal : Terminal) (hs : z.Ends s)
    (hmatch : terminal.Matches s.current) (hne : terminal.symbol ≠ .endOfFile)
    (hx : ∀ t, s.Next t → x s = .ok a t)
    (halike : ∀ {s'}, s.Extended s' → moreSource.Outcome (x s) (x s'))
    (hf : z.Mends (fun b m => L b (.one terminal :: m)) F zs (f a)) :
    z.MendsAt L F ys (x >>= f) s :=
  mendsAt_next_bind (.one terminal) hs (by rwa [TokenStream.symbol, hmatch.symbol_eq])
    (fun _ _ hu _ huv => ⟨hu ▸ hmatch, huv⟩) hx halike hf

theorem mendsAt_consume (zs : List Terminal) {k : Reading β} (hs : z.Ends s)
    (hsymbol : s.symbol = y) (hy : y ≠ .endOfFile)
    (hk : z.Mends (fun b m => L b (.mark y :: m)) F zs k) :
    z.MendsAt L F ys (consume >>= fun _ => k) s :=
  mendsAt_matches_bind (.mark y) hs hsymbol hy (fun _ hst => hst.2)
    moreSource.agrees_consume.alike hk

theorem mendsAt_consumeLexeme (zs : List Terminal) {f : String → Reading β} (terminal : Terminal)
    (hs : z.Ends s)
    (hmatch : terminal.Matches s.current) (hne : terminal.symbol ≠ .endOfFile)
    (hf : z.Mends (fun b m => L b (.one terminal :: m)) F zs (f s.current.lexeme)) :
    z.MendsAt L F ys (consumeLexeme >>= f) s :=
  mendsAt_matches_bind terminal hs hmatch hne (fun _ => consumeLexeme_of_next)
    moreSource.agrees_consumeLexeme.alike hf

theorem mends_expect (hy : y ∈ Symbol.reserved ++ Symbol.punctuation) :
    z.Mends (fun _ l => l = [.mark y]) F [.mark y] (expect y) := by
  have hspell := Terminal.spellable_mark hy
  refine ⟨fun {s} hs => ?_, (), _, rfl, fits_one hspell⟩
  by_cases hsymbol : s.symbol = y
  · exact mendsAt_of_matches (.mark y) hs hsymbol hspell.symbol_ne
      (fun t hst => expect_of_next hsymbol hst) (moreSource.agrees_expect y).alike rfl
  · have hfault : expect y s = .error (s.fault (.expected y s.near)) s := by
      rw [expect, bind_eq_error, expectLexeme, if_neg hsymbol]
      exact .inl rfl
    exact mendsAt_of_fault hs hfault

/-- A mark that has to be there, and what comes after it. -/
theorem mends_expect_bind {k : Reading β} (hy : y ∈ Symbol.reserved ++ Symbol.punctuation)
    (hk : z.Mends (fun b m => L b (.mark y :: m)) F zs k) :
    z.Mends L F (.mark y :: zs) (expect y >>= fun _ => k) := by
  refine (mends_expect (F := fun _ => True) hy).bind (fun _ l hl => ?_) fun _ _ => trivial
  subst hl
  exact hk

theorem mends_name :
    z.Mends (fun text l => l = [.name text]) F [.name "x"] (expectLexeme .name) := by
  refine ⟨fun {s} hs => ?_, "x", _, rfl, fits_one Terminal.spellable_name⟩
  by_cases hsymbol : s.symbol = .name
  · exact mendsAt_of_matches (.name s.current.lexeme) hs ⟨hsymbol, rfl⟩ nofun
      (fun t hst => (expectLexeme_eq_ok (by decide)).2 ⟨hsymbol, rfl, hst⟩)
      (moreSource.agrees_expectLexeme .name).alike rfl
  · have hfault : expectLexeme .name s = .error (s.fault (.expected .name s.near)) s := by
      rw [expectLexeme, if_neg hsymbol]
      rfl
    exact mendsAt_of_fault hs hfault

/-- Where there may be a mark, nothing is filled in if it is not there. -/
theorem mendsAt_tryConsume {f : Bool → Reading β} (hy : y ≠ .endOfFile) (hs : z.Ends s)
    (htrue : z.Mends (fun b m => L b (.mark y :: m)) F zs (f true))
    (hfalse : s.symbol ≠ y → z.MendsAt L F ys (f false) s) :
    z.MendsAt L F ys (tryConsume y >>= f) s := by
  by_cases hsymbol : s.symbol = y
  · exact mendsAt_matches_bind (.mark y) hs hsymbol hy
      (fun t hst => tryConsume_of_next hsymbol hst) (moreSource.agrees_tryConsume y).alike htrue
  · refine (hfalse hsymbol).congr (bind_of_ok (tryConsume_of_ne hsymbol)) fun hs' => ?_
    exact bind_of_ok (tryConsume_of_ne (hs'.symbol_eq ▸ hsymbol))

theorem mends_tryConsume {f : Bool → Reading β} (hy : y ≠ .endOfFile)
    (htrue : z.Mends (fun b m => L b (.mark y :: m)) F zs (f true))
    (hfalse : z.Mends L F ys (f false)) : z.Mends L F ys (tryConsume y >>= f) :=
  ⟨fun hs => mendsAt_tryConsume hy hs htrue fun _ => hfalse.mendsAt hs, hfalse.fills⟩

end Steps

/-! ## Loops -/

section Loops

variable {step : α → Reading (α × Bool)} {I M : α → List Stretch → Prop}
  {J : α → TokenStream → Prop}

/-- A loop is mended if its rounds are and if what is left of it can be filled in after any of them.
`I` holds of the stretches that were passed when a round starts and `M` when the loop is over, and
`J` of the stream. -/
theorem mendsAt_loop (hstep : Progresses step)
    (hJ : ∀ {a a' s t}, J a s → step a s = .ok (a', true) t → J a' t)
    (hround : ∀ {a l s}, I a l → J a s → z.Ends s →
      z.MendsAt (fun r m => if r.2 then I r.1 (l ++ m) else M r.1 (l ++ m)) G ys (step a) s)
    (hstop : ∀ {a l}, I a l → ∃ b m, M b (l ++ m) ∧ Fits ys F m) (hFG : ∀ y, F y → G y)
    (hlead : ∀ y, Leads ys F y → G y) {a : α} {l : List Stretch} (ha : I a l) (hs : J a s)
    (hends : z.Ends s) : z.MendsAt (fun b m => M b (l ++ m)) F ys (loop step a) s := by
  induction a, s using hstep.induction generalizing l with
  | round a s ih =>
    -- A round that goes on is followed by the loop.
    have hloop : z.MendsAt (fun b m => M b (l ++ m)) F ys
        (step a >>= fun r => if r.2 then loop step r.1 else pure r.1) s := by
      refine (hround ha hs hends).bind_of (fun r m t hread hm ht => ?_) fun r m hm => ?_
      · obtain ⟨a', more⟩ := r
        cases more with
        | false => exact ⟨[], mendsAt_pure (by simpa using hm) ht, hFG, fun hys _ => hys⟩
        | true =>
          have hrest := ih a' t hread hm (hJ hs hread) ht
          simp only [List.append_assoc] at hrest
          exact ⟨ys, hrest, hlead, fun hys _ => hys⟩
      · obtain ⟨a', more⟩ := r
        cases more with
        | false => exact ⟨a', [], [], by simpa using hm, fits_nil, hFG⟩
        | true =>
          obtain ⟨b, m', hb, hm'⟩ := hstop hm
          exact ⟨b, m', ys, by simpa only [List.append_assoc] using hb, hm', hlead⟩
    exact hloop.congr (loop_eq hstep a s) fun _ => loop_eq hstep a _

/-- A loop that says nothing of the stream. -/
theorem mends_loop (hstep : Progresses step)
    (hround : ∀ {a l s}, I a l → z.Ends s →
      z.MendsAt (fun r m => if r.2 then I r.1 (l ++ m) else M r.1 (l ++ m)) G ys (step a) s)
    (hstop : ∀ {a l}, I a l → ∃ b m, M b (l ++ m) ∧ Fits ys F m) (hFG : ∀ y, F y → G y)
    (hlead : ∀ y, Leads ys F y → G y) {a : α} {l : List Stretch} (ha : I a l) :
    z.Mends (fun b m => M b (l ++ m)) F ys (loop step a) :=
  ⟨fun hends => mendsAt_loop (J := fun _ _ => True) hstep (fun _ _ => trivial)
    (fun hI _ => hround hI) hstop hFG hlead ha trivial hends, hstop ha⟩

end Loops

end Brink

end LuaLang
