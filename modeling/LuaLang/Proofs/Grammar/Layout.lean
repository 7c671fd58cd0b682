import Mathlib
import LuaLang.Proofs.Grammar.Accounting
import LuaLang.Proofs.Grammar.Lockstep

/-!
# Where tokens stand

Lines and columns do not change what is read, except in one place: the parenthesis that opens the
arguments of a call has to be on the line that the token before it ends on. So two layouts of the
same tokens give the same tree, or one of them fails for a parenthesis that could start a new
statement.

Two readings of the same tokens in different layouts are compared step by step. Whether the second
layout is one that cannot fail in this way is a parameter of the comparison, so that it serves for
both cases. Which parentheses open arguments shows in the writing of the tree.

## Main definitions

* `Token.OnLine`: a parenthesis that cannot start a new statement.
* `Grammar.relaid`: a reading beside one of the same tokens in another layout.
* `Block.callParens`: the parentheses that open the arguments of the calls of a tree.

## Main statements

* `Grammar.layout_matters_for_calls_only`: what can come of two layouts.
-/

namespace LuaLang

namespace Token

/-- What a token says, without where it stands. -/
def wording (token : Token) : Symbol × String :=
  (token.symbol, token.lexeme)

/-- If a token is an opening parenthesis, it is on the line that the one before it ends on. -/
def OnLine (before token : Token) : Prop :=
  token.symbol = .leftParen → token.line = before.endLine

instance (before token : Token) : Decidable (OnLine before token) :=
  inferInstanceAs (Decidable (_ → _))

end Token

open TokenStream

/-! ## Two layouts side by side -/

/-- Two streams over the same tokens in different layouts. If `laid`, the second one has all its
parentheses on the line of the token before them. -/
structure TokenStream.Relaid (laid : Prop) (s t : TokenStream) : Prop where
  current : s.current.wording = t.current.wording
  rest : ∃ now other : List Token, s.rest = now.map .ok ∧ t.rest = other.map .ok ∧
    now.map Token.wording = other.map Token.wording ∧
    (laid → (t.last :: t.current :: other).IsChain Token.OnLine)

namespace TokenStream.Relaid

variable {laid : Prop} {s t : TokenStream}

theorem symbol_eq (h : s.Relaid laid t) : s.symbol = t.symbol :=
  congrArg Prod.fst h.current

theorem lexeme_eq (h : s.Relaid laid t) : s.current.lexeme = t.current.lexeme :=
  congrArg Prod.snd h.current

theorem nextSymbol_eq (h : s.Relaid laid t) : s.nextSymbol = t.nextSymbol := by
  obtain ⟨now, other, hnow, hother, hwording, -⟩ := h.rest
  rw [nextSymbol, nextSymbol, h.symbol_eq, hnow, hother]
  cases now <;> cases other <;> simp_all [Token.wording]

/-- A parenthesis of the second layout is where it has to be. -/
theorem onLine (h : s.Relaid laid t) (hlaid : laid) : t.last.OnLine t.current := by
  obtain ⟨now, other, -, -, -, hchain⟩ := h.rest
  exact (List.isChain_cons_cons.1 (hchain hlaid)).1

/-- Both streams move on to the same token, or both make up the end of the file. -/
theorem consume (h : s.Relaid laid t) :
    ∃ u v, Reading.consume s = .ok () u ∧ Reading.consume t = .ok () v ∧ u.Relaid laid v := by
  by_cases hs : s.symbol = .endOfFile
  · refine ⟨s, t, ?_, ?_, h⟩
    · rw [Reading.consume, if_pos hs]
    · rw [Reading.consume, if_pos (h.symbol_eq ▸ hs)]
  obtain ⟨now, other, hnow, hother, hwording, hchain⟩ := h.rest
  rw [Reading.consume, Reading.consume, if_neg hs, if_neg (h.symbol_eq ▸ hs), hnow, hother]
  match now, other, hwording with
  | [], [], _ =>
    refine ⟨_, _, rfl, rfl, rfl, [], [], rfl, rfl, rfl, fun _ => ?_⟩
    refine List.isChain_cons_cons.2 ⟨fun hparen => ?_, .singleton _⟩
    cases hparen
  | token :: now, token' :: other, hwording =>
    obtain ⟨htoken, hrest⟩ := List.cons.inj hwording
    exact ⟨_, _, rfl, rfl, htoken, now, other, rfl, rfl, hrest,
      fun hlaid => (List.isChain_cons_cons.1 (hchain hlaid)).2⟩

end TokenStream.Relaid

namespace Grammar

open Reading Comparison

/-- A reading beside one of the same tokens in another layout. Either of the two may fail for a
parenthesis that could start a new statement, the second one only if it is not laid out. -/
def twoLayouts (laid : Prop) : Comparison where
  Alike := Relaid laid
  Over _ := False
  Same e f := e.cause = f.cause
  Leaves e := e.message = "ambiguous syntax (function call x new statement) near '('"
  Strays f := ¬ laid ∧ f.message = "ambiguous syntax (function call x new statement) near '('"

theorem message_of_leftParen {s : TokenStream} (h : s.symbol = .leftParen) :
    (s.fault (.ambiguousCall s.near)).message =
      "ambiguous syntax (function call x new statement) near '('" := by
  have hnear : s.near = "(" := by
    rw [TokenStream.symbol] at h
    rw [TokenStream.near, Token.near, h]
    rfl
  rw [hnear]
  rfl

/-- Only the test of where a parenthesis is looks at the layout. -/
def relaid (laid : Prop) : Simulation where
  toComparison := twoLayouts laid
  symbol_eq h := h.symbol_eq
  lexeme_eq h := h.lexeme_eq
  consume h := by
    obtain ⟨u, v, hu, hv, huv⟩ := h.consume
    rw [hu, hv]
    exact .inl ⟨rfl, huv⟩
  fault _ _ := rfl
  callGuard {s t} h hs := by
    rw [callGuard_eq, callGuard_eq]
    by_cases hfirst : s.current.line = s.last.endLine
    · rw [if_pos hfirst]
      by_cases hsecond : t.current.line = t.last.endLine
      · rw [if_pos hsecond]
        exact .inl ⟨rfl, h⟩
      · rw [if_neg hsecond]
        have ht : t.symbol = .leftParen := h.symbol_eq ▸ hs
        exact .inr ⟨fun hlaid => hsecond (h.onLine hlaid ht), message_of_leftParen ht⟩
    · rw [if_neg hfirst]
      exact Safe.outcome (message_of_leftParen hs)
  lookahead h := .inl h.nextSymbol_eq
  over_consume h := h.elim
  over_fault h := h.elim

/-- The tree of a list of tokens. -/
def ofTokens (levels : Nat) (tokens : List Token) : Except SyntaxError Block :=
  (chunk levels).ofScanned (tokens.map .ok)

theorem filter_map_ok {tokens : List Token} (h : ∀ token ∈ tokens, token.symbol.isMarker = false) :
    (tokens.map Except.ok : List Scanned).filter isMeaningful = tokens.map .ok := by
  rw [List.filter_eq_self]
  intro item hitem
  obtain ⟨token, htoken, rfl⟩ := List.mem_map.1 hitem
  simp [isMeaningful, h token htoken]

theorem isMarker_of_wording {tokens others : List Token}
    (hmarkers : ∀ token ∈ tokens, token.symbol.isMarker = false)
    (hwording : tokens.map Token.wording = others.map Token.wording) :
    ∀ token ∈ others, token.symbol.isMarker = false := by
  intro token htoken
  have hmem : token.wording ∈ tokens.map Token.wording := hwording ▸ List.mem_map_of_mem htoken
  obtain ⟨twin, htwin, heq⟩ := List.mem_map.1 hmem
  have hsymbol : twin.symbol = token.symbol := congrArg Prod.fst heq
  exact hsymbol ▸ hmarkers twin htwin

/-- The streams over two layouts of the same tokens. -/
theorem relaid_ofScanned {laid : Prop} {tokens others : List Token}
    (hmarkers : ∀ token ∈ tokens, token.symbol.isMarker = false)
    (hwording : tokens.map Token.wording = others.map Token.wording)
    (hlaid : laid → others.IsChain Token.OnLine) :
    ∃ s t, TokenStream.ofScanned (tokens.map .ok) = .ok s ∧
      TokenStream.ofScanned (others.map .ok) = .ok t ∧ s.Relaid laid t := by
  have hmarkers' := isMarker_of_wording hmarkers hwording
  rw [TokenStream.ofScanned, TokenStream.ofScanned, filter_map_ok hmarkers, filter_map_ok hmarkers']
  clear hmarkers hmarkers'
  cases tokens with
  | nil =>
    obtain rfl : others = [] := List.map_eq_nil_iff.1 hwording.symm
    refine ⟨_, _, rfl, rfl, rfl, [], [], rfl, rfl, rfl, fun _ => ?_⟩
    refine List.isChain_cons_cons.2 ⟨fun hparen => ?_, .singleton _⟩
    cases hparen
  | cons token tokens =>
    obtain ⟨other, others, rfl, htoken, hrest⟩ := List.map_eq_cons_iff.1 hwording.symm
    refine ⟨_, _, rfl, rfl, htoken.symm, tokens, others, rfl, rfl, hrest.symm, fun h => ?_⟩
    exact List.isChain_cons_cons.2 ⟨fun _ => rfl, hlaid h⟩

/-- What can come of two layouts of the same tokens. -/
theorem ofTokens_outcome (laid : Prop) (levels : Nat) {tokens others : List Token}
    (hmarkers : ∀ token ∈ tokens, token.symbol.isMarker = false)
    (hwording : tokens.map Token.wording = others.map Token.wording)
    (hlaid : laid → others.IsChain Token.OnLine) :
    match ofTokens levels tokens, ofTokens levels others with
    | .ok b, .ok b' => b = b'
    | .ok _, .error f => (relaid laid).Strays f
    | .error e, .ok _ => (relaid laid).Leaves e
    | .error e, .error f =>
      e.cause = f.cause ∨ (relaid laid).Leaves e ∨ (relaid laid).Strays f := by
  obtain ⟨s, t, hs, ht, hst⟩ := relaid_ofScanned hmarkers hwording hlaid
  have houtcome : (relaid laid).Outcome (chunk levels s) (chunk levels t) :=
    (agrees_chunk (.inl rfl)).alike hst
  rw [ofTokens, ofTokens, Reading.ofScanned, Reading.ofScanned, hs, ht]
  dsimp only
  cases hfirst : chunk levels s with
  | ok b u =>
    cases hsecond : chunk levels t with
    | ok b' v =>
      rw [hfirst, hsecond] at houtcome
      obtain ⟨heq, -⟩ | hover := houtcome
      · exact heq
      · exact hover.elim
    | error f v =>
      rw [hfirst, hsecond] at houtcome
      exact houtcome.resolve_left fun hover => hover
  | error e u =>
    cases hsecond : chunk levels t with
    | ok b' v =>
      rw [hfirst, hsecond] at houtcome
      exact houtcome
    | error f v =>
      rw [hfirst, hsecond] at houtcome
      exact houtcome

end Grammar

/-! ## The parentheses of calls -/

/-- The tokens that a stretch takes up, if it can. -/
def Stretch.taken : Stretch → List Token → List Token
  | .one _, tokens => tokens.take 1
  | .callParen, tokens => tokens.take 1
  | .separator, tokens => tokens.take 1
  | .trailing, tokens =>
    (tokens.take 1).takeWhile fun token => token.symbol = .comma ∨ token.symbol = .semicolon
  | .semicolons, tokens => tokens.takeWhile fun token => token.symbol = .semicolon
  | .lastSemicolon, tokens => (tokens.take 1).takeWhile fun token => token.symbol = .semicolon
  | .ahead _, _ => []

/-- The parenthesis that a stretch takes up if it opens arguments, with the token before it. -/
def Stretch.callParen? : Stretch → Option Token → List Token → Option (Token × Token)
  | .callParen, some before, paren :: _ => some (before, paren)
  | _, _, _ => none

/-- The opening parentheses of arguments in a writing, each with the token before it, given the
token before the writing. -/
def callParens : List Stretch → Option Token → List Token → List (Token × Token)
  | [], _, _ => []
  | stretch :: rest, before, tokens =>
    let taken := stretch.taken tokens
    (stretch.callParen? before tokens).toList ++
      callParens rest (taken.getLast?.or before) (tokens.drop taken.length)

/-- The parentheses that open the arguments of the calls of a tree, in tokens that it is the tree
of, each with the token before it. -/
def Block.callParens (b : Block) (tokens : List Token) : List (Token × Token) :=
  LuaLang.callParens b.writing none tokens

/-- A stream that has the given tokens in front of it, and nothing else. -/
def TokenStream.Stands (s : TokenStream) : List Token → Prop
  | [] => s.symbol = .endOfFile
  | token :: rest => s.current = token ∧ s.rest = rest.map .ok

namespace TokenStream.Stands

variable {s t : TokenStream} {tokens passed : List Token}

theorem next (h : s.Stands tokens) (hnext : s.Next t) :
    ∃ rest, tokens = s.current :: rest ∧ t.Stands rest := by
  cases tokens with
  | nil => exact absurd h hnext.1
  | cons token rest =>
    obtain ⟨rfl, hrest⟩ := h
    refine ⟨rest, rfl, ?_⟩
    obtain ⟨hnil, rfl⟩ | ⟨token, more, hcons, rfl⟩ := hnext.cases
    · obtain rfl : rest = [] := by simpa [hnil] using hrest
      rfl
    · rw [hcons] at hrest
      cases rest with
      | nil => cases hrest
      | cons first rest =>
        obtain ⟨hfirst, hmore⟩ := List.cons.inj hrest
        exact ⟨Except.ok.inj hfirst, hmore⟩

theorem head (h : s.Stands tokens) : ∀ token ∈ tokens.head?, s.current = token := by
  cases tokens with
  | nil => simp
  | cons token rest => simpa using h.1

theorem head_take (h : s.Stands tokens) : ∀ token ∈ (tokens.take 1).head?, s.current = token := by
  cases tokens with
  | nil => simp
  | cons token rest => simpa using h.1

/-- A path takes its tokens from those that the stream has. -/
theorem path (h : s.Stands tokens) (hpath : s.Path passed t) :
    t.Stands (tokens.drop passed.length) := by
  induction passed generalizing s tokens with
  | nil =>
    cases hpath
    exact h
  | cons token passed ih =>
    obtain ⟨rfl, u, hu, hpath⟩ := hpath
    obtain ⟨rest, rfl, hstands⟩ := h.next hu
    exact ih hstands hpath

end TokenStream.Stands

/-- After a path the token that was passed last is its last token, or the one before it. -/
theorem TokenStream.Path.last {s t : TokenStream} {passed : List Token} {before : Option Token}
    (h : s.Path passed t) (hbefore : ∀ last ∈ before, s.last = last) :
    ∀ last ∈ passed.getLast?.or before, t.last = last := by
  induction passed generalizing s before with
  | nil =>
    cases h
    exact hbefore
  | cons token passed ih =>
    obtain ⟨rfl, u, hu, h⟩ := h
    have hlast : ∀ last ∈ some s.current, u.last = last := by
      rintro _ ⟨⟩
      exact hu.last
    intro last hmem
    refine ih h hlast last ?_
    rw [List.getLast?_cons] at hmem
    cases hpassed : passed.getLast? <;> simp_all

namespace Stretch

variable {s t : TokenStream} {tokens : List Token}

theorem path_of_next (h : s.Stands tokens) (hnext : s.Next t) : s.Path (tokens.take 1) t := by
  obtain ⟨rest, rfl, -⟩ := h.next hnext
  exact hnext.path

/-- One token is taken if it is of the right sort. -/
theorem path_take_of_pos {p : Token → Bool} (hs : s.Stands tokens) (hp : p s.current = true)
    (hnext : s.Next t) : s.Path ((tokens.take 1).takeWhile p) t := by
  obtain ⟨rest, rfl, -⟩ := hs.next hnext
  rw [List.take_succ_cons, List.takeWhile_cons_of_pos hp]
  exact hnext.path

/-- No token is taken if the first one is not of the right sort. -/
theorem path_of_neg {p : Token → Bool} (hs : ∀ token ∈ tokens.head?, s.current = token)
    (hp : p s.current = false) : s.Path (tokens.takeWhile p) s := by
  cases tokens with
  | nil => rfl
  | cons token rest =>
    have hne : ¬ p token = true := by
      rw [← hs token rfl, hp]
      decide
    rw [List.takeWhile_cons_of_neg hne]
    rfl

/-- What a stretch takes up is what a stream passes. -/
theorem Passes.taken {stretch : Stretch} (h : stretch.Passes s t) (hs : s.Stands tokens) :
    s.Path (stretch.taken tokens) t := by
  cases stretch with
  | one terminal => exact path_of_next hs h.2
  | callParen => exact path_of_next hs h.2.2
  | separator => exact path_of_next hs h.2
  | ahead allowed => exact h.2
  | trailing =>
    obtain ⟨ht, rfl | ⟨hsymbol, hnext⟩⟩ := h
    · have hbrace : s.current.symbol = .rightBrace := ht
      exact path_of_neg hs.head_take (by simp [hbrace])
    · exact path_take_of_pos hs (by simpa [TokenStream.symbol] using hsymbol) hnext
  | lastSemicolon =>
    obtain ⟨hsymbol, hnext⟩ | ⟨hsymbol, rfl⟩ := h
    · exact path_take_of_pos hs (by simpa [TokenStream.symbol] using hsymbol) hnext
    · exact path_of_neg hs.head_take (by simpa [TokenStream.symbol] using hsymbol)
  | semicolons =>
    obtain ⟨hrun, ht⟩ := h
    -- The semicolons are taken one at a time, from the first one on.
    induction hrun using Relation.ReflTransGen.head_induction_on generalizing tokens with
    | refl => exact path_of_neg hs.head (by simpa [TokenStream.symbol] using ht)
    | @head u v step _ ih =>
      obtain ⟨hsymbol, hnext⟩ := step
      obtain ⟨rest, rfl, hrest⟩ := hs.next hnext
      have htake : Stretch.semicolons.taken (u.current :: rest) =
          u.current :: Stretch.semicolons.taken rest := by
        rw [TokenStream.symbol] at hsymbol
        simp [Stretch.taken, hsymbol]
      rw [htake]
      exact ⟨rfl, v, hnext, ih hrest⟩

end Stretch

/-- Where a writing is passed, each parenthesis that opens arguments is on the line that the token
before it ends on. -/
theorem line_of_mem_callParens {stretches : List Stretch} {s t : TokenStream} {tokens : List Token}
    {before : Option Token} (hspans : Spans stretches s t) (hs : s.Stands tokens)
    (hbefore : ∀ last ∈ before, s.last = last) :
    ∀ call ∈ callParens stretches before tokens, call.2.line = call.1.endLine := by
  induction stretches generalizing s tokens before with
  | nil => simp [callParens]
  | cons stretch rest ih =>
    obtain ⟨u, hu, hspans⟩ := hspans
    have hpath := hu.taken hs
    intro call hcall
    rw [callParens, List.mem_append, Option.mem_toList] at hcall
    obtain hhere | hlater := hcall
    · unfold Stretch.callParen? at hhere
      split at hhere
      · next last paren more =>
        cases hhere
        obtain ⟨rfl, -⟩ := hs
        rw [← hbefore last rfl]
        exact hu.2.1
      · cases hhere
    · exact ih hspans (hs.path hpath) (hpath.last hbefore) call hlater

/-! ## A tree in another layout -/

theorem Terminal.Matches.of_wording {terminal : Terminal} {token other : Token}
    (h : terminal.Matches token) (heq : token.wording = other.wording) :
    terminal.Matches other := by
  have hsymbol : token.symbol = other.symbol := congrArg Prod.fst heq
  have hlexeme : token.lexeme = other.lexeme := congrArg Prod.snd heq
  cases terminal <;> simp_all [Terminal.Matches]

section Relaid

variable {laid : Prop} {s s' t : TokenStream}

theorem TokenStream.Relaid.next (h : s.Relaid laid s') (hnext : s.Next t) :
    ∃ t', s'.Next t' ∧ t.Relaid laid t' := by
  obtain ⟨u, v, hu, hv, huv⟩ := h.consume
  rw [hnext.2] at hu
  cases hu
  exact ⟨v, ⟨h.symbol_eq ▸ hnext.1, hv⟩, huv⟩

/-- A stretch is passed in any layout, if a parenthesis that opens arguments is where it has to
be. -/
theorem Stretch.Passes.relaid {stretch : Stretch} (h : stretch.Passes s t) (hs : s.Relaid laid s')
    (hline : stretch = .callParen → s'.current.line = s'.last.endLine) :
    ∃ t', stretch.Passes s' t' ∧ t.Relaid laid t' := by
  cases stretch with
  | one terminal =>
    obtain ⟨t', hnext, ht⟩ := hs.next h.2
    exact ⟨t', ⟨h.1.of_wording hs.current, hnext⟩, ht⟩
  | callParen =>
    obtain ⟨t', hnext, ht⟩ := hs.next h.2.2
    exact ⟨t', ⟨hs.symbol_eq ▸ h.1, hline rfl, hnext⟩, ht⟩
  | separator =>
    obtain ⟨t', hnext, ht⟩ := hs.next h.2
    exact ⟨t', ⟨hs.symbol_eq ▸ h.1, hnext⟩, ht⟩
  | trailing =>
    obtain ⟨hbrace, rfl | ⟨hsymbol, hnext⟩⟩ := h
    · exact ⟨s', ⟨hs.symbol_eq ▸ hbrace, .inl rfl⟩, hs⟩
    · obtain ⟨t', hnext, ht⟩ := hs.next hnext
      exact ⟨t', ⟨ht.symbol_eq ▸ hbrace, .inr ⟨hs.symbol_eq ▸ hsymbol, hnext⟩⟩, ht⟩
  | lastSemicolon =>
    obtain ⟨hsymbol, hnext⟩ | ⟨hsymbol, rfl⟩ := h
    · obtain ⟨t', hnext, ht⟩ := hs.next hnext
      exact ⟨t', .inl ⟨hs.symbol_eq ▸ hsymbol, hnext⟩, ht⟩
    · exact ⟨s', .inr ⟨hs.symbol_eq ▸ hsymbol, rfl⟩, hs⟩
  | ahead allowed =>
    obtain ⟨hallowed, rfl⟩ := h
    exact ⟨s', ⟨hs.symbol_eq ▸ hallowed, rfl⟩, hs⟩
  | semicolons =>
    obtain ⟨hrun, hend⟩ := h
    clear hline
    induction hrun using Relation.ReflTransGen.head_induction_on generalizing s' with
    | refl => exact ⟨s', ⟨.refl, hs.symbol_eq ▸ hend⟩, hs⟩
    | head step _ ih =>
      obtain ⟨u', hnext, hu⟩ := hs.next step.2
      obtain ⟨t', ⟨hrun, hstop⟩, ht⟩ := ih hu
      exact ⟨t', ⟨.head ⟨hs.symbol_eq ▸ step.1, hnext⟩ hrun, hstop⟩, ht⟩

/-- A writing is passed in any layout, if the parentheses that open arguments are where they have to
be. In front of the first token there is nothing that could be called. -/
theorem Spans.relaid {stretches : List Stretch} {others : List Token} {before : Option Token}
    (h : Spans stretches s t) (hs : s.Relaid laid s') (hstands : s'.Stands others)
    (hbefore : ∀ last ∈ before, s'.last = last)
    (hstart : before = none → s'.current.line = s'.last.endLine)
    (hline : ∀ call ∈ callParens stretches before others, call.2.line = call.1.endLine) :
    ∃ t', Spans stretches s' t' ∧ t.Relaid laid t' := by
  induction stretches generalizing s s' others before with
  | nil =>
    cases h
    exact ⟨s', rfl, hs⟩
  | cons stretch rest ih =>
    obtain ⟨u, hu, h⟩ := h
    rw [callParens, List.forall_mem_append] at hline
    obtain ⟨hhere, hlater⟩ := hline
    have hparen : stretch = .callParen → s'.current.line = s'.last.endLine := by
      rintro rfl
      cases before with
      | none => exact hstart rfl
      | some last =>
        cases others with
        | nil =>
          have hsymbol : s'.symbol = .leftParen := hs.symbol_eq ▸ hu.1
          rw [show s'.symbol = .endOfFile from hstands] at hsymbol
          cases hsymbol
        | cons paren others =>
          obtain ⟨rfl, -⟩ := hstands
          rw [hbefore last rfl]
          exact hhere (last, s'.current) (by simp [Stretch.callParen?])
    obtain ⟨u', hu', hrelaid⟩ := hu.relaid hs hparen
    have hpath := hu'.taken hstands
    have hstands' := hstands.path hpath
    generalize stretch.taken others = taken at hpath hlater hstands'
    have hstart' : taken.getLast?.or before = none → u'.current.line = u'.last.endLine := by
      intro hnone
      cases taken with
      | nil =>
        cases hpath
        exact hstart hnone
      | cons first taken => simp at hnone
    obtain ⟨t', hspans, ht⟩ := ih h hrelaid hstands' (hpath.last hbefore) hstart' hlater
    exact ⟨t', ⟨u', hu', hspans⟩, ht⟩

end Relaid

namespace Grammar

/-- The stream over a list of tokens stands at its start. -/
theorem stands_ofScanned {tokens : List Token} {s : TokenStream}
    (hmarkers : ∀ token ∈ tokens, token.symbol.isMarker = false)
    (hs : TokenStream.ofScanned (tokens.map .ok) = .ok s) :
    s.Stands tokens ∧ s.current.line = s.last.endLine := by
  rw [TokenStream.ofScanned, filter_map_ok hmarkers] at hs
  cases tokens with
  | nil =>
    cases hs
    exact ⟨rfl, rfl⟩
  | cons token rest =>
    cases hs
    exact ⟨⟨rfl, rfl⟩, rfl⟩

/-- Another layout has the same tree just if the parentheses that open arguments are where they have
to be. -/
theorem ofTokens_iff_callParens {levels : Nat} {tokens others : List Token} {b : Block}
    (hmarkers : ∀ token ∈ tokens, token.symbol.isMarker = false)
    (hwording : tokens.map Token.wording = others.map Token.wording)
    (h : ofTokens levels tokens = .ok b) :
    ofTokens levels others = .ok b ↔
      ∀ call ∈ b.callParens others, call.2.line = call.1.endLine := by
  obtain ⟨s, s', hs, hs', hrelaid⟩ := relaid_ofScanned hmarkers hwording False.elim
  obtain ⟨hstands, hline⟩ := stands_ofScanned (isMarker_of_wording hmarkers hwording) hs'
  obtain ⟨hlevels, r, t, hr, hspans, ht⟩ := Reading.ofScanned_chunk_eq_ok.1 h
  obtain rfl : s = r := Except.ok.inj (hs.symm.trans hr)
  rw [ofTokens, Reading.ofScanned_chunk_eq_ok]
  constructor
  · rintro ⟨-, r', t', hr', hspans', -⟩
    obtain rfl : s' = r' := Except.ok.inj (hs'.symm.trans hr')
    exact line_of_mem_callParens hspans' hstands (by simp)
  · intro hcalls
    obtain ⟨t', hspans', hend⟩ := hspans.relaid hrelaid hstands (by simp) (fun _ => hline) hcalls
    exact ⟨hlevels, s', t', hs', hspans', hend.symbol_eq ▸ ht⟩

/-- Two layouts of the same tokens, markers left out, under the same number of levels: if both can
be read they have the same tree; if the first has a tree and in the second every opening parenthesis
but a first token is on the line that the token before it ends on, the second has that tree; if the
first fails for another reason than a parenthesis that could start a new statement, the second fails
for that reason or for such a parenthesis; and if the first has a tree, the second has it too just
if every parenthesis that opens the arguments of one of its calls is on the line that the token
before it ends on, and fails for such a parenthesis otherwise. -/
theorem layout_matters_for_calls_only {levels : Nat} {tokens others : List Token}
    (hmarkers : ∀ token ∈ tokens, token.symbol.isMarker = false)
    (hwording : tokens.map Token.wording = others.map Token.wording) :
    (∀ b b' : Block, ofTokens levels tokens = .ok b → ofTokens levels others = .ok b' → b = b') ∧
    (∀ b : Block, ofTokens levels tokens = .ok b → others.IsChain Token.OnLine →
      ofTokens levels others = .ok b) ∧
    (∀ e : SyntaxError, ofTokens levels tokens = .error e →
      e.message ≠ "ambiguous syntax (function call x new statement) near '('" →
      ∃ f : SyntaxError, ofTokens levels others = .error f ∧ (f.message = e.message ∨
        f.message = "ambiguous syntax (function call x new statement) near '('")) ∧
    ∀ b : Block, ofTokens levels tokens = .ok b →
      (ofTokens levels others = .ok b ↔
        ∀ call ∈ b.callParens others, call.2.line = call.1.endLine) ∧
      ((∃ call ∈ b.callParens others, call.2.line ≠ call.1.endLine) →
        ∃ f : SyntaxError, ofTokens levels others = .error f ∧
          f.message = "ambiguous syntax (function call x new statement) near '('") := by
  have houtcome := fun laid : Prop => ofTokens_outcome laid levels hmarkers hwording
  refine ⟨fun b b' hb hb' => ?_, fun b hb hlaid => ?_, fun e he hother => ?_, fun b hb => ⟨?_, ?_⟩⟩
  · have h := houtcome False False.elim
    rw [hb, hb'] at h
    exact h
  · have h := houtcome True fun _ => hlaid
    rw [hb] at h
    cases hsecond : ofTokens levels others with
    | ok b' =>
      rw [hsecond] at h
      rw [show b = b' from h]
    | error f =>
      rw [hsecond] at h
      exact absurd trivial h.1
  · have h := houtcome False False.elim
    rw [he] at h
    cases hsecond : ofTokens levels others with
    | ok b' =>
      rw [hsecond] at h
      exact absurd h hother
    | error f =>
      rw [hsecond] at h
      refine ⟨f, rfl, ?_⟩
      obtain hcause | hleaves | hstrays := h
      · exact .inl (congrArg SyntaxError.Cause.message hcause.symm)
      · exact absurd hleaves hother
      · exact .inr hstrays.2
  · exact ofTokens_iff_callParens hmarkers hwording hb
  · rintro ⟨call, hcall, hline⟩
    have h := houtcome False False.elim
    rw [hb] at h
    cases hsecond : ofTokens levels others with
    | ok b' =>
      rw [hsecond] at h
      obtain rfl : b = b' := h
      exact absurd ((ofTokens_iff_callParens hmarkers hwording hb).1 hsecond call hcall) hline
    | error f =>
      rw [hsecond] at h
      exact ⟨f, rfl, h.2⟩

/-- A call after a string that ends on the second line: its parenthesis has to be on that line, on
one line all is well, and without the closing parenthesis both layouts want one. -/
theorem layout_matters_for_calls_only_string :
    let callee : Token := ⟨.name, "f", 1, 1, 1⟩
    let text (endLine : Nat) : Token := ⟨.string, "a\nb", 1, 3, endLine⟩
    let paren (line : Nat) : Token := ⟨.leftParen, "(", line, 5, line⟩
    let close : Token := ⟨.rightParen, ")", 2, 6, 2⟩
    (∃ f, ofTokens 2 [callee, text 2, paren 1, close] = .error f ∧
      f.message = "ambiguous syntax (function call x new statement) near '('") ∧
    ofTokens 2 [callee, text 1, paren 1, close] = ofTokens 2 [callee, text 2, paren 2, close] ∧
    ∃ f, ofTokens 3 [callee, text 1, paren 1] = .error f ∧
      (f.message = "unexpected symbol near '<eof>'" ∨
        f.message = "ambiguous syntax (function call x new statement) near '('") := by
  intro callee text paren close
  let b : Block := .mk [.call (.function (.call (.function (.var (.name "f")) (.string "a\nb")))
    (.list []))] .falls
  have hb : ofTokens 2 [callee, text 2, paren 2, close] = .ok b := by cbv
  have he : ofTokens 3 [callee, text 2, paren 2] = .error ⟨.unexpected "<eof>", 2, 5⟩ := by cbv
  have hmoved : [callee, text 2, paren 2, close].map Token.wording =
      [callee, text 2, paren 1, close].map Token.wording := rfl
  have hjoined : [callee, text 2, paren 2, close].map Token.wording =
      [callee, text 1, paren 1, close].map Token.wording := rfl
  have hopen : [callee, text 2, paren 2].map Token.wording =
      [callee, text 1, paren 1].map Token.wording := rfl
  refine ⟨?_, ?_, ?_⟩
  · have hcalls : b.callParens [callee, text 2, paren 1, close] = [(text 2, paren 1)] := by cbv
    refine ((layout_matters_for_calls_only (by decide) hmoved).2.2.2 b hb).2 ?_
    rw [hcalls]
    exact ⟨(text 2, paren 1), List.mem_singleton_self _, by decide⟩
  · rw [hb]
    exact (layout_matters_for_calls_only (by decide) hjoined).2.1 b hb (by decide)
  · exact (layout_matters_for_calls_only (by decide) hopen).2.2.1 _ he (by decide)

end Grammar

end LuaLang
