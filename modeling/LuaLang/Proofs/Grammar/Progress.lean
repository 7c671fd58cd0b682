import Mathlib
import LuaLang.Proofs.Grammar.Lockstep

/-!
# Reading comes to an end

A loop of the grammar is given as many rounds as there are tokens, which is no restriction: a round
that goes on has moved past a token, so the loop ends by itself. That holds at the end of the file
too, where moving on is allowed and does nothing, since no round goes on there. What comes after the
first end of the file is never looked at, be it tokens, errors or further ends.

## Main definitions

* `Grammar.Rounds`: a loop without any bound, and how many rounds it takes.
* `Grammar.IsRound`: the rounds of all loops in the grammar.
* `Grammar.Moves`: readings that move past a token wherever they succeed.
* `Token.upToEnd`: what was scanned, up to the first end of the file.
* `Grammar.sameToEnd`: a reading beside one of a stream that is the same up to there.

## Main statements

* `Grammar.rounds_loop`: a loop ends by itself.
* `Spans.moves`: a tree is read by moving on.
* `Grammar.reading_ends`: what follows for the grammar.
-/

namespace LuaLang

open TokenStream

/-! ## Loops without a bound -/

namespace Grammar

open Reading

variable {α : Type}

/-- The loop, repeated for as long as its rounds say so, ends with the result after so many
rounds. -/
inductive Rounds (step : α → Reading (α × Bool)) :
    Nat → α → TokenStream → EStateM.Result SyntaxError TokenStream α → Prop where
  | done {a a' : α} {s t : TokenStream} (h : step a s = .ok (a', false) t) :
    Rounds step 1 a s (.ok a' t)
  | fail {a : α} {e : SyntaxError} {s t : TokenStream} (h : step a s = .error e t) :
    Rounds step 1 a s (.error e t)
  | more {n : Nat} {a a' : α} {s t : TokenStream}
    {result : EStateM.Result SyntaxError TokenStream α} (h : step a s = .ok (a', true) t)
    (rest : Rounds step n a' t result) : Rounds step (n + 1) a s result

/-- A loop whose rounds make progress ends by itself, after at most one round more than there are
tokens, and with what `loop` gives. -/
theorem rounds_loop {step : α → Reading (α × Bool)} (hstep : Progresses step) (a : α)
    (s : TokenStream) : ∃ n ≤ s.size + 1, Rounds step n a s (loop step a s) := by
  induction a, s using hstep.induction with
  | round a s ih =>
    cases hround : step a s with
    | error e t =>
      have hloop : loop step a s = .error e t := by
        rw [loop_eq hstep]
        change EStateM.bind (step a) _ s = _
        rw [EStateM.bind, hround]
      exact ⟨1, by omega, hloop ▸ .fail hround⟩
    | ok result t =>
      obtain ⟨a', more⟩ := result
      cases more with
      | false => exact ⟨1, by omega, loop_of_done hstep hround ▸ .done hround⟩
      | true =>
        have hless := hstep _ _ _ _ hround
        obtain ⟨n, hn, hrest⟩ := ih a' t hround
        exact ⟨n + 1, by omega, loop_of_more hstep hround ▸ .more hround hrest⟩

/-- The rounds of the loops in the rules of the grammar, given readings of expressions, of right
operands by the power of their place, and of blocks. Each is named for what its loop reads. -/
inductive IsRound (expression : Reading Expression) (right : Nat → Reading Expression)
    (block : Reading Block) : {α : Type} → (α → Reading (α × Bool)) → Prop where
  | names : IsRound expression right block (oneMore .comma (expectLexeme .name))
  | path : IsRound expression right block (oneMore .dot (expectLexeme .name))
  | fields : IsRound expression right block (fieldStep expression)
  | parameters : IsRound expression right block parameterStep
  | suffixes : IsRound expression right block (suffix expression)
  | operators (limit : Nat) : IsRound expression right block (climbStep right limit)
  | expressions : IsRound expression right block (oneMore .comma expression)
  | elseIfs : IsRound expression right block (oneMore .elseifWord (elseIf expression block))
  | targets : IsRound expression right block (oneMore .comma (variableOf expression))
  | statements : IsRound expression right block (blockStep expression block)

theorem IsRound.progresses {expression : Reading Expression} {right : Nat → Reading Expression}
    {block : Reading Block} {m n : Nat} {step : α → Reading (α × Bool)}
    (h : IsRound expression right block step) (he : ReadsExpression n 0 expression)
    (hr : ∀ power, ReadsExpression m power (right power)) (hb : ReadsBlock n block) :
    Progresses step := by
  cases h with
  | names => exact progresses_names (by decide)
  | path => exact progresses_names (by decide)
  | fields => exact progresses_fieldStep he
  | parameters => exact progresses_parameterStep
  | suffixes => exact progresses_suffix he
  | operators limit => exact progresses_climbStep hr limit
  | expressions => exact progresses_oneMore (by decide) he fun h => h.2.1.size_le
  | elseIfs => exact progresses_oneMore (by decide) (elseIf_eq_ok he hb) fun h => h.2.1.size_le
  | targets => exact progresses_oneMore (by decide) (variableOf_eq_ok he) fun h => h.2.1.size_le
  | statements => exact progresses_blockStep he hb

theorem readsExpression_rightOperand (levels : Nat) :
    ∃ m, ∀ power, ReadsExpression m power (rightOperand levels power) := by
  cases levels with
  | zero => exact ⟨0, readsExpression_tooManyLevels⟩
  | succ n => exact ⟨n, (reads_levels n).2.1⟩

/-- The loops of all levels make progress. -/
theorem IsRound.progresses_levels {levels : Nat} {step : α → Reading (α × Bool)}
    (h : IsRound (expression levels) (rightOperand levels) (block levels) step) :
    Progresses step := by
  obtain ⟨-, hplaces, hblock⟩ := reads_levels levels
  obtain ⟨m, hright⟩ := readsExpression_rightOperand levels
  exact h.progresses (hplaces 0) hright hblock

end Grammar

/-! ## Moving on -/

theorem Stretch.Passes.moves {stretch : Stretch} {s t : TokenStream} (h : stretch.Passes s t) :
    Relation.ReflTransGen Next s t := by
  cases stretch with
  | one terminal => exact .single h.2
  | callParen => exact .single h.2.2
  | separator => exact .single h.2
  | trailing =>
    obtain ⟨-, rfl | ⟨-, h⟩⟩ := h
    · exact .refl
    · exact .single h
  | semicolons => exact h.1.lift id fun _ _ => And.right
  | lastSemicolon =>
    obtain ⟨-, h⟩ | ⟨-, rfl⟩ := h
    · exact .single h
    · exact .refl
  | ahead allowed =>
    obtain ⟨-, rfl⟩ := h
    exact .refl

/-- What is written is passed token by token. -/
theorem Spans.moves {stretches : List Stretch} {s t : TokenStream} (h : Spans stretches s t) :
    Relation.ReflTransGen Next s t := by
  induction stretches generalizing s with
  | nil =>
    cases h
    exact .refl
  | cons stretch rest ih =>
    obtain ⟨u, hu, h⟩ := h
    exact hu.moves.trans (ih h)

theorem Spans.moves_of_size_lt {stretches : List Stretch} {s t : TokenStream}
    (h : Spans stretches s t) (hsize : t.size < s.size) : Relation.TransGen Next s t := by
  rcases Relation.reflTransGen_iff_eq_or_transGen.1 h.moves with rfl | hmoves
  · exact absurd hsize (lt_irrefl _)
  · exact hmoves

namespace Grammar

open Reading

/-- Where the reading succeeds it has moved on token by token, and past one at least. -/
def Moves {α : Type} (reading : Reading α) : Prop :=
  ∀ a s t, reading s = .ok a t → Relation.TransGen Next s t

theorem moves_expression (levels : Nat) : Moves (expression levels) := by
  intro e s t h
  obtain ⟨-, hspan, -⟩ := expression_eq_ok.1 h
  exact hspan.moves_of_size_lt (e.size_lt_of_spans hspan)

theorem moves_field (levels : Nat) : Moves (field (expression levels)) := by
  intro f s t h
  obtain ⟨-, hspan, -⟩ := (field_eq_ok ((reads_levels levels).2.1 0) f s t).1 h
  exact hspan.moves_of_size_lt (f.size_lt_of_spans hspan)

theorem moves_statementRule {levels : Nat} {y : Symbol} {rule : Reading Statement}
    (hrule : statementRule (expression levels) (block levels) y = some rule) : Moves rule := by
  intro st s t h
  obtain ⟨-, hplaces, hblock⟩ := reads_levels levels
  obtain ⟨⟨-, hproper⟩, hspan, -⟩ := statementRule_sound (hplaces 0) hblock hrule h
  exact hspan.moves_of_size_lt (size_lt_of_spans_statement hproper hspan)

theorem moves_returnStatement (levels : Nat) : Moves (returnStatement (expression levels)) := by
  intro ending s t h
  obtain ⟨-, hspan, -, hstatement⟩ := returnStatement_sound ((reads_levels levels).2.1 0) h
  refine hspan.moves_of_size_lt ?_
  cases ending with
  | falls => cases hstatement
  | breaks | returns =>
    rw [Ending.writing] at hspan
    exact hspan.size_lt

/-- A round of a block that has found its ending, a return or a break, has moved past it. -/
theorem moves_ending {levels : Nat} {statements found : List Statement} {ending : Ending}
    {more : Bool} {s t : TokenStream}
    (h : blockStep (expression levels) (block levels) (statements, .falls) s =
      .ok ((found, ending), more) t) (hending : ending ≠ .falls) :
    Relation.TransGen Next s t := by
  obtain ⟨-, -, hfound⟩ | ⟨_, _, -, -, hfound⟩ | ⟨read, -, hread, hfound⟩ | ⟨-, hnext, -⟩ |
    ⟨-, -, hfound⟩ := blockStep_eq_ok.1 h
  · cases hfound
    exact absurd rfl hending
  · cases hfound
    exact absurd rfl hending
  · exact moves_returnStatement levels _ _ _ hread
  · exact .single hnext
  · cases hfound
    exact absurd rfl hending

end Grammar

/-! ## What comes after the end of the file -/

/-- What was scanned is an end of the file. -/
def Token.isEnd : Scanned → Bool
  | .ok token => token.symbol == .endOfFile
  | .error _ => false

theorem Token.isEnd_eq_false {token : Token} (h : token.symbol ≠ .endOfFile) :
    isEnd (.ok token) = false :=
  beq_eq_false_iff_ne.2 h

/-- What was scanned, up to the first end of the file. -/
def Token.upToEnd : List Scanned → List Scanned
  | [] => []
  | scanned :: rest => scanned :: if isEnd scanned then [] else upToEnd rest

theorem Token.upToEnd_append (before after : List Scanned) {eof : Token}
    (h : eof.symbol = .endOfFile) :
    upToEnd (before ++ .ok eof :: after) = upToEnd (before ++ [.ok eof]) := by
  induction before with
  | nil => simp [upToEnd, isEnd, h]
  | cons scanned before ih => simp only [List.cons_append, upToEnd, ih]

/-- No end of the file is left out as a marker. -/
theorem Token.upToEnd_filter (scanned : List Scanned) :
    upToEnd (scanned.filter isMeaningful) = (upToEnd scanned).filter isMeaningful := by
  induction scanned with
  | nil => rfl
  | cons first rest ih =>
    have hkept : isEnd first = true → isMeaningful first = true := by
      cases first with
      | error e => exact nofun
      | ok token =>
        intro h
        simp [isMeaningful, Symbol.isMarker, eq_of_beq h]
    rw [upToEnd]
    cases hfirst : isMeaningful first with
    | true =>
      rw [List.filter_cons_of_pos hfirst, List.filter_cons_of_pos hfirst, upToEnd]
      split
      · rfl
      · rw [ih]
    | false =>
      have hend : isEnd first ≠ true := fun h => by simp [hkept h] at hfirst
      rw [List.filter_cons_of_neg (by simp [hfirst]), List.filter_cons_of_neg (by simp [hfirst]),
        if_neg hend, ih]

namespace TokenStream

/-- The streams are at the same token, and the same follows up to the first end of the file. -/
structure SameToEnd (s t : TokenStream) : Prop where
  current_eq : s.current = t.current
  last_eq : s.last = t.last
  rest : s.symbol ≠ .endOfFile → Token.upToEnd s.rest = Token.upToEnd t.rest

theorem SameToEnd.symbol_eq {s t : TokenStream} (h : s.SameToEnd t) : s.symbol = t.symbol :=
  congrArg Token.symbol h.current_eq

theorem SameToEnd.fault_eq {s t : TokenStream} (h : s.SameToEnd t) (cause : SyntaxError.Cause) :
    s.fault cause = t.fault cause := by
  rw [fault, fault, h.current_eq]

/-- The same comes next, and behind it the streams are the same unless it is the end of the file. -/
theorem cases_of_upToEnd {as bs : List Scanned} (h : Token.upToEnd as = Token.upToEnd bs) :
    (as = [] ∧ bs = []) ∨ ∃ scanned as' bs', as = scanned :: as' ∧ bs = scanned :: bs' ∧
      (Token.isEnd scanned = false → Token.upToEnd as' = Token.upToEnd bs') := by
  cases as with
  | nil =>
    cases bs with
    | nil => exact .inl ⟨rfl, rfl⟩
    | cons b bs => cases h
  | cons a as =>
    cases bs with
    | nil => cases h
    | cons b bs =>
      rw [Token.upToEnd, Token.upToEnd, List.cons.injEq] at h
      obtain ⟨rfl, h⟩ := h
      refine .inr ⟨a, as, bs, rfl, rfl, fun hend => ?_⟩
      simpa [hend] using h

/-- The streams over what was scanned, if there are any, are the same up to there too. -/
theorem ofScanned_of_upToEnd {as bs : List Scanned} (h : Token.upToEnd as = Token.upToEnd bs) :
    ofScanned as = ofScanned bs ∨
      ∃ s t, ofScanned as = .ok s ∧ ofScanned bs = .ok t ∧ s.SameToEnd t := by
  have hfilter :
      Token.upToEnd (as.filter isMeaningful) = Token.upToEnd (bs.filter isMeaningful) := by
    rw [Token.upToEnd_filter, Token.upToEnd_filter, h]
  unfold ofScanned
  rcases cases_of_upToEnd hfilter with ⟨has, hbs⟩ | ⟨first, as', bs', has, hbs, hend⟩
  · rw [has, hbs]
    exact .inl rfl
  · rw [has, hbs]
    cases first with
    | error e => exact .inl rfl
    | ok token =>
      exact .inr ⟨_, _, rfl, rfl, rfl, rfl, fun hne => hend (Token.isEnd_eq_false hne)⟩

end TokenStream

namespace Grammar

open Reading Comparison

variable {α : Type}

/-- A reading beside one of a stream that is the same up to the first end of the file. -/
def sameToEnd : Simulation where
  Alike := SameToEnd
  Over _ := False
  Same e f := e = f
  Leaves _ := False
  Strays _ := False
  symbol_eq := SameToEnd.symbol_eq
  lexeme_eq h := congrArg Token.lexeme h.current_eq
  consume {s t} h := by
    by_cases hs : s.symbol = .endOfFile
    · have ht : t.symbol = .endOfFile := h.symbol_eq ▸ hs
      rw [Reading.consume, Reading.consume, if_pos hs, if_pos ht]
      exact .inl ⟨rfl, h⟩
    · have ht : t.symbol ≠ .endOfFile := h.symbol_eq ▸ hs
      rw [Reading.consume, Reading.consume, if_neg hs, if_neg ht, ← h.current_eq]
      rcases cases_of_upToEnd (h.rest hs) with
        ⟨hnow, hlater⟩ | ⟨scanned, as, bs, hnow, hlater, hend⟩
      · rw [hnow, hlater]
        exact .inl ⟨rfl, rfl, rfl, fun _ => rfl⟩
      · rw [hnow, hlater]
        cases scanned with
        | error e => exact .inl rfl
        | ok token => exact .inl ⟨rfl, rfl, rfl, fun hne => hend (Token.isEnd_eq_false hne)⟩
  fault h _ := h.fault_eq _
  callGuard h _ := outcome_callGuard h h.current_eq h.last_eq fun _ => rfl
  lookahead {s t} h := by
    refine .inl ?_
    unfold nextSymbol
    rw [← h.symbol_eq]
    split
    · rfl
    · next hs =>
      rcases cases_of_upToEnd (h.rest hs) with ⟨hnow, hlater⟩ | ⟨scanned, as, bs, hnow, hlater, -⟩
      · rw [hnow, hlater]
      · rw [hnow, hlater]
        cases scanned <;> rfl
  over_consume h := h.elim
  over_fault h := h.elim

/-- What was scanned up to the first end of the file decides what comes of a reading. -/
theorem ofScanned_eq_of_upToEnd {x : Reading α} (hx : sameToEnd.Agrees x x) {as bs : List Scanned}
    (h : Token.upToEnd as = Token.upToEnd bs) : x.ofScanned as = x.ofScanned bs := by
  rcases ofScanned_of_upToEnd h with heq | ⟨s, t, hs, ht, hst⟩
  · rw [Reading.ofScanned, Reading.ofScanned, heq]
  · have houtcome : sameToEnd.Outcome (x s) (x t) := hx.alike hst
    rw [Reading.ofScanned, Reading.ofScanned, hs, ht]
    dsimp only
    cases hleft : x s with
    | ok a u =>
      cases hright : x t with
      | ok b v =>
        rw [hleft, hright] at houtcome
        rcases houtcome with ⟨rfl, -⟩ | hover
        · rfl
        · exact hover.elim
      | error f v =>
        rw [hleft, hright] at houtcome
        exact (or_self_iff.1 houtcome).elim
    | error e u =>
      rw [hleft] at houtcome
      rcases houtcome.of_error with hleaves | ⟨f, v, hright, rfl | hstrays⟩
      · exact hleaves.elim
      · rw [hright]
      · exact hstrays.elim

/-- Reading ends whatever is scanned. The rules call each other only with a level less, and the
loops in them, which are given as many rounds as there are tokens, all end by themselves within
those rounds. Nothing after the first end of the file has a part in the result, be it tokens, errors
or further ends. The loops get on because expressions, entries of tables and statements cannot be
read without moving past a token, nor can the return or the break that ends a block. -/
theorem reading_ends (levels : Nat) :
    (∀ {α : Type} {step : α → Reading (α × Bool)},
      IsRound (expression levels) (rightOperand levels) (block levels) step →
      ∀ (a : α) (s : TokenStream), ∃ n ≤ s.size + 1, Rounds step n a s (loop step a s)) ∧
    (∀ (before after : List Scanned) {eof : Token}, eof.symbol = .endOfFile →
      (chunk levels).ofScanned (before ++ .ok eof :: after) =
          (chunk levels).ofScanned (before ++ [.ok eof]) ∧
        Reading.ofScanned (block levels) (before ++ .ok eof :: after) =
          Reading.ofScanned (block levels) (before ++ [.ok eof]) ∧
        (expression levels).ofScanned (before ++ .ok eof :: after) =
          (expression levels).ofScanned (before ++ [.ok eof])) ∧
    Moves (expression levels) ∧ Moves (field (expression levels)) ∧
    (∀ {y : Symbol} {rule : Reading Statement},
      statementRule (expression levels) (block levels) y = some rule → Moves rule) ∧
    Moves (returnStatement (expression levels)) ∧
    ∀ {statements found : List Statement} {ending : Ending} {more : Bool} {s t : TokenStream},
      blockStep (expression levels) (block levels) (statements, .falls) s =
        .ok ((found, ending), more) t → ending ≠ .falls → Relation.TransGen Next s t := by
  refine ⟨fun hround => rounds_loop hround.progresses_levels, fun before after eof heof => ?_,
    moves_expression levels, moves_field levels, moves_statementRule, moves_returnStatement levels,
    moves_ending⟩
  have hsame := Token.upToEnd_append before after heof
  have hlevels : AgreesWith sameToEnd levels levels := agreesWith (.inl rfl)
  exact ⟨ofScanned_eq_of_upToEnd (agrees_chunk (.inl rfl)) hsame,
    ofScanned_eq_of_upToEnd hlevels.blocks hsame,
    ofScanned_eq_of_upToEnd (hlevels.places 0) hsame⟩

/-- A break behind a semicolon, an error behind the end of the file, and a single value. -/
theorem reading_ends_break :
    (∃ n ≤ 4, Rounds (blockStep (expression 1) (block 1)) n ([], .falls)
      ⟨⟨.semicolon, ";", 1, 1, 1⟩, .endOfFile 1 0,
        [.ok ⟨.breakWord, "break", 1, 2, 1⟩, .ok (.endOfFile 1 7)]⟩
      (.ok ([], .breaks) ⟨.endOfFile 1 7, ⟨.breakWord, "break", 1, 2, 1⟩, []⟩)) ∧
    Relation.TransGen Next
      ⟨⟨.breakWord, "break", 1, 2, 1⟩, .endOfFile 1 0, [.ok (.endOfFile 1 7)]⟩
      ⟨.endOfFile 1 7, ⟨.breakWord, "break", 1, 2, 1⟩, []⟩ ∧
    (chunk 1).ofScanned ([.ok ⟨.semicolon, ";", 1, 1, 1⟩] ++ .ok (.endOfFile 1 2) ::
      [.error ⟨.unexpected "=", 1, 3⟩]) = .ok (.mk [] .falls) ∧
    (expression 1 ⟨⟨.nilWord, "nil", 1, 1, 1⟩, .endOfFile 1 0, []⟩ =
        .ok .nil ⟨.endOfFile 1 1, ⟨.nilWord, "nil", 1, 1, 1⟩, []⟩ ∧
      Relation.TransGen Next ⟨⟨.nilWord, "nil", 1, 1, 1⟩, .endOfFile 1 0, []⟩
        ⟨.endOfFile 1 1, ⟨.nilWord, "nil", 1, 1, 1⟩, []⟩) := by
  obtain ⟨hrounds, hend, hexpression, -, -, -, hending⟩ := reading_ends 1
  have hbreak : blockStep (m := Reading) (expression 1) (block 1) ([], .falls)
      ⟨⟨.breakWord, "break", 1, 2, 1⟩, .endOfFile 1 0, [.ok (.endOfFile 1 7)]⟩ =
      .ok (([], .breaks), false) ⟨.endOfFile 1 7, ⟨.breakWord, "break", 1, 2, 1⟩, []⟩ := rfl
  refine ⟨?_, hending hbreak (by simp), ?_, ?_⟩
  · exact hrounds .statements ([], .falls) ⟨⟨.semicolon, ";", 1, 1, 1⟩, .endOfFile 1 0,
      [.ok ⟨.breakWord, "break", 1, 2, 1⟩, .ok (.endOfFile 1 7)]⟩
  · rw [(hend _ _ rfl).1]
    cbv
  · have hnil : expression 1 ⟨⟨.nilWord, "nil", 1, 1, 1⟩, .endOfFile 1 0, []⟩ =
        .ok .nil ⟨.endOfFile 1 1, ⟨.nilWord, "nil", 1, 1, 1⟩, []⟩ := by cbv
    exact ⟨hnil, hexpression .nil _ _ hnil⟩

end Grammar

end LuaLang
