import Mathlib
import LuaLang.Proofs.Scan.Continuation
import LuaLang.Proofs.Scan.Lexemes

/-!
# Where tokens stand

What is scanned accounts for all characters of the source: each token takes up a span of it, and
nothing but blanks is left before, between and after the spans. The position of a token is that of
the first character of its span, and no span ends with a line end, so the line on which a token ends
is that of its last character.

## Main definitions

* `Lexeme.ReachesTo`: a lexeme takes up characters that are there, the last of which is no line end.
* `Position.ofIndex`: the position of a character, counted directly.
* `Span`: a stretch of the source.
* `Token.Occupies`: a token stands for a span.
* `Token.Laid`: tokens and blanks make up a stretch of the source.

## Main statements

* `Lexeme.reachesTo_of_read`, `Lexeme.offset_le_of_read`: one lexeme, or one fault.
* `Token.scan_partitions_source`: all that is scanned.
-/

namespace LuaLang

/-! ## What a lexeme takes up -/

namespace Lexeme

variable {c : Char} {cs : List Char} {n width : Nat}

/-- So many characters are there, at least one, and the last of them is no line end. -/
def ReachesTo (cs : List Char) (width : Nat) : Prop :=
  ∃ n last, width = n + 1 ∧ cs[n]? = some last ∧ last ≠ '\n'

theorem ReachesTo.cons (h : ReachesTo cs width) : ReachesTo (c :: cs) (width + 1) := by
  obtain ⟨n, last, rfl, hlast, hne⟩ := h
  exact ⟨n + 1, last, rfl, hlast, hne⟩

theorem ReachesTo.of_drop (h : ReachesTo (cs.drop n) width) : ReachesTo cs (n + width) := by
  obtain ⟨k, last, rfl, hlast, hne⟩ := h
  rw [List.getElem?_drop] at hlast
  exact ⟨n + k, last, rfl, hlast, hne⟩

theorem ReachesTo.le_length (h : ReachesTo cs width) : width ≤ cs.length := by
  obtain ⟨n, last, rfl, hlast, -⟩ := h
  exact (List.getElem?_eq_some_iff.1 hlast).1

theorem reachesTo_of_taken {taken : List Char} (h : taken <+: cs) (hne : taken ≠ [])
    (hplain : ∀ c ∈ taken, c ≠ '\n') : ReachesTo cs taken.length := by
  obtain ⟨rest, rfl⟩ := h
  obtain ⟨body, last, rfl⟩ := (List.eq_nil_or_concat' taken).resolve_left hne
  refine ⟨body.length, last, by simp, by simp, hplain last (by simp)⟩

/-- The characters left to pass over are among those that have been counted already. -/
theorem reachesTo_quoted {delimiter : Char} (hd : delimiter ≠ '\n') {skip : Nat} {text : String}
    {l : Lexeme} (h : quoted delimiter cs skip text width = .ok l) :
    ∃ n, ReachesTo cs n ∧ l.width + skip = width + n := by
  induction cs generalizing skip text width with
  | nil => cases skip <;> cases h
  | cons c cs ih =>
    cases skip with
    | succ skip =>
      obtain ⟨n, hn, hwidth⟩ := ih h
      exact ⟨n + 1, hn.cons, by omega⟩
    | zero =>
      rw [quoted] at h
      split at h
      · cases h
      split at h
      · split at h
        · next e taken _ =>
          obtain ⟨n, hn, hwidth⟩ := ih h
          exact ⟨n + 1, hn.cons, by omega⟩
        · cases h
      split at h
      · next hc =>
        cases h
        exact ⟨1, ⟨0, c, rfl, rfl, hc ▸ hd⟩, rfl⟩
      · obtain ⟨n, hn, hwidth⟩ := ih h
        exact ⟨n + 1, hn.cons, by omega⟩

theorem reachesTo_bracketBody {level : Nat} {text : String} {r : String × Nat}
    (h : bracketBody (closer level) cs text width = some r) :
    ∃ n, ReachesTo cs n ∧ r.2 = width + n := by
  induction cs generalizing text width with
  | nil => cases h
  | cons c cs ih =>
    rw [bracketBody] at h
    split at h
    · next hclose =>
      cases h
      rw [Bool.and_eq_true, List.isPrefixOf_iff_prefix] at hclose
      have hcloser : ReachesTo cs (closer level).length := by
        refine reachesTo_of_taken hclose.2 (by simp [closer]) fun d hd => ?_
        simp only [closer, List.mem_append, List.mem_replicate, List.mem_singleton] at hd
        obtain ⟨-, rfl⟩ | rfl := hd <;> decide
      exact ⟨_, hcloser.cons, by dsimp only; omega⟩
    · obtain ⟨n, hn, hr⟩ := ih h
      exact ⟨n + 1, hn.cons, by omega⟩

theorem reachesTo_readBracketed {symbol : Symbol} {level opened : Nat} {l : Lexeme}
    (h : readBracketed symbol level opened cs = .ok l) :
    ∃ n, ReachesTo cs n ∧ l.width = opened + n := by
  rw [readBracketed_eq] at h
  split at h
  · next text width hbody =>
    cases h
    obtain ⟨n, hn, hwidth⟩ := reachesTo_bracketBody hbody
    exact ⟨_, hn.of_drop, by dsimp only at hwidth ⊢; omega⟩
  · cases h

theorem reachesTo_readLongString {l : Lexeme} (h : readLongString cs = .ok l) :
    ReachesTo (c :: cs) l.width := by
  unfold readLongString at h
  split at h
  · next level _ =>
    obtain ⟨n, hn, hwidth⟩ := reachesTo_readBracketed h
    have hreach := hn.of_drop.cons (c := c)
    rwa [show level + 1 + n + 1 = l.width by omega] at hreach
  · cases h

theorem reachesTo_readLineComment (d : Char) (hd : d ≠ '\n') :
    ReachesTo (c :: d :: cs) (readLineComment cs).width := by
  have hplain : ∀ e ∈ cs.takeWhile (· != '\n'), e ≠ '\n' := fun e he => by
    simpa using List.mem_takeWhile_imp he
  rw [readLineComment]
  by_cases hnil : cs.takeWhile (· != '\n') = []
  · rw [hnil]
    exact ⟨1, d, rfl, rfl, hd⟩
  · exact (reachesTo_of_taken (List.takeWhile_prefix _) hnil hplain).cons.cons

theorem reachesTo_readComment {l : Lexeme} (d : Char) (hd : d ≠ '\n')
    (h : readComment cs = .ok l) : ReachesTo (c :: d :: cs) l.width := by
  unfold readComment at h
  split at h
  · next rest =>
    split at h
    · next level _ =>
      obtain ⟨n, hn, hwidth⟩ := reachesTo_readBracketed h
      have hreach := hn.of_drop.cons (c := '[') |>.cons (c := d) |>.cons (c := c)
      rwa [show level + 1 + n + 1 + 1 + 1 = l.width by omega] at hreach
    · cases h
      exact reachesTo_readLineComment d hd
  · cases h
    exact reachesTo_readLineComment d hd

/-- The text of a lexeme is what it takes up. -/
def Verbatim (cs : List Char) (l : Lexeme) : Prop :=
  l.text.toList <+: cs ∧ l.width = l.text.toList.length ∧ ∀ c ∈ l.text.toList, c ≠ '\n'

theorem verbatim_readNumeral (cs : List Char) : Verbatim cs (readNumeral cs) := by
  refine ⟨?_, ?_, fun c hc => ?_⟩
  · simpa [readNumeral] using prefix_numeral cs
  · simp [readNumeral]
  · have hnumeral : c ∈ numeral cs := by simpa [readNumeral] using hc
    exact (numeral_chars hnumeral).1

theorem verbatim_readName (cs : List Char) : Verbatim cs (readName cs) := by
  refine ⟨?_, ?_, fun c hc => ?_⟩
  · simpa [readName] using List.takeWhile_prefix _
  · simp [readName]
  · have hname : isNameChar c = true := List.mem_takeWhile_imp (by simpa [readName] using hc)
    rintro rfl
    exact absurd hname (by decide)

theorem verbatim_readMark? {l : Lexeme} (h : readMark? cs = some l) : Verbatim cs l := by
  obtain ⟨s, hs, rfl⟩ := Option.map_eq_some_iff.1 h
  have hplain := not_mem_text (List.mem_of_find?_eq_some hs)
  refine ⟨?_, ?_, fun c hc => ne_of_mem_of_not_mem hc hplain⟩
  · simpa using List.find?_some hs
  · exact (String.length_toList (s := s.text)).symm

/-- A lexeme that is neither a string nor a comment takes up its own text, and all lexemes take up
characters of the source. -/
theorem reachesTo_of_read {l : Lexeme} (h : read c cs = .ok l) :
    ReachesTo (c :: cs) l.width ∧
      (l.symbol ≠ .string → l.symbol ≠ .comment → Verbatim (c :: cs) l) := by
  have hpos := read_width_pos h
  have hverbatim : Verbatim (c :: cs) l → ReachesTo (c :: cs) l.width ∧
      (l.symbol ≠ .string → l.symbol ≠ .comment → Verbatim (c :: cs) l) := by
    refine fun hl => ⟨?_, fun _ _ => hl⟩
    rw [hl.2.1] at hpos ⊢
    exact reachesTo_of_taken hl.1 (List.length_pos_iff.1 hpos) hl.2.2
  unfold read at h
  split at h
  · next hcomment =>
    simp only [Bool.and_eq_true, decide_eq_true_eq] at hcomment
    obtain ⟨rest, rfl⟩ := List.head?_eq_some_iff.1 hcomment.2
    exact ⟨reachesTo_readComment '-' (by decide) h,
      fun _ hne => absurd (readComment_eq_ok h).1 hne⟩
  split at h
  · exact ⟨reachesTo_readLongString h, fun hne => absurd (readLongString_eq_ok h).1 hne⟩
  split at h
  · next hquote =>
    have hne : c ≠ '\n' := by
      rintro rfl
      exact absurd hquote (by decide)
    obtain ⟨n, hn, hwidth⟩ := reachesTo_quoted hne h
    rw [show l.width = n + 1 by omega]
    exact ⟨hn.cons, fun hstring => absurd (quoted_eq_ok h).1 hstring⟩
  split at h
  · cases h
    exact hverbatim (verbatim_readNumeral _)
  split at h
  · cases h
    exact hverbatim (verbatim_readName _)
  split at h
  · next mark hmark =>
    cases h
    exact hverbatim (verbatim_readMark? hmark)
  · cases h

/-! ## Where a fault is reported -/

theorem offset_quoted {delimiter : Char} {skip : Nat} {text : String} {fault : Fault}
    (h : quoted delimiter cs skip text width = .error fault) :
    fault.offset = 0 ∨ fault.offset + skip ≤ width + cs.length := by
  induction cs generalizing skip text width with
  | nil => cases skip <;> cases h <;> exact .inl rfl
  | cons c cs ih =>
    rw [List.length_cons]
    cases skip with
    | succ skip =>
      have := ih h
      omega
    | zero =>
      rw [quoted] at h
      split at h
      · cases h
        exact .inl rfl
      split at h
      · split at h
        · have := ih h
          omega
        · next hescape =>
          cases h
          have := offset_readEscape_le hescape
          omega
      split at h
      · cases h
      · have := ih h
        omega

theorem offset_readBracketed {symbol : Symbol} {level opened : Nat} {fault : Fault}
    (h : readBracketed symbol level opened cs = .error fault) : fault.offset = 0 := by
  rw [readBracketed_eq] at h
  split at h <;> cases h
  rfl

/-- A fault is reported at a character of the source or at its end. -/
theorem offset_le_of_read {fault : Fault} (h : read c cs = .error fault) :
    fault.offset ≤ (c :: cs).length := by
  unfold read at h
  split at h
  · unfold readComment at h
    split at h
    · split at h
      · rw [offset_readBracketed h]
        exact Nat.zero_le _
      · cases h
    · cases h
  split at h
  · unfold readLongString at h
    split at h
    · rw [offset_readBracketed h]
      exact Nat.zero_le _
    · cases h
      exact Nat.zero_le _
  split at h
  · have := offset_quoted h
    rw [List.length_cons]
    omega
  split at h
  · cases h
  split at h
  · cases h
  split at h
  · cases h
  · cases h
    exact Nat.zero_le _

end Lexeme

/-! ## Positions -/

namespace Position

/-- The position of the character at an index, or of the end: the line counts the line ends before
it, and the column the characters since the last of them, both from one. -/
def ofIndex (source : List Char) (index : Nat) : Position :=
  let before := source.take index
  ⟨1 + before.count '\n', 1 + (before.rtakeWhile (· ≠ '\n')).length⟩

theorem start_advanceAll (before : List Char) :
    start.advanceAll before =
      ⟨1 + before.count '\n', 1 + (before.rtakeWhile (· ≠ '\n')).length⟩ := by
  induction before using List.reverseRecOn with
  | nil => rfl
  | append_singleton before c ih =>
    rw [advanceAll_append, ih, List.count_append]
    by_cases hc : c = '\n'
    · subst hc
      rw [List.rtakeWhile_concat_neg _ _ _ (by simp)]
      rfl
    · rw [List.rtakeWhile_concat_pos _ _ _ (by simpa using hc)]
      simp [advanceAll, advance, hc, Nat.add_assoc]

/-- Going over the characters before an index leads to its position. -/
theorem start_advanceAll_take (source : List Char) (index : Nat) :
    start.advanceAll (source.take index) = .ofIndex source index :=
  start_advanceAll _

/-- Going on over the characters after the first ones leads to a position further on. -/
theorem advanceAll_take (passed cs : List Char) (count : Nat) :
    (start.advanceAll passed).advanceAll (cs.take count) =
      .ofIndex (passed ++ cs) (passed.length + count) := by
  rw [← advanceAll_append, ← start_advanceAll_take, List.take_length_add_append]

theorem line_ofIndex_succ {source : List Char} {index : Nat} {c : Char}
    (h : source[index]? = some c) (hc : c ≠ '\n') :
    (ofIndex source (index + 1)).line = (ofIndex source index).line := by
  simp [ofIndex, List.take_add_one, h, hc]

end Position

/-! ## Spans -/

/-- The characters of a source from the index `start` on, up to the index `stop`. -/
structure Span where
  start : Nat
  stop : Nat

/-- The characters of a span. -/
def Span.chars (source : List Char) (span : Span) : List Char :=
  (source.take span.stop).drop span.start

/-- From one index to another there are only blanks. -/
def BlankBetween (source : List Char) (start stop : Nat) : Prop :=
  start ≤ stop ∧ ∀ index c, start ≤ index → index < stop → source[index]? = some c →
    c ∈ [' ', '\t', '\n', '\r', '\x0b', '\x0c']

namespace Token

/-- A token stands for a span of the source. -/
structure Occupies (source : List Char) (token : Token) (span : Span) : Prop where
  nonempty : span.start < span.stop
  within : span.stop ≤ source.length
  position : (⟨token.line, token.column⟩ : Position) = .ofIndex source span.start
  endLine : token.endLine = (Position.ofIndex source (span.stop - 1)).line
  /-- Strings and comments stand for other text than they are written with. -/
  lexeme : token.symbol ≠ .string → token.symbol ≠ .comment →
    token.lexeme.toList = span.chars source
  /-- The token is what is read at its span. -/
  read : ∃ c cs, source.drop span.start = c :: cs ∧
    Lexeme.read c cs = .ok ⟨token.symbol, token.lexeme, span.stop - span.start⟩

/-- From one index to another the source is made up of the spans of the tokens, in this order, and
of blanks. -/
inductive Laid (source : List Char) : Nat → List Token → List Span → Nat → Prop where
  | blanks {start stop : Nat} (h : BlankBetween source start stop) : Laid source start [] [] stop
  | token {start stop : Nat} {token : Token} {tokens : List Token} {span : Span}
      {spans : List Span} (h : BlankBetween source start span.start)
      (htoken : Occupies source token span) (hrest : Laid source span.stop tokens spans stop) :
      Laid source start (token :: tokens) (span :: spans) stop

/-- What ends a scan of which these tokens were found: the end of the file, and then the whole
source is accounted for; or an error at a character that was not passed yet, or at the end. -/
def EndsScan (source : List Char) (start : Nat) (tokens : List Token) (spans : List Span) :
    Scanned → Prop
  | .ok last =>
    Laid source start tokens spans source.length ∧
      last = endOfFile (Position.ofIndex source source.length).line
        (Position.ofIndex source source.length).column
  | .error e => ∃ stop index, Laid source start tokens spans stop ∧ stop ≤ index ∧
      index ≤ source.length ∧ (⟨e.line, e.column⟩ : Position) = .ofIndex source index

variable {source : List Char} {start stop : Nat} {tokens : List Token} {spans : List Span}
  {last : Scanned}

theorem Laid.blank {c : Char} (hc : source[start]? = some c) (hblank : Number.isBlank c = true)
    (h : Laid source (start + 1) tokens spans stop) : Laid source start tokens spans stop := by
  have hbetween : ∀ {stop}, BlankBetween source (start + 1) stop →
      BlankBetween source start stop := by
    rintro stop ⟨hle, hblanks⟩
    refine ⟨by omega, fun index d hstart hstop hd => ?_⟩
    rcases Nat.lt_or_eq_of_le hstart with hlt | rfl
    · exact hblanks index d hlt hstop hd
    · rw [hc] at hd
      cases hd
      simpa [Number.isBlank] using hblank
  cases h with
  | blanks h => exact .blanks (hbetween h)
  | token h htoken hrest => exact .token (hbetween h) htoken hrest

theorem EndsScan.mono {start' : Nat} {tokens' : List Token} {spans' : List Span}
    (h : EndsScan source start tokens spans last)
    (hlaid : ∀ stop, Laid source start tokens spans stop → Laid source start' tokens' spans' stop) :
    EndsScan source start' tokens' spans' last := by
  cases last with
  | ok last => exact ⟨hlaid _ h.1, h.2⟩
  | error e =>
    obtain ⟨stop, index, hstop, hindex⟩ := h
    exact ⟨stop, index, hlaid stop hstop, hindex⟩

theorem blankBetween_self (source : List Char) (index : Nat) :
    BlankBetween source index index :=
  ⟨le_refl _, fun _ _ hstart hstop => absurd hstart (Nat.not_le.2 hstop)⟩

/-- A lexeme that is read after some characters becomes a token that stands for its own. -/
theorem occupies_of_read (passed : List Char) {c : Char} {cs : List Char} {l : Lexeme}
    (h : Lexeme.read c cs = .ok l) :
    let p := Position.start.advanceAll passed
    Occupies (passed ++ c :: cs)
      ⟨l.symbol, l.text, p.line, p.column, (p.advanceAll ((c :: cs).take l.width)).line⟩
      ⟨passed.length, passed.length + l.width⟩ := by
  obtain ⟨hreach, hverbatim⟩ := Lexeme.reachesTo_of_read h
  have hwithin := hreach.le_length
  refine ⟨?_, ?_, ?_, ?_, ?_, ?_⟩
  · exact Nat.lt_add_of_pos_right (Lexeme.read_width_pos h)
  · rw [List.length_append]
    exact Nat.add_le_add_left hwithin _
  · exact Position.advanceAll_take passed (c :: cs) 0
  · obtain ⟨n, d, hn, hd, hne⟩ := hreach
    have hlast : (passed ++ c :: cs)[passed.length + n]? = some d := by
      rwa [List.getElem?_append_right (Nat.le_add_right _ _), Nat.add_sub_cancel_left]
    change (Position.advanceAll _ _).line = _
    rw [Position.advanceAll_take, hn]
    exact Position.line_ofIndex_succ hlast hne
  · intro hstring hcomment
    obtain ⟨htaken, hwidth, -⟩ := hverbatim hstring hcomment
    dsimp only [Span.chars]
    rw [List.take_length_add_append, List.drop_left, hwidth]
    exact List.prefix_iff_eq_take.1 htaken
  · exact ⟨c, cs, by rw [List.drop_left], by rw [h, Nat.add_sub_cancel_left]⟩

/-- What is scanned after some characters accounts for what follows them. -/
theorem endsScan_scanAt (passed cs : List Char) :
    ∃ (tokens : List Token) (spans : List Span) (last : Scanned),
      scanAt (Position.start.advanceAll passed) cs = tokens.map .ok ++ [last] ∧
      (∀ token ∈ tokens, token.symbol ≠ .endOfFile) ∧
      EndsScan (passed ++ cs) passed.length tokens spans last := by
  induction cs using scan_induction generalizing passed with
  | nil =>
    refine ⟨[], [], _, rfl, by simp, ?_, ?_⟩
    · rw [List.append_nil]
      exact .blanks (blankBetween_self _ _)
    · rw [List.append_nil, ← Position.start_advanceAll_take, List.take_length]
      rfl
  | blank c cs hc ih =>
    obtain ⟨tokens, spans, last, hscan, htokens, hends⟩ := ih (passed ++ [c])
    rw [Position.advanceAll_append] at hscan
    rw [List.append_assoc, List.singleton_append, List.length_append] at hends
    refine ⟨tokens, spans, last, ?_, htokens, hends.mono fun stop => Laid.blank ?_ hc⟩
    · rw [scanAt_of_blank _ hc]
      exact hscan
    · simp
  | error c cs fault hc hl =>
    have hoffset := Lexeme.offset_le_of_read hl
    refine ⟨[], [], _, scanAt_of_error _ hc hl, by simp, passed.length,
      passed.length + fault.offset, .blanks (blankBetween_self _ _), Nat.le_add_right _ _,
      ?_, Position.advanceAll_take passed (c :: cs) fault.offset⟩
    rw [List.length_append]
    exact Nat.add_le_add_left hoffset _
  | read c cs l hc hl ih =>
    have hoccupies := occupies_of_read passed hl
    have hwithin := (Lexeme.reachesTo_of_read hl).1.le_length
    obtain ⟨tokens, spans, last, hscan, htokens, hends⟩ :=
      ih (passed ++ (c :: cs).take l.width)
    rw [Position.advanceAll_append] at hscan
    rw [List.append_assoc, List.take_append_drop, List.length_append,
      List.length_take_of_le hwithin] at hends
    have hread : IsRead ⟨l.symbol, l.text, 0, 0, 0⟩ := ⟨c, cs, l, hl, rfl, rfl⟩
    refine ⟨_ :: tokens, _ :: spans, last, ?_, ?_,
      hends.mono fun stop => .token (blankBetween_self _ _) hoccupies⟩
    · rw [scanAt_of_read _ hc hl, hscan]
      rfl
    · exact List.forall_mem_cons.2 ⟨hread.symbol_facts.1, htokens⟩

/-- Scanning comes to an end, with the end of the file or an error and nothing after it. The tokens
before that stand for spans of the source, one after the other, which are not empty and have nothing
but blanks before, between and, unless there was an error, after them. Each token has the position
of the first character of its span and the line of the last one, and the lexeme of a token that is
neither a string nor a comment is its span. An error has the position of a character that belongs to
no token, or of the end. -/
theorem scan_partitions_source (source : String) :
    ∃ (tokens : List Token) (spans : List Span) (last : Scanned),
      scan source = tokens.map .ok ++ [last] ∧
      (∀ token ∈ tokens, token.symbol ≠ .endOfFile) ∧
      EndsScan source.toList 0 tokens spans last :=
  endsScan_scanAt [] source.toList

end Token

end LuaLang
