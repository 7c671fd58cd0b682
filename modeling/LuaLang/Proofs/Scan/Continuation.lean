import Mathlib
import LuaLang.Proofs.Scan.LineEnds
import LuaLang.Token.Stream

/-!
# Scanning on

What is scanned of a source that ends with a line end stays when more source follows. No lexeme goes
on past a line end, apart from strings and comments that are not finished yet; so the same lexemes
are read, and they end before the line end does. A fault that is not for want of source stays too.

## Main definitions

* `Lexeme.EndsLine`: the source ends with a line end.
* `Lexeme.Settled`: what is read of a source will not be changed by more source.
* `Token.GoesOn`: what is scanned of a source beside what is scanned of a longer one.

## Main statements

* `Lexeme.settled_read`: one lexeme.
* `Token.goesOn_scanAt`: all that is scanned.
-/

namespace LuaLang

namespace Lexeme

variable {c : Char} {cs more : List Char}

/-- The source ends with a line end. -/
def EndsLine (cs : List Char) : Prop :=
  cs.getLast? = some '\n'

theorem EndsLine.eq_append (h : EndsLine cs) : ∃ line, cs = line ++ ['\n'] :=
  List.getLast?_eq_some_iff.1 h

/-- What a line end is enough for does not depend on what follows the source. -/
theorem EndsLine.eq_of_line (h : EndsLine cs) {α : Type} {f : List Char → α}
    (hf : ∀ more cs, f (cs ++ '\n' :: more) = f cs) (more : List Char) : f (cs ++ more) = f cs := by
  obtain ⟨line, rfl⟩ := h.eq_append
  rw [List.append_assoc, List.singleton_append, hf, hf]

theorem EndsLine.ne_nil (h : EndsLine cs) : cs ≠ [] := by
  rintro rfl
  cases h

theorem EndsLine.drop (h : EndsLine cs) {n : Nat} (hn : n < cs.length) :
    EndsLine (cs.drop n) := by
  rw [EndsLine, List.getLast?_drop, if_neg (Nat.not_le.2 hn)]
  exact h

theorem EndsLine.tail (h : EndsLine (c :: cs)) (hc : c ≠ '\n') : EndsLine cs := by
  cases cs with
  | nil =>
    simp [EndsLine] at h
    exact absurd h hc
  | cons d cs => simpa [EndsLine, List.getLast?_cons_cons] using h

theorem EndsLine.cases (h : EndsLine (c :: cs)) : cs = [] ∨ EndsLine cs := by
  by_cases hc : c = '\n'
  · cases cs with
    | nil => exact .inl rfl
    | cons d cs => exact .inr (by simpa [EndsLine, List.getLast?_cons_cons] using h)
  · exact .inr (h.tail hc)

/-- What stops at a line end stops before the end of the source. -/
theorem EndsLine.takeWhile (h : EndsLine cs) {p : Char → Bool} (hp : p '\n' = false)
    (more : List Char) :
    (cs ++ more).takeWhile p = cs.takeWhile p ∧ (cs.takeWhile p).length < cs.length := by
  refine ⟨h.eq_of_line (fun more => takeWhile_line more hp) more, ?_⟩
  obtain ⟨line, rfl⟩ := h.eq_append
  rw [takeWhile_line [] hp, List.length_append]
  exact Nat.lt_succ_of_le (List.takeWhile_prefix p).length_le

theorem EndsLine.length_lt (h : EndsLine cs) {x : List Char} (hx : '\n' ∉ x) (hpre : x <+: cs) :
    x.length < cs.length := by
  refine Nat.lt_of_le_of_ne hpre.length_le fun hlength => ?_
  rw [hpre.eq_of_length hlength] at hx
  exact hx (List.mem_of_getLast? h)

/-! ## Lexemes -/

/-- The source has ended before the lexeme did. -/
def Unfinished : SyntaxError.Cause → Prop
  | .unfinishedString _ => True
  | .unfinishedLongBracket => True
  | _ => False

/-- What is read of `room` characters is not changed by what follows them: a lexeme that ends before
they do, a fault among them, or one for want of source. -/
def Settled (room : Nat) (now later : Except Fault Lexeme) : Prop :=
  match now with
  | .ok l => later = .ok l ∧ l.width < room
  | .error fault => Unfinished fault.cause ∨ later = .error fault ∧ fault.offset ≤ room

theorem settled_readName (h : EndsLine cs) (more : List Char) :
    Settled cs.length (.ok (readName cs)) (.ok (readName (cs ++ more))) := by
  obtain ⟨htake, hlength⟩ := h.takeWhile (show isNameChar '\n' = false by decide) more
  refine ⟨by rw [readName, readName, htake], ?_⟩
  simpa [readName] using hlength

theorem EndsLine.numeral (h : EndsLine cs) (more : List Char) :
    Lexeme.numeral (cs ++ more) = Lexeme.numeral cs ∧
      (Lexeme.numeral cs).length < cs.length := by
  refine ⟨h.eq_of_line numeral_line more, ?_⟩
  obtain ⟨line, rfl⟩ := h.eq_append
  rw [numeral_line [], List.length_append]
  exact Nat.lt_succ_of_le (prefix_numeral line).length_le

theorem settled_readNumeral (h : EndsLine cs) (more : List Char) :
    Settled cs.length (.ok (readNumeral cs)) (.ok (readNumeral (cs ++ more))) := by
  obtain ⟨hnumeral, hlength⟩ := h.numeral more
  exact ⟨by rw [readNumeral, readNumeral, hnumeral], hlength⟩

theorem EndsLine.readMark? (h : EndsLine cs) (more : List Char) :
    Lexeme.readMark? (cs ++ more) = Lexeme.readMark? cs ∧
      ∀ mark ∈ Lexeme.readMark? cs, mark.width < cs.length := by
  refine ⟨h.eq_of_line readMark?_line more, fun mark hmark => ?_⟩
  obtain ⟨s, hs, rfl⟩ := Option.map_eq_some_iff.1 hmark
  have hpre : s.text.toList.isPrefixOf cs = true := by simpa using List.find?_some hs
  have hfree := not_mem_text (List.mem_of_find?_eq_some hs)
  have hlength := h.length_lt hfree (List.isPrefixOf_iff_prefix.1 hpre)
  rwa [String.length_toList] at hlength

/-! ## Strings and comments -/

theorem EndsLine.readEscape (h : EndsLine cs) (text : String) (offset : Nat) (more : List Char) :
    Lexeme.readEscape text offset (cs ++ more) = Lexeme.readEscape text offset cs := by
  have hdigits : ((cs ++ more).take 3).takeWhile Char.isDigit =
      (cs.take 3).takeWhile Char.isDigit :=
    h.eq_of_line (f := fun cs => (cs.take 3).takeWhile Char.isDigit) escapeDigits_line more
  cases cs with
  | nil => exact absurd rfl h.ne_nil
  | cons c cs =>
    rw [List.cons_append] at hdigits
    rw [List.cons_append, Lexeme.readEscape, Lexeme.readEscape, hdigits]

theorem offset_readEscape_le {text : String} {offset : Nat} {fault : Fault}
    (h : readEscape text offset cs = .error fault) :
    fault.offset ≤ offset + 1 + cs.length := by
  have hdigits : ((cs.take 3).takeWhile Char.isDigit).length ≤ cs.length :=
    (List.takeWhile_prefix _).length_le.trans (List.length_take_le' 3 cs)
  cases cs with
  | nil =>
    cases h
    exact Nat.zero_le _
  | cons c cs =>
    rw [readEscape] at h
    split at h
    · dsimp only at h
      split at h
      · cases h
      · cases h
        exact Nat.add_le_add_left hdigits _
    · split at h
      · cases h
      · cases h
        exact Nat.le_add_right _ _

/-- The characters left to pass over have been counted already. -/
theorem settled_quoted {delimiter : Char} (h : cs = [] ∨ EndsLine cs) (more : List Char)
    {skip width room : Nat} {text : String} (hroom : width + cs.length = room + skip) :
    Settled room (quoted delimiter cs skip text width)
      (quoted delimiter (cs ++ more) skip text width) := by
  induction cs generalizing skip text width with
  | nil =>
    cases skip <;> exact .inl trivial
  | cons c cs ih =>
    rw [List.length_cons] at hroom
    have hline : EndsLine (c :: cs) := by simpa using h
    cases skip with
    | succ skip =>
      rw [List.cons_append, quoted, quoted]
      exact ih hline.cases (by omega)
    | zero =>
      rw [List.cons_append, quoted, quoted]
      split
      · exact .inl trivial
      · next hc =>
        have hrest := hline.tail hc
        split
        · rw [hrest.readEscape]
          cases hescape : readEscape text width cs with
          | ok result => exact ih (.inr hrest) (by omega)
          | error fault =>
            have hoffset := offset_readEscape_le hescape
            exact .inr ⟨rfl, by omega⟩
        · split
          · have hpos := List.length_pos_iff.2 hrest.ne_nil
            exact ⟨rfl, by dsimp only; omega⟩
          · exact ih (.inr hrest) (by omega)

theorem bracketBody_append {closer : List Char} (hcloser : '\n' ∉ closer)
    (h : cs = [] ∨ EndsLine cs) (more : List Char) {text : String} {width : Nat}
    {r : String × Nat} (hbody : bracketBody closer cs text width = some r) :
    bracketBody closer (cs ++ more) text width = some r ∧ r.2 < width + cs.length := by
  induction cs generalizing text width with
  | nil => cases hbody
  | cons c cs ih =>
    have hline : EndsLine (c :: cs) := by simpa using h
    have hsame : (c = ']' && closer.isPrefixOf (cs ++ more) : Bool) =
        (c = ']' && closer.isPrefixOf cs : Bool) := by
      by_cases hc : c = ']'
      · have hrest := hline.tail (by rw [hc]; decide)
        rw [hrest.eq_of_line (fun more => isPrefixOf_line more hcloser)]
      · simp [hc]
    rw [bracketBody] at hbody
    rw [List.cons_append, bracketBody, hsame, List.length_cons]
    split at hbody
    · next hclose =>
      cases hbody
      rw [Bool.and_eq_true, decide_eq_true_eq] at hclose
      obtain ⟨hc, hpre⟩ := hclose
      have hrest := hline.tail (by rw [hc]; decide)
      have hlength := hrest.length_lt hcloser (List.isPrefixOf_iff_prefix.1 hpre)
      simp [hc, hpre]
      omega
    · next hclose =>
      rw [if_neg hclose]
      obtain ⟨hmore, hwidth⟩ := ih hline.cases hbody
      exact ⟨hmore, by omega⟩

theorem EndsLine.openingLineEnd (h : EndsLine cs) (more : List Char) :
    Lexeme.openingLineEnd (cs ++ more) = Lexeme.openingLineEnd cs ∧
      Lexeme.openingLineEnd cs ≤ cs.length := by
  cases cs with
  | nil => exact absurd rfl h.ne_nil
  | cons c cs =>
    by_cases hc : c = '\r'
    · subst hc
      cases cs with
      | nil => simp [EndsLine] at h
      | cons d cs =>
        by_cases hd : d = '\n'
        · subst hd
          exact ⟨rfl, by simp [Lexeme.openingLineEnd]⟩
        · simp [Lexeme.openingLineEnd, hd]
    · by_cases hn : c = '\n'
      · subst hn
        simp [Lexeme.openingLineEnd]
      · simp [Lexeme.openingLineEnd, hc, hn]

theorem settled_readBracketed (h : EndsLine cs) (more : List Char) (symbol : Symbol)
    (level opened : Nat) :
    Settled (opened + cs.length) (readBracketed symbol level opened cs)
      (readBracketed symbol level opened (cs ++ more)) := by
  obtain ⟨hskip, hle⟩ := h.openingLineEnd more
  have hrest : cs.drop (openingLineEnd cs) = [] ∨ EndsLine (cs.drop (openingLineEnd cs)) := by
    by_cases hlt : openingLineEnd cs < cs.length
    · exact .inr (h.drop hlt)
    · exact .inl (List.drop_eq_nil_of_le (Nat.not_lt.1 hlt))
  rw [readBracketed_eq, readBracketed_eq, hskip, List.drop_append_of_le_length hle]
  cases hbody : bracketBody (closer level) (cs.drop (openingLineEnd cs)) ""
      (opened + openingLineEnd cs) with
  | none => exact .inl trivial
  | some r =>
    obtain ⟨hmore, hwidth⟩ := bracketBody_append (not_mem_closer level) hrest more hbody
    rw [hmore]
    rw [List.length_drop] at hwidth
    exact ⟨rfl, by dsimp only; omega⟩

theorem EndsLine.openLevel? (h : EndsLine cs) (more : List Char) :
    Lexeme.openLevel? (cs ++ more) = Lexeme.openLevel? cs ∧
      ∀ level, Lexeme.openLevel? cs = some level → level + 1 < cs.length := by
  refine ⟨h.eq_of_line openLevel?_line more, fun level hlevel => ?_⟩
  obtain ⟨line, rfl⟩ := h.eq_append
  rw [openLevel?_line] at hlevel
  rw [List.length_append]
  exact Nat.lt_succ_of_le (length_of_openLevel? hlevel)

theorem settled_readLongString (h : EndsLine cs) (more : List Char) :
    Settled (cs.length + 1) (readLongString cs) (readLongString (cs ++ more)) := by
  obtain ⟨hlevel, hlt⟩ := h.openLevel? more
  unfold readLongString
  rw [hlevel]
  cases hopen : openLevel? cs with
  | none => exact .inr ⟨rfl, Nat.zero_le _⟩
  | some level =>
    have hlevel := hlt level hopen
    have hbody := settled_readBracketed (h.drop hlevel) more .string level (level + 2)
    dsimp only
    rw [List.drop_append_of_le_length hlevel.le]
    rwa [List.length_drop, show level + 2 + (cs.length - (level + 1)) = cs.length + 1 by omega]
      at hbody

theorem settled_readLineComment (h : EndsLine cs) (more : List Char) :
    Settled (cs.length + 2) (.ok (readLineComment cs)) (.ok (readLineComment (cs ++ more))) := by
  obtain ⟨htake, hlength⟩ := h.takeWhile (p := (· != '\n')) (by decide) more
  refine ⟨by rw [readLineComment, readLineComment, htake], ?_⟩
  exact Nat.add_lt_add_right hlength 2

theorem settled_readComment (h : EndsLine cs) (more : List Char) :
    Settled (cs.length + 2) (readComment cs) (readComment (cs ++ more)) := by
  have hline := settled_readLineComment h more
  cases cs with
  | nil => exact absurd rfl h.ne_nil
  | cons c rest =>
    by_cases hc : c = '['
    · subst hc
      have hrest := h.tail (by decide)
      obtain ⟨hlevel, hlt⟩ := hrest.openLevel? more
      rw [List.cons_append] at hline ⊢
      rw [readComment, readComment, hlevel]
      cases hopen : openLevel? rest with
      | none => exact hline
      | some level =>
        have hlevel := hlt level hopen
        have hbody := settled_readBracketed (hrest.drop hlevel) more .comment level (level + 4)
        dsimp only
        rw [List.drop_append_of_le_length hlevel.le, List.length_cons]
        rwa [List.length_drop,
          show level + 4 + (rest.length - (level + 1)) = rest.length + 1 + 2 by omega] at hbody
    · have hplain : ∀ rest, readComment (c :: rest) = .ok (readLineComment (c :: rest)) := by
        intro rest
        simp [readComment, hc]
      rw [List.cons_append] at hline ⊢
      rwa [hplain, hplain]

/-! ## All lexemes -/

theorem settled_read (h : EndsLine (c :: cs)) (hc : Number.isBlank c = false) (more : List Char) :
    Settled (cs.length + 1) (read c cs) (read c (cs ++ more)) := by
  have hrest : EndsLine cs := by
    refine h.tail ?_
    rintro rfl
    exact absurd hc (by decide)
  have hhead : (cs ++ more).head? = cs.head? := by
    cases cs with
    | nil => exact absurd rfl hrest.ne_nil
    | cons => rfl
  unfold read
  rw [hhead]
  split
  · next hcomment =>
    simp only [Bool.and_eq_true, decide_eq_true_eq] at hcomment
    cases cs with
    | nil => exact absurd rfl hrest.ne_nil
    | cons d rest =>
      obtain rfl : d = '-' := by simpa using hcomment.2
      exact settled_readComment (hrest.tail (by decide)) more
  split
  · exact settled_readLongString hrest more
  split
  · exact settled_quoted (.inr hrest) more (Nat.add_comm _ _)
  rw [← List.cons_append]
  split
  · exact settled_readNumeral h more
  split
  · exact settled_readName h more
  obtain ⟨hmark, hwidth⟩ := h.readMark? more
  rw [hmark]
  cases hread : Lexeme.readMark? (c :: cs) with
  | none => exact .inr ⟨rfl, Nat.zero_le _⟩
  | some mark => exact ⟨rfl, hwidth mark hread⟩

end Lexeme

/-! ## All that is scanned -/

theorem SyntaxError.isIncomplete_of_unfinished {e : SyntaxError} (h : Lexeme.Unfinished e.cause) :
    e.isIncomplete = true := by
  have hstart : "unfinished".toList <+: e.message.toList := by
    obtain ⟨cause, line, column⟩ := e
    cases cause with
    | unfinishedString text =>
      change _ <+: ("unfinished string near '" ++ text ++ "'").toList
      simp
    | unfinishedLongBracket =>
      change _ <+: "unfinished long string or comment".toList
      simp
    | _ => exact h.elim
  rw [isIncomplete, String.startsWith_string_iff.2 hstart, Bool.or_true]

namespace Token

/-- What is scanned of a source, beside what is scanned if more source follows. They are the same
up to where the first comes to its end or fails for want of source. -/
inductive GoesOn : List Scanned → List Scanned → Prop where
  | ended {token : Token} (later : List Scanned) (h : token.symbol = .endOfFile) :
      GoesOn [.ok token] later
  | unfinished {e : SyntaxError} (later : List Scanned) (h : e.isIncomplete = true) :
      GoesOn [.error e] later
  | failed (e : SyntaxError) : GoesOn [.error e] [.error e]
  | next {token : Token} {now later : List Scanned} (h : token.symbol ≠ .endOfFile)
      (rest : GoesOn now later) : GoesOn (.ok token :: now) (.ok token :: later)

/-- Leaving out what has no meaning changes nothing about that. -/
theorem GoesOn.filter {now later : List Scanned} (h : GoesOn now later) :
    GoesOn (now.filter TokenStream.isMeaningful) (later.filter TokenStream.isMeaningful) := by
  induction h with
  | ended later h =>
    rw [List.filter_cons_of_pos (by simp [TokenStream.isMeaningful, h, Symbol.isMarker])]
    exact .ended _ h
  | unfinished later h => exact .unfinished _ h
  | failed e => exact .failed e
  | @next token now later h _ ih =>
    rw [List.filter_cons, List.filter_cons]
    split
    · exact .next h ih
    · exact ih

theorem goesOn_scanAt (p : Position) {cs : List Char} (h : cs = [] ∨ Lexeme.EndsLine cs)
    (more : List Char) : GoesOn (scanAt p cs) (scanAt p (cs ++ more)) := by
  induction cs using scan_induction generalizing p with
  | nil => exact .ended _ rfl
  | blank c cs hc ih =>
    have hline : Lexeme.EndsLine (c :: cs) := by simpa using h
    rw [List.cons_append, scanAt_of_blank p hc, scanAt_of_blank p hc]
    exact ih _ hline.cases
  | error c cs fault hc hl =>
    have hline : Lexeme.EndsLine (c :: cs) := by simpa using h
    have hsettled := Lexeme.settled_read hline hc more
    rw [hl] at hsettled
    rw [scanAt_of_error p hc hl]
    rcases hsettled with hwant | ⟨hlater, hoffset⟩
    · exact .unfinished _ (SyntaxError.isIncomplete_of_unfinished hwant)
    · rw [List.cons_append, scanAt_of_error p hc hlater, ← List.cons_append,
        List.take_append_of_le_length (by simpa using hoffset)]
      exact .failed _
  | read c cs l hc hl ih =>
    have hline : Lexeme.EndsLine (c :: cs) := by simpa using h
    have hsettled := Lexeme.settled_read hline hc more
    rw [hl] at hsettled
    obtain ⟨hlater, hwidth⟩ := hsettled
    have hread : IsRead ⟨l.symbol, l.text, 0, 0, 0⟩ := ⟨c, cs, l, hl, rfl, rfl⟩
    rw [scanAt_of_read p hc hl, List.cons_append, scanAt_of_read p hc hlater,
      ← List.cons_append, List.take_append_of_le_length (by simpa using hwidth.le),
      List.drop_append_of_le_length (by simpa using hwidth.le)]
    exact .next hread.symbol_facts.1 (ih _ (.inr (hline.drop (by simpa using hwidth))))

/-- If all of a source is scanned, the same tokens come first when another line follows it, and then
what is scanned of that line. -/
theorem scanAt_line {p : Position} {cs : List Char} {tokens : List Token} {last : Token}
    (h : scanAt p cs = tokens.map .ok ++ [.ok last]) (more : List Char) :
    scanAt p (cs ++ '\n' :: more) =
      tokens.map .ok ++ scanAt (p.advanceAll (cs ++ ['\n'])) more := by
  induction cs using scan_induction generalizing p tokens with
  | nil =>
    obtain rfl : tokens = [] := by
      cases tokens with
      | nil => rfl
      | cons token tokens => simp [scanAt, scanFrom] at h
    exact scanAt_of_blank p (by decide) more
  | blank c cs hc ih =>
    rw [scanAt_of_blank p hc] at h
    rw [List.cons_append, scanAt_of_blank p hc]
    exact ih h
  | error c cs fault hc hl =>
    rw [scanAt_of_error p hc hl] at h
    cases tokens <;> simp at h
  | read c cs l hc hl ih =>
    have hwidth : l.width ≤ (c :: cs).length := by
      have hline : Lexeme.EndsLine (c :: (cs ++ ['\n'])) := by
        rw [Lexeme.EndsLine, ← List.cons_append, List.getLast?_concat]
      have hsettled := Lexeme.settled_read hline hc []
      rw [Lexeme.read_line [] hl] at hsettled
      simpa using Nat.le_of_lt_succ hsettled.2
    rw [scanAt_of_read p hc hl] at h
    cases tokens with
    | nil =>
      obtain ⟨tokens, last, hscan, -⟩ := scanAt_eq_append _ _
      rw [hscan] at h
      simp at h
    | cons token tokens =>
      obtain ⟨htoken, hrest⟩ := List.cons.inj h
      rw [List.cons_append, scanAt_of_read p hc (Lexeme.read_line more hl),
        ← List.cons_append, List.take_append_of_le_length hwidth,
        List.drop_append_of_le_length hwidth, htoken, ih hrest, ← Position.advanceAll_append,
        ← List.append_assoc, List.take_append_drop]
      rfl

end Token

end LuaLang
