import Mathlib
import LuaLang.CommandLine.Session
import LuaLang.Proofs.Grammar.Finality

/-!
# What the prompt waits for

The prompt tries its text as an expression and as a chunk, and answers with the error of the chunk.
So it waits for more lines if those can complete the chunk, unless that has run out of levels. An
expression that goes on in the next line is given up if no chunk starts in the same way.

## Main statements

* `Block.parseScript_error_final`: an error of a chunk that more lines do not mend.
* `Prompt.step_waits`: the prompt waits, or only the expression could have been completed.
-/

namespace LuaLang

namespace Token

/-- A script of whole lines beside a longer one: the line for the system is the same in both. -/
theorem goesOn_scanScript {text : String} (h : Lexeme.EndsLine text.toList) (more : String) :
    GoesOn (scanScript text) (scanScript (text ++ more)) := by
  have hmore : (text ++ more).toList = text.toList ++ more.toList := String.toList_append
  have hhead : (text ++ more).toList.head? = text.toList.head? := by
    rw [hmore, List.head?_append_of_ne_nil _ h.ne_nil]
  by_cases hhash : text.toList.head? = some '#'
  · obtain ⟨htake, hlength⟩ := h.takeWhile (p := (· != '\n')) (by decide) more.toList
    rw [scanScript_of_hash hhash, scanScript_of_hash (hhead.trans hhash), hmore, htake,
      List.drop_append_of_le_length hlength.le]
    exact goesOn_scanAt _ (.inr (h.drop hlength)) more.toList
  · rw [scanScript_eq_scan hhash, scanScript_eq_scan (hhead ▸ hhash), scan_eq, scan_eq, hmore]
    exact goesOn_scanAt .start (.inr h) more.toList

end Token

/-- An error of a script of whole lines says that the source ended too early or that there were too
few levels, or it stays whatever follows. -/
theorem Block.parseScript_error_final {text : String} {levels : Nat} {e : SyntaxError}
    (hline : Lexeme.EndsLine text.toList) (h : parseScript text levels = .error e) (more : String) :
    (e.isIncomplete = true ∨ e.message = "chunk has too many syntax levels") ∨
      parseScript (text ++ more) levels = .error e := by
  rw [parseScript_eq] at h ⊢
  exact Grammar.error_of_goesOn (Grammar.agrees_chunk (.inl rfl))
    (Token.goesOn_scanScript hline more) h

namespace Prompt

variable {text more : String} {levels : Nat} {e : SyntaxError} {b : Block}

/-- Both readings of a text have failed if the prompt has, and the error is that of the chunk. -/
theorem parse_eq_error : parse text levels = .error e ↔
    (∃ f, Block.parseScript ("return " ++ text) levels = .error f) ∧
      Block.parseScript text levels = .error e := by
  unfold parse
  cases Block.parseScript ("return " ++ text) levels <;> simp

theorem parse_eq_ok (h : parse text levels = .ok b) :
    Block.parseScript ("return " ++ text) levels = .ok b ∨
      Block.parseScript text levels = .ok b := by
  unfold parse at h
  cases hreturn : Block.parseScript ("return " ++ text) levels with
  | ok block =>
    rw [hreturn] at h
    exact .inl h
  | error f =>
    rw [hreturn] at h
    exact .inr h

theorem step_of_error {pending line : String}
    (h : parse (pending ++ line ++ "\n") levels = .error e) :
    step levels pending line = if e.isIncomplete then ⟨"", "", pending ++ line ++ "\n"⟩
      else ⟨"", "syntax error: " ++ e.describe ++ "\n", ""⟩ := by
  simp only [step, h]

/-- Lines that are taken to be whole end with a line end. -/
theorem endsLine_append_newline (text : String) : Lexeme.EndsLine (text ++ "\n").toList := by
  simp [Lexeme.EndsLine]

/-- If more lines can complete what the prompt has, as an expression or as a chunk, it waits for
them, unless its error is for want of levels. The one other case is that of an expression that ended
too early, or had too few levels, where no continuation is a chunk. -/
theorem step_waits {pending line : String}
    (h : parse (pending ++ line ++ "\n") levels = .error e)
    (hmore : parse (pending ++ line ++ "\n" ++ more) levels = .ok b) :
    step levels pending line = ⟨"", "", pending ++ line ++ "\n"⟩ ∨
    e.message = "chunk has too many syntax levels" ∨
    (∀ further : String,
      Block.parseScript (pending ++ line ++ "\n" ++ further) levels = .error e) ∧
    ∃ f : SyntaxError,
      Block.parseScript ("return " ++ (pending ++ line ++ "\n")) levels = .error f ∧
      (f.isIncomplete = true ∨ f.message = "chunk has too many syntax levels") := by
  by_cases hwants : e.isIncomplete = true
  · exact .inl ((step_of_error h).trans (if_pos hwants))
  by_cases hlevels : e.message = "chunk has too many syntax levels"
  · exact .inr (.inl hlevels)
  have hline := endsLine_append_newline (pending ++ line)
  generalize pending ++ line ++ "\n" = text at h hmore hline
  obtain ⟨⟨f, hf⟩, he⟩ := parse_eq_error.1 h
  have hfinal : ∀ further, Block.parseScript (text ++ further) levels = .error e := by
    intro further
    refine (Block.parseScript_error_final hline he further).resolve_left ?_
    rintro (hincomplete | hmessage)
    · exact hwants hincomplete
    · exact hlevels hmessage
  -- The chunk is lost, so it is the expression that more lines complete.
  have hreturn : Block.parseScript ("return " ++ text ++ more) levels = .ok b := by
    rw [String.append_assoc]
    refine (parse_eq_ok hmore).resolve_right fun hchunk => ?_
    rw [hfinal more] at hchunk
    cases hchunk
  have hline' : Lexeme.EndsLine ("return " ++ text).toList := by
    rw [Lexeme.EndsLine, String.toList_append, List.getLast?_append_of_ne_nil _ hline.ne_nil]
    exact hline
  refine .inr (.inr ⟨hfinal, f, hf, ?_⟩)
  refine (Block.parseScript_error_final hline' hf more).resolve_right fun herror => ?_
  rw [hreturn] at herror
  cases herror

/-- The arguments of a call are waited for. Two summands on two lines are an expression, and no
chunk starts with the first line. -/
theorem step_waits_call_and_sum :
    step 3 "" "f(" = ⟨"", "", "" ++ "f(" ++ "\n"⟩ ∧
    ∀ further : String, Block.parseScript ("" ++ "1 +" ++ "\n" ++ further) 3 =
      .error ⟨.expected .endOfFile "1", 1, 1⟩ := by
  constructor
  · have hfirst : parse ("" ++ "f(" ++ "\n") 3 = .error ⟨.unexpected "<eof>", 2, 1⟩ := by cbv
    obtain ⟨b, hcall⟩ : ∃ b, parse ("" ++ "f(" ++ "\n" ++ ")") 3 = .ok b := ⟨_, by cbv⟩
    obtain ⟨c, hchunk⟩ : ∃ c, Block.parseScript ("" ++ "f(" ++ "\n" ++ ")") 3 = .ok c :=
      ⟨_, by cbv⟩
    obtain hwaits | hlevels | ⟨hfinal, -⟩ := step_waits hfirst hcall
    · exact hwaits
    · exact absurd hlevels (by decide +kernel)
    · rw [hfinal] at hchunk
      cases hchunk
  · have hfirst : parse ("" ++ "1 +" ++ "\n") 3 = .error ⟨.expected .endOfFile "1", 1, 1⟩ := by cbv
    obtain ⟨b, hsum⟩ : ∃ b, parse ("" ++ "1 +" ++ "\n" ++ "2") 3 = .ok b := ⟨_, by cbv⟩
    obtain hwaits | hlevels | ⟨hfinal, -⟩ := step_waits hfirst hsum
    · rw [step_of_error hfirst, if_neg (by decide +kernel)] at hwaits
      exact absurd (congrArg Reply.pending hwaits) (by decide)
    · exact absurd hlevels (by decide +kernel)
    · exact hfinal

/-- An expression that goes on in the next line is not waited for. -/
theorem step_gives_up_on_sum :
    ¬ ∀ (levels : Nat) (pending line more : String) (e : SyntaxError) (b : Block),
      parse (pending ++ line ++ "\n") levels = .error e →
      parse (pending ++ line ++ "\n" ++ more) levels = .ok b →
      step levels pending line = ⟨"", "", pending ++ line ++ "\n"⟩ := by
  intro h
  have hfirst : parse ("" ++ "1 +" ++ "\n") defaultLevels =
      .error ⟨.expected .endOfFile "1", 1, 1⟩ := by
    simp only [parse, Block.parseScript_eq]
    cbv
  obtain ⟨b, hb⟩ : ∃ b, parse ("" ++ "1 +" ++ "\n" ++ "2\n") defaultLevels = .ok b := by
    simp only [parse, Block.parseScript_eq]
    exact ⟨_, by cbv⟩
  have hwaits := h defaultLevels "" "1 +" "2\n" _ b hfirst hb
  rw [step_of_error hfirst, if_neg (by decide +kernel)] at hwaits
  exact absurd (congrArg Reply.pending hwaits) (by decide)

end Prompt

end LuaLang
