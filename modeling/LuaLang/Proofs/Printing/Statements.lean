import Mathlib
import LuaLang.Proofs.Printing.Expressions

/-!
# What statements and blocks are printed as

One fact for each kind of statement: if its parts are printed as texts that spell their writings, so
is the whole. A statement is printed on lines of its own, and no line starts with a symbol that
could go on with the statement before it: that is what the semicolon in front of a parenthesis is
for.

## Main definitions

* `Symbol.leadsLine`: the symbols that lines start with.
* `Edge.line`, `Edge.lineStop`: before and after a statement.
* `Edge.blockStop`: after a block.
-/

namespace LuaLang

/-- The symbols that a line can start with, and the end of the file. -/
def Symbol.leadsLine : Symbol → Bool
  | semicolon | name | doWord | whileWord | repeatWord | ifWord | forWord | functionWord
  | localWord | returnWord | breakWord | endWord | elseWord | elseifWord | untilWord
  | endOfFile => true
  | _ => false

/-- The symbols that end a block. -/
def Symbol.endsBlock : Symbol → Bool
  | endWord | elseWord | elseifWord | untilWord | endOfFile => true
  | _ => false

theorem Symbol.closes_of_leadsLine {y : Symbol} (h : y.leadsLine = true) :
    y.Closes ∧ y ≠ .comma ∧ y ≠ .equal := by
  revert h
  cases y <;> decide

theorem Symbol.endsBlock_facts {y : Symbol} (h : y.endsBlock = true) :
    y.leadsLine = true ∧ y ≠ .semicolon ∧ y.continuesBlock = false ∧ y.endsReturn = true := by
  revert h
  cases y <;> decide

/-- What lines start with ends all statements. -/
theorem Statement.stops_of_leadsLine {y : Symbol} (h : y.leadsLine = true) (st : Statement) :
    st.Stops y := by
  obtain ⟨hcloses, hcomma, hequal⟩ := Symbol.closes_of_leadsLine h
  cases st with
  | repeatLoop body test => exact ⟨hcloses.stops test, hcloses.below 0⟩
  | localNames names => exact ⟨hcomma, hequal⟩
  | localAssign names values => exact hcloses.rowStops hcomma values
  | assign targets values => exact hcloses.rowStops hcomma values
  | call call => exact ⟨hcloses.1, hcomma, hequal⟩
  | _ => trivial

theorem Ending.stops_of_endsBlock {y : Symbol} (h : y.endsBlock = true) (ending : Ending) :
    ending.Stops y := by
  obtain ⟨hline, -, hblock, hreturn⟩ := Symbol.endsBlock_facts h
  obtain ⟨hcloses, hcomma, -⟩ := Symbol.closes_of_leadsLine hline
  cases ending with
  | falls => exact hblock
  | breaks => trivial
  | returns values =>
    cases values with
    | nil => exact hreturn
    | cons e rest => exact hcloses.rowStops hcomma (e :: rest)

namespace Edge

/-- At the start of a line. -/
def line : Edge := ⟨false, fun _ y => y.leadsLine⟩

/-- At the start of a statement, past all semicolons. -/
def lead : Edge := ⟨false, fun _ y => y.leadsLine && y != .semicolon⟩

/-- After a statement. -/
def lineStop : Edge := ⟨true, fun c y => stop.next c y && y.leadsLine⟩

/-- After the lines of a block. -/
def blockStop : Edge := ⟨false, fun _ y => y.endsBlock⟩

theorem stop_of_lineStop {c : Option Char} {y : Symbol} (h : lineStop.next c y = true) :
    stop.next c y = true :=
  (Bool.and_eq_true_iff.1 h).1

theorem endsName_of_lineStop {c : Char} {y : Symbol} (h : lineStop.next (some c) y = true) :
    Lexeme.endsName c = true :=
  (stop_next (stop_of_lineStop h)).1

end Edge

namespace Spells

variable {l r : Edge} {cs : List Char} {w : List Stretch}

/-- What can be followed by a point or not can be followed by a line end. -/
theorem lineStop (h : Spells l cs w .stop) : Spells l cs w .lineStop :=
  h.right (fun _ => rfl) fun _ _ => Edge.stop_of_lineStop

theorem lineStop_of_tail (h : Spells l cs w .tail) : Spells l cs w .lineStop :=
  h.right (fun _ => rfl) fun _ _ hc => Edge.tail_of_stop (Edge.stop_of_lineStop hc)

/-! ## Semicolons -/

/-- No semicolons in front of what does not start with one. -/
theorem unguarded (h : Spells .lead cs w r) : Spells .line cs (.semicolons :: w) r := by
  have hnone : Spells .line [] [.semicolons] .lead := by
    refine .nothing (fun hr => by cases hr) fun _ s hs => ?_
    simp only [Edge.lead, Bool.and_eq_true, bne_iff_ne] at hs
    exact ⟨⟨.refl, hs.2⟩, hs.1⟩
  exact hnone.trans h

/-- A semicolon in front of a parenthesis. -/
theorem guardParen {text : String} (hne : Lexical w → text.toList ≠ [])
    (h : Spells .head text.toList w r) :
    Spells .line (guardParen text).toList (.semicolons :: w) r := by
  rw [LuaLang.guardParen]
  split
  · have hmark : Spells .line ";".toList [.mark .semicolon] .head :=
      .mark (y := .semicolon) (by decide) rfl fun _ _ _ => rfl
    have hsemicolon : Spells .line ";".toList [.semicolons] .head := by
      refine hmark.respan (fun _ => lexical_mark .semicolon) fun s u c hu hsu => ?_
      obtain ⟨i, hi, rfl⟩ := hsu
      refine ⟨i, ⟨.single hi, fun hsymbol => ?_⟩, rfl⟩
      simp [Edge.head, hsymbol] at hu
    rw [String.toList_append]
    exact hsemicolon.trans h
  · next hstart =>
    refine unguarded (h.start (fun hl => by cases hl) hne fun c hc y hy => ?_)
    have hc' : c ≠ '(' := by
      rintro rfl
      obtain ⟨rest, hrest⟩ := List.head?_eq_some_iff.1 hc
      exact hstart (by simp [hrest])
    simp only [Edge.head, Option.some_beq_some, beq_iff_eq, Bool.false_and, Bool.false_or,
      Bool.and_eq_true, beq_eq_false_iff_ne.2 hc'] at hy
    rw [hy.2]
    rfl

/-! ## Blocks -/

theorem endWord (hr : ∀ c z, r.next (some c) z = true → Lexeme.endsName c = true) :
    Spells .blockStop "end".toList [.mark .endWord] r :=
  word (y := .endWord) (by decide) rfl hr

/-- The statement `st` is printed as a text that spells it. -/
theorem lines {statements : List Statement} {ds : List Char}
    (h : ∀ st ∈ statements, Spells .line st.print.toList (.semicolons :: st.writing) .lineStop)
    (hrest : Spells .line ds (.semicolons :: w) .blockStop) :
    Spells .line ((Statement.printAll statements).toList ++ ds)
      (.semicolons :: (Statement.writingAll statements ++ w)) .blockStop := by
  induction statements with
  | nil =>
    rw [Statement.printAll, Statement.writingAll]
    exact hrest
  | cons st rest ih =>
    have hst := h st (by simp)
    have hahead : Spells .lineStop [] [.ahead st.Stops] .lineStop := by
      refine .nothing id fun c s hs => ⟨⟨Statement.stops_of_leadsLine ?_ st, rfl⟩, hs⟩
      exact (Bool.and_eq_true_iff.1 hs).2
    have hnewline : Spells .lineStop ['\n'] [] .line :=
      .newline rfl fun _ _ hy => Bool.and_eq_true_iff.2 ⟨rfl, hy⟩
    have hmore := ih fun st hst => h st (List.mem_cons_of_mem _ hst)
    have hall := hst.trans (hahead.trans (hnewline.trans hmore))
    rw [Statement.printAll, Statement.writingAll]
    simpa using hall

theorem returnedValues {values : List Expression} (hne : values ≠ [])
    (h : ∀ e ∈ values, Spells .start e.print.toList e.writing .stop) :
    Spells .lead (Ending.returns values).print.toList (Ending.returns values).writing
      .blockStop := by
  have hreturn : Spells .lead "return ".toList [.mark .returnWord] .start :=
    .symbol_blank (y := .returnWord) (by decide) rfl
  have hnewline : Spells .stop "\n".toList [] .blockStop := .newline rfl fun _ _ _ => rfl
  rw [Ending.print, Ending.writing, String.toList_append, String.toList_append,
    List.append_assoc]
  · simpa using hreturn.trans ((spells_values hne h).trans hnewline)
  · exact hne

theorem ending {ending : Ending}
    (h : ∀ values, ending = .returns values →
      ∀ e ∈ values, Spells .start e.print.toList e.writing .stop) :
    Spells .line ending.print.toList (.semicolons :: (ending.writing ++ .ahead ending.Stops ::
      if ending.isStatement then [.lastSemicolon] else [])) .blockStop := by
  have hahead : Spells .blockStop [] [.ahead ending.Stops] .blockStop :=
    .nothing id fun c s hs => ⟨⟨ending.stops_of_endsBlock hs, rfl⟩, hs⟩
  have hlast : Spells .blockStop [] [.lastSemicolon] .blockStop :=
    .nothing id fun c s hs => ⟨.inr ⟨(Symbol.endsBlock_facts hs).2.1, rfl⟩, hs⟩
  have hend := hahead.trans hlast
  cases ending with
  | falls =>
    have hnone : Spells .lead [] [.ahead Ending.falls.Stops] .blockStop := by
      refine hahead.left (fun hl => by cases hl) fun _ y hy => ?_
      obtain ⟨hline, hsemicolon, -⟩ := Symbol.endsBlock_facts hy
      simp [Edge.lead, hline, hsemicolon]
    rw [Ending.print, Ending.writing]
    exact unguarded hnone
  | breaks =>
    have hbreak : Spells .lead "break\n".toList [.mark .breakWord] .blockStop :=
      .symbol_newline (y := .breakWord) (by decide) rfl rfl
    rw [Ending.print, Ending.writing]
    simpa [Ending.isStatement] using unguarded (hbreak.trans hend)
  | returns values =>
    have hvalues : Spells .lead (Ending.returns values).print.toList
        (Ending.returns values).writing .blockStop := by
      cases values with
      | nil =>
        rw [Ending.print, Ending.writing, Expression.writings]
        exact .symbol_newline (y := .returnWord) (by decide) rfl rfl
      | cons e rest => exact returnedValues (by simp) (h _ rfl)
    simpa [Ending.isStatement] using unguarded (hvalues.trans hend)

end Spells

/-! ## Lines -/

namespace Statement

theorem isLines_printAll (statements : List Statement) :
    Text.IsLines (Statement.printAll statements).toList := by
  induction statements with
  | nil =>
    rw [Statement.printAll]
    exact .inl rfl
  | cons st rest ih =>
    rw [Statement.printAll, String.toList_append]
    exact Text.isLines_append (.inr (by simp)) ih

end Statement

theorem Ending.isLines_print (ending : Ending) : Text.IsLines ending.print.toList := by
  cases ending with
  | falls =>
    rw [Ending.print]
    exact .inl rfl
  | breaks =>
    rw [Ending.print]
    exact .inr (by simp)
  | returns values =>
    cases values with
    | nil =>
      rw [Ending.print]
      exact .inr (by simp)
    | cons e rest =>
      rw [Ending.print, String.toList_append]
      · exact .inr (by rw [List.getLast?_append]; rfl)
      · simp

theorem Block.isLines_print (b : Block) : Text.IsLines b.print.toList := by
  obtain ⟨statements, ending⟩ := b
  rw [Block.print, String.toList_append]
  exact Text.isLines_append (Statement.isLines_printAll statements) ending.isLines_print

section

variable {b : Block} {e e' : Expression} {r : Edge}

theorem spells_block {statements : List Statement} {ending : Ending}
    (h : ∀ st ∈ statements, Spells .line st.print.toList (.semicolons :: st.writing) .lineStop)
    (hending : ∀ values, ending = .returns values →
      ∀ e ∈ values, Spells .start e.print.toList e.writing .stop) :
    Spells .line (Block.mk statements ending).print.toList (Block.mk statements ending).writing
      .blockStop := by
  rw [Block.print, Block.writing, String.toList_append]
  exact .lines h (.ending hending)

/-- The lines of a block, indented, and the word that ends it. -/
theorem spells_body (hr : ∀ c z, r.next (some c) z = true → Lexeme.endsName c = true)
    (h : Spells .line b.print.toList b.writing .blockStop) :
    Spells .line ((Text.indent b.print).toList ++ "end".toList) (b.writing ++ [.mark .endWord])
      r :=
  (h.indent b.isLines_print rfl fun _ _ _ hy => hy).trans (.endWord hr)

/-! ## Functions -/

/-- The entries of a parameter list: names, and none for the extra arguments. -/
def parameterItems (parameters : List String) (varargs : Bool) : List (Option String) :=
  parameters.map some ++ if varargs then [none] else []

def parameterText : Option String → String
  | some name => name
  | none => "..."

def parameterWriting : Option String → List Stretch
  | some name => [.name name]
  | none => [.mark .dotDotDot]

theorem parameterRow_eq (parameters : List String) (varargs : Bool) :
    parameterRow parameters varargs =
      row (.mark .comma) ((parameterItems parameters varargs).map parameterWriting) := by
  cases varargs <;> simp [parameterRow, parameterItems, parameterWriting, Function.comp_def]

theorem parameterTexts_eq (parameters : List String) (varargs : Bool) :
    (parameters ++ if varargs then ["..."] else []) =
      (parameterItems parameters varargs).map parameterText := by
  cases varargs <;> simp [parameterItems, parameterText, Function.comp_def]

theorem spells_functionBody {parameters : List String} {varargs : Bool}
    (h : Spells .line b.print.toList b.writing .blockStop) :
    Spells .tail (FunctionBody.mk parameters varargs b).print.toList
      (FunctionBody.mk parameters varargs b).writing .tail := by
  have hitems : ∀ x ∈ parameterItems parameters varargs,
      Spells .free (parameterText x).toList (parameterWriting x) .tail := by
    rintro (_ | name) -
    · exact .mark (y := .dotDotDot) (by decide) rfl fun _ _ _ => rfl
    · exact .name (fun _ _ => rfl) fun c _ hc => hc
  have hopen : Spells .tail "(".toList [.mark .leftParen] .free :=
    .mark (y := .leftParen) (by decide) rfl fun _ _ _ => rfl
  have hclose : ∀ l : Edge, l.next (some ')') .rightParen = true →
      Spells l ")\n".toList [.mark .rightParen] .line := fun l hl =>
    .symbol_newline (y := .rightParen) (by decide) hl rfl
  have hbody := spells_body (r := .tail) (fun c _ hc => hc) h
  have hall := hopen.enclosed hitems (.comma rfl) ((hclose .tail rfl).trans hbody)
    ((hclose .free rfl).trans hbody)
  simpa only [FunctionBody.print, FunctionBody.writing, parameterRow_eq, parameterTexts_eq,
    String.toList_append, Spells.toList_commas, List.append_assoc, List.cons_append,
    List.nil_append] using hall

theorem spells_functionName {name : FunctionName} (hne : name.path ≠ []) :
    Spells .free name.print.toList name.writing .tail := by
  obtain ⟨path, method⟩ := name
  have hpath : Spells .beforeName (".".intercalate path).toList (nameRow .dot path) .tail := by
    rw [nameRow, String.toList_intercalate]
    refine .row hne (fun text _ => .name (fun c hc => hc) fun c _ hc => hc) ?_
    refine .mark (y := .dot) (by decide) rfl fun c _ hc => ?_
    obtain ⟨-, -, -, -, hdigit, hdot⟩ := Lexeme.isNameStart_facts (c := c) hc
    simp [Lexeme.endsMark, hdigit, hdot]
  have hpath : Spells .free (".".intercalate path).toList (nameRow .dot path) .tail :=
    hpath.left id fun _ _ _ => rfl
  rw [FunctionName.print, FunctionName.writing, String.toList_append]
  cases method with
  | none => simpa using hpath
  | some text =>
    rw [String.toList_append]
    exact hpath.trans (spells_markName (y := .colon) (.inr rfl) text)

/-! ## Statements -/

theorem spells_doBlock (h : Spells .line b.print.toList b.writing .blockStop) :
    Spells .lead (Statement.doBlock b).print.toList (Statement.doBlock b).writing .lineStop := by
  have hdo : Spells .lead "do\n".toList [.mark .doWord] .line :=
    .symbol_newline (y := .doWord) (by decide) rfl rfl
  change Spells .lead ("do\n" ++ Text.indent b.print ++ "end").toList _ .lineStop
  rw [Statement.writing, String.toList_append, String.toList_append, List.append_assoc]
  exact hdo.trans (spells_body (fun _ _ => Edge.endsName_of_lineStop) h)

/-- The rest of a loop, from the word in front of its body on. -/
theorem spells_loopBody (h : Spells .line b.print.toList b.writing .blockStop) :
    Spells .stop (" do\n".toList ++ ((Text.indent b.print).toList ++ "end".toList))
      (.mark .doWord :: (b.writing ++ [.mark .endWord])) .lineStop := by
  have hdo : Spells .stop " do\n".toList [.mark .doWord] .line :=
    .blank_symbol_newline (y := .doWord) (by decide) rfl rfl
  exact hdo.trans (spells_body (fun _ _ => Edge.endsName_of_lineStop) h)

theorem spells_while (ht : Spells .start e.print.toList e.writing .stop)
    (h : Spells .line b.print.toList b.writing .blockStop) :
    Spells .lead (Statement.whileLoop e b).print.toList (Statement.whileLoop e b).writing
      .lineStop := by
  have hwhile : Spells .lead "while ".toList [.mark .whileWord] .start :=
    .symbol_blank (y := .whileWord) (by decide) rfl
  change Spells .lead ("while " ++ e.print ++ " do\n" ++ Text.indent b.print ++ "end").toList _
    .lineStop
  simp only [Statement.writing, String.toList_append, List.append_assoc]
  exact hwhile.trans (ht.trans (spells_loopBody h))

theorem spells_repeat (h : Spells .line b.print.toList b.writing .blockStop)
    (ht : Spells .start e.print.toList e.writing .stop) :
    Spells .lead (Statement.repeatLoop b e).print.toList (Statement.repeatLoop b e).writing
      .lineStop := by
  have hrepeat : Spells .lead "repeat\n".toList [.mark .repeatWord] .line :=
    .symbol_newline (y := .repeatWord) (by decide) rfl rfl
  have huntil : Spells .blockStop "until ".toList [.mark .untilWord] .start :=
    .symbol_blank (y := .untilWord) (by decide) rfl
  have hbody := h.indent b.isLines_print rfl fun _ _ _ hy => hy
  change Spells .lead ("repeat\n" ++ Text.indent b.print ++ "until " ++ e.print).toList _ .lineStop
  simp only [Statement.writing, String.toList_append, List.append_assoc]
  exact hrepeat.trans (hbody.trans (huntil.trans ht.lineStop))

/-- A test and the block behind it. -/
theorem spells_branch (ht : Spells .start e.print.toList e.writing .stop)
    (h : Spells .line b.print.toList b.writing .blockStop) :
    Spells .start (e.print.toList ++ (" then\n".toList ++ (Text.indent b.print).toList))
      (e.writing ++ .mark .thenWord :: b.writing) .blockStop := by
  have hthen : Spells .stop " then\n".toList [.mark .thenWord] .line :=
    .blank_symbol_newline (y := .thenWord) (by decide) rfl rfl
  exact ht.trans (hthen.trans (h.indent b.isLines_print rfl fun _ _ _ hy => hy))

theorem spells_elseIfs {others : List ElseIf} {cs : List Char} {w : List Stretch}
    (hothers : ∀ test body, ElseIf.mk test body ∈ others →
      Spells .start test.print.toList test.writing .stop ∧
        Spells .line body.print.toList body.writing .blockStop)
    (hrest : Spells .blockStop cs w .lineStop) :
    Spells .blockStop ((ElseIf.printAll others).toList ++ cs) (ElseIf.writingAll others ++ w)
      .lineStop := by
  induction others with
  | nil =>
    rw [ElseIf.printAll, ElseIf.writingAll]
    exact hrest
  | cons other rest ih =>
    obtain ⟨test, body⟩ := other
    obtain ⟨htest, hbody⟩ := hothers test body (by simp)
    have helseif : Spells .blockStop "elseif ".toList [.mark .elseifWord] .start :=
      .symbol_blank (y := .elseifWord) (by decide) rfl
    have hmore := ih fun test body hmem => hothers test body (List.mem_cons_of_mem _ hmem)
    have hall := helseif.trans ((spells_branch htest hbody).trans hmore)
    simp only [ElseIf.printAll, ElseIf.writingAll, ElseIf.writing, String.toList_append,
      List.append_assoc]
    simpa only [List.append_assoc, List.cons_append, List.nil_append] using hall

theorem spells_choice {others : List ElseIf} {otherwise : Option Block}
    (ht : Spells .start e.print.toList e.writing .stop)
    (h : Spells .line b.print.toList b.writing .blockStop)
    (hothers : ∀ test body, ElseIf.mk test body ∈ others →
      Spells .start test.print.toList test.writing .stop ∧
        Spells .line body.print.toList body.writing .blockStop)
    (hotherwise : ∀ block ∈ otherwise, Spells .line block.print.toList block.writing .blockStop) :
    Spells .lead (Statement.choice e b others otherwise).print.toList
      (Statement.choice e b others otherwise).writing .lineStop := by
  have hif : Spells .lead "if ".toList [.mark .ifWord] .start :=
    .symbol_blank (y := .ifWord) (by decide) rfl
  have hend : Spells .blockStop "end".toList [.mark .endWord] .lineStop :=
    .endWord fun _ _ => Edge.endsName_of_lineStop
  have hbranch := spells_branch ht h
  cases otherwise with
  | none =>
    have hall := hif.trans (hbranch.trans (spells_elseIfs hothers hend))
    change Spells .lead ("if " ++ e.print ++ " then\n" ++ Text.indent b.print ++
      ElseIf.printAll others ++ "" ++ "end").toList _ .lineStop
    rw [Statement.writing]
    simpa only [String.toList_append, List.append_assoc, List.cons_append, List.nil_append,
      String.toList_empty] using hall
  | some block =>
    have helse : Spells .blockStop "else\n".toList [.mark .elseWord] .line :=
      .symbol_newline (y := .elseWord) (by decide) rfl rfl
    have hbody := spells_body (r := .lineStop) (fun _ _ => Edge.endsName_of_lineStop)
      (hotherwise block rfl)
    have hall := hif.trans (hbranch.trans (spells_elseIfs hothers (helse.trans hbody)))
    change Spells .lead ("if " ++ e.print ++ " then\n" ++ Text.indent b.print ++
      ElseIf.printAll others ++ ("else\n" ++ Text.indent block.print) ++ "end").toList _ .lineStop
    rw [Statement.writing]
    simpa only [String.toList_append, List.append_assoc, List.cons_append, List.nil_append]
      using hall

theorem spells_numericFor {name : String} {step : Option Expression}
    (hstart : Spells .start e.print.toList e.writing .stop)
    (hlimit : Spells .start e'.print.toList e'.writing .stop)
    (hstep : ∀ step' ∈ step, Spells .start step'.print.toList step'.writing .stop)
    (h : Spells .line b.print.toList b.writing .blockStop) :
    Spells .lead (Statement.numericFor name e e' step b).print.toList
      (Statement.numericFor name e e' step b).writing .lineStop := by
  have hfor : Spells .lead "for ".toList [.mark .forWord] .free :=
    .symbol_blank (y := .forWord) (by decide) rfl
  have hname : Spells .free name.toList [.name name] .tail :=
    .name (fun _ _ => rfl) fun c _ hc => hc
  have hequal : Spells .tail " = ".toList [.mark .equal] .start :=
    .blank_symbol_blank (y := .equal) (by decide) rfl
  have hcomma : Spells .stop ", ".toList [.mark .comma] .start := .comma rfl
  have hopen := hfor.trans (hname.trans (hequal.trans (hstart.trans (hcomma.trans hlimit))))
  cases step with
  | none =>
    have hall := hopen.trans (spells_loopBody h)
    change Spells .lead ("for " ++ name ++ " = " ++ e.print ++ ", " ++ e'.print ++ "" ++ " do\n" ++
      Text.indent b.print ++ "end").toList _ .lineStop
    rw [Statement.writing]
    simpa only [String.toList_append, List.append_assoc, List.cons_append, List.nil_append,
      String.toList_empty] using hall
  | some step =>
    have hall := hopen.trans (hcomma.trans ((hstep step rfl).trans (spells_loopBody h)))
    change Spells .lead ("for " ++ name ++ " = " ++ e.print ++ ", " ++ e'.print ++
      (", " ++ step.print) ++ " do\n" ++ Text.indent b.print ++ "end").toList _ .lineStop
    rw [Statement.writing]
    simpa only [String.toList_append, List.append_assoc, List.cons_append, List.nil_append]
      using hall

theorem spells_names {names : List String} (hne : names ≠ []) :
    Spells .free (commas names).toList (nameRow .comma names) .tail := by
  rw [nameRow, commas, String.toList_intercalate]
  exact .row hne (fun text _ => .name (fun _ _ => rfl) fun c _ hc => hc) (.comma rfl)

theorem spells_genericFor {names : List String} {values : List Expression} (hnames : names ≠ [])
    (hne : values ≠ []) (hvalues : ∀ e ∈ values, Spells .start e.print.toList e.writing .stop)
    (h : Spells .line b.print.toList b.writing .blockStop) :
    Spells .lead (Statement.genericFor names values b).print.toList
      (Statement.genericFor names values b).writing .lineStop := by
  have hfor : Spells .lead "for ".toList [.mark .forWord] .free :=
    .symbol_blank (y := .forWord) (by decide) rfl
  have hin : Spells .tail " in ".toList [.mark .inWord] .start :=
    .blank_symbol_blank (y := .inWord) (by decide) rfl
  have hall := hfor.trans ((spells_names hnames).trans
    (hin.trans ((spells_values hne hvalues).trans (spells_loopBody h))))
  change Spells .lead ("for " ++ commas names ++ " in " ++ commas (Expression.printAll values) ++
    " do\n" ++ Text.indent b.print ++ "end").toList _ .lineStop
  simpa only [Statement.writing, String.toList_append, List.append_assoc, List.cons_append,
    List.nil_append] using hall

theorem spells_functionStatement {name : FunctionName} {body : FunctionBody}
    (hne : name.path ≠ []) (h : Spells .tail body.print.toList body.writing .tail) :
    Spells .lead (Statement.function name body).print.toList
      (Statement.function name body).writing .lineStop := by
  have hfunction : Spells .lead "function ".toList [.mark .functionWord] .free :=
    .symbol_blank (y := .functionWord) (by decide) rfl
  change Spells .lead ("function " ++ name.print ++ body.print).toList _ .lineStop
  simp only [Statement.writing, String.toList_append, List.append_assoc]
  exact hfunction.trans ((spells_functionName hne).trans h.lineStop_of_tail)

theorem spells_localFunction {name : String} {body : FunctionBody}
    (h : Spells .tail body.print.toList body.writing .tail) :
    Spells .lead (Statement.localFunction name body).print.toList
      (Statement.localFunction name body).writing .lineStop := by
  have hlocal : Spells .lead "local ".toList [.mark .localWord] .free :=
    .symbol_blank (y := .localWord) (by decide) rfl
  have hfunction : Spells .free "function ".toList [.mark .functionWord] .free :=
    .symbol_blank (y := .functionWord) (by decide) rfl
  have hname : Spells .free name.toList [.name name] .tail :=
    .name (fun _ _ => rfl) fun c _ hc => hc
  change Spells .lead ("local function " ++ name ++ body.print).toList _ .lineStop
  simp only [Statement.writing, String.toList_append, List.append_assoc]
  exact (hlocal.trans hfunction).trans (hname.trans h.lineStop_of_tail)

theorem spells_localNames {names : List String} (hne : names ≠ []) :
    Spells .lead (Statement.localNames names).print.toList (Statement.localNames names).writing
      .lineStop := by
  have hlocal : Spells .lead "local ".toList [.mark .localWord] .free :=
    .symbol_blank (y := .localWord) (by decide) rfl
  change Spells .lead ("local " ++ commas names).toList _ .lineStop
  rw [Statement.writing, String.toList_append]
  exact hlocal.trans (spells_names hne).lineStop_of_tail

theorem spells_localAssign {names : List String} {values : List Expression} (hnames : names ≠ [])
    (hne : values ≠ []) (hvalues : ∀ e ∈ values, Spells .start e.print.toList e.writing .stop) :
    Spells .lead (Statement.localAssign names values).print.toList
      (Statement.localAssign names values).writing .lineStop := by
  have hlocal : Spells .lead "local ".toList [.mark .localWord] .free :=
    .symbol_blank (y := .localWord) (by decide) rfl
  have hequal : Spells .tail " = ".toList [.mark .equal] .start :=
    .blank_symbol_blank (y := .equal) (by decide) rfl
  change Spells .lead ("local " ++ commas names ++ " = " ++
    commas (Expression.printAll values)).toList _ .lineStop
  simp only [Statement.writing, String.toList_append, List.append_assoc]
  exact hlocal.trans ((spells_names hnames).trans
    (hequal.trans (spells_values hne hvalues).lineStop))

theorem Variable.printAll_eq_map (targets : List Variable) :
    Variable.printAll targets = targets.map Variable.print := by
  induction targets with
  | nil => rw [Variable.printAll]; rfl
  | cons v rest ih => rw [Variable.printAll, ih]; rfl

theorem spells_assign {targets : List Variable} {values : List Expression} (htargets : targets ≠ [])
    (hne : values ≠ [])
    (hvariables : ∀ v ∈ targets, Spells .head v.print.toList v.writing .tail)
    (hvalues : ∀ e ∈ values, Spells .start e.print.toList e.writing .stop) :
    Spells .line (Statement.assign targets values).print.toList
      (.semicolons :: (Statement.assign targets values).writing) .lineStop := by
  have hequal : Spells .tail " = ".toList [.mark .equal] .start :=
    .blank_symbol_blank (y := .equal) (by decide) rfl
  have hrow : Spells .head (commas (Variable.printAll targets)).toList
      (row (.mark .comma) (Variable.writings targets)) .tail := by
    rw [Variable.printAll_eq_map, Variable.writings_eq_map, Spells.toList_commas]
    exact .row htargets hvariables (.comma rfl)
  have hguard := Spells.guardParen (fun hw => ?_) hrow
  · change Spells .line (guardParen (commas (Variable.printAll targets)) ++ " = " ++
      commas (Expression.printAll values)).toList _ .lineStop
    simp only [Statement.writing, String.toList_append, List.append_assoc]
    exact hguard.trans (hequal.trans (spells_values hne hvalues).lineStop)
  · obtain ⟨v, rest, rfl⟩ := List.exists_cons_of_ne_nil htargets
    rw [Variable.writings, row, lexical_append] at hw
    have hv := v.print_ne_nil hw.1
    rw [Variable.printAll_eq_map, Spells.toList_commas]
    cases rest with
    | nil => simpa using hv
    | cons v' rest => simp [hv]

theorem spells_callStatement {call : Call} (h : Spells .head call.print.toList call.writing .tail) :
    Spells .line (Statement.call call).print.toList (.semicolons :: (Statement.call call).writing)
      .lineStop := by
  change Spells .line (guardParen call.print).toList _ .lineStop
  rw [Statement.writing]
  exact (Spells.guardParen (fun _ => call.print_ne_nil) h).lineStop_of_tail

end

end LuaLang
