import LuaLang.Main
import LuaLang.Script.Report
import LuaLang.Tree.Reprint
import LuaLang.Proofs.CommandLine.Waiting
import LuaLang.Proofs.Grammar.Reading
import LuaLang.Proofs.Grammar.Writing
import LuaLang.Proofs.Grammar.Operands
import LuaLang.Proofs.Grammar.Accounting
import LuaLang.Proofs.Grammar.Levels
import LuaLang.Proofs.Grammar.Finality
import LuaLang.Proofs.Grammar.Incomplete
import LuaLang.Proofs.Grammar.Layout
import LuaLang.Proofs.Machine.CallStack
import LuaLang.Proofs.Number.Literal
import LuaLang.Proofs.Printing.Expressions
import LuaLang.Proofs.Printing.Precedence
import LuaLang.Proofs.Table.Traversal
import LuaLang.Proofs.Token.Lookahead
import LuaLang.Proofs.Scan.Spans
import LuaLang.Proofs.Scan.Numerals
import LuaLang.Proofs.Machine.ProtectedCalls
import LuaLang.Proofs.Machine.Slots
import LuaLang.Proofs.Table.Length
import LuaLang.Proofs.Value.Spreading
import LuaLang.Proofs.Machine.Links
import LuaLang.Proofs.Machine.Inheritance
import LuaLang.Proofs.Machine.Assignment
import LuaLang.Proofs.Machine.CallChains
import LuaLang.Proofs.Machine.Comparisons
import LuaLang.Proofs.Number.Integers
import LuaLang.Proofs.Library.Arrays
import LuaLang.Proofs.Scan.LongBrackets
import LuaLang.Proofs.Number.Texts
import LuaLang.Proofs.Scan.Literals
import LuaLang.Proofs.Grammar.FirstLine
import LuaLang.Proofs.Table.Compaction
import LuaLang.Proofs.Grammar.Progress
import LuaLang.Proofs.Library.Protection
