import LuaLang.Tree.Outline
import LuaLang.Tree.Parser
import LuaLang.Tree.Printer

/-!
# Printing and parsing again

The canonical source of a tree parses back into the same tree, as long as the names in it are names
and its operators are grouped by their powers. Both need not hold of trees that were put together
from made-up tokens, so it can be checked. Two trees are the same if their outlines are, where
numbers are compared by value.

## Main definitions

* `Block.same`: whether two blocks are the same tree.
* `Block.reprints`: whether a block comes back from its canonical source.
-/

namespace LuaLang

namespace Outline

mutual

/-- Whether two outlines have the same parts, numbers being compared by value. -/
def same : Outline → Outline → Bool
  | leaf s, leaf t => s = t
  | number x, number y => x.equals y
  | group b ps a, group c qs d => b = c && a = d && sameAll ps qs
  | record l ps, record m qs => l = m && sameNamed ps qs
  | _, _ => false

def sameAll : List Outline → List Outline → Bool
  | [], [] => true
  | p :: ps, q :: qs => p.same q && sameAll ps qs
  | _, _ => false

def sameNamed : List (String × Outline) → List (String × Outline) → Bool
  | [], [] => true
  | (n, p) :: ps, (m, q) :: qs => n = m && p.same q && sameNamed ps qs
  | _, _ => false

end

end Outline

def Block.same (a b : Block) : Bool :=
  a.outline.same b.outline

/-- The tree that the canonical source of a block parses into. -/
def Block.reparse (block : Block) (levels : Nat) : Except SyntaxError Block :=
  Block.parse block.print levels

/-- Whether the canonical source of a block parses into the same tree and prints the same. -/
def Block.reprints (block : Block) (levels : Nat) : Except SyntaxError Bool :=
  (block.reparse levels).map fun again => again.same block && again.print = block.print

end LuaLang
