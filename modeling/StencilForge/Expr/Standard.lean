import StencilForge.Expr.Elementary
import StencilForge.Expr.Judgement
import StencilForge.Expr.Latex
import StencilForge.Expr.Power

/-!
# Expr — the standard algebra

Expressions simplify as they are built: sums need products, products powers, powers facts about their base; each level
uses the one below, and the lowest one builds nodes as they are.
-/

namespace StencilForge.Algebra

def next (A : Algebra) : Algebra where
  add := Sum.build A
  mul := Product.build A
  pow := Power.build A
  apply := Elementary.build A
  facts := Judgement.factsOf A
  key := Arrange.key A
  text := Text.plain A

def level : Nat → Algebra
  | 0 => bare
  | n + 1 => next (level n)

def standard : Algebra := level 150

end StencilForge.Algebra
