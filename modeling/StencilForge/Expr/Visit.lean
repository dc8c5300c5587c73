import StencilForge.Expr.Build

/-!
# Expr — visiting parts

`Visit.replace` walks from the top: a part for which a result is given is replaced as a whole, all other nodes are
rebuilt.  What does not count as an argument is left alone.
-/

namespace StencilForge.Visit

variable (A : Algebra) (p : Expr → Bool)

/-- Those that only the head sees stay. -/
def withHidden (h : Head) (as bs : Exprs) : Exprs :=
  match h with
  | .access .. => as
  | .resolved .. => bs.take 2 ++ as.drop 2
  | .placeholder .. => bs.dropLast ++ as.drop (as.length - 1)
  | _ => bs

/-- Only neutral arguments are left out. -/
def plain (h : Head) (as : Exprs) : Expr :=
  match h with
  | .add => .addOf (as.filter (!·.isZero))
  | .mul => .mulOf (as.filter (!·.isOne))
  | h => .node h as

mutual

def replace (at? : Expr → Option (Outcome Expr)) : Expr → Outcome Expr
  | .atom a => (at? (.atom a)).getD (.ok (.atom a))
  | .node h as => match at? (.node h as) with
    | some r => r
    | none => match h with
      | .access .. => .ok (.node h as)
      | h => do Build.node A h (withHidden h as (← replaceList at? as))

def replaceList (at? : Expr → Option (Outcome Expr)) : Exprs → Outcome Exprs
  | [] => .ok []
  | a :: as => do return (← replace at? a) :: (← replaceList at? as)

end

mutual

def outermost : Expr → Exprs
  | .atom a => if p (.atom a) then [.atom a] else []
  | .node h as => if p (.node h as) then [.node h as] else match h with
    | .access .. => []
    | _ => outermostList as

def outermostList : Exprs → Exprs
  | [] => []
  | a :: as => unionNew (outermost a) (outermostList as)

end

mutual

def all : Expr → Exprs
  | .atom a => if p (.atom a) then [.atom a] else []
  | .node h as => match h with
    | .access .. => if p (.node h as) then [.node h as] else []
    | _ => if p (.node h as) then unionNew [.node h as] (allList as) else allList as

def allList : Exprs → Exprs
  | [] => []
  | a :: as => unionNew (all a) (allList as)

end

end StencilForge.Visit
