import EquationSystem.Formula.Term

/-!
# The names that a term reads

The value of a term depends on the bindings of its references only.
-/

namespace EquationSystem

namespace Term

mutual

/-- The names that a term refers to, as often as it does, from the left. -/
def references : Term → List String
  | .constant _ => []
  | .reference name => [name]
  | .unary _ operand => operand.references
  | .binary _ lhs rhs => lhs.references ++ rhs.references
  | .chain first rest => first.references ++ chainReferences rest
  | .call _ args => argumentReferences args

def chainReferences : List (BinaryOp × Term) → List String
  | [] => []
  | (_, operand) :: rest => operand.references ++ chainReferences rest

def argumentReferences : List Term → List String
  | [] => []
  | arg :: args => arg.references ++ argumentReferences args

end

/-- Both bindings give the names in the list the same values, or none. -/
def Agree (b b' : Bindings) (names : List String) : Prop :=
  ∀ name ∈ names, b.get? name = b'.get? name

variable {b b' : Bindings} {xs ys : List String}

theorem Agree.mono (h : Agree b b' ys) (sub : xs ⊆ ys) : Agree b b' xs :=
  fun name hn => h name (sub hn)

theorem agree_append : Agree b b' (xs ++ ys) ↔ Agree b b' xs ∧ Agree b b' ys :=
  List.forall_mem_append

mutual

theorem eval_congr : ∀ {t : Term}, Agree b b' t.references → t.eval b = t.eval b'
  | .constant _, _ => by rw [eval, eval]
  | .reference name, h => by rw [eval, eval, h name List.mem_cons_self]
  | .unary op operand, h => by
    rw [references] at h
    rw [eval, eval, eval_congr h]
  | .binary op lhs rhs, h => by
    rw [references, agree_append] at h
    rw [eval, eval, eval_congr h.1, eval_congr h.2]
  | .chain first rest, h => by
    rw [references, agree_append] at h
    rw [eval, eval, eval_congr h.1]
    simp only [evalChain_congr h.2]
  | .call builtin args, h => by
    rw [references] at h
    rw [eval, eval, suspend_congr h]

theorem evalChain_congr {lhs : Value} : ∀ {rest : List (BinaryOp × Term)},
    Agree b b' (chainReferences rest) → evalChain b lhs rest = evalChain b' lhs rest
  | [], _ => by rw [evalChain, evalChain]
  | (op, rhs) :: rest, h => by
    rw [chainReferences, agree_append] at h
    rw [evalChain, evalChain, eval_congr h.1]
    simp only [evalChain_congr h.2]

theorem suspend_congr : ∀ {args : List Term},
    Agree b b' (argumentReferences args) → suspend b args = suspend b' args
  | [], _ => by rw [suspend, suspend]
  | arg :: args, h => by
    rw [argumentReferences, agree_append] at h
    rw [suspend, suspend, eval_congr h.1, suspend_congr h.2]

end

end Term

end EquationSystem
