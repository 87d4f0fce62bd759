import Rustlet.Evaluation.Expression
import Rustlet.Evaluation.Printing
import Rustlet.Evaluation.Statement

/-! Doing what a running script has to do, with a bound on the jobs that are under way at once. -/
namespace Rustlet.Evaluation

/-- The rule of each job. `frames` is the number of jobs that may be under way inside it. -/
def Job.rule (s : Setting) (frames : Nat) (run : Runner) : {α : Type} → Job α → Eval α
  | _, .stmt st scope => stmtRule s run scope st
  | _, .body stmts scope => bodyRule run stmts scope
  | _, .expr e scope => exprRule s run scope e
  | _, .args es scope => argsRule run scope es
  | _, .object e scope => instanceRule run e scope
  | _, .logic op left right scope => logicRule run op left right scope
  | _, .structLit pos type fields scope => structLitRule s run pos type fields scope
  | _, .macroCall pos name es scope => macroRule s frames run pos name es scope
  | _, .apply callee vs pos => run (.enter (.ofCallee callee) vs pos)
  | _, .enter entry vs pos => enterRule s run entry vs pos

/-- Does a job with at most so many jobs under way at once, itself included. -/
def eval (s : Setting) : (frames : Nat) → {α : Type} → Job α → Eval α
  | 0, _, _ => throw .overflow
  | frames + 1, _, job => job.rule s frames (eval s frames)

end Rustlet.Evaluation
