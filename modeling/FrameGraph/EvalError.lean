/-
Errors of evaluation, and of a slot that is looked up in vain.
-/
namespace FrameGraph

/-- the slot `key` is not there; `head` shows the frame that it was looked for in -/
structure LookupError where
  key : String
  head : String
  deriving DecidableEq, Repr

def LookupError.message (e : LookupError) : String := "no slot '" ++ e.key ++ "' in " ++ e.head

/-- why the evaluation of a frame fails -/
inductive EvalError where
  | notEvaluable (head : String)
  | native (name message : String)
  | lookup (e : LookupError)
  deriving DecidableEq, Repr

def EvalError.message : EvalError → String
  | .notEvaluable head => head ++ " is not evaluable"
  | .native name m => name ++ ": " ++ m
  | .lookup e => e.message

end FrameGraph
