/-
Evaluation: primitive frames are their own value, native functions are called, and all else is an error.

A native function may evaluate a frame again, itself included, so evaluation carries a limit on the depth of such
calls. An evaluation that reaches it is `unfinished`; below the limit the limit changes nothing. A function may mend a
failure within it, but not a handle that dangles, nor the limit.
-/
import FrameGraph.Arena.Link

namespace FrameGraph

namespace Action

/-- act in the environment `env`, behind actions with these results, the latest first; `evaluate` evaluates the frames that
the action asks for -/
def run (evaluate : Arena → Handle → Handle → Step Handle) (env : Handle) : Action → List Handle → Arena → Step Handle
  | .environment, _, a => ⟨a, .ok env⟩
  | .give h, _, a => ⟨a, .ok h⟩
  | .earlier index, results, a => ⟨a, .ok (results.getD index env)⟩
  | .raise e, _, a => ⟨a, .error (.failed e)⟩
  | .allocate kind value, _, a =>
    let new := a.next
    ⟨a.alloc ⟨kind, value⟩, .ok new⟩
  | .copy original, results, a => (original.run evaluate env results a).bind fun a h => a.copy h
  | .slot frame key, results, a => (frame.run evaluate env results a).bind fun a h => ⟨a, a.get h key⟩
  | .evaluate frame place, results, a =>
    (frame.run evaluate env results a).bind fun a h =>
      (place.run evaluate env results a).bind fun a e => evaluate a h e
  | .attach target way that, results, a =>
    (target.run evaluate env results a).bind fun a t =>
      (that.run evaluate env results a).bind fun a h => a.linkAll t [way.link (.present h)]
  | .andThen first second, results, a =>
    (first.run evaluate env results a).bind fun a h => second.run evaluate env (h :: results) a
  | .orElse first second, results, a =>
    match first.run evaluate env results a with
    | ⟨a, .error (.failed _)⟩ => second.run evaluate env results a
    | s => s

end Action

namespace Arena

/-- evaluate the frame `h` in the environment `env`, with calls of native functions at most `limit` deep -/
def evaluate : Nat → Arena → Handle → Handle → Step Handle
  | limit, a, h, env =>
    match a.frame? h with
    | none => ⟨a, .error (.dangling h)⟩
    | some f =>
      if f.label.kind.family = .primitive then ⟨a, .ok h⟩
      else
        match f.label.kind, f.label.value, limit with
        | .fn, .native _ action, limit + 1 => action.run (evaluate limit) env [] a
        | .fn, .native _ _, 0 => ⟨a, .error .unfinished⟩
        | _, _, _ => ⟨a, .error (.failed (.notEvaluable (f.label.text ++ " " ++ h.text)))⟩

end Arena

end FrameGraph
