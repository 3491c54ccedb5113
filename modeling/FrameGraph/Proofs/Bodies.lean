/-
Native functions that go by what they see.

A native function works on the arena that it is called in: it counts the frames and looks at them, it allocates, copies, attaches
and evaluates frames, and what it does next depends on all answers so far. A `Body` is all that it may come to do, with a branch
for every answer. An action is less than that: it sees nothing of a frame, and chooses nothing but what is done where something
fails. But a call takes one branch of a body only, and all that is done on this branch, some action does as well. So what holds
whatever actions do holds whatever native functions do.

Results:
- `Link.action_run`: a link is an action.
- `Body.exists_action`: what a body does to an arena is what some action does, asked with the same handles.
- `Body.tells`, `Body.run_sound`: so the arena is what its history tells, and handles stay valid.
-/
import FrameGraph.Proofs.Validity

namespace FrameGraph

/-- A native function at work. It finishes with a handle or an error, or asks for the number of frames or for one of them, or does
something to the arena, and goes on by what it is answered. -/
inductive Body where
  | finish (answer : Except EvalError Handle)
  | count (next : Nat → Body)
  | look (h : Handle) (next : Frame → Body)
  | alloc (l : Label) (next : Handle → Body)
  | copy (original : Handle) (next : Handle → Body)
  | link (target : Handle) (l : Link) (next : Body)
  | evaluate (h place : Handle) (next : Except EvalError Handle → Body)

/-- go on with what an evaluation answers, be it an error of its own -/
def Step.attempt {α : Type} (s : Step Handle) (next : Arena → Except EvalError Handle → α) (stopped : Arena → Stop → α) : α :=
  match s with
  | ⟨a, .ok h⟩ => next a (.ok h)
  | ⟨a, .error (.failed e)⟩ => next a (.error e)
  | ⟨a, .error e⟩ => stopped a e

section Actions

variable (evaluate : Arena → Handle → Handle → Step Handle) (called : Arena → Handle → Handle → Supplies)

namespace Body

/-- the run of a body, where `evaluate` evaluates the frames that it asks for; it stops at a handle that dangles, and within an
evaluation that does not come to an end -/
def run : Body → Arena → Step Handle
  | .finish (.ok h), a => ⟨a, .ok h⟩
  | .finish (.error e), a => ⟨a, .error (.failed e)⟩
  | .count next, a => (next a.size).run a
  | .look h next, a =>
    match a.frame? h with
    | some f => (next f).run a
    | none => ⟨a, .error (.dangling h)⟩
  | .alloc l next, a => (next a.next).run (a.alloc l)
  | .copy original next, a => (a.copy original).bind fun b h => (next h).run b
  | .link target l next, a => (a.link target l).bind fun b _ => next.run b
  | .evaluate h place next, a =>
    (evaluate a h place).attempt (fun b answer => (next answer).run b) fun b e => ⟨b, .error e⟩

/-- the handles that a body is done or asks with, each with the arena at the time, where `called` is what an evaluation supplies -/
def supplies : Body → Arena → Supplies
  | .finish (.ok h), a => [(a, h)]
  | .finish (.error _), _ => []
  | .count next, a => (next a.size).supplies a
  | .look h next, a =>
    (a, h) ::
      match a.frame? h with
      | some f => (next f).supplies a
      | none => []
  | .alloc l next, a => (next a.next).supplies (a.alloc l)
  | .copy original next, a => (a, original) :: (a.copy original).behind fun b h => (next h).supplies b
  | .link target l next, a => (a, target) :: l.that.supplies a ++ (a.link target l).behind fun b _ => next.supplies b
  | .evaluate h place next, a =>
    (a, h) :: (a, place) :: called a h place ++
      (evaluate a h place).attempt (fun b answer => (next answer).supplies b) fun _ _ => []

end Body

/-! ## Links as actions -/

/-- what is attached, as the result of an action -/
def Attachment.action : Attachment → Action
  | .present h => .give h
  | .detached l => .allocate l.kind l.value

/-- a link as an action that gives its target -/
def Link.action (target : Handle) (l : Link) : Action := .attach (.give target) l.way l.that.action

theorem Link.action_run (env : Handle) (target : Handle) (l : Link) (results : List Handle) (a : Arena) :
    (l.action target).run evaluate env results a = (a.link target l).bind fun b _ => ⟨b, .ok target⟩ := by
  rcases l with ⟨key, h | label⟩ | ⟨h | label⟩ | ⟨h | label⟩ | ⟨h | label⟩ <;> exact Arena.linkAll_eq_bind _ target _ []

theorem Link.action_supplies (env : Handle) (target : Handle) (l : Link) (results : List Handle) (a : Arena) :
    actionSupplies evaluate called env (l.action target) results a = (a, target) :: l.that.supplies a := by
  rcases l with ⟨key, h | label⟩ | ⟨h | label⟩ | ⟨h | label⟩ | ⟨h | label⟩ <;> rfl

/-! ## Bodies as actions -/

/-- in the arena `a`, the action does what the body does, and asks for frames of the arena if the body does -/
structure Action.Does (action : Action) (body : Body) (a : Arena) : Prop where
  run_eq : ∀ env results, action.run evaluate env results a = body.run evaluate a
  valid_iff : ∀ env results,
    (actionSupplies evaluate called env action results a).Valid ↔ (body.supplies evaluate called a).Valid

/-- An action that does a step is followed by what a body does next: behind an answer by an action that does as the body does there,
and behind an error by nothing. -/
theorem Action.exists_behind (first : Action) {a : Arena} {s : Step Handle} {asked : Supplies} {next : Handle → Body}
    (hrun : ∀ env results, first.run evaluate env results a = s)
    (hasked : ∀ env results, actionSupplies evaluate called env first results a = asked)
    (hnext : ∀ h b, ∃ action : Action, action.Does evaluate called (next h) b) :
    ∃ action : Action, (∀ env results, action.run evaluate env results a = s.bind fun b h => (next h).run evaluate b) ∧
      ∀ env results, (actionSupplies evaluate called env action results a).Valid ↔
        Supplies.Valid (asked ++ s.behind fun b h => (next h).supplies evaluate called b) := by
  rcases s with ⟨b, e | h⟩
  · refine ⟨first, hrun, ?_⟩
    intro env results
    rw [hasked]
    exact iff_of_eq (congrArg Supplies.Valid (List.append_nil asked).symm)
  · obtain ⟨second, hsecond, hvalid⟩ := hnext h b
    refine ⟨.andThen first second, ?_, ?_⟩
    · intro env results
      rw [Action.run, hrun]
      exact hsecond env (h :: results)
    · intro env results
      rw [actionSupplies, hasked, hrun, Supplies.valid_append, Supplies.valid_append]
      exact and_congr_right fun _ => hvalid env (h :: results)

/-- An action that may fail is followed by what a body does next in any case. -/
theorem Action.exists_attempt (first : Action) {a : Arena} {s : Step Handle} {asked : Supplies}
    {next : Except EvalError Handle → Body} (hrun : ∀ env results, first.run evaluate env results a = s)
    (hasked : ∀ env results, actionSupplies evaluate called env first results a = asked)
    (hnext : ∀ answer b, ∃ action : Action, action.Does evaluate called (next answer) b) :
    ∃ action : Action,
      (∀ env results, action.run evaluate env results a =
        s.attempt (fun b answer => (next answer).run evaluate b) fun b e => ⟨b, .error e⟩) ∧
      ∀ env results, (actionSupplies evaluate called env action results a).Valid ↔
        Supplies.Valid (asked ++ s.attempt (fun b answer => (next answer).supplies evaluate called b) fun _ _ => []) := by
  have hbehind := exists_behind evaluate called first hrun hasked fun h => hnext (.ok h)
  rcases s with ⟨b, (e | k | _) | h⟩
  · obtain ⟨second, hsecond, hvalid⟩ := hnext (.error e) b
    refine ⟨.orElse first second, ?_, ?_⟩
    · intro env results
      rw [Action.run, hrun]
      exact hsecond env results
    · intro env results
      rw [actionSupplies, hasked, hrun, Supplies.valid_append, Supplies.valid_append]
      exact and_congr_right fun _ => hvalid env results
  -- an answer is taken as such, and other errors are not mended
  all_goals exact hbehind

/-- **What a body does to an arena is what some action does**, and the one asks for frames that are there if the other does. -/
theorem Body.exists_action (body : Body) (a : Arena) : ∃ action : Action, action.Does evaluate called body a := by
  induction body generalizing a with
  | finish answer =>
    cases answer with
    | ok h => exact ⟨.give h, fun _ _ => rfl, fun _ _ => Iff.rfl⟩
    | error e => exact ⟨.raise e, fun _ _ => rfl, fun _ _ => Iff.rfl⟩
  | count next ih =>
    obtain ⟨action, hrun, hvalid⟩ := ih a.size a
    exact ⟨action, hrun, hvalid⟩
  | look h next ih =>
    cases hf : a.frame? h with
    | none =>
      -- to look at a frame that is not there and to copy it stop alike
      refine ⟨.copy (.give h), ?_, ?_⟩
      · intro env results
        rw [Body.run, hf, Action.run, Action.run, Step.bind, Arena.copy, hf]
      · intro env results
        rw [Body.supplies, hf]
        rfl
    | some f =>
      obtain ⟨action, hrun, hvalid⟩ := ih f a
      have hthere : a.contains h = true := Arena.contains_of_frame? hf
      refine ⟨action, ?_, ?_⟩
      · intro env results
        rw [Body.run, hf, hrun]
      · intro env results
        rw [Body.supplies, hf, hvalid, Supplies.valid_cons]
        exact (and_iff_right hthere).symm
  | alloc l next ih =>
    obtain ⟨action, hrun, hvalid⟩ := Action.exists_behind evaluate called (.allocate l.kind l.value) (a := a) (fun _ _ => rfl) (fun _ _ => rfl) ih
    exact ⟨action, hrun, hvalid⟩
  | copy original next ih =>
    obtain ⟨action, hrun, hvalid⟩ := Action.exists_behind evaluate called (.copy (.give original)) (a := a) (fun _ _ => rfl) (fun _ _ => rfl) ih
    exact ⟨action, hrun, hvalid⟩
  | link target l next ih =>
    obtain ⟨action, hrun, hvalid⟩ := Action.exists_behind evaluate called (l.action target)
      (fun env results => l.action_run evaluate env target results a)
      (fun env results => l.action_supplies evaluate called env target results a) fun _ => ih
    refine ⟨action, ?_, ?_⟩
    · intro env results
      rw [hrun, Body.run]
      rcases a.link target l with ⟨b, e | _⟩ <;> rfl
    · intro env results
      rw [hvalid, Body.supplies]
      rcases a.link target l with ⟨b, e | _⟩ <;> rfl
  | evaluate h place next ih =>
    have hasked : ∀ env results, actionSupplies evaluate called env (.evaluate (.give h) (.give place)) results a =
        (a, h) :: (a, place) :: called a h place := fun _ _ => rfl
    obtain ⟨action, hrun, hvalid⟩ := Action.exists_attempt evaluate called (.evaluate (.give h) (.give place)) (a := a)
      (fun _ _ => rfl) hasked ih
    exact ⟨action, hrun, hvalid⟩

end Actions

/-! ## Whatever bodies do -/

namespace Body

variable {a : Arena}

/-- a body changes an arena only as can be told -/
theorem tells {past : History} (h : past.Tells a) (limit : Nat) (body : Body) :
    ∃ later, History.Tells (later ++ past) (body.run (Arena.evaluate limit) a).arena := by
  obtain ⟨action, hrun, -⟩ := body.exists_action (Arena.evaluate limit) (Arena.evaluateSupplies limit) a
  rw [← hrun a.next []]
  exact ⟨_, History.Tells.run a.next (fun hb x e => hb.evaluate limit x e) action [] h⟩

/-- **What a body does is sound** where there is an environment, and everything that it is done or asks with is there. -/
theorem run_sound (ha : a.Closed) {env : Handle} (henv : a.Has env) (limit : Nat) (body : Body)
    (hvalid : (body.supplies (Arena.evaluate limit) (Arena.evaluateSupplies limit) a).Valid) :
    (body.run (Arena.evaluate limit) a).Sound a Arena.Has := by
  obtain ⟨action, hrun, hasked⟩ := body.exists_action (Arena.evaluate limit) (Arena.evaluateSupplies limit) a
  have hcall : ∀ (b : Arena) h e, b.Closed → b.Has h → b.Has e → (b.evaluateSupplies limit h e).Valid →
      (b.evaluate limit h e).Sound b Arena.Has := fun b h e hb hh he hv => Arena.evaluate_sound limit hb hh he hv
  rw [← hrun env []]
  exact action.run_sound hcall [] a ⟨ha, henv, by simp⟩ ((hasked env []).2 hvalid)

end Body

end FrameGraph
