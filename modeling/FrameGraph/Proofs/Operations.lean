/-
Operations on an arena, one after the other, and the history that they make.

An `Operation` is whatever can be asked of an arena from outside: to allocate, copy and link frames, to read a source and to
evaluate a frame. What it tells is followed into the reader, token by token, and into native functions, which allocate,
link and evaluate on their own account and may fail at any point of it.

Results:
- `Tells.take`, `Tells.next`: a token and a call of the reader tell what becomes of the arena.
- `Tells.run`, `Tells.evaluate`: so do actions and evaluations, finished or not.
- `Tells.perform`: so does every operation.
- `runAll_eq_history`: after any operations the arena is its history, and allocations are numbered in their order.
-/
import FrameGraph.Arena.Evaluate
import FrameGraph.Proofs.History
import FrameGraph.Reading

namespace FrameGraph

namespace History

variable {past : History} {a : Arena}

/-! ## Reading -/

/-- what handing a finished expression to its containers tells -/
def handEvents (h : Handle) : List Container → History
  | [] => []
  | .list l _ :: _ => [.attach l .child h]
  | .quote q _ _ :: below => handEvents q below ++ [.attach q .child h]

/-- what taking a token tells -/
def takeEvents (maxDepth : Nat) (a : Arena) (stack : List Container) (t : Located Token) : History :=
  match t.item with
  | .leaf l => handEvents a.next stack ++ [.alloc a.next l]
  | .closing =>
    match stack with
    | .list l _ :: below => handEvents l below
    | _ => []
  | .quote op => if maxDepth ≤ stack.length then [] else [.alloc a.next op]
  | .opening => if maxDepth ≤ stack.length then [] else [.alloc a.next Reader.listLabel]

/-- what reading on inside the containers of `stack` tells -/
def readOnEvents (maxDepth : Nat) (a : Arena) (stack : List Container) : TokenStream → History
  | [] | .error _ :: _ => []
  | .ok t :: ts =>
    match Reader.take maxDepth a stack t with
    | (b, .inside inner) => readOnEvents maxDepth b inner ts ++ takeEvents maxDepth a stack t
    | _ => takeEvents maxDepth a stack t

/-- what a call of the reader tells -/
def nextEvents (maxDepth : Nat) (a : Arena) (ts : TokenStream) : History := readOnEvents maxDepth a [] ts

/-- what reading all expressions tells -/
def readAllEvents (maxDepth : Nat) (a : Arena) (ts : TokenStream) : History :=
  match _called : Reader.next maxDepth a ts with
  | ⟨b, .expression _, rest⟩ => readAllEvents maxDepth b rest ++ nextEvents maxDepth a ts
  | _ => nextEvents maxDepth a ts
termination_by ts.length
decreasing_by
  exact Reader.length_rest_lt_of_next _called Outcome.noConfusion

theorem Tells.hand (h : past.Tells a) (x : Handle) (stack : List Container) :
    Tells (handEvents x stack ++ past) (Reader.hand a x stack).1 := by
  induction stack generalizing a past x with
  | nil => exact h
  | cons c below ih =>
    cases c with
    | list l p => exact h.push l x
    | quote q p mark =>
      rw [handEvents, List.append_assoc]
      exact ih (h.push q x) q

theorem Tells.take (h : past.Tells a) (maxDepth : Nat) (stack : List Container) (t : Located Token) :
    Tells (takeEvents maxDepth a stack t ++ past) (Reader.take maxDepth a stack t).1 := by
  unfold takeEvents Reader.take
  cases t.item with
  | leaf l =>
    simp only [List.append_assoc]
    exact (h.alloc l).hand a.next stack
  | closing =>
    rcases stack with _ | ⟨⟨l, p⟩ | ⟨q, p, mark⟩, below⟩
    · exact h
    · exact h.hand l below
    · exact h
  | quote op =>
    dsimp only
    split_ifs
    · exact h
    · exact h.alloc op
  | opening =>
    dsimp only
    split_ifs
    · exact h
    · exact h.alloc Reader.listLabel

theorem Tells.readOn (h : past.Tells a) (maxDepth : Nat) (stack : List Container) (ts : TokenStream) :
    Tells (readOnEvents maxDepth a stack ts ++ past) (Reader.readOn maxDepth a stack ts).arena := by
  induction ts generalizing a past stack with
  | nil => cases stack <;> exact h
  | cons t ts ih =>
    cases t with
    | error e => exact h
    | ok t =>
      have ht := h.take maxDepth stack t
      rw [readOnEvents, Reader.readOn]
      rcases hstep : Reader.take maxDepth a stack t with ⟨b, inner | x | e⟩ <;> rw [hstep] at ht
      · rw [List.append_assoc]
        exact ih ht inner
      · exact ht
      · exact ht

theorem Tells.next (h : past.Tells a) (maxDepth : Nat) (ts : TokenStream) :
    Tells (nextEvents maxDepth a ts ++ past) (Reader.next maxDepth a ts).arena := h.readOn maxDepth [] ts

/-- a visitor looks at the arena and tells nothing -/
theorem Tells.onward {σ ε : Type} (h : past.Tells a) (maxDepth : Nat) (visitor : Visitor σ ε)
    (hv : ∀ s a x, (visitor s a x).2 = none) (count : Nat) (s : σ) (ts : TokenStream) :
    Tells (readAllEvents maxDepth a ts ++ past) (Reading.onward maxDepth visitor.visit count s a ts).arena := by
  induction hn : ts.length using Nat.strong_induction_on generalizing a past count s ts with
  | _ n ih =>
    have hnext := h.next maxDepth ts
    rw [readAllEvents, Reading.onward]
    rcases hcall : Reader.next maxDepth a ts with ⟨b, _ | x | e, rest⟩ <;> rw [hcall] at hnext
    · exact hnext
    · have hlt := Reader.length_rest_lt_of_next hcall Outcome.noConfusion
      simp only [Visitor.visit, hv, List.append_assoc]
      exact ih rest.length (hn ▸ hlt) hnext _ _ rest rfl
    · exact hnext

/-! ## Native functions -/

/-- what a step and what follows it tell; nothing follows a step that stops -/
def stepEvents {α : Type} (s : Step α) (first : History) (next : Arena → α → History) : History :=
  match s with
  | ⟨a, .ok x⟩ => next a x ++ first
  | ⟨_, .error _⟩ => first

theorem Tells.bind {α β : Type} {s : Step α} {first : History} (h : Tells (first ++ past) s.arena)
    {next : Arena → α → Step β} {events : Arena → α → History}
    (hnext : ∀ {b x}, Tells (first ++ past) b → Tells (events b x ++ (first ++ past)) (next b x).arena) :
    Tells (stepEvents s first events ++ past) (s.bind next).arena := by
  rcases s with ⟨b, e | x⟩
  · exact h
  · rw [stepEvents, List.append_assoc]
    exact hnext h

section Actions

variable (evaluate : Arena → Handle → Handle → Step Handle) (called : Arena → Handle → Handle → History) (env : Handle)

/-- what an action tells in the environment `env`, where `called` is what an evaluation tells -/
def actionEvents : Action → List Handle → Arena → History
  | .environment, _, _ | .earlier _, _, _ | .give _, _, _ | .raise _, _, _ => []
  | .allocate kind value, _, a => [.alloc a.next ⟨kind, value⟩]
  | .copy original, results, a =>
    stepEvents (original.run evaluate env results a) (actionEvents original results a) copyEvents
  | .slot frame _, results, a => actionEvents frame results a
  | .evaluate frame place, results, a =>
    stepEvents (frame.run evaluate env results a) (actionEvents frame results a) fun b h =>
      stepEvents (place.run evaluate env results b) (actionEvents place results b) fun c e => called c h e
  | .attach target way that, results, a =>
    stepEvents (target.run evaluate env results a) (actionEvents target results a) fun b t =>
      stepEvents (that.run evaluate env results b) (actionEvents that results b) fun c h =>
        linkAllEvents c t [way.link (.present h)]
  | .andThen first second, results, a =>
    stepEvents (first.run evaluate env results a) (actionEvents first results a) fun b h =>
      actionEvents second (h :: results) b
  | .orElse first second, results, a =>
    match first.run evaluate env results a with
    | ⟨b, .error (.failed _)⟩ => actionEvents second results b ++ actionEvents first results a
    | _ => actionEvents first results a

variable {evaluate called}

/-- actions tell what becomes of the arena if the evaluations that they ask for do -/
theorem Tells.run (hcall : ∀ {past a}, Tells past a → ∀ h e, Tells (called a h e ++ past) (evaluate a h e).arena) :
    ∀ (action : Action) (results : List Handle) {past : History} {a : Arena}, Tells past a →
      Tells (actionEvents evaluate called env action results a ++ past) (action.run evaluate env results a).arena
  | .environment, _, _, _, h | .earlier _, _, _, _, h | .give _, _, _, _, h | .raise _, _, _, _, h => h
  | .allocate kind value, _, _, _, h => h.alloc ⟨kind, value⟩
  | .copy original, results, _, _, h => (Tells.run hcall original results h).bind fun hb => hb.copy _
  | .slot frame key, results, past, a, h => by
    have hf := Tells.run hcall frame results h
    rw [actionEvents, Action.run]
    rcases hrun : frame.run evaluate env results a with ⟨b, e | x⟩ <;> rw [hrun] at hf <;> exact hf
  | .evaluate frame place, results, _, _, h =>
    (Tells.run hcall frame results h).bind fun hb =>
      (Tells.run hcall place results hb).bind fun hc => hcall hc _ _
  | .attach target way that, results, _, _, h =>
    (Tells.run hcall target results h).bind fun hb =>
      (Tells.run hcall that results hb).bind fun hc => hc.linkAll _ _
  | .andThen first second, results, _, _, h =>
    (Tells.run hcall first results h).bind fun hb => Tells.run hcall second _ hb
  | .orElse first second, results, past, a, h => by
    have hf := Tells.run hcall first results h
    rw [actionEvents, Action.run]
    rcases hrun : first.run evaluate env results a with ⟨b, (e | k | _) | x⟩ <;> rw [hrun] at hf
    · rw [List.append_assoc]
      exact Tells.run hcall second results hf
    all_goals exact hf

end Actions

/-- what an evaluation tells: that of a native function what the function does, any other nothing -/
def evaluateEvents : Nat → Arena → Handle → Handle → History
  | limit, a, h, env =>
    match a.frame? h with
    | none => []
    | some f =>
      if f.label.kind.family = .primitive then []
      else
        match f.label.kind, f.label.value, limit with
        | .fn, .native _ action, limit + 1 => actionEvents (Arena.evaluate limit) (evaluateEvents limit) env action [] a
        | _, _, _ => []

/-- an evaluation does nothing to the arena and tells nothing, or does what a native function does and tells that -/
theorem evaluate_cases (limit : Nat) (a : Arena) (h env : Handle) :
    ((a.evaluate limit h env).arena = a ∧ evaluateEvents limit a h env = []) ∨
      ∃ below action, limit = below + 1 ∧ a.evaluate limit h env = action.run (Arena.evaluate below) env [] a ∧
        evaluateEvents limit a h env = actionEvents (Arena.evaluate below) (evaluateEvents below) env action [] a := by
  unfold evaluateEvents Arena.evaluate
  cases hf : a.frame? h with
  | none => exact .inl ⟨rfl, rfl⟩
  | some f =>
    obtain ⟨⟨kind, value⟩, slots, children, identity⟩ := f
    dsimp only
    split_ifs with hp
    · exact .inl ⟨rfl, rfl⟩
    · rcases limit with _ | below <;> rcases value with s | n | ⟨name, action⟩ <;> cases kind <;>
        first
        | exact .inl ⟨rfl, rfl⟩
        | exact .inr ⟨below, action, rfl, rfl, rfl⟩

theorem Tells.evaluate (limit : Nat) (h : past.Tells a) (x env : Handle) :
    Tells (evaluateEvents limit a x env ++ past) (a.evaluate limit x env).arena := by
  induction limit using Nat.strong_induction_on generalizing past a x env with
  | _ limit ih =>
    rcases evaluate_cases limit a x env with ⟨harena, hevents⟩ | ⟨below, action, rfl, hrun, hevents⟩
    · rw [harena, hevents]
      exact h
    · rw [hrun, hevents]
      exact Tells.run env (fun ht y e => ih below (Nat.lt_succ_self below) ht y e) action [] h

end History

/-! ## Operations -/

/-- What can be asked of an arena from outside: to allocate a frame, or the copy of one; to attach others to a new frame, or to
one that is there; to read the next expression of a token stream, or all of a source; and to evaluate a frame in an environment,
with calls of native functions at most `limit` deep. A reading whose visitor works on the arena is many of these. -/
inductive Operation where
  | alloc (l : Label)
  | copy (original : Handle)
  | new (l : Label) (links : List Link)
  | build (target : Handle) (links : List Link)
  | next (maxDepth : Nat) (ts : TokenStream)
  | read (s : Settings) (src : CharSource)
  | evaluate (limit : Nat) (h env : Handle)

/-- the arena and the handle, if any, that a step leaves -/
def Step.left (s : Step Handle) : Arena × List Handle := (s.arena, s.answer.toOption.toList)

namespace Operation

/-- the arena that an operation leaves, and the handles that it answers; none if it stops -/
def run : Operation → Arena → Arena × List Handle
  | .alloc l, a => (a.alloc l, [a.next])
  | .copy original, a => (a.copy original).left
  | .new l links, a => ((a.alloc l).linkAll a.next links).left
  | .build target links, a => (a.linkAll target links).left
  | .next maxDepth ts, a =>
    match Reader.next maxDepth a ts with
    | ⟨b, .expression h, _⟩ => (b, [h])
    | ⟨b, _, _⟩ => (b, [])
  | .read s src, a =>
    let r := Reading.each s.maxDepth Reading.collect #[] a (src.tokens s)
    (r.arena, r.state.toList)
  | .evaluate limit h env, a => (a.evaluate limit h env).left

/-- whether an operation answers the handle of a frame that it allocates -/
def allocates : Operation → Bool
  | .alloc _ | .copy _ | .new _ _ => true
  | _ => false

/-- what an operation tells -/
def events : Operation → Arena → History
  | .alloc l, a => [.alloc a.next l]
  | .copy original, a => History.copyEvents a original
  | .new l links, a => History.linkAllEvents (a.alloc l) a.next links ++ [.alloc a.next l]
  | .build target links, a => History.linkAllEvents a target links
  | .next maxDepth ts, a => History.nextEvents maxDepth a ts
  | .read s src, a => History.readAllEvents s.maxDepth a (src.tokens s)
  | .evaluate limit h env, a => History.evaluateEvents limit a h env

/-- operations one after the other, whatever becomes of each -/
def runAll : Arena → List Operation → Arena
  | a, [] => a
  | a, op :: ops => runAll (op.run a).1 ops

/-- what operations one after the other tell -/
def history : Arena → List Operation → History
  | _, [] => []
  | a, op :: ops => history (op.run a).1 ops ++ op.events a

theorem runAll_append (a : Arena) (ops more : List Operation) : runAll a (ops ++ more) = runAll (runAll a ops) more := by
  induction ops generalizing a with
  | nil => rfl
  | cons op ops ih => exact ih _

end Operation

namespace History

variable {past : History} {a : Arena}

theorem Tells.perform (h : past.Tells a) (op : Operation) : Tells (op.events a ++ past) (op.run a).1 := by
  cases op with
  | alloc l => exact h.alloc l
  | copy original => exact h.copy original
  | new l links =>
    rw [Operation.events, List.append_assoc]
    exact (h.alloc l).linkAll a.next links
  | build target links => exact h.linkAll target links
  | next maxDepth ts =>
    have hn := h.next maxDepth ts
    simp only [Operation.events, Operation.run]
    rcases hcall : Reader.next maxDepth a ts with ⟨b, _ | x | e, rest⟩ <;> rw [hcall] at hn <;> exact hn
  | read s src => exact h.onward s.maxDepth Reading.collect (fun _ _ _ => rfl) 0 #[] (src.tokens s)
  | evaluate limit x env => exact h.evaluate limit x env

theorem Tells.performAll (h : past.Tells a) (ops : List Operation) :
    Tells (Operation.history a ops ++ past) (Operation.runAll a ops) := by
  induction ops generalizing past a with
  | nil => exact h
  | cons op ops ih =>
    rw [Operation.history, List.append_assoc]
    exact ih (h.perform op)

theorem Tells.size_eq (h : past.Tells a) : a.size = past.allocated.length := by simp [h.allocated_eq]

theorem Tells.get_eq (h : past.Tells a) {x : Handle} {f : Frame} (hf : a.frame? x = some f) (key : String) :
    a.get x key =
      match past.slot? x key with
      | some that => .ok that
      | none => .error (.failed (.lookup ⟨key, f.label.text ++ " " ++ x.text⟩)) := by
  cases hslot : f.slots.get? key <;> simp only [Arena.get, Arena.withFrame, hf, h.slot_eq hf, hslot]

/-- what is told later allocates no frame that is there -/
theorem Tells.notMem_later {later : History} {b : Arena} (h : past.Tells a) (hb : Tells (later ++ past) b) {x : Handle}
    {f : Frame} (hf : a.frame? x = some f) : x ∉ allocated later := by
  intro hx
  have hpast : x ∈ allocated past := by
    rw [h.allocated_eq]
    exact List.mem_map.2 ⟨x.index, List.mem_range.2 (a.index_lt_of_frame? hf), rfl⟩
  have hnodup : (allocated (later ++ past)).Nodup := by
    rw [hb.allocated_eq]
    exact List.nodup_range.map fun i j hij => Handle.mk.inj hij
  rw [allocated_append] at hnodup
  exact List.disjoint_of_nodup_append hnodup hpast hx

/-- what is told later takes no frame away, nor its label nor any of its children -/
theorem Tells.keep {later : History} {b : Arena} (h : past.Tells a) (hb : Tells (later ++ past) b) {x : Handle}
    {f : Frame} (hf : a.frame? x = some f) :
    ∃ g, b.frame? x = some g ∧ g.label = f.label ∧ f.children.toList <+: g.children.toList := by
  have hnew := h.notMem_later hb hf
  have hlabel : (b.frame? x).map Frame.label = some f.label := by
    rw [← hb.label_eq, label?_append hnew, h.label_eq, hf]
    rfl
  obtain ⟨g, hg, hgf⟩ := Option.map_eq_some_iff.1 hlabel
  refine ⟨g, hg, hgf, ?_⟩
  rw [← h.children_eq hf, ← hb.children_eq hg]
  exact children_append hnew

end History

theorem Arena.linkAll_answer {a : Arena} {target x : Handle} {links : List Link}
    (h : (a.linkAll target links).answer = .ok x) : x = target := by
  induction links generalizing a with
  | nil => exact (Except.ok.inj h).symm
  | cons l ls ih =>
    rw [Arena.linkAll] at h
    rcases hstep : a.link target l with ⟨b, e | _⟩ <;> rw [hstep] at h
    · cases h
    · exact ih h

/-- an operation that allocates a frame answers the next handle -/
theorem Operation.eq_next_of_allocates {op : Operation} (hop : op.allocates) {a : Arena} {x : Handle}
    (hx : x ∈ (op.run a).2) : x = a.next := by
  cases op with
  | alloc l => simpa [Operation.run] using hx
  | copy original =>
    cases hf : a.frame? original <;> simp_all [Operation.run, Step.left, Arena.copy, Except.toOption]
  | new l links =>
    simp only [Operation.run, Step.left, Option.mem_toList] at hx
    cases hans : ((a.alloc l).linkAll a.next links).answer with
    | error e => simp [hans, Except.toOption] at hx
    | ok y =>
      simp only [hans, Except.toOption, Option.some.injEq] at hx
      exact hx ▸ Arena.linkAll_answer hans
  | _ => exact Bool.noConfusion hop

/--
**An arena is its history.** After any operations on an empty arena, the allocations that they tell have had the handles
0, 1, 2 .. in their order, and an operation that allocates a frame now answers the next one. A frame has the label that it
was allocated with and the children that it was allocated with or that were pushed onto it, in their order; a slot of it
gives what was stored there last, and an error if nothing was. Whatever is done after that, the frame is there, with this
label and these children in front.
-/
theorem runAll_eq_history (ops : List Operation) :
    let a := Operation.runAll .empty ops
    let past := Operation.history .empty ops
    past.allocated = (List.range a.size).map Handle.mk ∧
    (∀ op : Operation, op.allocates → ∀ x ∈ (op.run a).2, x = ⟨past.allocated.length⟩) ∧
    (∀ h, (a.frame? h).map Frame.label = past.label? h) ∧
    ∀ h f, a.frame? h = some f →
      f.children.toList = past.children h ∧
      (∀ key, a.get h key =
        match past.slot? h key with
        | some that => .ok that
        | none => .error (.failed (.lookup ⟨key, f.label.text ++ " " ++ h.text⟩))) ∧
      ∀ more, ∃ g, (Operation.runAll .empty (ops ++ more)).frame? h = some g ∧ g.label = f.label ∧
        f.children.toList <+: g.children.toList := by
  intro a past
  have ht : past.Tells a := by simpa using History.tells_empty.performAll ops
  refine ⟨ht.allocated_eq, fun op hop x hx => ?_, fun h => (ht.label_eq h).symm, fun h f hf => ⟨?_, ?_, fun more => ?_⟩⟩
  · rw [Operation.eq_next_of_allocates hop hx, Arena.next, ht.size_eq]
  · exact (ht.children_eq hf).symm
  · exact ht.get_eq hf
  · rw [Operation.runAll_append]
    exact ht.keep (ht.performAll more) hf

/-- a list and a function that pushes onto it and then fails, a copy of the list before the call and one behind it -/
def Operation.sharing : List Operation :=
  let push : Action := .attach .environment .child .environment
  [.alloc ⟨.list, .text ""⟩, .alloc ⟨.fn, .native "f" (.andThen push (.fail "f" "stop"))⟩, .copy ⟨0⟩,
    .build ⟨0⟩ [.slot "a" (.present ⟨1⟩), .byTag (.detached ⟨.list, .text "x"⟩)], .evaluate 1 ⟨1⟩ ⟨0⟩, .copy ⟨0⟩,
    .build ⟨0⟩ [.slot "a" (.present ⟨2⟩)]]

theorem runAll_eq_history_sharing :
    let a := Operation.runAll .empty Operation.sharing
    let past := Operation.history .empty Operation.sharing
    (a.frame? ⟨4⟩).isSome ∧ past.children ⟨2⟩ = [] ∧ past.children ⟨4⟩ = [⟨0⟩] ∧
      past.slot? ⟨4⟩ "a" = some ⟨1⟩ ∧ past.slot? ⟨0⟩ "a" = some ⟨2⟩ ∧ a.get ⟨4⟩ "list" = .ok ⟨3⟩ := by
  intro a past
  have hf : (a.frame? ⟨4⟩).isSome := by decide
  obtain ⟨-, -, -, hframe⟩ := runAll_eq_history Operation.sharing
  obtain ⟨-, hget, -⟩ := hframe ⟨4⟩ _ (Option.some_get hf).symm
  refine ⟨hf, by decide, by decide, by decide, by decide, ?_⟩
  rw [hget "list"]
  have hslot : past.slot? ⟨4⟩ "list" = some ⟨3⟩ := by decide
  simp only [past] at hslot
  rw [hslot]

end FrameGraph
