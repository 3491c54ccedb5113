/-
Handles stay valid.

A handle comes from outside, as an argument of an operation or as a constant that a native function gives, or it is the
answer of something that was done before. `supplies` lists the first kind, each with the arena at the time. If all of
these name frames at that time, then nothing that is done to an arena ever looks for a frame that is not there: what one
step keeps is that the arena is closed, that no frame is lost and that the answer is a frame of the arena (`Step.Sound`),
and it is kept by every link, by every action of a native function, also where the function fails halfway, by every call
of the reader and so by every operation.

Results:
- `Step.Sound.bind`: sound steps one after the other are a sound step.
- `Arena.linkAll_sound`, `Action.run_sound`, `Arena.evaluate_sound`: links, actions and evaluations are sound.
- `Operation.run_sound`: so is every operation.
- `runAll_valid`: after any operations the arena is closed and everything can be looked at.
-/
import FrameGraph.Proofs.Checked
import FrameGraph.Proofs.Composition
import FrameGraph.Proofs.Operations

namespace FrameGraph

/-! ## Closed arenas -/

namespace Arena

variable {a : Arena}

theorem closed_iff_frame? : a.Closed ↔ ∀ h f, a.frame? h = some f → f.LinksBelow a.size := by
  rw [closed_iff]
  constructor
  · intro ha h f hf
    exact ha f (Array.mem_of_getElem? hf)
  · intro ha f hf
    obtain ⟨i, hi⟩ := Array.getElem?_of_mem hf
    exact ha ⟨i⟩ f hi

/-- a frame is put behind those of a closed arena -/
theorem Closed.push (ha : a.Closed) {f : Frame} (hf : f.LinksBelow a.size) : Closed ⟨a.frames.push f⟩ := by
  have hextend : (⟨a.frames.push f⟩ : Arena) = a.extend [f] := by simp [Arena.extend]
  rw [hextend]
  apply ha.extend
  intro g hg
  rw [List.mem_singleton.1 hg]
  exact hf.mono (Nat.le_add_right _ _)

theorem Closed.alloc (ha : a.Closed) (l : Label) : (a.alloc l).Closed :=
  ha.push ⟨by simp [Frame.ofLabel, Slots.empty], by simp [Frame.ofLabel]⟩

/-- a change that links to frames of the arena keeps it closed -/
theorem Closed.modify (ha : a.Closed) (h : Handle) {change : Frame → Frame}
    (hchange : ∀ f, f.LinksBelow a.size → (change f).LinksBelow a.size) : (a.modify h change).Closed := by
  rw [closed_iff_frame?] at ha ⊢
  intro k f hf
  rw [size_modify]
  by_cases hk : k = h
  · subst hk
    rw [frame?_modify_self] at hf
    obtain ⟨g, hg, rfl⟩ := Option.map_eq_some_iff.1 hf
    exact hchange g (ha k g hg)
  · rw [frame?_modify_of_ne a change hk] at hf
    exact ha k f hf

end Arena

theorem Frame.LinksBelow.setSlot {n : Nat} {f : Frame} (hf : f.LinksBelow n) (key : String) {h : Handle}
    (hh : h.index < n) : (f.setSlot key h).LinksBelow n := by
  refine ⟨?_, hf.2⟩
  intro e he
  rcases Slots.fst_of_mem_insertEntry he with rfl | he
  · exact hh
  · exact hf.1 e he

theorem Frame.LinksBelow.addChild {n : Nat} {f : Frame} (hf : f.LinksBelow n) {h : Handle} (hh : h.index < n) :
    (f.addChild h).LinksBelow n := by
  refine ⟨hf.1, ?_⟩
  intro c hc
  rcases Array.mem_push.1 hc with hc | rfl
  · exact hf.2 c hc
  · exact hh

namespace Grammar

/-- a construct that is open has the frames of an expression: of the list so far, or of a mark by itself -/
theorem exists_openedFrames (n : Nat) (o : Opened) : ∃ e : Expr, openedFrames n o = e.frames n := by
  cases o with
  | list p done => exact ⟨.list done, rfl⟩
  | quote p op => exact ⟨.leaf op, rfl⟩

/-- the frames of constructs that are open link to each other only -/
theorem linksBelow_stackFrames (n : Nat) (stack : List Opened) :
    ∀ f ∈ stackFrames n stack, f.LinksBelow (n + (stackFrames n stack).length) := by
  induction stack with
  | nil => simp [stackFrames]
  | cons o below ih =>
    obtain ⟨e, he⟩ := exists_openedFrames (n + (stackFrames n below).length) o
    rw [stackFrames, he, List.length_append, Expr.length_frames, ← Nat.add_assoc]
    intro f hf
    rcases List.mem_append.1 hf with hf | hf
    · exact (ih f hf).mono (Nat.le_add_right _ _)
    · exact e.linksBelow_frames _ f hf

theorem closed_opened {a : Arena} (ha : a.Closed) (stack : List Opened) : (opened a stack).Closed :=
  ha.extend (linksBelow_stackFrames a.size stack)

end Grammar

/-! ## Sound steps -/

/-- a step from the arena `a` to a closed one that has all frames of `a`. It looks for no frame that is not there, and
what it answers is `good` -/
structure Step.Sound {α : Type} (a : Arena) (good : Arena → α → Prop) (s : Step α) : Prop where
  closed : s.arena.Closed
  grown : a.size ≤ s.arena.size
  found : ∀ h, s.answer ≠ .error (.dangling h)
  answers : ∀ x, s.answer = .ok x → good s.arena x

/-- the handle names a frame -/
def Arena.Has (a : Arena) (h : Handle) : Prop := a.contains h = true

namespace Step

variable {α β : Type} {a : Arena} {good : Arena → α → Prop} {good' : Arena → β → Prop}

theorem sound_ok (ha : a.Closed) {x : α} (hx : good a x) : Sound a good ⟨a, .ok x⟩ where
  closed := ha
  grown := le_rfl
  found h hh := by cases hh
  answers y hy := by
    obtain rfl := Except.ok.inj hy
    exact hx

theorem sound_error (ha : a.Closed) {e : Stop} (he : ∀ h, e ≠ .dangling h) : Sound a good ⟨a, .error e⟩ where
  closed := ha
  grown := le_rfl
  found h hh := he h (Except.error.inj hh)
  answers y hy := by cases hy

/-- a sound step from a later arena -/
theorem Sound.later {b : Arena} {s : Step α} (h : s.Sound b good) (hab : a.size ≤ b.size) : s.Sound a good :=
  ⟨h.closed, hab.trans h.grown, h.found, h.answers⟩

/-- **Sound steps one after the other.** -/
theorem Sound.bind {s : Step α} (h : s.Sound a good) {next : Arena → α → Step β}
    (hnext : ∀ x, s.answer = .ok x → (next s.arena x).Sound s.arena good') : (s.bind next).Sound a good' := by
  rcases s with ⟨b, e | x⟩
  · refine ⟨h.closed, h.grown, ?_, ?_⟩
    · intro k hk
      exact h.found k (congrArg Except.error (Except.error.inj hk))
    · intro y hy
      cases hy
  · exact (hnext x rfl).later h.grown

end Step

/-! ## What comes from outside -/

/-- handles that come from outside, each with the arena at the time -/
abbrev Supplies := List (Arena × Handle)

/-- each of them names a frame at the time -/
def Supplies.Valid (vs : Supplies) : Prop := ∀ v ∈ vs, v.1.contains v.2 = true

instance (vs : Supplies) : Decidable vs.Valid := by
  unfold Supplies.Valid; infer_instance

theorem Supplies.valid_cons {a : Arena} {h : Handle} {vs : Supplies} :
    Supplies.Valid ((a, h) :: vs) ↔ a.contains h = true ∧ vs.Valid :=
  List.forall_mem_cons

theorem Supplies.valid_append {vs ws : Supplies} : Supplies.Valid (vs ++ ws) ↔ vs.Valid ∧ ws.Valid :=
  List.forall_mem_append

/-- what is supplied behind a step; nothing follows one that stops -/
def Step.behind {α : Type} (s : Step α) (next : Arena → α → Supplies) : Supplies :=
  match s.answer with
  | .ok x => next s.arena x
  | .error _ => []

theorem Step.behind_of_ok {α : Type} {s : Step α} {x : α} (hx : s.answer = .ok x) (next : Arena → α → Supplies) :
    s.behind next = next s.arena x := by
  rw [Step.behind, hx]

/-- the handle of an attachment that is said to be there -/
def Attachment.supplies (a : Arena) : Attachment → Supplies
  | .present h => [(a, h)]
  | .detached _ => []

/-- what a chain of links supplies, each link when its turn comes -/
def Arena.linkAllSupplies (a : Arena) (target : Handle) : List Link → Supplies
  | [] => []
  | l :: ls => l.that.supplies a ++ (a.link target l).behind fun b _ => b.linkAllSupplies target ls

/-! ## Links -/

namespace Arena

variable {a : Arena} {target : Handle}

theorem has_iff {h : Handle} : a.Has h ↔ h.index < a.size := by rw [Has, contains, decide_eq_true_iff]

theorem Has.mono {b : Arena} {h : Handle} (hh : a.Has h) (hab : a.size ≤ b.size) : b.Has h := contains_mono hab hh

theorem has_next_alloc (a : Arena) (l : Label) : (a.alloc l).Has a.next := contains_next_alloc a l

/-- an attachment is a frame once it is settled -/
theorem settle_sound (ha : a.Closed) {that : Attachment} (hthat : Supplies.Valid (that.supplies a)) :
    (a.settle that).1.Closed ∧ a.size ≤ (a.settle that).1.size ∧ (a.settle that).1.Has (a.settle that).2 := by
  cases that with
  | present h => exact ⟨ha, le_rfl, hthat _ (List.mem_singleton_self _)⟩
  | detached l => exact ⟨ha.alloc l, a.size_le_alloc l, a.has_next_alloc l⟩

theorem update_sound (ha : a.Closed) (ht : a.Has target) {change : Frame → Frame}
    (hchange : ∀ f, f.LinksBelow a.size → (change f).LinksBelow a.size) :
    (a.update target change).Sound a fun _ _ => True := by
  rw [update_of_contains ht]
  exact (Step.sound_ok (ha.modify target hchange) trivial).later (size_modify a target change).ge

theorem linkKeyed_sound (ha : a.Closed) (ht : a.Has target) {that : Handle} (hthat : a.Has that) (key : Label → String) :
    (a.linkKeyed target that key).Sound a fun _ _ => True := by
  obtain ⟨f, hf⟩ := exists_frame? hthat
  rw [linkKeyed, hf]
  exact update_sound ha ht fun g hg => hg.setSlot _ (has_iff.1 hthat)

theorem link_sound (ha : a.Closed) (ht : a.Has target) {l : Link} (hl : Supplies.Valid (l.that.supplies a)) :
    (a.link target l).Sound a fun _ _ => True := by
  obtain ⟨hclosed, hgrown, hthat⟩ := settle_sound ha hl
  have ht' := ht.mono hgrown
  have hindex := has_iff.1 hthat
  rw [History.link_eq]
  split
  · exact (update_sound hclosed ht' fun f hf => hf.setSlot _ hindex).later hgrown
  · exact (linkKeyed_sound hclosed ht' hthat _).later hgrown
  · exact (linkKeyed_sound hclosed ht' hthat _).later hgrown
  · exact (update_sound hclosed ht' fun f hf => hf.addChild hindex).later hgrown

theorem linkAll_eq_bind (a : Arena) (target : Handle) (l : Link) (ls : List Link) :
    a.linkAll target (l :: ls) = (a.link target l).bind fun b _ => b.linkAll target ls := by
  rw [linkAll]
  rcases a.link target l with ⟨b, e | _⟩ <;> rfl

/-- **Links one after the other**, each to a frame that is there when its turn comes. -/
theorem linkAll_sound (ha : a.Closed) (ht : a.Has target) {ls : List Link}
    (hls : Supplies.Valid (a.linkAllSupplies target ls)) : (a.linkAll target ls).Sound a Has := by
  induction ls generalizing a with
  | nil => exact Step.sound_ok ha ht
  | cons l ls ih =>
    obtain ⟨hl, hrest⟩ := Supplies.valid_append.1 hls
    have hlink := link_sound ha ht hl
    rw [linkAll_eq_bind]
    apply hlink.bind
    intro x hx
    rw [Step.behind_of_ok hx] at hrest
    exact ih hlink.closed (ht.mono hlink.grown) hrest

/-! ## Copies and slots -/

theorem copy_sound (ha : a.Closed) {h : Handle} (hh : a.Has h) : (a.copy h).Sound a Has := by
  obtain ⟨f, hf⟩ := exists_frame? hh
  have hlinks := closed_iff_frame?.1 ha h f hf
  have hsize : Arena.size ⟨a.frames.push f⟩ = a.size + 1 := by simp [size]
  have hnext : Has ⟨a.frames.push f⟩ a.next := by
    rw [has_iff, hsize]
    exact Nat.lt_succ_self _
  rw [copy, hf]
  exact (Step.sound_ok (ha.push hlinks) hnext).later (by omega)

/-- a slot that is there holds a frame, and one that is not there is an error -/
theorem get_cases (ha : a.Closed) {h : Handle} (hh : a.Has h) (key : String) :
    (∃ x, a.get h key = .ok x ∧ a.Has x) ∨ ∃ e, a.get h key = .error (.failed (.lookup e)) := by
  obtain ⟨f, hf⟩ := exists_frame? hh
  simp only [get, withFrame, hf]
  cases hslot : f.slots.get? key with
  | none => exact .inr ⟨_, rfl⟩
  | some x =>
    obtain ⟨front, behind, hentries, -⟩ := List.lookup_eq_some_iff.1 hslot
    have hentry : (key, x) ∈ f.slots.entries := by simp [hentries]
    exact .inl ⟨x, rfl, has_iff.2 ((closed_iff_frame?.1 ha h f hf).1 _ hentry)⟩

theorem get_sound (ha : a.Closed) {h : Handle} (hh : a.Has h) (key : String) : Step.Sound a Has ⟨a, a.get h key⟩ := by
  rcases get_cases ha hh key with ⟨x, hx, hthere⟩ | ⟨e, he⟩
  · rw [hx]
    exact Step.sound_ok ha hthere
  · rw [he]
    exact Step.sound_error ha fun k hk => by cases hk

end Arena

/-! ## Native functions -/

section Actions

variable (evaluate : Arena → Handle → Handle → Step Handle) (called : Arena → Handle → Handle → Supplies) (env : Handle)

/-- the constants that an action gives in the environment `env`, each when it gives it, where `called` is what an
evaluation supplies -/
def actionSupplies : Action → List Handle → Arena → Supplies
  | .give h, _, a => [(a, h)]
  | .environment, _, _ | .earlier _, _, _ | .raise _, _, _ | .allocate _ _, _, _ => []
  | .copy original, results, a => actionSupplies original results a
  | .slot frame _, results, a => actionSupplies frame results a
  | .evaluate frame place, results, a =>
    actionSupplies frame results a ++ (frame.run evaluate env results a).behind fun b h =>
      actionSupplies place results b ++ (place.run evaluate env results b).behind fun c e => called c h e
  | .attach target _ that, results, a =>
    actionSupplies target results a ++ (target.run evaluate env results a).behind fun b _ =>
      actionSupplies that results b
  | .andThen first second, results, a =>
    actionSupplies first results a ++ (first.run evaluate env results a).behind fun b h =>
      actionSupplies second (h :: results) b
  | .orElse first second, results, a =>
    actionSupplies first results a ++
      match first.run evaluate env results a with
      | ⟨b, .error (.failed _)⟩ => actionSupplies second results b
      | _ => []

/-- the arena is closed and has the environment and the results so far -/
structure Ready (results : List Handle) (a : Arena) : Prop where
  closed : a.Closed
  place : a.Has env
  earlier : ∀ r ∈ results, a.Has r

variable {evaluate called env}

theorem Ready.after {results : List Handle} {a : Arena} (h : Ready env results a) {α : Type} {good : Arena → α → Prop}
    {s : Step α} (hs : s.Sound a good) : Ready env results s.arena :=
  ⟨hs.closed, h.place.mono hs.grown, fun r hr => (h.earlier r hr).mono hs.grown⟩

theorem Ready.cons {results : List Handle} {a : Arena} (h : Ready env results a) {r : Handle} (hr : a.Has r) :
    Ready env (r :: results) a :=
  ⟨h.closed, h.place, List.forall_mem_cons.2 ⟨hr, h.earlier⟩⟩

/-- a single link to a frame, of a frame that is there -/
theorem Arena.attach_sound {a : Arena} (ha : a.Closed) {target that : Handle} (ht : a.Has target) (hthat : a.Has that)
    (way : Way) : (a.linkAll target [way.link (.present that)]).Sound a Has := by
  apply linkAll_sound ha ht
  have hway : (way.link (.present that)).that = .present that := by cases way <;> rfl
  rw [linkAllSupplies, hway, Supplies.valid_append]
  constructor
  · intro v hv
    rw [List.mem_singleton.1 hv]
    exact hthat
  · unfold Step.behind linkAllSupplies
    split <;> exact fun v hv => by cases hv

/-- **What a native function does is sound**, if the evaluations that it asks for are. -/
theorem Action.run_sound
    (hcall : ∀ a h e, a.Closed → a.Has h → a.Has e → (called a h e).Valid → (evaluate a h e).Sound a Arena.Has) :
    ∀ (action : Action) (results : List Handle) (a : Arena), Ready env results a →
      (actionSupplies evaluate called env action results a).Valid →
      (action.run evaluate env results a).Sound a Arena.Has
  | .environment, _, _, h, _ => Step.sound_ok h.closed h.place
  | .earlier index, results, a, h, _ => by
    apply Step.sound_ok h.closed
    rw [List.getD_eq_getElem?_getD]
    cases hr : results[index]? with
    | none => exact h.place
    | some r => exact h.earlier r (List.mem_of_getElem? hr)
  | .give x, _, a, h, hvalid => Step.sound_ok h.closed (hvalid (a, x) (List.mem_singleton_self _))
  | .raise e, _, _, h, _ => Step.sound_error h.closed fun k hk => by cases hk
  | .allocate kind value, _, a, h, _ =>
    (Step.sound_ok (h.closed.alloc ⟨kind, value⟩) (a.has_next_alloc ⟨kind, value⟩)).later (a.size_le_alloc _)
  | .copy original, results, a, h, hvalid => by
    have horiginal := run_sound hcall original results a h hvalid
    apply horiginal.bind
    intro x hx
    exact Arena.copy_sound horiginal.closed (horiginal.answers x hx)
  | .slot frame key, results, a, h, hvalid => by
    have hframe := run_sound hcall frame results a h hvalid
    apply hframe.bind
    intro x hx
    exact Arena.get_sound hframe.closed (hframe.answers x hx) key
  | .evaluate frame place, results, a, h, hvalid => by
    obtain ⟨hvalid, hbehind⟩ := Supplies.valid_append.1 hvalid
    have hframe := run_sound hcall frame results a h hvalid
    apply hframe.bind
    intro x hx
    rw [Step.behind_of_ok hx] at hbehind
    obtain ⟨hvalid', hbehind'⟩ := Supplies.valid_append.1 hbehind
    have hplace := run_sound hcall place results _ (h.after hframe) hvalid'
    apply hplace.bind
    intro e he
    rw [Step.behind_of_ok he] at hbehind'
    exact hcall _ x e hplace.closed ((hframe.answers x hx).mono hplace.grown) (hplace.answers e he) hbehind'
  | .attach target way that, results, a, h, hvalid => by
    obtain ⟨hvalid, hbehind⟩ := Supplies.valid_append.1 hvalid
    have htarget := run_sound hcall target results a h hvalid
    apply htarget.bind
    intro x hx
    rw [Step.behind_of_ok hx] at hbehind
    have hthat := run_sound hcall that results _ (h.after htarget) hbehind
    apply hthat.bind
    intro y hy
    exact Arena.attach_sound hthat.closed ((htarget.answers x hx).mono hthat.grown) (hthat.answers y hy) way
  | .andThen first second, results, a, h, hvalid => by
    obtain ⟨hvalid, hbehind⟩ := Supplies.valid_append.1 hvalid
    have hfirst := run_sound hcall first results a h hvalid
    apply hfirst.bind
    intro x hx
    rw [Step.behind_of_ok hx] at hbehind
    exact run_sound hcall second _ _ ((h.after hfirst).cons (hfirst.answers x hx)) hbehind
  | .orElse first second, results, a, h, hvalid => by
    obtain ⟨hvalid, hbehind⟩ := Supplies.valid_append.1 hvalid
    have hfirst := run_sound hcall first results a h hvalid
    rw [Action.run]
    rcases hrun : first.run evaluate env results a with ⟨b, (e | k | _) | x⟩ <;> rw [hrun] at hfirst hbehind
    · exact (run_sound hcall second results b (h.after hfirst) hbehind).later hfirst.grown
    all_goals exact hfirst

end Actions

/-! ## Evaluation -/

/-- what an evaluation supplies: that of a native function what the function gives, any other nothing -/
def Arena.evaluateSupplies : Nat → Arena → Handle → Handle → Supplies
  | limit, a, h, env =>
    match a.frame? h with
    | none => []
    | some f =>
      if f.label.kind.family = .primitive then []
      else
        match f.label.kind, f.label.value, limit with
        | .fn, .native _ action, limit + 1 => actionSupplies (evaluate limit) (evaluateSupplies limit) env action [] a
        | _, _, _ => []

namespace Arena

variable {a : Arena}

/-- the evaluation of a frame leaves the arena as it is, with an answer or an error that is not of a handle, or does what a
native function does -/
theorem evaluate_of_frame {h : Handle} {f : Frame} (hf : a.frame? h = some f) (limit : Nat) (env : Handle) :
    a.evaluate limit h env = ⟨a, .ok h⟩ ∨
    (∃ e, (∀ k, e ≠ .dangling k) ∧ a.evaluate limit h env = ⟨a, .error e⟩) ∨
    ∃ below action, limit = below + 1 ∧ a.evaluate limit h env = action.run (evaluate below) env [] a ∧
      a.evaluateSupplies limit h env = actionSupplies (evaluate below) (evaluateSupplies below) env action [] a := by
  have hfailed (e : EvalError) : ∀ k, Stop.failed e ≠ .dangling k := fun k hk => by cases hk
  have hunfinished : ∀ k, Stop.unfinished ≠ .dangling k := fun k hk => by cases hk
  unfold evaluateSupplies evaluate
  rw [hf]
  obtain ⟨⟨kind, value⟩, slots, children, identity⟩ := f
  dsimp only
  split_ifs with hp
  · exact .inl rfl
  · right
    rcases limit with _ | below <;> rcases value with s | n | ⟨name, action⟩ <;> cases kind <;>
      first
      | exact .inl ⟨_, hfailed _, rfl⟩
      | exact .inl ⟨_, hunfinished, rfl⟩
      | exact .inr ⟨below, action, rfl, rfl, rfl⟩

/-- **Evaluation is sound**, whatever native functions do. -/
theorem evaluate_sound (limit : Nat) (ha : a.Closed) {h env : Handle} (hh : a.Has h) (henv : a.Has env)
    (hvalid : (a.evaluateSupplies limit h env).Valid) : (a.evaluate limit h env).Sound a Has := by
  induction limit using Nat.strong_induction_on generalizing a h env with
  | _ limit ih =>
    obtain ⟨f, hf⟩ := exists_frame? hh
    rcases evaluate_of_frame hf limit env with heval | ⟨e, he, heval⟩ | ⟨below, action, rfl, hrun, hsupplies⟩
    · rw [heval]
      exact Step.sound_ok ha hh
    · rw [heval]
      exact Step.sound_error ha he
    · rw [hrun]
      rw [hsupplies] at hvalid
      refine Action.run_sound ?_ action [] a ⟨ha, henv, by simp⟩ hvalid
      intro b x e hb hx he hv
      exact ih below (Nat.lt_succ_self below) hb hx he hv

end Arena

/-! ## Operations -/

namespace Operation

/-- what an operation supplies: the handles that it is asked with, links each when its turn comes, and the constants that
native functions give in it -/
def supplies : Operation → Arena → Supplies
  | .alloc _, _ | .next _ _, _ | .read _ _, _ => []
  | .copy original, a => [(a, original)]
  | .new l links, a => (a.alloc l).linkAllSupplies a.next links
  | .build target links, a => (a, target) :: a.linkAllSupplies target links
  | .evaluate limit h env, a => (a, h) :: (a, env) :: a.evaluateSupplies limit h env

/-- what operations one after the other supply -/
def suppliesAll : Arena → List Operation → Supplies
  | _, [] => []
  | a, op :: ops => op.supplies a ++ suppliesAll (op.run a).1 ops

/-- why an operation stops, if it does; of the reader, which takes its containers to be there, why it would stop if it
looked -/
def stop? : Operation → Arena → Option Stop
  | .alloc _, _ => none
  | .copy original, a => (a.copy original).stop?
  | .new l links, a => ((a.alloc l).linkAll a.next links).stop?
  | .build target links, a => (a.linkAll target links).stop?
  | .next maxDepth ts, a => (Reader.nextChecked maxDepth a ts).stop?
  | .read s src, a => Reader.stopAll? s.maxDepth a (src.tokens s)
  | .evaluate limit h env, a => (a.evaluate limit h env).stop?

/-- an operation on the arena `a` leaves a closed arena, answers frames of it and looks for no frame that is not there -/
structure Sound (op : Operation) (a : Arena) : Prop where
  closed : (op.run a).1.Closed
  answers : ∀ x ∈ (op.run a).2, (op.run a).1.Has x
  found : ∀ h, op.stop? a ≠ some (.dangling h)

end Operation

/-- a sound step, as an operation leaves it -/
theorem Step.Sound.left {a : Arena} {s : Step Handle} (h : s.Sound a Arena.Has) :
    s.left.1.Closed ∧ (∀ x ∈ s.left.2, s.left.1.Has x) ∧ ∀ k, s.stop? ≠ some (.dangling k) := by
  rcases s with ⟨b, e | x⟩
  · refine ⟨h.closed, by simp [Step.left, Except.toOption], ?_⟩
    intro k hk
    exact h.found k (congrArg Except.error (Option.some.inj hk))
  · refine ⟨h.closed, ?_, fun k hk => by cases hk⟩
    intro y hy
    have hyx : y = x := by simpa [Step.left, Except.toOption, eq_comm] using hy
    rw [hyx]
    exact h.answers x rfl

namespace Operation

variable {a : Arena}

theorem next_sound (ha : a.Closed) (maxDepth : Nat) (ts : TokenStream) : Sound (.next maxDepth ts) a := by
  obtain ⟨hclosed, hanswers⟩ : (run (.next maxDepth ts) a).1.Closed ∧
      ∀ x ∈ (run (.next maxDepth ts) a).2, (run (.next maxDepth ts) a).1.Has x := by
    simp only [run, Grammar.next_eq_parse]
    cases Grammar.parse maxDepth [] ts with
    | ended => exact ⟨ha, by simp [Grammar.Parsed.call]⟩
    | expression e rest =>
      refine ⟨Arena.closed_plant ha e, ?_⟩
      intro x hx
      rw [List.mem_singleton.1 hx]
      exact a.contains_plant e
    | failed stack err rest => exact ⟨Grammar.closed_opened ha stack, by simp [Grammar.Parsed.call]⟩
  refine ⟨hclosed, hanswers, ?_⟩
  intro h hh
  rw [stop?, Reader.nextChecked_eq] at hh
  cases hh

theorem read_sound (ha : a.Closed) (s : Settings) (src : CharSource) : Sound (.read s src) a := by
  have hextend {hs : Array Handle} {b : Arena} (h : ∀ x ∈ hs, b.Has x) (fs : List Frame) :
      ∀ x ∈ hs, (b.extend fs).Has x := by
    intro x hx
    apply (h x hx).mono
    rw [Arena.size_extend]
    exact Nat.le_add_right _ _
  have hopened (n : Nat) (hs : Array Handle) (b : Arena) (stack : List Opened) (h : b.Closed ∧ ∀ x ∈ hs, b.Has x) :
      (Grammar.opened b stack).Closed ∧ ∀ x ∈ hs, (Grammar.opened b stack).Has x :=
    ⟨Grammar.closed_opened h.1 stack, hextend h.2 _⟩
  have hplanted (n : Nat) (hs : Array Handle) (b : Arena) (e : Expr) (h : b.Closed ∧ ∀ x ∈ hs, b.Has x) :
      (b.plant e).Closed ∧ ∀ x ∈ hs.push b.next, (b.plant e).Has x := by
    refine ⟨Arena.closed_plant h.1 e, ?_⟩
    intro x hx
    rcases Array.mem_push.1 hx with hx | rfl
    · exact hextend h.2 _ x hx
    · exact b.contains_plant e
  obtain ⟨-, ⟨hclosed, hanswers⟩, -⟩ := Reading.onward_keeps s.maxDepth Reading.collect.visit hopened hplanted 0 #[] a
    ⟨ha, by simp⟩ (src.tokens s)
  refine ⟨hclosed, ?_, ?_⟩
  · intro x hx
    exact hanswers x (Array.mem_def.2 hx)
  · intro h hh
    rw [stop?, Reader.stopAll?_eq_none] at hh
    cases hh

/-- **Every operation is sound** whose supplies are frames. -/
theorem run_sound (ha : a.Closed) (op : Operation) (hop : (op.supplies a).Valid) : op.Sound a := by
  cases op with
  | alloc l =>
    refine ⟨ha.alloc l, ?_, fun h hh => by cases hh⟩
    intro x hx
    rw [List.mem_singleton.1 hx]
    exact a.has_next_alloc l
  | copy original =>
    obtain ⟨hclosed, hanswers, hfound⟩ := (Arena.copy_sound ha (hop (a, original) (List.mem_singleton_self _))).left
    exact ⟨hclosed, hanswers, hfound⟩
  | new l links =>
    obtain ⟨hclosed, hanswers, hfound⟩ := (Arena.linkAll_sound (ha.alloc l) (a.has_next_alloc l) hop).left
    exact ⟨hclosed, hanswers, hfound⟩
  | build target links =>
    obtain ⟨htarget, hlinks⟩ := List.forall_mem_cons.1 hop
    obtain ⟨hclosed, hanswers, hfound⟩ := (Arena.linkAll_sound ha htarget hlinks).left
    exact ⟨hclosed, hanswers, hfound⟩
  | next maxDepth ts => exact next_sound ha maxDepth ts
  | read s src => exact read_sound ha s src
  | evaluate limit h env =>
    obtain ⟨hh, hrest⟩ := List.forall_mem_cons.1 hop
    obtain ⟨henv, hgiven⟩ := List.forall_mem_cons.1 hrest
    obtain ⟨hclosed, hanswers, hfound⟩ := (Arena.evaluate_sound limit ha hh henv hgiven).left
    exact ⟨hclosed, hanswers, hfound⟩

/-- operations leave a closed arena, and what comes behind them supplies frames -/
theorem runAll_sound (ha : a.Closed) {before later : List Operation} (h : (suppliesAll a (before ++ later)).Valid) :
    (runAll a before).Closed ∧ (suppliesAll (runAll a before) later).Valid := by
  induction before generalizing a with
  | nil => exact ⟨ha, h⟩
  | cons op before ih =>
    obtain ⟨hop, hrest⟩ := Supplies.valid_append.1 h
    exact ih (run_sound ha op hop).closed hrest

end Operation

/-- everything can be looked at that names a frame of a closed arena -/
theorem Arena.looks (a : Arena) (ha : a.Closed) {x : Handle} (hx : a.Has x) :
    (∃ head, a.head? x = some head) ∧ (∃ dump, a.listing x = .ok dump) ∧
      ∀ key, (∃ y, a.get x key = .ok y ∧ a.Has y) ∨ ∃ e, a.get x key = .error (.failed (.lookup e)) := by
  obtain ⟨f, hf⟩ := exists_frame? hx
  refine ⟨⟨_, by rw [head?, hf]; rfl⟩, ⟨_, listing_eq_text ha hx⟩, get_cases ha hx⟩

open Operation in
/-- **Handles stay valid.** Let operations be done on an empty arena that are asked with handles of frames only, and whose
native functions give constants of frames only, each of them at the time. Then the arena is closed behind every operation,
no operation looks for a frame that is not there, every handle that it answers names a frame, and an evaluation that comes
to an end answers a result or an error of its own. Every handle that names a frame has a head and a listing, and under
every key a handle that names a frame or an error of the lookup. -/
theorem runAll_valid (ops : List Operation) (h : (suppliesAll .empty ops).Valid) :
    ∀ before op later, ops = before ++ op :: later →
      let a := runAll .empty before
      let b := (op.run a).1
      b.Closed ∧ (∀ x, op.stop? a ≠ some (.dangling x)) ∧ (∀ x ∈ (op.run a).2, b.contains x = true) ∧
      (∀ limit x env, op = .evaluate limit x env → (a.evaluate limit x env).answer = .error .unfinished ∨
        (∃ y, (a.evaluate limit x env).answer = .ok y) ∨ ∃ e, (a.evaluate limit x env).answer = .error (.failed e)) ∧
      ∀ x, b.contains x = true →
        (∃ head, b.head? x = some head) ∧ (∃ dump, b.listing x = .ok dump) ∧
        ∀ key, (∃ y, b.get x key = .ok y ∧ b.contains y = true) ∨ ∃ e, b.get x key = .error (.failed (.lookup e)) := by
  intro before op later hops a b
  rw [hops] at h
  obtain ⟨hclosed, hlater⟩ := runAll_sound Arena.closed_empty h
  have hsound := run_sound hclosed op (Supplies.valid_append.1 hlater).1
  refine ⟨hsound.closed, hsound.found, hsound.answers, ?_, fun x hx => b.looks hsound.closed hx⟩
  rintro limit x env rfl
  have hfound := hsound.found
  rcases hanswer : (a.evaluate limit x env).answer with (e | k | _) | y
  · exact .inr (.inr ⟨e, rfl⟩)
  · exact absurd (by rw [stop?, Step.stop?, hanswer]) (hfound k)
  · exact .inl rfl
  · exact .inr (.inl ⟨y, rfl⟩)

/-- a function that gives a constant for a frame which it allocates itself, and then fails; a link to a new frame and one
that is asked with its handle; and a list that is left open, of which a copy is made -/
def Operation.handling : List Operation :=
  let body : Action :=
    .andThen (.allocate .list (.text "")) (.andThen (.attach .environment .child (.give ⟨2⟩)) (.fail "f" "stop"))
  [.alloc ⟨.list, .text ""⟩, .alloc ⟨.fn, .native "f" body⟩, .evaluate 1 ⟨1⟩ ⟨0⟩,
    .build ⟨0⟩ [.child (.detached ⟨.list, .text "x"⟩), .slot "a" (.present ⟨3⟩)],
    .next 1 [.ok ⟨.opening, .start⟩, .ok ⟨.leaf ⟨.symbol, .text "y"⟩, .start⟩], .copy ⟨4⟩]

theorem runAll_valid_handling :
    (Operation.suppliesAll .empty Operation.handling).Valid ∧
    let a := Operation.runAll .empty Operation.handling
    a.Closed ∧ a.contains ⟨6⟩ = true ∧ ∃ dump, a.listing ⟨6⟩ = .ok dump := by
  have hvalid : (Operation.suppliesAll .empty Operation.handling).Valid := by decide
  have hthere : (Operation.runAll .empty Operation.handling).contains ⟨6⟩ = true := by decide
  obtain ⟨hclosed, -, -, -, hlooks⟩ :=
    runAll_valid Operation.handling hvalid (Operation.handling.take 5) (.copy ⟨4⟩) [] rfl
  obtain ⟨-, hlisting, -⟩ := hlooks ⟨6⟩ hthere
  exact ⟨hvalid, hclosed, hthere, hlisting⟩

end FrameGraph
