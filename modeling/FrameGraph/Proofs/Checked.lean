/-
The reader never looks for a frame that is not there.

The reader changes the frames of its containers and takes them to be there. A checked reader looks first, and stops at a
container without a frame as every operation on an arena stops at a handle that dangles. The containers of a call are
frames that the call has allocated, so the checked reader never stops: it is the reader, on whatever arena and tokens.

Results:
- `takeChecked_eq`, `take_within`: where the containers are there, a token is taken without a stop, and they stay there.
- `nextChecked_eq`: a call of the checked reader is a call of the reader.
- `stopAll?_eq_none`: reading all expressions never stops.
-/
import FrameGraph.Arena.Link
import FrameGraph.Proofs.Arena
import FrameGraph.Reader

namespace FrameGraph

/-- why a step stops, if it does -/
def Step.stop? {α : Type} (s : Step α) : Option Stop :=
  match s.answer with
  | .ok _ => none
  | .error e => some e

def Container.handle : Container → Handle
  | .list h _ | .quote h _ _ => h

/-- where a call stands, it stands in frames of the arena -/
def Progress.Within (a : Arena) : Progress → Prop
  | .inside stack => ∀ c ∈ stack, a.contains c.handle = true
  | .complete h => a.contains h = true
  | .failed _ => True

namespace Reader

/-! ## The checked reader -/

/-- hand a finished expression to its container, if the container is there -/
def handChecked (a : Arena) (h : Handle) : List Container → Step Progress
  | [] => ⟨a, .ok (.complete h)⟩
  | .list l p :: below => (a.update l (·.addChild h)).bind fun a _ => ⟨a, .ok (.inside (.list l p :: below))⟩
  | .quote q _ _ :: below => (a.update q (·.addChild h)).bind fun a _ => handChecked a q below

/-- take a token -/
def takeChecked (maxDepth : Nat) (a : Arena) (stack : List Container) (t : Located Token) : Step Progress :=
  let new := a.next
  match t.item with
  | .leaf l => handChecked (a.alloc l) new stack
  | .closing =>
    match stack with
    | .list l _ :: below => handChecked a l below
    | _ => ⟨a, .ok (.failed ⟨.structural .unexpectedClose, t.position⟩)⟩
  | .quote op =>
    if maxDepth ≤ stack.length then ⟨a, .ok (.failed ⟨.structural .nestingTooDeep, t.position⟩)⟩
    else ⟨a.alloc op, .ok (.inside (.quote new t.position op.value.raw :: stack))⟩
  | .opening =>
    if maxDepth ≤ stack.length then ⟨a, .ok (.failed ⟨.structural .nestingTooDeep, t.position⟩)⟩
    else ⟨a.alloc listLabel, .ok (.inside (.list new t.position :: stack))⟩

/-- read on inside the containers of `stack`; the answer is the outcome and the tokens that are left unread -/
def readOnChecked (maxDepth : Nat) (a : Arena) (stack : List Container) : TokenStream → Step (Outcome × TokenStream)
  | [] =>
    match stack with
    | [] => ⟨a, .ok (.ended, [])⟩
    | c :: _ => ⟨a, .ok (.failed c.unfinished, [])⟩
  | .error e :: ts => ⟨a, .ok (.failed ⟨.lexical e.item, e.position⟩, ts)⟩
  | .ok t :: ts =>
    (takeChecked maxDepth a stack t).bind fun a progress =>
      match progress with
      | .inside stack => readOnChecked maxDepth a stack ts
      | .complete h => ⟨a, .ok (.expression h, ts)⟩
      | .failed e => ⟨a, .ok (.failed e, ts)⟩

/-- read the next top-level expression -/
def nextChecked (maxDepth : Nat) (a : Arena) (ts : TokenStream) : Step (Outcome × TokenStream) :=
  readOnChecked maxDepth a [] ts

/-- why reading all expressions stops at a handle, if it does -/
def stopAll? (maxDepth : Nat) (a : Arena) (ts : TokenStream) : Option Stop :=
  match _called : next maxDepth a ts with
  | ⟨b, .expression _, rest⟩ => (nextChecked maxDepth a ts).stop?.or (stopAll? maxDepth b rest)
  | _ => (nextChecked maxDepth a ts).stop?
termination_by ts.length
decreasing_by
  exact length_rest_lt_of_next _called Outcome.noConfusion

/-! ## It never stops -/

variable {a : Arena} {stack : List Container}

theorem handChecked_eq (hstack : ∀ c ∈ stack, a.contains c.handle = true) (h : Handle) :
    handChecked a h stack = ⟨(hand a h stack).1, .ok (hand a h stack).2⟩ := by
  induction stack generalizing a h with
  | nil => rfl
  | cons c below ih =>
    obtain ⟨hc, hbelow⟩ := List.forall_mem_cons.1 hstack
    cases c with
    | list l p =>
      rw [handChecked, Arena.update_of_contains (h := l) hc]
      rfl
    | quote q p mark =>
      rw [handChecked, Arena.update_of_contains (h := q) hc]
      exact ih (fun c hc => by rw [Arena.contains_modify]; exact hbelow c hc) q

theorem takeChecked_eq (maxDepth : Nat) (hstack : ∀ c ∈ stack, a.contains c.handle = true) (t : Located Token) :
    takeChecked maxDepth a stack t = ⟨(take maxDepth a stack t).1, .ok (take maxDepth a stack t).2⟩ := by
  unfold takeChecked take
  cases t.item with
  | leaf l => exact handChecked_eq (fun c hc => Arena.contains_mono (a.size_le_alloc l) (hstack c hc)) a.next
  | closing =>
    rcases stack with _ | ⟨⟨l, p⟩ | ⟨q, p, mark⟩, below⟩
    · rfl
    · exact handChecked_eq (fun c hc => hstack c (List.mem_cons_of_mem _ hc)) l
    · rfl
  | quote op => dsimp only; split_ifs <;> rfl
  | opening => dsimp only; split_ifs <;> rfl

theorem hand_within {h : Handle} (hh : a.contains h = true) (hstack : ∀ c ∈ stack, a.contains c.handle = true) :
    (hand a h stack).2.Within (hand a h stack).1 := by
  induction stack generalizing a h with
  | nil => exact hh
  | cons c below ih =>
    cases c with
    | list l p => exact fun c hc => (Arena.contains_modify a l _ _).trans (hstack c hc)
    | quote q p mark =>
      obtain ⟨hq, hbelow⟩ := List.forall_mem_cons.1 hstack
      exact ih (by rw [Arena.contains_modify]; exact hq) fun c hc => by
        rw [Arena.contains_modify]
        exact hbelow c hc

/-- the containers that a token leaves open are there if those before it were -/
theorem take_within (maxDepth : Nat) (hstack : ∀ c ∈ stack, a.contains c.handle = true) (t : Located Token) :
    (take maxDepth a stack t).2.Within (take maxDepth a stack t).1 := by
  have hgrown (l : Label) : ∀ c ∈ stack, (a.alloc l).contains c.handle = true :=
    fun c hc => Arena.contains_mono (a.size_le_alloc l) (hstack c hc)
  unfold take
  cases t.item with
  | leaf l => exact hand_within (a.contains_next_alloc l) (hgrown l)
  | closing =>
    rcases stack with _ | ⟨⟨l, p⟩ | ⟨q, p, mark⟩, below⟩
    · trivial
    · obtain ⟨hl, hbelow⟩ := List.forall_mem_cons.1 hstack
      exact hand_within hl hbelow
    · trivial
  | quote op =>
    dsimp only
    split_ifs
    · trivial
    · exact List.forall_mem_cons.2 ⟨a.contains_next_alloc op, hgrown op⟩
  | opening =>
    dsimp only
    split_ifs
    · trivial
    · exact List.forall_mem_cons.2 ⟨a.contains_next_alloc listLabel, hgrown listLabel⟩

theorem readOnChecked_eq (maxDepth : Nat) (hstack : ∀ c ∈ stack, a.contains c.handle = true) (ts : TokenStream) :
    let c := readOn maxDepth a stack ts
    readOnChecked maxDepth a stack ts = ⟨c.arena, .ok (c.outcome, c.rest)⟩ := by
  induction ts generalizing a stack with
  | nil => cases stack <;> rfl
  | cons t ts ih =>
    cases t with
    | error e => rfl
    | ok t =>
      have hwithin := take_within maxDepth hstack t
      rw [readOnChecked, takeChecked_eq maxDepth hstack, readOn]
      rcases htake : take maxDepth a stack t with ⟨b, inner | h | e⟩ <;> rw [htake] at hwithin
      · exact ih hwithin
      · rfl
      · rfl

/-- **The reader never looks for a frame that is not there**, whatever the arena and the tokens. -/
theorem nextChecked_eq (maxDepth : Nat) (a : Arena) (ts : TokenStream) :
    let c := next maxDepth a ts
    nextChecked maxDepth a ts = ⟨c.arena, .ok (c.outcome, c.rest)⟩ :=
  readOnChecked_eq maxDepth (by simp) ts

theorem stopAll?_eq_none (maxDepth : Nat) (a : Arena) (ts : TokenStream) : stopAll? maxDepth a ts = none := by
  have hcall (a : Arena) (ts : TokenStream) : (nextChecked maxDepth a ts).stop? = none := by
    rw [nextChecked_eq]
    rfl
  induction a, ts using stopAll?.induct maxDepth with
  | case1 a ts b h rest hnext ih =>
    rw [stopAll?]
    split
    · simp_all
    · exact hcall a ts
  | case2 a ts hnext =>
    rw [stopAll?]
    split
    · simp_all
    · exact hcall a ts

end Reader

end FrameGraph
