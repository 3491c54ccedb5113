/-
Outlines of expressions: what a listing of an expression shows, read off the tree and read off its tokens.

The outline of an expression has an item for each frame, in the order of the frames: its place in the frame above it, its
handle, its depth and its label. An arena in which the expression was laid out lists it as its outline, with no frame
mentioned twice, whatever else is in the arena and whatever dangles there. The item of a token is found without the tree:
the lists and quotes that the tokens before it leave open are those around it, and the elements that the innermost of
them has so far stand before it in its container (`LeavesOpen`).

Results:
- `labels_frames`: the frames of an expression carry the labels of its tokens, in their order.
- `trail_of_shows`: the listing of a stack goes through an expression as its outline, and then on.
- `outline_of_leavesOpen`: the item of a token is where the tokens before it say.
- `entries_of_shows`, `reaches_iff_of_shows`: the listing of an expression has its outline and no more, and its frames are
  all that it reaches.
-/
import FrameGraph.Proofs.Entries
import FrameGraph.Proofs.Grammar

namespace FrameGraph

/-! ## Labels -/

/-- the label of the frame that a token takes; a closing parenthesis takes no frame -/
def Token.label? : Token → Option Label
  | .opening => some Reader.listLabel
  | .closing => none
  | .quote op => some op
  | .leaf l => some l

namespace Expr

/-- the labels of the frames that tokens take -/
def labels (ts : List Token) : List Label := ts.filterMap Token.label?

theorem labels_append (ts us : List Token) : labels (ts ++ us) = labels ts ++ labels us := List.filterMap_append

theorem room_eq_length_labels (ts : List Token) : room ts = (labels ts).length := by
  induction ts with
  | nil => rfl
  | cons t ts ih => cases t <;> simpa [room, labels, Token.label?, List.filterMap_cons] using ih

theorem labels_framesAll_of {es : List Expr} (h : ∀ e ∈ es, ∀ n, (e.frames n).map Frame.label = labels e.tokens)
    (n : Nat) : (framesAll n es).map Frame.label = labels (tokensAll es) := by
  induction es generalizing n with
  | nil => rfl
  | cons e es ih =>
    obtain ⟨hfirst, hrest⟩ := List.forall_mem_cons.1 h
    rw [framesAll, List.map_append, hfirst, ih hrest, tokensAll, labels_append]

/-- frames carry the labels of the tokens that take them -/
theorem labels_frames (e : Expr) (n : Nat) : (e.frames n).map Frame.label = labels e.tokens := by
  induction e generalizing n with
  | leaf l => rfl
  | quote op e ih => simp [frames, ih, tokens, labels, Token.label?]
  | list es ih =>
    have hrest := labels_framesAll_of ih (n + 1)
    simp only [labels] at hrest
    simp [frames, hrest, tokens, labels, Token.label?]

theorem labels_framesAll (es : List Expr) (n : Nat) : (framesAll n es).map Frame.label = labels (tokensAll es) :=
  labels_framesAll_of (fun e _ => e.labels_frames) n

/-! ## Outlines -/

mutual
/-- the mention and the label of each frame of an expression that is laid out from `n` on and stands at some place -/
def outline (n : Nat) (place : Place) (depth : Nat) : Expr → List (Mention × Label)
  | .leaf l => [(⟨place, ⟨n⟩, depth⟩, l)]
  | .quote op e => (⟨place, ⟨n⟩, depth⟩, op) :: e.outline (n + 1) (.child 0) (depth + 1)
  | .list es => (⟨place, ⟨n⟩, depth⟩, Reader.listLabel) :: outlineAll (n + 1) 0 (depth + 1) es

/-- the outlines of expressions that stand one behind the other, behind `index` others -/
def outlineAll (n index depth : Nat) : List Expr → List (Mention × Label)
  | [] => []
  | e :: es => e.outline n (.child index) depth ++ outlineAll (n + e.size) (index + 1) depth es
end

theorem labels_outlineAll_of {es : List Expr}
    (h : ∀ e ∈ es, ∀ n place depth, (e.outline n place depth).map Prod.snd = labels e.tokens) (n index depth : Nat) :
    (outlineAll n index depth es).map Prod.snd = labels (tokensAll es) := by
  induction es generalizing n index with
  | nil => rfl
  | cons e es ih =>
    obtain ⟨hfirst, hrest⟩ := List.forall_mem_cons.1 h
    rw [outlineAll, List.map_append, hfirst, ih hrest, tokensAll, labels_append]

/-- the labels of an outline are those of the tokens -/
theorem labels_outline (e : Expr) (n : Nat) (place : Place) (depth : Nat) :
    (e.outline n place depth).map Prod.snd = labels e.tokens := by
  induction e generalizing n place depth with
  | leaf l => rfl
  | quote op e ih => simp [outline, ih, tokens, labels, Token.label?]
  | list es ih =>
    have hrest := labels_outlineAll_of ih (n + 1) 0 (depth + 1)
    simp only [labels] at hrest
    simp [outline, hrest, tokens, labels, Token.label?]

theorem length_outline (e : Expr) (n : Nat) (place : Place) (depth : Nat) : (e.outline n place depth).length = e.size := by
  rw [← List.length_map Prod.snd, labels_outline, size, room_eq_length_labels]

theorem handles_outlineAll_of {es : List Expr}
    (h : ∀ e ∈ es, ∀ n place depth,
      (e.outline n place depth).map (fun x => x.1.handle) = (List.range' n e.size).map Handle.mk)
    (n index depth : Nat) :
    (outlineAll n index depth es).map (fun x => x.1.handle) = (List.range' n (room (tokensAll es))).map Handle.mk := by
  induction es generalizing n index with
  | nil => rfl
  | cons e es ih =>
    obtain ⟨hfirst, hrest⟩ := List.forall_mem_cons.1 h
    have hrange : List.range' n (e.size + room (tokensAll es)) =
        List.range' n e.size ++ List.range' (n + e.size) (room (tokensAll es)) := by
      simp
    rw [outlineAll, List.map_append, hfirst, ih hrest, tokensAll, room_append, ← List.map_append]
    exact congrArg _ hrange.symm

/-- the handles of an outline are those of the frames, in their order -/
theorem handles_outline (e : Expr) (n : Nat) (place : Place) (depth : Nat) :
    (e.outline n place depth).map (fun x => x.1.handle) = (List.range' n e.size).map Handle.mk := by
  induction e generalizing n place depth with
  | leaf l => rfl
  | quote op e ih => simp [outline, ih, size_quote, Nat.add_comm 1, List.range'_succ]
  | list es ih => simp [outline, handles_outlineAll_of ih, size_list, Nat.add_comm 1, List.range'_succ]

end Expr

/-! ## The item of a token -/

namespace Grammar

open FrameGraph.Expr

/-- where the next expression goes: behind the elements of the innermost open construct -/
def placeIn : List Opened → Place
  | [] => .root
  | .list _ done :: _ => .child done.length
  | .quote _ _ :: _ => .child 0

/-- a further element of the innermost open list -/
theorem LeavesOpen.element {opened : Position} {done : List Expr} {below : List Opened} {p q : List (Located Token)}
    {e : Expr} (h : LeavesOpen (.list opened done :: below) p) (hq : q.map Located.item = e.tokens) :
    LeavesOpen (.list opened (done ++ [e]) :: below) (p ++ q) := by
  cases h with
  | list hbelow ht hdone =>
    rw [List.append_assoc, List.cons_append]
    exact .list hbelow ht (by simp [hdone, hq, tokensAll_append, tokensAll])

/-- the item `x` of an outline stands where the tokens `q` before its token say, if the outline starts behind the tokens
`p` and with the handle `n`: in the constructs that are left open, behind the elements that they have so far -/
def StandsBehind (p q : List (Located Token)) (n : Nat) (x : Mention) : Prop :=
  ∃ inner, LeavesOpen inner (p ++ q) ∧ x = ⟨placeIn inner, ⟨n + room (q.map Located.item)⟩, inner.length⟩

/-- the tokens of an expression that take frames have the items of its outline, in their order -/
def Outlined (e : Expr) : Prop :=
  ∀ (stack : List Opened) (p q r : List (Located Token)) (t : Located Token) (l : Label) (n : Nat), LeavesOpen stack p →
    (q ++ t :: r).map Located.item = e.tokens → t.item.label? = some l →
    ∃ x, (e.outline n (placeIn stack) stack.length)[room (q.map Located.item)]? = some (x, l) ∧ StandsBehind p q n x

theorem outlineAll_of_leavesOpen {es : List Expr} (hes : ∀ e ∈ es, Outlined e) {below : List Opened} {opened : Position}
    {done : List Expr} {p q r : List (Located Token)} {t : Located Token} {l : Label} {n : Nat}
    (hp : LeavesOpen (.list opened done :: below) p) (hq : (q ++ t :: r).map Located.item = tokensAll es ++ [.closing])
    (hl : t.item.label? = some l) :
    ∃ x, (outlineAll n done.length (below.length + 1) es)[room (q.map Located.item)]? = some (x, l) ∧
      StandsBehind p q n x := by
  induction es generalizing done p q n with
  | nil =>
    -- only the closing parenthesis is left, which takes no frame
    have hclosing : t.item = .closing := by
      cases q with
      | nil => simpa [tokensAll] using congrArg List.head? hq
      | cons u q => simp [tokensAll] at hq
    simp [hclosing, Token.label?] at hl
  | cons e es ih =>
    obtain ⟨hfirst, hrest⟩ := List.forall_mem_cons.1 hes
    rw [tokensAll, List.append_assoc] at hq
    obtain ⟨pe, ps, hsplit, hpe, hps⟩ := List.map_eq_append_iff.1 hq
    have hcases : (∃ mid, pe = q ++ t :: mid) ∨ ∃ mid, q = pe ++ mid ∧ ps = mid ++ t :: r := by
      rcases List.append_eq_append_iff.1 hsplit with ⟨mid, hmid, hbehind⟩ | ⟨mid, hmid, hbehind⟩
      · cases mid with
        | nil => exact .inr ⟨[], by simpa using hmid.symm, by simpa using hbehind.symm⟩
        | cons u mid =>
          obtain ⟨rfl, -⟩ := List.cons.inj hbehind
          exact .inl ⟨mid, hmid⟩
      · exact .inr ⟨mid, hmid, hbehind⟩
    rw [outlineAll]
    rcases hcases with ⟨mid, rfl⟩ | ⟨mid, rfl, rfl⟩
    · -- the token is one of the first element
      obtain ⟨x, hx, hstands⟩ := hfirst _ p q mid t l n hp hpe hl
      have hlt := (List.getElem?_eq_some_iff.1 hx).1
      exact ⟨x, (List.getElem?_append_left hlt).trans hx, hstands⟩
    · -- the first element is complete before it
      obtain ⟨x, hx, inner, hinner, hmention⟩ := ih hrest (n := n + e.size) (hp.element hpe) hps
      have hroom : room ((pe ++ mid).map Located.item) = e.size + room (mid.map Located.item) := by
        rw [List.map_append, room_append, hpe, size]
      refine ⟨x, ?_, inner, by simpa using hinner, ?_⟩
      · rw [hroom, List.getElem?_append_right (by rw [length_outline]; omega), length_outline, Nat.add_sub_cancel_left]
        simpa using hx
      · rw [hroom, ← Nat.add_assoc]
        exact hmention

/-- the first item stands where the outline starts -/
theorem StandsBehind.first {stack : List Opened} {p : List (Located Token)} (hp : LeavesOpen stack p) (n : Nat) :
    StandsBehind p [] n ⟨placeIn stack, ⟨n⟩, stack.length⟩ :=
  ⟨stack, by simpa using hp, rfl⟩

/-- an item behind a token that takes a frame -/
theorem StandsBehind.later {p q : List (Located Token)} {u : Located Token} {n : Nat} {x : Mention}
    (hu : u.item ≠ .closing) (h : StandsBehind (p ++ [u]) q (n + 1) x) : StandsBehind p (u :: q) n x := by
  obtain ⟨inner, hinner, rfl⟩ := h
  refine ⟨inner, by simpa using hinner, ?_⟩
  simp [room, hu, Nat.add_assoc, Nat.add_comm 1]

theorem room_cons {t : Token} (ht : t ≠ .closing) (ts : List Token) : room (t :: ts) = room ts + 1 := by
  simp [room, ht]

theorem outline_of_leavesOpen (e : Expr) : Outlined e := by
  induction e with
  | leaf x =>
    intro stack p q r t l n hp hq hl
    obtain ⟨rfl, rfl, ht⟩ : q = [] ∧ r = [] ∧ t.item = .leaf x := by
      rw [tokens, List.map_eq_singleton_iff] at hq
      obtain ⟨u, hu, hitem⟩ := hq
      rcases q with _ | ⟨v, q⟩ <;> simp_all
    obtain rfl : x = l := by simpa [ht, Token.label?] using hl
    exact ⟨_, rfl, .first hp n⟩
  | quote op e ih =>
    intro stack p q r t l n hp hq hl
    rw [tokens] at hq
    cases q with
    | nil =>
      obtain ⟨ht, -⟩ := List.cons.inj hq
      obtain rfl : op = l := by simpa [ht, Token.label?] using hl
      exact ⟨_, rfl, .first hp n⟩
    | cons u q =>
      obtain ⟨hu, hq⟩ := List.cons.inj hq
      have hu' : u.item ≠ .closing := by simp [hu]
      obtain ⟨x, hx, hstands⟩ := ih _ (p ++ [u]) q r t l (n + 1) (.quote hp hu) hq hl
      refine ⟨x, ?_, hstands.later hu'⟩
      rw [List.map_cons, room_cons hu', outline, List.getElem?_cons_succ]
      exact hx
  | list es ih =>
    intro stack p q r t l n hp hq hl
    rw [tokens] at hq
    cases q with
    | nil =>
      obtain ⟨ht, -⟩ := List.cons.inj hq
      obtain rfl : Reader.listLabel = l := by simpa [ht, Token.label?] using hl
      exact ⟨_, rfl, .first hp n⟩
    | cons u q =>
      obtain ⟨hu, hq⟩ := List.cons.inj hq
      have hu' : u.item ≠ .closing := by simp [hu]
      have hopen : LeavesOpen (.list u.position [] :: stack) (p ++ u :: []) := .list hp hu rfl
      obtain ⟨x, hx, hstands⟩ := outlineAll_of_leavesOpen ih hopen hq hl
      refine ⟨x, ?_, hstands.later hu'⟩
      rw [List.map_cons, room_cons hu', outline, List.getElem?_cons_succ]
      exact hx

end Grammar

/-! ## Listings of outlines -/

/-- the handles from `n` on and below `m` -/
def Handle.span (n m : Nat) : Finset Handle := (Finset.Ico n m).image Handle.mk

theorem Handle.mem_span {n m : Nat} {h : Handle} : h ∈ span n m ↔ n ≤ h.index ∧ h.index < m := by
  obtain ⟨i⟩ := h
  simp [span]

theorem Handle.span_append {n m k : Nat} (hnm : n ≤ m) (hmk : m ≤ k) : span n m ∪ span m k = span n k := by
  ext h
  simp only [Finset.mem_union, mem_span]
  omega

theorem Handle.span_succ (n : Nat) : span n (n + 1) = {⟨n⟩} := by
  simp [span]

/-- to visit the first of some handles leaves the others to be visited -/
theorem Handle.span_enter {visited : Finset Handle} {n k : Nat} (hnew : Disjoint visited (span n (n + (1 + k)))) :
    ⟨n⟩ ∉ visited ∧ Disjoint (insert ⟨n⟩ visited) (span (n + 1) (n + 1 + k)) ∧
      insert ⟨n⟩ visited ∪ span (n + 1) (n + 1 + k) = visited ∪ span n (n + (1 + k)) := by
  have hspan : span n (n + (1 + k)) = {⟨n⟩} ∪ span (n + 1) (n + 1 + k) := by
    rw [← span_succ, span_append (Nat.le_add_right n 1) (Nat.le_add_right _ _), Nat.add_assoc]
  rw [hspan, Finset.disjoint_union_right, Finset.disjoint_singleton_right] at hnew
  have hfirst : ⟨n⟩ ∉ span (n + 1) (n + 1 + k) := by simp [mem_span]
  refine ⟨hnew.1, Finset.disjoint_insert_left.2 ⟨hfirst, hnew.2⟩, ?_⟩
  rw [hspan, Finset.insert_eq, Finset.union_comm {⟨n⟩} visited, Finset.union_assoc]

/-- the entries of an outline, none of them with the mark -/
def Listing.unmarked (xs : List (Mention × Label)) : List Entry := xs.map fun x => ⟨x.1, false⟩

namespace Listing

open FrameGraph.Expr

variable {a : Arena}

/-- a listing that comes to the expression goes through its outline, if none of its frames was visited, and then on with
all of them visited -/
def GoesThrough (a : Arena) (e : Expr) : Prop :=
  ∀ (n depth : Nat) (place : Place) (visited : Finset Handle) (todo : List Mention) (es : List Entry),
    a.Shows n (e.frames n) → Disjoint visited (Handle.span n (n + e.size)) →
    Trail a (visited ∪ Handle.span n (n + e.size)) todo es →
    Trail a visited (⟨place, ⟨n⟩, depth⟩ :: todo) (unmarked (e.outline n place depth) ++ es)

theorem trail_of_showsAll {xs : List Expr} (hxs : ∀ e ∈ xs, GoesThrough a e) {n index depth : Nat}
    {visited : Finset Handle} {todo : List Mention} {es : List Entry} (h : a.Shows n (framesAll n xs))
    (hnew : Disjoint visited (Handle.span n (n + room (tokensAll xs))))
    (rest : Trail a (visited ∪ Handle.span n (n + room (tokensAll xs))) todo es) :
    Trail a visited (mentions (((handles n xs).zipIdx index).map fun c => (.child c.2, c.1)) depth ++ todo)
      (unmarked (outlineAll n index depth xs) ++ es) := by
  induction xs generalizing n index visited with
  | nil => simpa [handles, mentions, outlineAll, unmarked, tokensAll, room, Handle.span] using rest
  | cons e xs ih =>
    obtain ⟨hfirst, hrest⟩ := List.forall_mem_cons.1 hxs
    have hroom : room (tokensAll (e :: xs)) = e.size + room (tokensAll xs) := room_append _ _
    have hspan : Handle.span n (n + room (tokensAll (e :: xs))) =
        Handle.span n (n + e.size) ∪ Handle.span (n + e.size) (n + e.size + room (tokensAll xs)) := by
      rw [Handle.span_append (Nat.le_add_right _ _) (Nat.le_add_right _ _), hroom, Nat.add_assoc]
    rw [hspan] at hnew rest
    rw [Finset.disjoint_union_right] at hnew
    have hright := Arena.Shows.right h
    rw [length_frames] at hright
    have hbetween : Disjoint (Handle.span n (n + e.size)) (Handle.span (n + e.size) (n + e.size + room (tokensAll xs))) := by
      rw [Finset.disjoint_left]
      intro k hk hk'
      rw [Handle.mem_span] at hk hk'
      omega
    have hon : Trail a _ (mentions (((handles (n + e.size) xs).zipIdx (index + 1)).map fun c => (.child c.2, c.1)) depth ++
        todo) _ := ih hrest hright (Finset.disjoint_union_left.2 ⟨hnew.2, hbetween⟩) (by rwa [Finset.union_assoc])
    have := hfirst n depth (.child index) visited _ _ h.left hnew.1 hon
    simpa [handles, mentions, outlineAll, unmarked] using this

theorem goesThrough (a : Arena) (e : Expr) : GoesThrough a e := by
  induction e with
  | leaf l =>
    intro n depth place visited todo es h hnew rest
    have hsize : (Expr.leaf l).size = 1 := rfl
    rw [hsize, Handle.span_succ] at hnew rest
    rw [Finset.union_comm, ← Finset.insert_eq] at rest
    refine .first (by simpa using hnew) h.head ?_
    simpa [Frame.ofLabel, Frame.links, Frame.slotLinks, Frame.childLinks, Slots.empty, mentions, unmarked, outline]
      using rest
  | quote op e ih =>
    intro n depth place visited todo es h hnew rest
    rw [size_quote] at hnew rest
    obtain ⟨hfirst, hothers, hvisited⟩ := Handle.span_enter hnew
    rw [← hvisited] at rest
    refine .first hfirst h.head ?_
    have hon := ih (n + 1) (depth + 1) (.child 0) _ todo es h.tail hothers rest
    simpa [Frame.links, Frame.slotLinks, Frame.childLinks, Slots.empty, mentions, outline, unmarked] using hon
  | list xs ih =>
    intro n depth place visited todo es h hnew rest
    rw [size_list] at hnew rest
    obtain ⟨hfirst, hothers, hvisited⟩ := Handle.span_enter hnew
    rw [← hvisited] at rest
    refine .first hfirst h.head ?_
    have hon : Trail a _ (mentions (((handles (n + 1) xs).zipIdx 0).map fun c => (.child c.2, c.1)) (depth + 1) ++
        todo) _ := trail_of_showsAll ih h.tail hothers rest
    simpa [Frame.links, Frame.slotLinks, Frame.childLinks, Slots.empty, outline, unmarked] using hon

variable {n : Nat} {e : Expr}

/-- the listing of an expression is its outline -/
theorem trail_of_shows (h : a.Shows n (e.frames n)) :
    Trail a ∅ [⟨.root, ⟨n⟩, 0⟩] (unmarked (e.outline n .root 0)) := by
  have hall := goesThrough a e n 0 .root ∅ [] [] h (Finset.disjoint_empty_left _) .nil
  rwa [List.append_nil] at hall

theorem entries_of_shows (h : a.Shows n (e.frames n)) : entries a ⟨n⟩ = unmarked (e.outline n .root 0) :=
  (trail_of_shows h).entries_eq

/-- each item of the outline is of a frame of the expression, which carries its label -/
theorem frame?_of_outline (h : a.Shows n (e.frames n)) {place : Place} {depth k : Nat} {x : Mention} {l : Label}
    (hx : (e.outline n place depth)[k]? = some (x, l)) :
    x.handle = ⟨n + k⟩ ∧ ∃ f, a.frame? x.handle = some f ∧ f.label = l := by
  have hhandle := congrArg (·[k]?) (e.handles_outline n place depth)
  have hlabel := congrArg (·[k]?) ((e.labels_outline n place depth).trans (e.labels_frames n).symm)
  simp only [List.getElem?_map, hx, Option.map_some] at hhandle hlabel
  obtain ⟨i, hi, hmk⟩ := Option.map_eq_some_iff.1 hhandle.symm
  obtain ⟨f, hf, hfl⟩ := Option.map_eq_some_iff.1 hlabel.symm
  obtain ⟨hk, rfl⟩ := List.getElem?_eq_some_iff.1 hi
  have heq : x.handle = ⟨n + k⟩ := by simpa using hmk.symm
  exact ⟨heq, f, heq ▸ h k f hf, hfl⟩

/-- an expression reaches its own frames and no others -/
theorem reaches_iff_of_shows (h : a.Shows n (e.frames n)) (k : Handle) :
    a.Reaches ⟨n⟩ k ↔ n ≤ k.index ∧ k.index < n + e.size := by
  have hfirsts : firsts (unmarked (e.outline n .root 0)) = (List.range' n e.size).map Handle.mk := by
    have hall : ∀ x ∈ unmarked (e.outline n .root 0), (!x.again) = true := by
      intro x hx
      obtain ⟨y, -, rfl⟩ := List.mem_map.1 hx
      rfl
    rw [← e.handles_outline n .root 0, firsts, List.filter_eq_self.2 hall, unmarked, List.map_map]
    rfl
  rw [← (trail_of_shows h).mem_firsts_iff, hfirsts]
  obtain ⟨i⟩ := k
  simp

end Listing

end FrameGraph
