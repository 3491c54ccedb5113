/-
Listings as nested recursion.

`Shown.frame` shows a frame and then, one level below, its slots and its children, each of them with everything below it
before the next; the set of the frames that were visited goes through the whole traversal. A frame that was visited is only
mentioned. The recursion ends since a frame that is gone into leaves fewer frames to visit, and since no visit is forgotten
from one link to the next (`Shown.grown`).

Results:
- `indent_eq`: lines are indented by as many tabs as there are levels, however many.
- `expand_eq`: what was put on the stack in reverse comes off it in the order of the links.
- `walk_shows`: the listing of a stack of mentions is what the recursion shows of them one after the other.
- `listing_eq_frame`: where no link dangles, a listing is the text of the recursion.
-/
import FrameGraph.Listing
import FrameGraph.Proofs.Arena

namespace FrameGraph

/-! ## The recursive listing -/

/-- the handles of an arena that have not been visited -/
def Arena.unvisited (a : Arena) (visited : Finset Handle) : Finset Handle :=
  (Finset.range a.size).image Handle.mk \ visited

theorem Arena.card_unvisited_le (a : Arena) {v w : Finset Handle} (h : v ⊆ w) :
    (a.unvisited w).card ≤ (a.unvisited v).card :=
  Finset.card_le_card (Finset.sdiff_subset_sdiff subset_rfl h)

theorem Arena.card_unvisited_insert_lt {a : Arena} {h : Handle} {f : Frame} {v : Finset Handle} (hf : a.frame? h = some f)
    (hv : h ∉ v) : (a.unvisited (insert h v)).card < (a.unvisited v).card := by
  have hmem : h ∈ a.unvisited v :=
    Finset.mem_sdiff.2 ⟨Finset.mem_image.2 ⟨h.index, Finset.mem_range.2 (a.index_lt_of_frame? hf), rfl⟩, hv⟩
  refine Finset.card_lt_card ((Finset.ssubset_iff_of_subset ?_).2 ⟨h, hmem, ?_⟩)
  · exact Finset.sdiff_subset_sdiff subset_rfl (Finset.subset_insert h v)
  · simp [Arena.unvisited]

/-- slots in the order of their keys and then children in theirs, each behind what stands before its head -/
def Frame.parts (f : Frame) : List (String × Handle) :=
  f.slots.entries.map (fun e => (e.1 ++ " = ", e.2)) ++ f.children.toList.zipIdx.map fun c => (toString c.2 ++ " : ", c.1)

/-- a text that was shown, and the frames visited behind it, which are no fewer than before it -/
structure Shown (before : Finset Handle) where
  text : String
  visited : Finset Handle
  grown : before ⊆ visited

namespace Shown

/-- the line that a frame is shown with, less the mark -/
def start (a : Arena) (h : Handle) (depth : Nat) (place : String) : String :=
  "\n" ++ String.ofList (List.replicate depth '\t') ++ place ++ (a.head? h).getD ""

mutual
/-- show a frame with all below it -/
def frame (a : Arena) (visited : Finset Handle) (h : Handle) (depth : Nat) (place : String) : Shown visited :=
  let line := start a h depth place
  if _new : h ∈ visited then ⟨line ++ " _/", visited, subset_rfl⟩
  else
    match _found : a.frame? h with
    | none => ⟨line, visited, subset_rfl⟩
    | some f =>
      let below := parts a (insert h visited) (depth + 1) f.parts
      ⟨line ++ below.text, below.visited, (Finset.subset_insert h visited).trans below.grown⟩
termination_by ((a.unvisited visited).card, 0)
decreasing_by
  exact Prod.Lex.left _ _ (Arena.card_unvisited_insert_lt _found _new)

/-- show frames one after the other, each with all below it -/
def parts (a : Arena) (visited : Finset Handle) (depth : Nat) : List (String × Handle) → Shown visited
  | [] => ⟨"", visited, subset_rfl⟩
  | (place, h) :: rest =>
    let first := frame a visited h depth place
    let others := parts a first.visited depth rest
    ⟨first.text ++ others.text, others.visited, first.grown.trans others.grown⟩
termination_by links => ((a.unvisited visited).card, links.length + 1)
decreasing_by
  · exact Prod.Lex.right _ (Nat.succ_pos _)
  · rcases (a.card_unvisited_le first.grown).lt_or_eq with hlt | heq
    · exact Prod.Lex.left _ _ hlt
    · rw [heq]
      exact Prod.Lex.right _ (Nat.lt_succ_self _)
end

variable {a : Arena} {visited : Finset Handle} {h : Handle} {f : Frame}

theorem frame_visited (hv : h ∈ visited) (depth : Nat) (place : String) :
    (frame a visited h depth place).text = start a h depth place ++ " _/" ∧
      (frame a visited h depth place).visited = visited := by
  rw [frame, dif_pos hv]
  exact ⟨rfl, rfl⟩

theorem frame_new (hv : h ∉ visited) (hf : a.frame? h = some f) (depth : Nat) (place : String) :
    let below := parts a (insert h visited) (depth + 1) f.parts
    (frame a visited h depth place).text = start a h depth place ++ below.text ∧
      (frame a visited h depth place).visited = below.visited := by
  rw [frame, dif_neg hv]
  split
  next hnone => simp [hf] at hnone
  next g hg =>
    obtain rfl : f = g := Option.some.inj (hf.symm.trans hg)
    exact ⟨rfl, rfl⟩

/-- show mentions at any depths one after the other -/
def mentions (a : Arena) (visited : Finset Handle) : List Mention → String
  | [] => ""
  | m :: todo =>
    let first := frame a visited m.handle m.depth m.place.text
    first.text ++ mentions a first.visited todo

/-- the mentions that a frame makes are its parts, one level below it -/
theorem mentions_append (visited : Finset Handle) (links : List (Place × Handle)) (depth : Nat) (todo : List Mention) :
    mentions a visited (links.map (fun l => ⟨l.1, l.2, depth⟩) ++ todo) =
      let first := parts a visited depth (links.map fun l => (l.1.text, l.2))
      first.text ++ mentions a first.visited todo := by
  induction links generalizing visited with
  | nil => simp [parts]
  | cons l ls ih =>
    simp only [List.map_cons, List.cons_append, mentions, ih]
    simp [parts, String.append_assoc]

end Shown

theorem Frame.parts_eq (f : Frame) : f.parts = (f.slotLinks ++ f.childLinks).map fun l => (l.1.text, l.2) := by
  simp only [parts, slotLinks, childLinks, List.map_append, List.map_map]
  rfl

/-! ## The stack of mentions -/

namespace Listing

theorem indent_eq (s : String) (left : Nat) : indent s left = s ++ String.ofList (List.replicate left '\t') := by
  induction s, left using indent.induct with
  | case1 s => simp [indent]
  | case2 s left hne n ih =>
    rw [indent, if_neg hne, ih, String.append_assoc, ← String.ofList_append]
    congr 2
    simp only [n, tabs, List.length_replicate, List.take_replicate, List.replicate_append_replicate]
    congr 1
    omega

theorem line_eq (a : Arena) (e : Entry) :
    line a e = Shown.start a e.mention.handle e.mention.depth e.mention.place.text ++ (if e.again then " _/" else "") := by
  rw [line, indent_eq]
  rfl

/-- what is put on the stack last comes first -/
theorem push_eq (links : List (Place × Handle)) (depth : Nat) (todo : List Mention) :
    push links depth todo = links.map (fun l => ⟨l.1, l.2, depth⟩) ++ todo := by
  rw [push, List.foldl_reverse]
  induction links with
  | nil => rfl
  | cons l ls ih => rw [List.foldr_cons, ih, List.map_cons, List.cons_append]

theorem expand_eq (f : Frame) (depth : Nat) (todo : List Mention) :
    expand f depth todo = (f.slotLinks ++ f.childLinks).map (fun l => ⟨l.1, l.2, depth + 1⟩) ++ todo := by
  rw [expand, push_eq, push_eq, List.map_append, List.append_assoc]

/-- the text of entries, one after the other -/
def lines (a : Arena) (done : Array Entry) : String := done.toList.foldl (fun s e => s ++ line a e) ""

theorem lines_push (a : Arena) (done : Array Entry) (e : Entry) : lines a (done.push e) = lines a done ++ line a e := by
  simp [lines]

variable {a : Arena} {seen : HandleSet} {done : Array Entry} {m : Mention} {todo : List Mention} {f : Frame}

theorem walk_dangling (hf : a.frame? m.handle = none) :
    walk a seen done (m :: todo) = walk a seen (done.push ⟨m, false⟩) todo := by
  rw [walk]
  split <;> simp_all

theorem walk_seen (hf : a.frame? m.handle = some f) (hs : seen.contains m.handle = true) :
    walk a seen done (m :: todo) = walk a seen (done.push ⟨m, true⟩) todo := by
  rw [walk]
  split <;> simp_all

theorem walk_new (hf : a.frame? m.handle = some f) (hs : ¬seen.contains m.handle = true) :
    walk a seen done (m :: todo) = walk a (seen.insert m.handle) (done.push ⟨m, false⟩) (expand f m.depth todo) := by
  rw [walk]
  split <;> simp_all

/-- what holds of the links of a frame and of a stack holds of the stack with the links put on it -/
theorem forall_mem_expand {P : Handle → Prop} (hlinks : ∀ l ∈ f.slotLinks ++ f.childLinks, P l.2)
    (htodo : ∀ k ∈ todo, P k.handle) (depth : Nat) : ∀ k ∈ expand f depth todo, P k.handle := by
  intro k hk
  rw [expand_eq, List.mem_append, List.mem_map] at hk
  obtain ⟨l, hl, rfl⟩ | hk := hk
  · exact hlinks l hl
  · exact htodo k hk

theorem contains_links (ha : a.Closed) {h : Handle} (hf : a.frame? h = some f) :
    ∀ l ∈ f.slotLinks ++ f.childLinks, a.contains l.2 = true := by
  obtain ⟨hslots, hchildren⟩ := ha f (Array.mem_of_getElem? hf)
  intro l hl
  simp only [Frame.slotLinks, Frame.childLinks, List.mem_append, List.mem_map] at hl
  obtain ⟨e, he, rfl⟩ | ⟨c, hc, rfl⟩ := hl
  · exact hslots e he
  · exact hchildren c.1 (by simpa using List.fst_mem_of_mem_zipIdx hc)

/-- in a closed arena a frame puts no handle that dangles on the stack -/
theorem contains_of_mem_expand (ha : a.Closed) (hf : a.frame? m.handle = some f)
    (htodo : ∀ k ∈ m :: todo, a.contains k.handle = true) :
    ∀ k ∈ expand f m.depth todo, a.contains k.handle = true :=
  forall_mem_expand (P := (a.contains · = true)) (contains_links ha hf) (fun k hk => htodo k (List.mem_cons_of_mem _ hk)) m.depth

/-- the listing of what is to do is what the recursion shows of it, if the recursion starts with the same frames visited -/
theorem walk_shows (ha : a.Closed) (htodo : ∀ m ∈ todo, a.contains m.handle = true) {visited : Finset Handle}
    (hseen : ∀ h, seen.contains h = true ↔ h ∈ visited) :
    lines a (walk a seen done todo) = lines a done ++ Shown.mentions a visited todo := by
  induction seen, done, todo using walk.induct a generalizing visited with
  | case1 seen done => simp [walk, Shown.mentions]
  | case2 seen done m todo hf _ =>
    have hm := htodo m List.mem_cons_self
    rw [Arena.contains_eq_isSome, hf] at hm
    exact absurd hm Bool.false_ne_true
  | case3 seen done m todo f hf hs ih =>
    obtain ⟨htext, hvisited⟩ := Shown.frame_visited (a := a) ((hseen _).1 hs) m.depth m.place.text
    rw [walk_seen hf hs, ih (fun m hm => htodo m (List.mem_cons_of_mem _ hm)) hseen, lines_push, line_eq,
      String.append_assoc]
    simp only [Shown.mentions, htext, hvisited, if_true]
  | case4 seen done m todo f hf hs ih =>
    obtain ⟨htext, hvisited⟩ := Shown.frame_new (fun hv => hs ((hseen _).2 hv)) hf m.depth m.place.text
    have hinsert : ∀ h, (seen.insert m.handle).contains h = true ↔ h ∈ insert m.handle visited := by
      intro h
      rw [HandleSet.contains_insert, Bool.or_eq_true, hseen, Finset.mem_insert, beq_iff_eq, or_comm, eq_comm]
    rw [walk_new hf hs, ih (contains_of_mem_expand ha hf htodo) hinsert, lines_push, line_eq, expand_eq,
      Shown.mentions_append, ← Frame.parts_eq]
    simp only [Shown.mentions, htext, hvisited, String.append_assoc, Bool.false_eq_true, if_false, String.empty_append]

/-- a listing stays among handles that a frame has only together with its links -/
theorem walk_forall {P : Handle → Prop}
    (hlinks : ∀ h f, P h → a.frame? h = some f → ∀ l ∈ f.slotLinks ++ f.childLinks, P l.2)
    (htodo : ∀ m ∈ todo, P m.handle) (hdone : ∀ e ∈ done, P e.mention.handle) :
    ∀ e ∈ walk a seen done todo, P e.mention.handle := by
  have hpush {done : Array Entry} {m : Mention} {todo : List Mention} (again : Bool)
      (hdone : ∀ e ∈ done, P e.mention.handle) (htodo : ∀ k ∈ m :: todo, P k.handle) :
      ∀ e ∈ done.push ⟨m, again⟩, P e.mention.handle := by
    intro e he
    rcases Array.mem_push.1 he with he | rfl
    · exact hdone e he
    · exact htodo m List.mem_cons_self
  induction seen, done, todo using walk.induct a with
  | case1 seen done => simpa [walk] using hdone
  | case2 seen done m todo hf ih =>
    rw [walk_dangling hf]
    exact ih (fun k hk => htodo k (List.mem_cons_of_mem _ hk)) (hpush false hdone htodo)
  | case3 seen done m todo f hf hs ih =>
    rw [walk_seen hf hs]
    exact ih (fun k hk => htodo k (List.mem_cons_of_mem _ hk)) (hpush true hdone htodo)
  | case4 seen done m todo f hf hs ih =>
    obtain ⟨hm, hrest⟩ := List.forall_mem_cons.1 htodo
    rw [walk_new hf hs]
    exact ih (forall_mem_expand (hlinks _ f hm hf) hrest m.depth) (hpush false hdone htodo)

/-- a listing of handles that do not dangle comes to none that does -/
theorem walk_contained (ha : a.Closed) (htodo : ∀ m ∈ todo, a.contains m.handle = true)
    (hdone : ∀ e ∈ done, a.contains e.mention.handle = true) :
    ∀ e ∈ walk a seen done todo, a.contains e.mention.handle = true :=
  walk_forall (P := (a.contains · = true)) (fun _ _ _ hf => contains_links ha hf) htodo hdone

theorem text_eq_frame (ha : a.Closed) {h : Handle} (hh : a.contains h = true) :
    text a h = (Shown.frame a ∅ h 0 "").text := by
  have hroot : ∀ m ∈ [(⟨.root, h, 0⟩ : Mention)], a.contains m.handle = true := by simpa using hh
  have hempty : ∀ k, HandleSet.empty.contains k = true ↔ k ∈ (∅ : Finset Handle) := by simp [HandleSet.contains_empty]
  show lines a (walk a .empty #[] [⟨.root, h, 0⟩]) = _
  rw [walk_shows ha hroot hempty]
  simp [lines, Shown.mentions, Place.text]

end Listing

/-- **The listing is the recursive one, and ends on every graph.** Where no slot and no child dangles, however frames are
shared and whatever cycles they form, the listing of a frame is what the recursion shows of it with no frame visited. -/
theorem Arena.listing_eq_frame {a : Arena} (ha : a.Closed) {h : Handle} (hh : a.contains h = true) :
    a.listing h = .ok (Shown.frame a ∅ h 0 "").text := by
  have hroot : ∀ m ∈ [(⟨.root, h, 0⟩ : Mention)], a.contains m.handle = true := by simpa using hh
  have hentries := @Listing.walk_contained a .empty #[] _ ha hroot (by simp)
  have hnone : (Listing.entries a h).find? (fun e => !a.contains e.mention.handle) = none := by
    simpa [Listing.entries] using hentries
  rw [Arena.listing, hnone, Listing.text_eq_frame ha hh]

/-- a frame that is in a slot of itself and shares its child with this child's own children -/
def Arena.knot : Arena :=
  let label : Label := ⟨.frame, .text "x"⟩
  ⟨#[⟨label, ⟨[("self", ⟨0⟩)], by simp⟩, #[⟨1⟩, ⟨1⟩], ⟨0⟩⟩, ⟨label, .empty, #[⟨0⟩, ⟨1⟩], ⟨1⟩⟩]⟩

theorem Arena.listing_knot : Arena.knot.Closed ∧ Arena.knot.contains ⟨0⟩ = true ∧
    Arena.knot.listing ⟨0⟩ = .ok (Shown.frame Arena.knot ∅ ⟨0⟩ 0 "").text := by
  have ha : Arena.knot.Closed := by decide
  have hh : Arena.knot.contains ⟨0⟩ = true := by decide
  exact ⟨ha, hh, Arena.listing_eq_frame ha hh⟩

end FrameGraph
