/-
Arenas that look the same from a root.

A listing shows no more of a frame than its `Face`. In two arenas whose faces agree on what can be reached from a root in one
of them, the listings go on in step: they have the same frames visited, the same entries behind them and the same mentions
before them, and these are all of frames that can be reached. What is reached in one arena is then what is reached in the
other. Handles may dangle on the way, and then both listings stop there.

Results:
- `reaches_iff_of_agree`: the same frames are reached in both arenas.
- `walk_congr`: listings of agreeing arenas go on in step.
- `listing_eq_of_agree`: the listing of the root is the same.
-/
import FrameGraph.Proofs.Entries

namespace FrameGraph

/-! ## Faces -/

/-- what a listing shows of a frame: its value only as it is written, and nothing of its identity -/
structure Face where
  kind : Kind
  formatted : String
  slots : Slots
  children : Array Handle
  deriving DecidableEq, Repr

def Frame.face (f : Frame) : Face := ⟨f.label.kind, f.label.formatted, f.slots, f.children⟩

theorem Frame.links_eq_of_face {f g : Frame} (h : g.face = f.face) : g.links = f.links := by
  have hslots : g.slots = f.slots := congrArg Face.slots h
  have hchildren : g.children = f.children := congrArg Face.children h
  simp only [links, slotLinks, childLinks, hslots, hchildren]

theorem Frame.text_eq_of_face {f g : Frame} (h : g.face = f.face) : g.label.text = f.label.text := by
  have hkind : g.label.kind = f.label.kind := congrArg Face.kind h
  have hformatted : g.label.formatted = f.label.formatted := congrArg Face.formatted h
  simp only [Label.text, hkind, hformatted]

namespace Arena

variable {a b : Arena} {root h k : Handle} {f : Frame}

/-- the face of the frame under `h`, if there is one -/
def face? (a : Arena) (h : Handle) : Option Face := (a.frame? h).map Frame.face

theorem frame?_eq_none_of_face? (hface : b.face? h = a.face? h) (hf : a.frame? h = none) : b.frame? h = none := by
  simpa [face?, hf] using hface

theorem exists_frame?_of_face? (hface : b.face? h = a.face? h) (hf : a.frame? h = some f) :
    ∃ g, b.frame? h = some g ∧ g.face = f.face := by
  simpa [face?, hf] using hface

theorem contains_eq_isSome_face? (a : Arena) (h : Handle) : a.contains h = (a.face? h).isSome := by
  rw [contains_eq_isSome, face?, Option.isSome_map]

theorem contains_eq_of_face? (hface : b.face? h = a.face? h) : b.contains h = a.contains h := by
  rw [contains_eq_isSome_face?, contains_eq_isSome_face?, hface]

theorem head?_eq_of_face? (hface : b.face? h = a.face? h) : b.head? h = a.head? h := by
  cases hf : a.frame? h with
  | none => rw [head?, head?, hf, frame?_eq_none_of_face? hface hf]
  | some f =>
    obtain ⟨g, hg, hgf⟩ := exists_frame?_of_face? hface hf
    rw [head?, head?, hf, hg, Option.map_some, Option.map_some, Frame.text_eq_of_face hgf]

theorem linksTo_of_face? (hface : b.face? h = a.face? h) (hk : a.LinksTo h k) : b.LinksTo h k := by
  obtain ⟨f, hf, hlink⟩ := linksTo_iff.1 hk
  obtain ⟨g, hg, hgf⟩ := exists_frame?_of_face? hface hf
  rw [← Frame.links_eq_of_face hgf] at hlink
  exact linksTo_iff.2 ⟨g, hg, hlink⟩

/-! ## Agreement on what is reached -/

/-- from a root whose reach looks the same, the same frames are reached -/
theorem reaches_iff_of_agree (hab : ∀ h, a.Reaches root h → b.face? h = a.face? h) :
    b.Reaches root h ↔ a.Reaches root h := by
  constructor
  · intro hreach
    induction hreach with
    | refl => exact .refl
    | tail _ hlink ih => exact ih.tail (linksTo_of_face? (hab _ ih).symm hlink)
  · intro hreach
    induction hreach with
    | refl => exact .refl
    | tail hbefore hlink ih => exact ih.tail (linksTo_of_face? (hab _ hbefore) hlink)

theorem reaches_links (root h : Handle) (f : Frame) (hh : a.Reaches root h) (hf : a.frame? h = some f) :
    ∀ l ∈ f.links, a.Reaches root l.2 := by
  intro l hl
  exact hh.tail (linksTo_iff.2 ⟨f, hf, l, hl, rfl⟩)

/-- what is reached in a closed arena is there -/
theorem Closed.contains_of_reaches (ha : a.Closed) (hroot : a.contains root = true) (hh : a.Reaches root h) :
    a.contains h = true := by
  induction hh with
  | refl => exact hroot
  | tail _ hlink _ =>
    obtain ⟨f, hf, l, hl, rfl⟩ := linksTo_iff.1 hlink
    exact Listing.contains_links ha hf l hl

end Arena

namespace Listing

variable {a b : Arena} {P : Handle → Prop} {seen : HandleSet} {done : Array Entry} {todo : List Mention}

theorem expand_eq_of_face {f g : Frame} (h : g.face = f.face) (depth : Nat) (todo : List Mention) :
    expand g depth todo = expand f depth todo := by
  have hlinks : g.slotLinks ++ g.childLinks = f.slotLinks ++ f.childLinks := Frame.links_eq_of_face h
  rw [expand_eq, expand_eq, hlinks]

/-- two listings go on in step, if the faces agree on handles that a frame has only together with its links -/
theorem walk_congr (hlinks : ∀ h f, P h → a.frame? h = some f → ∀ l ∈ f.links, P l.2)
    (hab : ∀ h, P h → b.face? h = a.face? h) (htodo : ∀ m ∈ todo, P m.handle) :
    walk b seen done todo = walk a seen done todo := by
  induction seen, done, todo using walk.induct a with
  | case1 seen done => simp only [walk]
  | case2 seen done m todo hf ih =>
    obtain ⟨hm, hrest⟩ := List.forall_mem_cons.1 htodo
    have hg := Arena.frame?_eq_none_of_face? (hab _ hm) hf
    rw [walk_dangling hf, walk_dangling hg, ih hrest]
  | case3 seen done m todo f hf hs ih =>
    obtain ⟨hm, hrest⟩ := List.forall_mem_cons.1 htodo
    obtain ⟨g, hg, -⟩ := Arena.exists_frame?_of_face? (hab _ hm) hf
    rw [walk_seen hf hs, walk_seen hg hs, ih hrest]
  | case4 seen done m todo f hf hs ih =>
    obtain ⟨hm, hrest⟩ := List.forall_mem_cons.1 htodo
    obtain ⟨g, hg, hgf⟩ := Arena.exists_frame?_of_face? (hab _ hm) hf
    -- the stack of the second listing has the links of its own frame on it, which are those of the first one
    rw [walk_new hf hs, walk_new hg hs, expand_eq_of_face hgf,
      ih (forall_mem_expand (hlinks _ f hm hf) hrest m.depth)]

variable {root : Handle}

theorem root_reached : ∀ m ∈ [(⟨.root, root, 0⟩ : Mention)], a.Reaches root m.handle :=
  List.forall_mem_singleton.2 Relation.ReflTransGen.refl

/-- every entry is of a frame that is reached, or of a handle that dangles and is reached -/
theorem reaches_of_mem_entries : ∀ e ∈ entries a root, a.Reaches root e.mention.handle := by
  intro e he
  exact walk_forall (Arena.reaches_links root) root_reached (by simp) e (Array.mem_toList_iff.1 he)

theorem entries_eq_of_agree (hab : ∀ h, a.Reaches root h → b.face? h = a.face? h) : entries b root = entries a root := by
  rw [entries, entries, walk_congr (Arena.reaches_links root) hab root_reached]

end Listing

namespace Arena

variable {a b : Arena} {root : Handle}

/-- the listing of a root is the same, or stops at the same handle, in arenas that agree on what is reached from it -/
theorem listing_eq_of_agree (hab : ∀ h, a.Reaches root h → b.face? h = a.face? h) : b.listing root = a.listing root := by
  have hface : ∀ e ∈ Listing.entries a root, b.face? e.mention.handle = a.face? e.mention.handle :=
    fun e he => hab _ (Listing.reaches_of_mem_entries e he)
  have hstop : (Listing.entries a root).find? (fun e => !b.contains e.mention.handle) =
      (Listing.entries a root).find? fun e => !a.contains e.mention.handle :=
    List.find?_congr fun e he => by rw [contains_eq_of_face? (hface e he)]
  have htext : Listing.text b root = Listing.text a root := by
    rw [Listing.text, Listing.text, Listing.entries_eq_of_agree hab]
    exact List.foldl_ext _ _ _ fun s e he => by rw [Listing.line, Listing.line, head?_eq_of_face? (hface e he)]
  rw [listing, listing, Listing.entries_eq_of_agree hab, hstop, htext]

end Arena

end FrameGraph
