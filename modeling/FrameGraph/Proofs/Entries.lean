/-
Entries of listings: every frame and every link once.

A `Trail` is the listing of a stack of mentions as a relation: a mention of a visited frame gives an entry with the mark,
any other one gives an entry without it, and the mentions of the frame's links go on the stack. What a listing has is read
off its trail, by induction on it: which frames are entered for the first time (`firsts`), what stands directly below an
entry (`beneath`), and which links are spent on entries.

Results:
- `exists_trail`, `Trail.walk_eq`: where no link dangles, stacks have trails, and a listing follows its trail.
- `Trail.again_iff`: an entry has the mark if and only if the frame was visited or has an entry before it.
- `Trail.beneath_first`, `Trail.beneath_again`: directly below a first entry stand the links of its frame, and nothing is
  below one with the mark.
- `Trail.perm`: entries are the mentions on the stack and the links of the frames that are entered first.
- `entries_once`: frames that can be reached, and their links, are listed once each.
-/
import FrameGraph.Proofs.Listing

namespace FrameGraph

/-! ## Links -/

/-- slots in the order of their keys and then children in theirs, each with its place -/
def Frame.links (f : Frame) : List (Place × Handle) := f.slotLinks ++ f.childLinks

namespace Arena

variable {a : Arena}

/-- the links of a frame, none where there is no frame -/
def links (a : Arena) (h : Handle) : List (Place × Handle) := (a.frame? h).elim [] Frame.links

/-- number of slots and children of a frame -/
def degree (a : Arena) (h : Handle) : Nat := (a.frame? h).elim 0 fun f => f.slots.entries.length + f.children.size

/-- `k` is in a slot or a child of the frame under `h` -/
def LinksTo (a : Arena) (h k : Handle) : Prop :=
  ∃ f, a.frame? h = some f ∧ ((∃ e ∈ f.slots.entries, e.2 = k) ∨ k ∈ f.children)

/-- `k` is reached from `h` through slots and children, in any number of steps -/
def Reaches (a : Arena) : Handle → Handle → Prop := Relation.ReflTransGen a.LinksTo

theorem links_of_frame? {h : Handle} {f : Frame} (hf : a.frame? h = some f) : a.links h = f.links := by
  simp [links, hf]

theorem mem_links_iff {f : Frame} {k : Handle} :
    (∃ l ∈ f.links, l.2 = k) ↔ (∃ e ∈ f.slots.entries, e.2 = k) ∨ k ∈ f.children := by
  have hchild : (∃ l ∈ f.childLinks, l.2 = k) ↔ k ∈ f.children := by
    rw [← Array.mem_toList_iff, Frame.childLinks, List.mem_iff_getElem?]
    simp [List.mem_zipIdx_iff_getElem?]
  simp only [Frame.links, List.mem_append, or_and_right, exists_or, hchild]
  simp [Frame.slotLinks]

theorem linksTo_iff {h k : Handle} : a.LinksTo h k ↔ ∃ f, a.frame? h = some f ∧ ∃ l ∈ f.links, l.2 = k := by
  simp only [LinksTo, mem_links_iff]

theorem length_links (a : Arena) (h : Handle) : (a.links h).length = a.degree h := by
  cases hf : a.frame? h <;> simp [links, degree, hf, Frame.links, Frame.slotLinks, Frame.childLinks]

end Arena

namespace Listing

/-! ## Trails -/

/-- one mention for each link, at some depth -/
def mentions (links : List (Place × Handle)) (depth : Nat) : List Mention := links.map fun l => ⟨l.1, l.2, depth⟩

theorem depth_of_mem_mentions {links : List (Place × Handle)} {depth : Nat} {m : Mention} (hm : m ∈ mentions links depth) :
    m.depth = depth := by
  obtain ⟨l, -, rfl⟩ := List.mem_map.1 hm
  rfl

theorem map_mentions (links : List (Place × Handle)) (depth : Nat) :
    (mentions links depth).map (fun m => (m.place, m.handle)) = links := by
  simp [mentions, Function.comp_def]

/-- no mention on a stack is deeper than those above it -/
def Descends (todo : List Mention) : Prop := todo.Pairwise fun m k => k.depth ≤ m.depth

theorem Descends.expand {m : Mention} {todo : List Mention} (h : Descends (m :: todo)) (links : List (Place × Handle)) :
    Descends (mentions links (m.depth + 1) ++ todo) := by
  obtain ⟨hfirst, hrest⟩ := List.pairwise_cons.1 h
  refine List.pairwise_append.2 ⟨?_, hrest, ?_⟩
  · refine List.Pairwise.imp_of_mem ?_ (List.pairwise_of_forall fun _ _ => trivial)
    intro k l hk hl _
    rw [depth_of_mem_mentions hk, depth_of_mem_mentions hl]
  · intro k hk l hl
    rw [depth_of_mem_mentions hk]
    exact Nat.le_succ_of_le (hfirst l hl)

/-- the entries of the listing of a stack of mentions, where some frames were visited before -/
inductive Trail (a : Arena) : Finset Handle → List Mention → List Entry → Prop where
  | nil {visited : Finset Handle} : Trail a visited [] []
  | again {visited : Finset Handle} {m : Mention} {todo : List Mention} {es : List Entry} (hm : m.handle ∈ visited)
      (hc : a.contains m.handle = true) (rest : Trail a visited todo es) : Trail a visited (m :: todo) (⟨m, true⟩ :: es)
  | first {visited : Finset Handle} {m : Mention} {f : Frame} {todo : List Mention} {es : List Entry}
      (hm : m.handle ∉ visited) (hf : a.frame? m.handle = some f)
      (rest : Trail a (insert m.handle visited) (mentions f.links (m.depth + 1) ++ todo) es) :
      Trail a visited (m :: todo) (⟨m, false⟩ :: es)

variable {a : Arena} {visited : Finset Handle} {todo : List Mention} {es : List Entry}

theorem contains_empty_iff (h : Handle) : HandleSet.empty.contains h = true ↔ h ∈ (∅ : Finset Handle) := by
  simp [HandleSet.contains_empty]

theorem contains_insert_iff {seen : HandleSet} (hseen : ∀ h, seen.contains h = true ↔ h ∈ visited) (h k : Handle) :
    (seen.insert h).contains k = true ↔ k ∈ insert h visited := by
  rw [HandleSet.contains_insert, Bool.or_eq_true, hseen, Finset.mem_insert, beq_iff_eq, or_comm, eq_comm]

/-- where no link dangles, every stack has a trail -/
theorem exists_trail (ha : a.Closed) (htodo : ∀ m ∈ todo, a.contains m.handle = true) {seen : HandleSet}
    (hseen : ∀ h, seen.contains h = true ↔ h ∈ visited) : ∃ es, Trail a visited todo es := by
  induction seen, (#[] : Array Entry), todo using walk.induct a generalizing visited with
  | case1 seen done => exact ⟨[], .nil⟩
  | case2 seen done m todo hf _ =>
    have hm := htodo m List.mem_cons_self
    rw [Arena.contains_eq_isSome, hf] at hm
    exact absurd hm Bool.false_ne_true
  | case3 seen done m todo f hf hs ih =>
    obtain ⟨es, hes⟩ := ih (fun k hk => htodo k (List.mem_cons_of_mem _ hk)) hseen
    exact ⟨_, .again ((hseen _).1 hs) (htodo m List.mem_cons_self) hes⟩
  | case4 seen done m todo f hf hs ih =>
    obtain ⟨es, hes⟩ := ih (contains_of_mem_expand ha hf htodo) (contains_insert_iff hseen m.handle)
    rw [expand_eq] at hes
    exact ⟨_, .first (fun hv => hs ((hseen _).2 hv)) hf hes⟩

theorem exists_root_trail (ha : a.Closed) {root : Handle} (hroot : a.contains root = true) :
    ∃ es, Trail a ∅ [⟨.root, root, 0⟩] es :=
  exists_trail ha (by simpa using hroot) contains_empty_iff

/-- the listing of a stack follows its trail -/
theorem Trail.walk_eq (h : Trail a visited todo es) {seen : HandleSet}
    (hseen : ∀ h, seen.contains h = true ↔ h ∈ visited) (done : Array Entry) :
    (walk a seen done todo).toList = done.toList ++ es := by
  induction h generalizing seen done with
  | nil => simp [walk]
  | again hm hc rest ih =>
    obtain ⟨f, hf⟩ := Arena.exists_frame? hc
    rw [walk_seen hf ((hseen _).2 hm), ih hseen]
    simp
  | first hm hf rest ih =>
    rw [walk_new hf fun hs => hm ((hseen _).1 hs), expand_eq]
    exact (ih (contains_insert_iff hseen _) _).trans (by simp)

/-- no entry of a trail dangles -/
theorem Trail.contained (h : Trail a visited todo es) : ∀ e ∈ es, a.contains e.mention.handle = true := by
  induction h with
  | nil => simp
  | again hm hc rest ih => exact List.forall_mem_cons.2 ⟨hc, ih⟩
  | first hm hf rest ih => exact List.forall_mem_cons.2 ⟨Arena.contains_of_frame? hf, ih⟩

theorem Trail.entries_eq {root : Handle} (h : Trail a ∅ [⟨.root, root, 0⟩] es) : entries a root = es := by
  rw [entries, h.walk_eq contains_empty_iff]
  rfl

/-- a listing with a trail shows a line for each entry -/
theorem Trail.listing_eq {root : Handle} (h : Trail a ∅ [⟨.root, root, 0⟩] es) :
    a.listing root = .ok (String.join (es.map (line a))) := by
  have hnone : es.find? (fun e => !a.contains e.mention.handle) = none := by simpa using h.contained
  rw [Arena.listing, text, h.entries_eq, hnone, String.join, List.foldl_map]

/-- the trail of a stack is that of its upper part, and then that of the rest with more frames visited -/
theorem Trail.split {upper lower : List Mention} (h : Trail a visited (upper ++ lower) es) :
    ∃ es₁ es₂ visited', es = es₁ ++ es₂ ∧ Trail a visited upper es₁ ∧ Trail a visited' lower es₂ := by
  generalize htodo : upper ++ lower = todo at h
  induction h generalizing upper with
  | nil =>
    obtain ⟨rfl, rfl⟩ := List.append_eq_nil_iff.1 htodo
    exact ⟨[], [], ∅, rfl, .nil, .nil⟩
  | @again visited m todo es hm hc rest ih =>
    rcases upper with _ | ⟨k, upper⟩
    · obtain rfl : lower = m :: todo := htodo
      exact ⟨[], _, visited, rfl, .nil, .again hm hc rest⟩
    · obtain ⟨rfl, rfl⟩ := List.cons.inj htodo
      obtain ⟨es₁, es₂, visited', rfl, h₁, h₂⟩ := ih rfl
      exact ⟨_, es₂, visited', rfl, .again hm hc h₁, h₂⟩
  | @first visited m f todo es hm hf rest ih =>
    rcases upper with _ | ⟨k, upper⟩
    · obtain rfl : lower = m :: todo := htodo
      exact ⟨[], _, visited, rfl, .nil, .first hm hf rest⟩
    · obtain ⟨rfl, rfl⟩ := List.cons.inj htodo
      obtain ⟨es₁, es₂, visited', rfl, h₁, h₂⟩ := ih (List.append_assoc ..)
      exact ⟨_, es₂, visited', rfl, .first hm hf h₁, h₂⟩

/-! ## First entries -/

/-- the frames of the entries without the mark, in their order -/
def firsts (es : List Entry) : List Handle := (es.filter fun e => !e.again).map fun e => e.mention.handle

@[simp] theorem firsts_nil : firsts [] = [] := rfl

@[simp] theorem firsts_first (m : Mention) (es : List Entry) : firsts (⟨m, false⟩ :: es) = m.handle :: firsts es := rfl

/-- frames are entered first at most once, and not at all if they were visited before -/
theorem Trail.firsts_fresh (h : Trail a visited todo es) : (firsts es).Nodup ∧ ∀ k ∈ firsts es, k ∉ visited := by
  -- a frame that is entered is visited from then on, so the second part is what the first one needs of the rest
  induction h with
  | nil => simp
  | again hm hc rest ih => exact ih
  | @first visited m f todo es hm hf rest ih =>
    obtain ⟨hnodup, hnew⟩ := ih
    have hnot : m.handle ∉ firsts es := fun hk => hnew _ hk (Finset.mem_insert_self _ _)
    refine ⟨List.nodup_cons.2 ⟨hnot, hnodup⟩, List.forall_mem_cons.2 ⟨hm, ?_⟩⟩
    intro k hk hv
    exact hnew k hk (Finset.mem_insert_of_mem hv)

/-- what is left of a trail is a trail, of the stack that is left by then -/
theorem Trail.drop {before behind : List Entry} (h : Trail a visited todo (before ++ behind)) :
    ∃ visited' todo', Trail a visited' todo' behind ∧ (∀ k, k ∈ visited' ↔ k ∈ visited ∨ k ∈ firsts before) ∧
      (Descends todo → Descends todo') := by
  induction before generalizing visited todo with
  | nil => exact ⟨visited, todo, h, by simp, id⟩
  | cons b before ih =>
    rw [List.cons_append] at h
    cases h with
    | again hm hc rest =>
      obtain ⟨visited', todo', ht, hvisited, hdescends⟩ := ih rest
      exact ⟨visited', todo', ht, hvisited, fun hd => hdescends (List.pairwise_cons.1 hd).2⟩
    | first hm hf rest =>
      obtain ⟨visited', todo', ht, hvisited, hdescends⟩ := ih rest
      refine ⟨visited', todo', ht, fun k => ?_, fun hd => hdescends (hd.expand _)⟩
      rw [hvisited, Finset.mem_insert, firsts_first, List.mem_cons, or_assoc, or_left_comm]

/-- an entry has the mark if and only if its frame was visited or entered before -/
theorem Trail.again_iff {before behind : List Entry} {e : Entry} (h : Trail a visited todo (before ++ e :: behind)) :
    e.again = true ↔ e.mention.handle ∈ visited ∨ e.mention.handle ∈ firsts before := by
  obtain ⟨visited', todo', ht, hvisited, -⟩ := h.drop
  rw [← hvisited]
  cases ht with
  | again hm | first hm => simp [hm]

/-- every mention on the stack is of a frame that was visited or is entered -/
theorem Trail.covers (h : Trail a visited todo es) : ∀ m ∈ todo, m.handle ∈ visited ∨ m.handle ∈ firsts es := by
  induction h with
  | nil => simp
  | again hm hc rest ih => exact List.forall_mem_cons.2 ⟨.inl hm, ih⟩
  | first hm hf rest ih =>
    refine List.forall_mem_cons.2 ⟨.inr (by simp), ?_⟩
    intro k hk
    have hk := ih k (List.mem_append_right _ hk)
    rw [Finset.mem_insert] at hk
    rw [firsts_first, List.mem_cons]
    tauto

/-- so is every link of a frame that is entered -/
theorem Trail.covers_links (h : Trail a visited todo es) {k : Handle} (hk : k ∈ firsts es) :
    ∃ f, a.frame? k = some f ∧ ∀ l ∈ f.links, l.2 ∈ visited ∨ l.2 ∈ firsts es := by
  induction h with
  | nil => simp at hk
  | again hm hc rest ih => exact ih hk
  | @first visited m f todo es hm hf rest ih =>
    have hgrow {x : Handle} (hx : x ∈ insert m.handle visited ∨ x ∈ firsts es) :
        x ∈ visited ∨ x ∈ firsts (⟨m, false⟩ :: es) := by
      rw [Finset.mem_insert] at hx
      rw [firsts_first, List.mem_cons]
      tauto
    rcases List.mem_cons.1 hk with rfl | hk
    · refine ⟨f, hf, ?_⟩
      intro l hl
      have hmention : (⟨l.1, l.2, m.depth + 1⟩ : Mention) ∈ mentions f.links (m.depth + 1) := List.mem_map_of_mem hl
      exact hgrow (rest.covers _ (List.mem_append_left _ hmention))
    · obtain ⟨g, hg, hlinks⟩ := ih hk
      exact ⟨g, hg, fun l hl => hgrow (hlinks l hl)⟩

/-- every entry is of a frame that is reached from the stack -/
theorem Trail.reached (h : Trail a visited todo es) : ∀ e ∈ es, ∃ m ∈ todo, a.Reaches m.handle e.mention.handle := by
  induction h with
  | nil => simp
  | again hm hc rest ih =>
    refine List.forall_mem_cons.2 ⟨⟨_, List.mem_cons_self, .refl⟩, ?_⟩
    intro e he
    obtain ⟨k, hk, hreach⟩ := ih e he
    exact ⟨k, List.mem_cons_of_mem _ hk, hreach⟩
  | @first visited m f todo es hm hf rest ih =>
    refine List.forall_mem_cons.2 ⟨⟨_, List.mem_cons_self, .refl⟩, ?_⟩
    intro e he
    obtain ⟨k, hk, hreach⟩ := ih e he
    rcases List.mem_append.1 hk with hk | hk
    · obtain ⟨l, hl, rfl⟩ := List.mem_map.1 hk
      have hlink : a.LinksTo m.handle l.2 := Arena.linksTo_iff.2 ⟨f, hf, l, hl, rfl⟩
      exact ⟨m, List.mem_cons_self, .head hlink hreach⟩
    · exact ⟨k, List.mem_cons_of_mem _ hk, hreach⟩

/-- from a single frame, the frames entered first are those that it reaches -/
theorem Trail.mem_firsts_iff {root : Handle} {place : Place} {depth : Nat} (h : Trail a ∅ [⟨place, root, depth⟩] es)
    (k : Handle) : k ∈ firsts es ↔ a.Reaches root k := by
  have hvisited {x : Handle} (hx : x ∈ (∅ : Finset Handle) ∨ x ∈ firsts es) : x ∈ firsts es :=
    hx.resolve_left (Finset.notMem_empty x)
  constructor
  · intro hk
    obtain ⟨e, he, rfl⟩ := List.mem_map.1 hk
    obtain ⟨m, hm, hreach⟩ := h.reached e (List.mem_of_mem_filter he)
    rwa [List.mem_singleton.1 hm] at hreach
  · intro hk
    induction hk with
    | refl => exact hvisited (h.covers _ (List.mem_singleton.2 rfl))
    | tail _ hlink ih =>
      obtain ⟨f, hf, l, hl, rfl⟩ := Arena.linksTo_iff.1 hlink
      obtain ⟨g, hg, hlinks⟩ := h.covers_links ih
      obtain rfl : f = g := Option.some.inj (hf.symm.trans hg)
      exact hvisited (hlinks l hl)

/-! ## Levels -/

/-- the link that an entry stands for -/
def link (e : Entry) : Place × Handle := (e.mention.place, e.mention.handle)

/-- what stands directly below an entry: of the entries behind it, up to the next that is no deeper, those one level down -/
def beneath (e : Entry) (behind : List Entry) : List Entry :=
  (behind.takeWhile fun x => e.mention.depth < x.mention.depth).filter fun x => x.mention.depth = e.mention.depth + 1

/-- no entry is less deep than the stack, and those that are no deeper are the mentions on the stack -/
theorem Trail.level (h : Trail a visited todo es) {depth : Nat} (htodo : ∀ m ∈ todo, depth ≤ m.depth) :
    (∀ e ∈ es, depth ≤ e.mention.depth) ∧
      (es.map Entry.mention).filter (fun m => m.depth = depth) = todo.filter fun m => m.depth = depth := by
  induction h with
  | nil => simp
  | again hm hc rest ih =>
    obtain ⟨hfirst, hrest⟩ := List.forall_mem_cons.1 htodo
    obtain ⟨hdeep, hlevel⟩ := ih hrest
    refine ⟨List.forall_mem_cons.2 ⟨hfirst, hdeep⟩, ?_⟩
    rw [List.map_cons, List.filter_cons, List.filter_cons, hlevel]
  | @first visited m f todo es hm hf rest ih =>
    obtain ⟨hfirst, hrest⟩ := List.forall_mem_cons.1 htodo
    have hmentions : ∀ k ∈ mentions f.links (m.depth + 1), depth < k.depth := by
      intro k hk
      rw [depth_of_mem_mentions hk]
      exact Nat.lt_succ_of_le hfirst
    obtain ⟨hdeep, hlevel⟩ := ih fun k hk => (List.mem_append.1 hk).elim (fun hk => (hmentions k hk).le) (hrest k)
    refine ⟨List.forall_mem_cons.2 ⟨hfirst, hdeep⟩, ?_⟩
    have hnone : (mentions f.links (m.depth + 1)).filter (fun k => k.depth = depth) = [] :=
      List.filter_eq_nil_iff.2 fun k hk => by simpa using (hmentions k hk).ne'
    rw [List.map_cons, List.filter_cons, List.filter_cons, hlevel, List.filter_append, hnone, List.nil_append]

/-- the first entry is no deeper than the stack -/
theorem Trail.takeWhile_eq_nil (h : Trail a visited todo es) {depth : Nat} (htodo : ∀ m ∈ todo, m.depth ≤ depth) :
    es.takeWhile (fun e => depth < e.mention.depth) = [] := by
  cases h with
  | nil => rfl
  | again | first => simpa [List.takeWhile_cons] using htodo _ List.mem_cons_self

/-- directly below a first entry are the links of its frame, in their order -/
theorem Trail.beneath_first {m : Mention} (h : Trail a visited (m :: todo) (⟨m, false⟩ :: es))
    (hd : Descends (m :: todo)) : (beneath ⟨m, false⟩ es).map link = a.links m.handle := by
  cases h with
  | @first _ _ f _ _ hm hf rest =>
    -- the entries of the links come first, and are all deeper; the next one is no deeper
    obtain ⟨es₁, es₂, visited', rfl, h₁, h₂⟩ := rest.split
    obtain ⟨hdeep, hlevel⟩ := h₁.level fun k hk => (depth_of_mem_mentions hk).ge
    have htake : (es₁ ++ es₂).takeWhile (fun x => m.depth < x.mention.depth) = es₁ := by
      rw [List.takeWhile_append_of_pos (by simpa using hdeep), h₂.takeWhile_eq_nil (List.pairwise_cons.1 hd).1,
        List.append_nil]
    rw [List.filter_eq_self.2 fun k hk => decide_eq_true (depth_of_mem_mentions hk)] at hlevel
    have hlinks := congrArg (List.map fun k : Mention => (k.place, k.handle)) hlevel
    rw [List.filter_map, List.map_map, map_mentions] at hlinks
    rw [beneath, htake, Arena.links_of_frame? hf]
    exact hlinks

/-- below an entry with the mark is nothing -/
theorem Trail.beneath_again {m : Mention} (h : Trail a visited (m :: todo) (⟨m, true⟩ :: es))
    (hd : Descends (m :: todo)) : beneath ⟨m, true⟩ es = [] := by
  cases h with
  | again hm hc rest => rw [beneath, rest.takeWhile_eq_nil (List.pairwise_cons.1 hd).1, List.filter_nil]

theorem Trail.beneath_eq {before behind : List Entry} {e : Entry} (h : Trail a visited todo (before ++ e :: behind))
    (hd : Descends todo) : (beneath e behind).map link = if e.again then [] else a.links e.mention.handle := by
  obtain ⟨visited', todo', ht, -, hd'⟩ := h.drop
  cases ht with
  | again hm hc rest =>
    rw [Trail.beneath_again (.again hm hc rest) (hd' hd)]
    rfl
  | first hm hf rest => exact Trail.beneath_first (.first hm hf rest) (hd' hd)

/-! ## Links that are spent -/

/-- entries stand for the mentions on the stack and for the links of the frames that are entered first, for each once -/
theorem Trail.perm (h : Trail a visited todo es) :
    (es.map link).Perm (todo.map (fun m => (m.place, m.handle)) ++ (firsts es).flatMap a.links) := by
  induction h with
  | nil => simp
  | again hm hc rest ih => exact ih.cons _
  | @first visited m f todo es hm hf rest ih =>
    refine List.Perm.cons _ (ih.trans ?_)
    rw [List.map_append, map_mentions, firsts_first, List.flatMap_cons, Arena.links_of_frame? hf, List.append_assoc]
    exact List.perm_append_comm_assoc _ _ _

end Listing

/-- **Every frame and every link is listed once.** Where no slot and no child dangles, the listing of a frame shows a line
for each of its entries. Exactly the frames that it reaches have an entry without the mark, and have one; another entry of
the same frame has the mark, and stands behind it. Directly below the entry without the mark stand the slots and children
of its frame, in their order, and below one with the mark stands nothing. So all entries but the first are the slots and
children of the frames that are reached. -/
theorem Arena.entries_once {a : Arena} (ha : a.Closed) {root : Handle} (hroot : a.contains root = true) :
    let es := Listing.entries a root
    a.listing root = .ok (String.join (es.map (Listing.line a))) ∧
    (Listing.firsts es).Nodup ∧
    (∀ h, h ∈ Listing.firsts es ↔ a.Reaches root h) ∧
    (∀ before e behind, es = before ++ e :: behind →
      a.Reaches root e.mention.handle ∧
      (e.again = true ↔ e.mention.handle ∈ Listing.firsts before) ∧
      (Listing.beneath e behind).map Listing.link = if e.again then [] else a.links e.mention.handle) ∧
    (es.map Listing.link).Perm ((.root, root) :: (Listing.firsts es).flatMap a.links) ∧
    ∃ reached : Finset Handle, (∀ h, h ∈ reached ↔ a.Reaches root h) ∧ es.length = 1 + ∑ h ∈ reached, a.degree h := by
  obtain ⟨es, h⟩ := Listing.exists_root_trail ha hroot
  obtain ⟨hnodup, -⟩ := h.firsts_fresh
  intro es'
  obtain rfl : es' = es := h.entries_eq
  refine ⟨h.listing_eq, hnodup, h.mem_firsts_iff, fun before e behind hes => ⟨?_, ?_, ?_⟩, h.perm,
    (Listing.firsts es').toFinset, fun k => by rw [List.mem_toFinset, h.mem_firsts_iff], ?_⟩
  · obtain ⟨m, hm, hreach⟩ := h.reached e (hes ▸ List.mem_append_right _ List.mem_cons_self)
    rwa [List.mem_singleton.1 hm] at hreach
  · have hagain := Listing.Trail.again_iff (hes ▸ h)
    simpa using hagain
  · exact Listing.Trail.beneath_eq (hes ▸ h) (List.pairwise_singleton _ _)
  · have hlength := h.perm.length_eq
    rw [List.sum_toFinset _ hnodup]
    simp only [List.length_append, List.length_map, List.length_flatMap, Arena.length_links] at hlength
    simpa using hlength

theorem Arena.entries_once_knot : Arena.knot.Closed ∧ Arena.knot.contains ⟨0⟩ = true ∧
    ∃ reached : Finset Handle, (∀ h, h ∈ reached ↔ Arena.knot.Reaches ⟨0⟩ h) ∧
      (Listing.entries Arena.knot ⟨0⟩).length = 1 + ∑ h ∈ reached, Arena.knot.degree h := by
  have ha : Arena.knot.Closed := by decide
  have hh : Arena.knot.contains ⟨0⟩ = true := by decide
  obtain ⟨-, -, -, -, -, hcount⟩ := Arena.entries_once ha hh
  exact ⟨ha, hh, hcount⟩

end FrameGraph
