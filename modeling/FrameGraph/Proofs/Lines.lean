/-
Lines of listings as text: what a line shows, and what can be read off it.

A line is not escaped, so what it shows can be read off it only because of what a source can put there: no label that is read
from one has a blank in it, but for the mark of a quote, if blanks are quote marks.

Results:
- `listing_of_shows`: the listing of an expression shows a row for each item of its outline and nothing else, whatever arena
  it stands in.
- `marker_notMem_rows`: no row, and nothing between rows, looks like the mark of a frame that was listed before.
- `eq_of_text`: labels with the same text are the same.
- `rows_injective`: rows with the same text show the same labels at the same depths.
-/
import FrameGraph.Proofs.FloatText
import FrameGraph.Proofs.Lexing
import FrameGraph.Proofs.Outline

namespace FrameGraph

/-! ## Labels that are read -/

/-- the labels of the frames that tokens of a source take -/
inductive Label.Lexed (s : Settings) : Label → Prop where
  | list : Lexed s Reader.listLabel
  | quote : Lexed s (Lexer.quoteLabel s)
  | leaf {l : Label} (hl : Lexeme s l) : Lexed s l

variable {s : Settings}

theorem Token.Lexed.label {t : Token} (ht : t.Lexed s) {l : Label} (hl : t.label? = some l) : l.Lexed s := by
  cases ht with
  | opening =>
    obtain rfl := Option.some.inj hl
    exact .list
  | closing => cases hl
  | quote =>
    obtain rfl := Option.some.inj hl
    exact .quote
  | leaf hleaf =>
    obtain rfl := Option.some.inj hl
    exact .leaf hleaf

theorem Lexer.isBlank_of_isNumeric {c : Char} (hc : IsNumeric c) : isBlank c = false := by
  rw [Bool.eq_false_iff]
  intro hblank
  simp only [isBlank, Bool.or_eq_true, beq_iff_eq] at hblank
  obtain ((rfl | rfl) | rfl) | rfl := hblank <;> exact absurd hc (by decide)

/-- there are no blanks in what a leaf shows -/
theorem Lexeme.isBlank_of_mem {l : Label} (hl : Lexeme s l) : ∀ c ∈ l.formatted.toList, Lexer.isBlank c = false := by
  intro c hc
  cases hl with
  | number hx => exact Lexer.isBlank_of_isNumeric (Binary64.isNumeric_of_mem_text hx c hc)
  | integer hk => exact Lexer.isBlank_of_isNumeric (isNumeric_of_mem_radixText hc)
  | @symbol w hw =>
    have hmem : c ∈ w := by simpa [Label.formatted, Kind.format, Value.integer?, Value.number?, Value.raw] using hc
    have hword := hw c hmem
    simp only [Lexer.isWordChar, Bool.and_eq_true, Bool.not_eq_true'] at hword
    exact hword.1.1.1.1

theorem Label.toList_text (l : Label) :
    l.text.toList = '<' :: (l.kind.tag.toList ++ ':' :: (l.formatted.toList ++ ['>'])) := by
  simp [Label.text]

/-- the kind of a label says what its value is -/
theorem Label.Lexed.value_cases {l : Label} (hl : l.Lexed s) :
    (l.kind = .number ∧ ∃ x : Binary64, x.isNaN = false ∧ l.value = .number (.float x)) ∨
    (l.kind ∈ [Kind.hex, .bin, .integer] ∧ ∃ n, l.value = .number (.integer n)) ∨
    (l.kind ∈ [Kind.symbol, .list, .op] ∧ ∃ t, l.value = .text t) := by
  cases hl with
  | list => exact .inr (.inr ⟨by decide, _, rfl⟩)
  | quote => exact .inr (.inr ⟨by simp [Lexer.quoteLabel], _, rfl⟩)
  | leaf hl =>
    cases hl with
    | @number x hx => exact .inl ⟨rfl, x, hx, rfl⟩
    | @integer kind n hk => exact .inr (.inl ⟨hk, n, rfl⟩)
    | symbol hw => exact .inr (.inr ⟨by simp, _, rfl⟩)

/-- a tag is a word -/
theorem Label.Lexed.isNumeric_of_mem_tag {l : Label} (hl : l.Lexed s) : ∀ c ∈ l.kind.tag.toList, IsNumeric c := by
  have hbuiltin : ∀ k ∈ [Kind.number, .hex, .bin, .integer, .symbol, .list, .op],
      k.tag.toList.all fun c => IsNumeric c := by
    decide
  refine List.all_iff_forall_prop.1 (hbuiltin l.kind ?_)
  have hcases := hl.value_cases
  simp only [List.mem_cons, List.not_mem_nil, or_false] at hcases ⊢
  tauto

/-- labels of the same kind that show the same are the same -/
theorem Label.Lexed.eq_of_formatted {l l' : Label} (hl : l.Lexed s) (hl' : l'.Lexed s) (hkind : l.kind = l'.kind)
    (h : l.formatted = l'.formatted) : l = l' := by
  obtain ⟨kind, v⟩ := l
  obtain ⟨kind', v'⟩ := l'
  obtain rfl : kind = kind' := hkind
  have hnot : Kind.number ∉ [Kind.hex, .bin, .integer] ∧ Kind.number ∉ [Kind.symbol, .list, .op] ∧
      ∀ k ∈ [Kind.hex, .bin, .integer], k ∉ [Kind.symbol, .list, .op] := by decide
  rcases hl.value_cases with ⟨hk, x, hx, hv⟩ | ⟨hk, n, hv⟩ | ⟨hk, t, hv⟩
  · rcases hl'.value_cases with ⟨-, y, hy, hv'⟩ | ⟨hk', -⟩ | ⟨hk', -⟩
    · subst hv hv'
      obtain rfl := Binary64.text_injective hx hy h
      rfl
    · exact absurd (hk ▸ hk') hnot.1
    · exact absurd (hk ▸ hk') hnot.2.1
  · rcases hl'.value_cases with ⟨hk', -⟩ | ⟨-, m, hv'⟩ | ⟨hk', -⟩
    · exact absurd (hk' ▸ hk) hnot.1
    · subst hv hv'
      obtain rfl := radixText_injective h
      rfl
    · exact absurd hk' (hnot.2.2 _ hk)
  · rcases hl'.value_cases with ⟨hk', -⟩ | ⟨hk', -⟩ | ⟨-, u, hv'⟩
    · exact absurd (hk' ▸ hk) hnot.2.1
    · exact absurd hk (hnot.2.2 _ hk')
    · subst hv hv'
      obtain rfl : t = u := h
      rfl

/-! ## Rows -/

namespace Listing

open FrameGraph.Expr

/-- the line for an item of an outline -/
def row (x : Mention × Label) : String :=
  "\n" ++ String.ofList (List.replicate x.1.depth '\t') ++ x.1.place.text ++ (x.2.text ++ " " ++ x.1.handle.text)

theorem line_eq_row {a : Arena} {m : Mention} {f : Frame} (hf : a.frame? m.handle = some f) :
    line a ⟨m, false⟩ = row (m, f.label) := by
  rw [line_eq, Shown.start, Arena.head?, hf]
  simp [row]

/-- the listing of an expression is the rows of its outline, whatever else is in the arena -/
theorem listing_of_shows {a : Arena} {n : Nat} {e : Expr} (h : a.Shows n (e.frames n)) :
    a.listing ⟨n⟩ = .ok (String.join ((e.outline n .root 0).map row)) := by
  have hlines : (unmarked (e.outline n .root 0)).map (line a) = (e.outline n .root 0).map row := by
    rw [unmarked, List.map_map]
    apply List.map_congr_left
    intro x hx
    obtain ⟨k, hk⟩ := List.getElem?_of_mem hx
    obtain ⟨-, f, hf, hlabel⟩ := frame?_of_outline h hk
    exact (line_eq_row hf).trans (by rw [hlabel])
  rw [(trail_of_shows h).listing_eq, hlines]

/-- what stands behind the newline of a row -/
def rowText (x : Mention × Label) : List Char :=
  List.replicate x.1.depth '\t' ++ (x.1.place.text.toList ++ (x.2.text.toList ++ ' ' :: x.1.handle.text.toList))

theorem toList_row (x : Mention × Label) : (row x).toList = '\n' :: rowText x := by
  simp [row, rowText]

theorem toList_rows (xs : List (Mention × Label)) :
    (String.join (xs.map row)).toList = xs.flatMap fun x => '\n' :: rowText x := by
  rw [String.toList_join, List.flatMap_map]
  exact List.flatMap_congr fun x _ => toList_row x

/-- the places that frames of an expression can have -/
inductive Inside : Place → Prop where
  | root : Inside .root
  | child (i : Nat) : Inside (.child i)

theorem inside_outlineAll_of {es : List Expr}
    (h : ∀ e ∈ es, ∀ n place depth, Inside place → ∀ x ∈ e.outline n place depth, Inside x.1.place)
    (n index depth : Nat) : ∀ x ∈ outlineAll n index depth es, Inside x.1.place := by
  induction es generalizing n index with
  | nil => simp [outlineAll]
  | cons e es ih =>
    obtain ⟨hfirst, hrest⟩ := List.forall_mem_cons.1 h
    rw [outlineAll, List.forall_mem_append]
    exact ⟨hfirst n (.child index) depth (.child index), ih hrest _ _⟩

theorem inside_outline (e : Expr) (n : Nat) (place : Place) (depth : Nat) (hplace : Inside place) :
    ∀ x ∈ e.outline n place depth, Inside x.1.place := by
  induction e generalizing n place depth with
  | leaf l => simpa [outline] using hplace
  | quote op e ih =>
    rw [outline, List.forall_mem_cons]
    exact ⟨hplace, ih (n + 1) (.child 0) (depth + 1) (.child 0)⟩
  | list es ih =>
    rw [outline, List.forall_mem_cons]
    exact ⟨hplace, inside_outlineAll_of ih (n + 1) 0 (depth + 1)⟩

theorem toList_text_child (i : Nat) : (Place.child i).text.toList = Nat.toDigits 10 i ++ [' ', ':', ' '] := by
  simp [Place.text]

/-- items that show what a source can make of them -/
def Legible (s : Settings) (xs : List (Mention × Label)) : Prop := ∀ x ∈ xs, Inside x.1.place ∧ x.2.Lexed s

/-! ## The mark -/

/-- no blank is followed by a low line -/
def Quiet (cs : List Char) : Prop := cs.IsChain fun c d => c = ' ' → d ≠ '_'

theorem quiet_of_notMem {cs : List Char} (h : ' ' ∉ cs) : Quiet cs := by
  induction cs with
  | nil => exact .nil
  | cons c cs ih =>
    rw [List.mem_cons, not_or] at h
    exact (ih h.2).cons fun d _ heq => absurd heq.symm h.1

theorem Quiet.append {cs ds : List Char} (hcs : Quiet cs) (hds : Quiet ds) (h : ' ' ∉ cs ∨ '_' ∉ ds.head?) :
    Quiet (cs ++ ds) := by
  refine List.IsChain.append hcs hds ?_
  intro c hc d hd heq hlow
  subst heq hlow
  rcases h with h | h
  · exact h (List.mem_of_getLast? hc)
  · exact h hd

/-- only a quote mark can be a blank, and behind it the label ends -/
theorem quiet_text {l : Label} (hl : l.Lexed s) : Quiet l.text.toList := by
  have hnumeric {cs : List Char} (hcs : ∀ c ∈ cs, IsNumeric c) : ' ' ∉ cs := fun hmem => absurd (hcs _ hmem) (by decide)
  have htag : ' ' ∉ '<' :: (l.kind.tag.toList ++ [':']) := by
    simpa using hnumeric hl.isNumeric_of_mem_tag
  have hvalue : Quiet (l.formatted.toList ++ ['>']) := by
    cases hl with
    | list => exact quiet_of_notMem (by decide)
    | quote =>
      have hmark : (Lexer.quoteLabel s).formatted.toList = [s.quote] := by
        simp [Lexer.quoteLabel, Label.formatted, Kind.format, Value.integer?, Value.number?, Value.raw]
      simp [hmark, Quiet]
    | leaf hl =>
      apply quiet_of_notMem
      intro hmem
      rcases List.mem_append.1 hmem with hmem | hmem
      · exact absurd (hl.isBlank_of_mem _ hmem) (by decide)
      · simp at hmem
  have happend := (quiet_of_notMem htag).append hvalue (.inl htag)
  rw [Label.toList_text]
  simpa using happend

theorem quiet_place {place : Place} (hplace : Inside place) : Quiet place.text.toList := by
  cases hplace with
  | root => exact .nil
  | child i =>
    have hdigits : ' ' ∉ Nat.toDigits 10 i := notMem_toDigits (by decide) (by decide) (by decide) i
    rw [toList_text_child]
    exact (quiet_of_notMem hdigits).append (by simp [Quiet]) (.inl hdigits)

theorem notMem_handle {c : Char} (hc : ¬ IsNumeric c) (hat : c ≠ '@') (h : Handle) : c ∉ h.text.toList := by
  simp [Handle.text, hat, notMem_toDigits (by decide : 1 < 16) (by decide) hc h.index]

theorem quiet_row {x : Mention × Label} (hplace : Inside x.1.place) (hl : x.2.Lexed s) : Quiet ('\n' :: rowText x) := by
  have htabs : ' ' ∉ '\n' :: List.replicate x.1.depth '\t' := by simp
  have hhandle : Quiet (' ' :: x.1.handle.text.toList) := by
    have hat : x.1.handle.text.toList.head? = some '@' := by simp [Handle.text]
    exact (quiet_of_notMem (notMem_handle (by decide) (by decide) _)).cons fun d hd _ => by
      obtain rfl : '@' = d := by simpa [hat] using hd
      decide
  have hhead : '_' ∉ (x.2.text.toList ++ ' ' :: x.1.handle.text.toList).head? := by simp [Label.toList_text]
  have hlabel := (quiet_text hl).append hhandle (.inr (by simp))
  have hall := (quiet_of_notMem htabs).append ((quiet_place hplace).append hlabel (.inr hhead)) (.inl htabs)
  simpa [rowText] using hall

theorem quiet_rows {xs : List (Mention × Label)} (hxs : Legible s xs) : Quiet (String.join (xs.map row)).toList := by
  rw [toList_rows]
  induction xs with
  | nil => exact .nil
  | cons x xs ih =>
    obtain ⟨hfirst, hrest⟩ := List.forall_mem_cons.1 hxs
    have hhead : '_' ∉ (xs.flatMap fun x => '\n' :: rowText x).head? := by
      cases xs <;> simp
    rw [List.flatMap_cons]
    exact (quiet_row hfirst.1 hfirst.2).append (ih hrest) (.inr hhead)

/-- nothing in the rows looks like the mark of a frame that was listed before -/
theorem marker_notMem_rows {xs : List (Mention × Label)} (hxs : Legible s xs) :
    ¬ marker.toList <:+: (String.join (xs.map row)).toList := by
  rintro ⟨front, back, hrows⟩
  have hquiet : Quiet marker.toList := by
    have hall := quiet_rows hxs
    rw [← hrows] at hall
    exact hall.left_of_append.right_of_append
  exact absurd hquiet (by simp [Quiet, marker])

/-! ## Reading a row -/

/-- texts that are equal are equal up to the first of some character, and behind it -/
theorem cut {c : Char} {front front' back back' : List Char} (h : c ∉ front) (h' : c ∉ front')
    (heq : front ++ c :: back = front' ++ c :: back') : front = front' ∧ back = back' := by
  induction front generalizing front' with
  | nil =>
    cases front' with
    | nil => exact ⟨rfl, (List.cons.inj heq).2⟩
    | cons d front' => exact absurd (List.mem_cons.2 (.inl (List.cons.inj heq).1)) h'
  | cons d front ih =>
    cases front' with
    | nil => exact absurd (List.mem_cons.2 (.inl (List.cons.inj heq).1.symm)) h
    | cons d' front' =>
      obtain ⟨rfl, hrest⟩ := List.cons.inj heq
      rw [List.mem_cons, not_or] at h h'
      obtain ⟨rfl, hback⟩ := ih h.2 h'.2 hrest
      exact ⟨rfl, hback⟩

/-- kinds with the same tag are the same, as far as they are read -/
theorem kind_eq_of_tag {l l' : Label} (hl : l.Lexed s) (hl' : l'.Lexed s) (h : l.kind.tag = l'.kind.tag) :
    l.kind = l'.kind := by
  have hbuiltin : ∀ k ∈ Kind.builtin, ∀ k' ∈ Kind.builtin, k.tag = k'.tag → k = k' := by decide
  have hmem {l : Label} (hl : l.Lexed s) : l.kind ∈ Kind.builtin := by
    have hcases := hl.value_cases
    simp only [Kind.builtin, List.mem_cons, List.not_mem_nil, or_false] at hcases ⊢
    tauto
  exact hbuiltin _ (hmem hl) _ (hmem hl') h

/-- **A label is known by its text.** Labels that can be read and have the same text are the same, although nothing in the
text is escaped. -/
theorem eq_of_text {l l' : Label} (hl : l.Lexed s) (hl' : l'.Lexed s) (h : l.text = l'.text) : l = l' := by
  have htag {l : Label} (hl : l.Lexed s) : ':' ∉ l.kind.tag.toList :=
    fun hmem => absurd (hl.isNumeric_of_mem_tag _ hmem) (by decide)
  have hlist := congrArg String.toList h
  rw [Label.toList_text, Label.toList_text] at hlist
  obtain ⟨htags, hvalues⟩ := cut (htag hl) (htag hl') (List.cons.inj hlist).2
  have hkind := kind_eq_of_tag hl hl' (String.toList_injective htags)
  exact hl.eq_of_formatted hl' hkind (String.toList_injective (List.append_cancel_right hvalues))

/-- behind the tabs of a row stands something else -/
theorem head_of_place {place : Place} (hplace : Inside place) (l : Label) (rest : List Char) :
    ∃ c cs, place.text.toList ++ (l.text.toList ++ rest) = c :: cs ∧ c ≠ '\t' ∧ (c = '<' ↔ place = .root) := by
  cases hplace with
  | root => exact ⟨'<', _, by rw [Label.toList_text]; rfl, by decide, by simp⟩
  | child i =>
    obtain ⟨c, ds, hdigits, hc⟩ := Digits.exists_cons_toDigits i
    refine ⟨c, _, by rw [toList_text_child, hdigits]; rfl, ?_, ?_⟩
    · rintro rfl
      exact absurd hc (by decide)
    · simp only [reduceCtorEq, iff_false]
      rintro rfl
      exact absurd hc (by decide)

theorem replicate_append_inj {d d' : Nat} {c c' : Char} {cs cs' : List Char} (hc : c ≠ '\t') (hc' : c' ≠ '\t')
    (h : List.replicate d '\t' ++ c :: cs = List.replicate d' '\t' ++ c' :: cs') : d = d' ∧ c :: cs = c' :: cs' := by
  induction d generalizing d' with
  | zero =>
    cases d' with
    | zero => exact ⟨rfl, h⟩
    | succ d' => exact absurd (List.cons.inj h).1 hc
  | succ d ih =>
    cases d' with
    | zero => exact absurd (List.cons.inj h).1.symm hc'
    | succ d' =>
      obtain ⟨rfl, hrest⟩ := ih (List.cons.inj h).2
      exact ⟨rfl, hrest⟩

/-- what stands in front of the label of a row ends where the label starts -/
theorem text_eq_of_places {place place' : Place} (hplace : Inside place) (hplace' : Inside place')
    {l l' : Label} (hl : ' ' ∉ l.text.toList) (hl' : ' ' ∉ l'.text.toList) {rest rest' : List Char}
    (h : place.text.toList ++ (l.text.toList ++ ' ' :: rest) = place'.text.toList ++ (l'.text.toList ++ ' ' :: rest')) :
    l.text = l'.text := by
  have hsame : place = .root ↔ place' = .root := by
    obtain ⟨c, cs, hc, -, hroot⟩ := head_of_place hplace l (' ' :: rest)
    obtain ⟨c', cs', hc', -, hroot'⟩ := head_of_place hplace' l' (' ' :: rest')
    rw [hc, hc'] at h
    rw [← hroot, ← hroot', (List.cons.inj h).1]
  cases hplace with
  | root =>
    obtain rfl := hsame.1 rfl
    exact String.toList_injective (cut hl hl' h).1
  | child i =>
    cases hplace' with
    | root => exact absurd (hsame.2 rfl) (by simp)
    | child j =>
      have hdigits (k : Nat) : ' ' ∉ Nat.toDigits 10 k := notMem_toDigits (by decide) (by decide) (by decide) k
      rw [toList_text_child, toList_text_child, List.append_assoc, List.append_assoc] at h
      obtain ⟨-, hrest⟩ := cut (hdigits i) (hdigits j) h
      have hbehind : l.text.toList ++ ' ' :: rest = l'.text.toList ++ ' ' :: rest' := by simpa using hrest
      exact String.toList_injective (cut hl hl' hbehind).1

theorem newline_notMem_place {place : Place} (hplace : Inside place) : '\n' ∉ place.text.toList := by
  cases hplace with
  | root => simp [Place.text]
  | child i =>
    rw [toList_text_child]
    simp [notMem_toDigits (by decide : 1 < 10) (by decide) (by decide : ¬ IsNumeric '\n') i]

variable (hs : s.Proper)
include hs

/-- under proper settings there are no blanks in labels -/
theorem isBlank_of_mem_text {l : Label} (hl : l.Lexed s) : ∀ c ∈ l.text.toList, Lexer.isBlank c = false := by
  have hvalue : ∀ c ∈ l.formatted.toList, Lexer.isBlank c = false := by
    cases hl with
    | list => exact List.all_iff_forall_prop.1 (by decide)
    | quote =>
      intro c hc
      obtain rfl : c = s.quote := by
        simpa [Lexer.quoteLabel, Label.formatted, Kind.format, Value.integer?, Value.number?, Value.raw] using hc
      rw [Bool.eq_false_iff]
      intro hblank
      have hmem : s.quote ∈ [' ', '\t', '\r', '\n'] := by simpa [Lexer.isBlank, or_assoc] using hblank
      exact hs (List.mem_append_left [';', '(', ')'] hmem)
    | leaf hl => exact hl.isBlank_of_mem
  rw [Label.toList_text]
  simp only [List.forall_mem_cons, List.forall_mem_append]
  exact ⟨by decide, fun c hc => Lexer.isBlank_of_isNumeric (hl.isNumeric_of_mem_tag c hc), by decide, hvalue, by decide,
    by simp⟩

/-- rows with the same text show the same label at the same depth -/
theorem eq_of_rowText {x y : Mention × Label} (hx : Inside x.1.place ∧ x.2.Lexed s) (hy : Inside y.1.place ∧ y.2.Lexed s)
    (h : rowText x = rowText y) : x.1.depth = y.1.depth ∧ x.2 = y.2 := by
  obtain ⟨c, cs, hc, hnot, -⟩ := head_of_place hx.1 x.2 (' ' :: x.1.handle.text.toList)
  obtain ⟨c', cs', hc', hnot', -⟩ := head_of_place hy.1 y.2 (' ' :: y.1.handle.text.toList)
  have htext {l : Label} (hl : l.Lexed s) : ' ' ∉ l.text.toList :=
    fun hmem => absurd (isBlank_of_mem_text hs hl _ hmem) (by decide)
  rw [rowText, rowText, hc, hc'] at h
  obtain ⟨hdepth, hrest⟩ := replicate_append_inj hnot hnot' h
  rw [← hc, ← hc'] at hrest
  exact ⟨hdepth, eq_of_text hx.2 hy.2 (text_eq_of_places hx.1 hy.1 (htext hx.2) (htext hy.2) hrest)⟩

theorem newline_notMem_rowText {x : Mention × Label} (hx : Inside x.1.place ∧ x.2.Lexed s) : '\n' ∉ rowText x := by
  have hlabel : '\n' ∉ x.2.text.toList := fun hmem => absurd (isBlank_of_mem_text hs hx.2 _ hmem) (by decide)
  have hhandle : '\n' ∉ x.1.handle.text.toList := notMem_handle (by decide) (by decide) _
  simp [rowText, newline_notMem_place hx.1, hlabel, hhandle]

theorem rowTexts_injective {xs ys : List (Mention × Label)} (hxs : Legible s xs) (hys : Legible s ys)
    (h : xs.flatMap (fun x => '\n' :: rowText x) ++ ['\n'] = ys.flatMap (fun y => '\n' :: rowText y) ++ ['\n']) :
    xs.map (fun x => (x.1.depth, x.2)) = ys.map fun y => (y.1.depth, y.2) := by
  -- with a newline at the end, every row stands between two newlines
  have hnext (zs : List (Mention × Label)) :
      ∃ rest, zs.flatMap (fun z => '\n' :: rowText z) ++ ['\n'] = '\n' :: rest ∧ (rest = [] ↔ zs = []) := by
    cases zs <;> simp
  induction xs generalizing ys with
  | nil =>
    obtain ⟨rest, hrest, hiff⟩ := hnext ys
    rw [hrest] at h
    rw [hiff.1 (List.cons.inj h).2.symm]
  | cons x xs ih =>
    cases ys with
    | nil => simp at h
    | cons y ys =>
      obtain ⟨hx, hxs⟩ := List.forall_mem_cons.1 hxs
      obtain ⟨hy, hys⟩ := List.forall_mem_cons.1 hys
      obtain ⟨rest, hrest, -⟩ := hnext xs
      obtain ⟨rest', hrest', -⟩ := hnext ys
      simp only [List.flatMap_cons, List.cons_append, List.append_assoc, hrest, hrest'] at h
      obtain ⟨htext, hbehind⟩ :=
        cut (newline_notMem_rowText hs hx) (newline_notMem_rowText hs hy) (List.cons.inj h).2
      obtain ⟨hdepth, hlabel⟩ := eq_of_rowText hs hx hy htext
      have hothers := ih hxs hys (by rw [hrest, hrest', hbehind])
      rw [List.map_cons, List.map_cons, hdepth, hlabel, hothers]

/-- rows with the same text show the same labels at the same depths -/
theorem rows_injective {xs ys : List (Mention × Label)} (hxs : Legible s xs) (hys : Legible s ys)
    (h : String.join (xs.map row) = String.join (ys.map row)) :
    xs.map (fun x => (x.1.depth, x.2)) = ys.map fun y => (y.1.depth, y.2) := by
  have hlist := congrArg String.toList h
  rw [toList_rows, toList_rows] at hlist
  exact rowTexts_injective hs hxs hys (by rw [hlist])

end Listing

end FrameGraph
