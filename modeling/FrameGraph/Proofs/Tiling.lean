/-
The lexer tiles its text: tokens and gaps, one behind the other, are the text.

`Tiles s before behind ts` says that the text `behind`, in front of which `before` stands, is a gap, a token, a gap, and so
on, with the tokens `ts` at the positions that the characters before them lead to. A leaf is what the rules make of the
rest of the run of word characters that it lies in (`Makes`).

Results:
- `Tiles.leaves`: the leaves of a word tile it, whatever tiling follows the word.
- `after_tiles`: the lexer tiles any text from any gap on.
- `Tiles.unique`: a text has one tiling.
- `tokens_tile`: the tokens of a text are its tiling, and there is no error among them.
-/
import FrameGraph.Proofs.Words
import FrameGraph.Proofs.Written

namespace FrameGraph

/-! ## Tilings -/

/-- the token that the text `w` makes where `behind` follows it; a leaf is cut off the rest of its run of word characters -/
inductive Makes (s : Settings) (behind : List Char) : Token → List Char → Prop where
  | opening : Makes s behind .opening ['(']
  | closing : Makes s behind .closing [')']
  | quote : Makes s behind (.quote (Lexer.quoteLabel s)) [s.quote]
  | leaf {w : List Char} {x : Label} (hne : w ≠ []) (hw : ∀ c ∈ w, Lexer.isWordChar s c = true)
    (hx : Word.classify (w ++ behind.takeWhile (Lexer.isWordChar s)) = some ⟨x, w.length⟩) : Makes s behind (.leaf x) w

/-- the text behind `before` is gaps and tokens in turn; each token has the position behind all characters before it -/
inductive Tiles (s : Settings) : List Char → List Char → List (Located Token) → Prop where
  | nil {before g : List Char} (hg : LastGap g) : Tiles s before g []
  | cons {before g w behind : List Char} {t : Token} {ts : List (Located Token)} (hg : Gap g) (ht : Makes s behind t w)
    (h : Tiles s (before ++ g ++ w) behind ts) :
    Tiles s before (g ++ (w ++ behind)) (⟨t, Position.start.afterAll (before ++ g)⟩ :: ts)

theorem Gap.append {g g' : List Char} (hg : Gap g) (hg' : Gap g') : Gap (g ++ g') := by
  induction hg with
  | nil => exact hg'
  | blank hc _ ih => exact .blank hc ih
  | comment hb _ ih =>
    rw [List.cons_append, List.append_assoc, List.cons_append]
    exact .comment hb ih

theorem LastGap.append {g g' : List Char} (hg : Gap g) (hg' : LastGap g') : LastGap (g ++ g') := by
  cases hg' with
  | gap hg' => exact .gap (hg.append hg')
  | comment hg' hb =>
    rw [← List.append_assoc]
    exact .comment (hg.append hg') hb

/-- a gap in front of a tiling widens its first gap -/
theorem Tiles.widen {s : Settings} {before g behind : List Char} {ts : List (Located Token)} (hg : Gap g)
    (h : Tiles s (before ++ g) behind ts) : Tiles s before (g ++ behind) ts := by
  cases h with
  | nil hg' => exact .nil (LastGap.append hg hg')
  | cons hg' ht h =>
    rw [← List.append_assoc]
    rw [List.append_assoc before] at h ⊢
    exact .cons (hg.append hg') ht h

/-- a single sign in front of a tiling -/
theorem Tiles.sign {s : Settings} {before behind : List Char} {c : Char} {t : Token} {ts : List (Located Token)}
    (ht : Makes s behind t [c]) (h : Tiles s (before ++ [c]) behind ts) :
    Tiles s before (c :: behind) (⟨t, Position.start.afterAll before⟩ :: ts) := by
  have hnil : Tiles s before ([] ++ ([c] ++ behind)) _ := .cons .nil ht (by simpa using h)
  simpa using hnil

/-! ## Words -/

theorem Lexer.ne_newline_of_isWordChar {s : Settings} {c : Char} (hc : isWordChar s c = true) : c ≠ '\n' := by
  rintro rfl
  simp [isWordChar, isBlank] at hc

/-- within a line, the position behind a text is as many columns to the right as the text has characters -/
theorem Position.afterAll_of_line {w : List Char} (hw : ∀ c ∈ w, c ≠ '\n') (p : Position) :
    p.afterAll w = p.right w.length := by
  induction w generalizing p with
  | nil => simp [afterAll, right]
  | cons c w ih =>
    have hc : p.after c = ⟨p.line, p.column + 1⟩ := after_of_ne (hw c List.mem_cons_self)
    have hstep : p.afterAll (c :: w) = (p.after c).afterAll w := rfl
    rw [hstep, hc, ih fun d hd => hw d (List.mem_cons_of_mem _ hd)]
    simp only [right, List.length_cons, UInt32.ofNat_add, UInt32.ofNat_one, UInt32.add_assoc, UInt32.add_comm 1]

/-- the leaves of a word tile it, if no word character follows it -/
theorem Tiles.leaves {s : Settings} {before w behind : List Char} {ts : List (Located Token)}
    (hw : ∀ c ∈ w, Lexer.isWordChar s c = true) (hbehind : behind.takeWhile (Lexer.isWordChar s) = [])
    (h : Tiles s (before ++ w) behind ts) :
    ∃ ls : List (Located Token), Word.leaves w (Position.start.afterAll before) = ls.map .ok ∧
      Tiles s before (w ++ behind) (ls ++ ts) := by
  induction w using Word.leafInduction generalizing before with
  | nil => exact ⟨[], rfl, by simpa using h⟩
  | leaf u v x hne hx ih =>
    obtain ⟨hu, hv⟩ := List.forall_mem_append.1 hw
    have hrest : Tiles s (before ++ u ++ v) behind ts := by simpa using h
    obtain ⟨ls, hls, hts⟩ := ih hv hrest
    have hline : (Position.start.afterAll before).right u.length = Position.start.afterAll (before ++ u) := by
      rw [Position.afterAll_append, Position.afterAll_of_line fun c hc => Lexer.ne_newline_of_isWordChar (hu c hc)]
    refine ⟨⟨.leaf x, Position.start.afterAll before⟩ :: ls, ?_, ?_⟩
    · rw [Word.leaves_append hx, hline, hls]
      rfl
    · have hrun : (v ++ behind).takeWhile (Lexer.isWordChar s) = v := by
        rw [List.takeWhile_append_of_pos hv, hbehind, List.append_nil]
      have hmakes : Makes s (v ++ behind) (.leaf x) u := .leaf hne hu (by rw [hrun, hx])
      have hcons : Tiles s before ([] ++ (u ++ (v ++ behind))) _ := .cons .nil hmakes (by simpa using hts)
      simpa using hcons

/-- a text starts with a run of word characters, be it empty, and no word goes on behind it -/
theorem exists_run (s : Settings) (cs : List Char) :
    ∃ w behind, cs = w ++ behind ∧ (∀ c ∈ w, Lexer.isWordChar s c = true) ∧ (behind = [] ∨ Breaks s behind) := by
  induction cs with
  | nil => exact ⟨[], [], rfl, by simp, .inl rfl⟩
  | cons c cs ih =>
    cases hc : Lexer.isWordChar s c with
    | true =>
      obtain ⟨w, behind, rfl, hw, hbehind⟩ := ih
      exact ⟨c :: w, behind, rfl, by simpa using ⟨hc, hw⟩, hbehind⟩
    | false => exact ⟨[], c :: cs, rfl, by simp, .inr ⟨c, cs, rfl, hc⟩⟩

/-! ## The lexer on any text -/

namespace Lexer

variable {s : Settings} {l : Lexer} {before cs : List Char}

/-- what reading `cs` behind `before` adds to the tokens found is a tiling of `cs` -/
def ReadsTiles (s : Settings) (l : Lexer) (before cs : List Char) : Prop :=
  ∃ ts : List (Located Token), (l.after s cs).flush.done.toList = l.done.toList ++ ts.map .ok ∧ Tiles s before cs ts

theorem ReadsTiles.gap (hs : s.Proper) {g : List Char} (hg : Gap g) (h : l.mode = .gap)
    (hcs : ReadsTiles s (l.after s g) (before ++ g) cs) : ReadsTiles s l before (g ++ cs) := by
  obtain ⟨ts, hdone, hts⟩ := hcs
  refine ⟨ts, ?_, hts.widen hg⟩
  rw [after_append, hdone, (after_gap hs hg h).2]

theorem ReadsTiles.sign {c : Char} {t : Token} (ht : Makes s cs t [c]) (h : l.mode = .gap)
    (hp : l.here = Position.start.afterAll before) (hc : l.takeInGap s c = l.emit c t)
    (hcs : ReadsTiles s (l.emit c t) (before ++ [c]) cs) : ReadsTiles s l before (c :: cs) := by
  obtain ⟨ts, hdone, hts⟩ := hcs
  refine ⟨⟨t, Position.start.afterAll before⟩ :: ts, ?_, hts.sign ht⟩
  rw [after_cons, step_gap h, hc, hdone]
  simp [emit, hp]

theorem ReadsTiles.word {w : List Char} (hne : w ≠ []) (hw : ∀ c ∈ w, isWordChar s c = true) (h : l.mode = .gap)
    (hp : l.here = Position.start.afterAll before) (hbehind : cs = [] ∨ Breaks s cs)
    (hcs : ReadsTiles s (l.after s w).flush (before ++ w) cs) : ReadsTiles s l before (w ++ cs) := by
  obtain ⟨ts, hdone, hts⟩ := hcs
  obtain ⟨hm, hd⟩ := after_word_of_gap hne hw h
  have hrun : cs.takeWhile (isWordChar s) = [] := by
    rcases hbehind with rfl | ⟨c, cs, rfl, hc⟩
    · rfl
    · simp [hc]
  obtain ⟨ls, hls, htiles⟩ := hts.leaves hw hrun
  have hflush : (l.after s w).flush.done = l.done ++ Word.leaves w l.here := by simp [flush, hm, hd]
  -- behind the word, its leaves are complete before anything else is taken
  have hon : ((l.after s w).after s cs).flush = ((l.after s w).flush.after s cs).flush := by
    rcases hbehind with rfl | hbreaks
    · exact (flush_gap (mode_flush (l := l.after s w) (by simp [hm]))).symm
    · rw [after_flush (by simp [hm]) (.inr hbreaks)]
  refine ⟨ls ++ ts, ?_, htiles⟩
  rw [after_append, hon, hdone, hflush, hp, hls]
  simp

/-- reading on from a gap tiles whatever is read -/
theorem after_tiles (hs : s.Proper) (h : l.mode = .gap) (hp : l.here = Position.start.afterAll before) :
    ReadsTiles s l before cs := by
  induction hn : cs.length using Nat.strong_induction_on generalizing l before cs with
  | _ n ih =>
    -- what stands behind a beginning that is not empty is shorter, and its position is the one behind the beginning
    have hbehind {l' : Lexer} {g rest : List Char} (hg : g ≠ []) (hcs : cs = g ++ rest) (hm : l'.mode = .gap)
        (hh : l'.here = l.here.afterAll g) : ReadsTiles s l' (before ++ g) rest := by
      refine ih rest.length ?_ hm ?_ rfl
      · have := List.length_pos_iff.2 hg
        rw [← hn, hcs, List.length_append]
        omega
      · rw [hh, hp, Position.afterAll_append]
    have hgap {g rest : List Char} (hg : Gap g) (hne : g ≠ []) (hcs : cs = g ++ rest) : ReadsTiles s l before cs := by
      rw [hcs]
      exact .gap hs hg h (hbehind hne hcs (after_gap hs hg h).1 (here_after l g))
    cases cs with
    | nil => exact ⟨[], by simp [after, flush_gap h], .nil (.gap .nil)⟩
    | cons c cs =>
      have hsign {t : Token} (ht : Makes s cs t [c]) (hc : l.takeInGap s c = l.emit c t) :
          ReadsTiles s l before (c :: cs) :=
        .sign ht h hp hc (hbehind (g := [c]) (by simp) rfl (mode_emit l c t) rfl)
      by_cases hopen : c = '('
      · subst hopen
        exact hsign .opening (by simp [takeInGap])
      by_cases hclose : c = ')'
      · subst hclose
        exact hsign .closing (by simp [takeInGap])
      by_cases hquote : c = s.quote
      · subst hquote
        exact hsign .quote (takeInGap_quote hs l)
      by_cases hblank : isBlank c = true
      · exact hgap (.blank hblank .nil) (by simp) (List.singleton_append ..).symm
      by_cases hsemi : c = ';'
      · subst hsemi
        by_cases hnl : '\n' ∈ cs
        · obtain ⟨body, rest, rfl, hb⟩ := List.eq_append_cons_of_mem hnl
          have hcs : ';' :: (body ++ '\n' :: rest) = (';' :: (body ++ ['\n'])) ++ rest := by simp
          exact hgap (.comment hb .nil) (by simp) hcs
        · obtain ⟨hm, hd⟩ := after_comment (s := s) hnl (mode_advance l ';' .comment)
          refine ⟨[], ?_, .nil (.comment (g := []) .nil hnl)⟩
          rw [after_cons, step_gap h, takeInGap_semicolon hs.ne_semicolon, flush_comment hm, hd]
          simp
      -- all that is left is a word, which goes on to the end of its run
      have hword : isWordChar s c = true := by simp [isWordChar, hblank, hsemi, hopen, hclose, hquote]
      obtain ⟨w, rest, hw, hrun, hrest⟩ := exists_run s (c :: cs)
      have hne : w ≠ [] := by
        rintro rfl
        rcases hrest with rfl | ⟨d, ds, rfl, hd⟩
        · simp at hw
        · obtain ⟨rfl, -⟩ := List.cons.inj hw
          simp [hword] at hd
      rw [hw]
      refine .word hne hrun h hp hrest (hbehind hne hw ?_ ?_)
      · exact mode_flush (by simp [(after_word_of_gap hne hrun h).1])
      · rw [here_flush, here_after]

end Lexer

/-! ## The only tiling -/

/-- no gap begins with this text -/
def StartsToken (cs : List Char) : Prop := ∀ c ∈ cs.head?, Lexer.isBlank c = false ∧ c ≠ ';'

/-- a gap goes on to the first character that no gap begins with -/
theorem Gap.unique {g g' x y : List Char} (hg : Gap g) (hg' : Gap g') (hx : StartsToken x) (hy : StartsToken y)
    (h : g ++ x = g' ++ y) : g = g' ∧ x = y := by
  induction hg generalizing g' with
  | nil =>
    cases hg' with
    | nil => exact ⟨rfl, h⟩
    | @blank c g' hc _ =>
      subst h
      have := (hx c rfl).1
      simp [hc] at this
    | @comment body g' _ _ =>
      subst h
      exact absurd rfl (hx ';' rfl).2
  | @blank c g hc _ ih =>
    cases hg' with
    | nil =>
      subst h
      have := (hy c rfl).1
      simp [hc] at this
    | blank _ hg' =>
      obtain ⟨rfl, htail⟩ := List.cons.inj h
      obtain ⟨rfl, hxy⟩ := ih hg' htail
      exact ⟨rfl, hxy⟩
    | comment _ _ =>
      obtain ⟨rfl, -⟩ := List.cons.inj h
      simp [Lexer.isBlank] at hc
  | @comment body g hb _ ih =>
    cases hg' with
    | nil =>
      subst h
      exact absurd rfl (hy ';' rfl).2
    | blank hc _ =>
      obtain ⟨rfl, -⟩ := List.cons.inj h
      simp [Lexer.isBlank] at hc
    | @comment body' g' hb' hg' =>
      have hlines : body ++ '\n' :: (g ++ x) = body' ++ '\n' :: (g' ++ y) := by simpa using h
      rcases List.append_eq_append_iff.1 hlines with ⟨as, rfl, has⟩ | ⟨as, rfl, has⟩
      · cases as with
        | nil =>
          obtain ⟨rfl, hxy⟩ := ih hg' (by simpa using has)
          exact ⟨by simp, hxy⟩
        | cons c as =>
          obtain ⟨rfl, -⟩ := List.cons.inj has
          simp at hb'
      · cases as with
        | nil =>
          obtain ⟨rfl, hxy⟩ := ih hg' (by simpa using has.symm)
          exact ⟨by simp, hxy⟩
        | cons c as =>
          obtain ⟨rfl, -⟩ := List.cons.inj has
          simp at hb

/-- the newline that a last comment lacks makes it a gap -/
theorem LastGap.newline {g : List Char} (hg : LastGap g) : Gap (g ++ ['\n']) := by
  cases hg with
  | gap hg => exact hg.append (.blank rfl .nil)
  | comment hg hb =>
    rw [List.append_assoc]
    exact hg.append (.comment hb .nil)

section Unique

variable {s : Settings} {before behind behind' w w' : List Char} {t t' : Token}

theorem Makes.startsToken (hs : s.Proper) (ht : Makes s behind t w) (x : List Char) : w ≠ [] ∧ StartsToken (w ++ x) := by
  cases ht with
  | opening => simp [StartsToken, Lexer.isBlank]
  | closing => simp [StartsToken, Lexer.isBlank]
  | quote =>
    simp only [Settings.Proper, List.mem_cons, not_or] at hs
    simp [StartsToken, Lexer.isBlank, hs]
  | leaf hne hw _ =>
    obtain ⟨c, w, rfl⟩ := List.exists_cons_of_ne_nil hne
    have := hw c List.mem_cons_self
    simp only [Lexer.isWordChar, Bool.and_eq_true, Bool.not_eq_true', bne_iff_ne] at this
    exact ⟨hne, by simpa [StartsToken] using ⟨this.1.1.1.1, this.1.1.1.2⟩⟩

/-- the signs, each a single character that no word goes on with, and the leaves -/
theorem Makes.sign_or_leaf (hs : s.Proper) (ht : Makes s behind t w) :
    (∃ c, w = [c] ∧ Lexer.isWordChar s c = false ∧
      t = if c = '(' then .opening else if c = ')' then .closing else .quote (Lexer.quoteLabel s)) ∨
    ∃ x, t = .leaf x ∧ w ≠ [] ∧ (∀ c ∈ w, Lexer.isWordChar s c = true) ∧
      Word.classify (w ++ behind.takeWhile (Lexer.isWordChar s)) = some ⟨x, w.length⟩ := by
  cases ht with
  | opening => exact .inl ⟨'(', rfl, by simp [Lexer.isWordChar], rfl⟩
  | closing => exact .inl ⟨')', rfl, by simp [Lexer.isWordChar], rfl⟩
  | quote =>
    have h1 : s.quote ≠ '(' := fun h => hs (by simp [h])
    have h2 : s.quote ≠ ')' := fun h => hs (by simp [h])
    exact .inl ⟨s.quote, rfl, by simp [Lexer.isWordChar], by simp [h1, h2]⟩
  | leaf hne hw hx => exact .inr ⟨_, rfl, hne, hw, hx⟩

theorem Makes.unique (hs : s.Proper) (ht : Makes s behind t w) (ht' : Makes s behind' t' w')
    (h : w ++ behind = w' ++ behind') : t = t' ∧ w = w' ∧ behind = behind' := by
  rcases ht.sign_or_leaf hs with ⟨c, rfl, hc, rfl⟩ | ⟨x, rfl, hne, hw, hx⟩
  · rcases ht'.sign_or_leaf hs with ⟨c', rfl, -, rfl⟩ | ⟨x', -, hne', hw', -⟩
    · obtain ⟨rfl, hbehind⟩ := List.cons.inj h
      exact ⟨rfl, rfl, hbehind⟩
    · obtain ⟨d, w', rfl⟩ := List.exists_cons_of_ne_nil hne'
      obtain ⟨rfl, -⟩ := List.cons.inj h
      simp [hw' c List.mem_cons_self] at hc
  · rcases ht'.sign_or_leaf hs with ⟨c', rfl, hc', -⟩ | ⟨x', rfl, -, hw', hx'⟩
    · obtain ⟨d, w, rfl⟩ := List.exists_cons_of_ne_nil hne
      obtain ⟨rfl, -⟩ := List.cons.inj h
      simp [hw d List.mem_cons_self] at hc'
    · -- both are cut off the same run
      rw [← List.takeWhile_append_of_pos hw, h, List.takeWhile_append_of_pos hw', hx', Option.some.injEq,
        Leaf.mk.injEq] at hx
      obtain ⟨rfl, hlen⟩ := hx
      obtain ⟨rfl, hbehind⟩ := List.append_inj h hlen.symm
      exact ⟨rfl, rfl, hbehind⟩

/-- a text has one tiling -/
theorem Tiles.unique (hs : s.Proper) {cs : List Char} {ts ts' : List (Located Token)} (h : Tiles s before cs ts)
    (h' : Tiles s before cs ts') : ts = ts' := by
  have hlast {g g' w behind : List Char} {t : Token} (hg : LastGap g) (hg' : Gap g') (ht : Makes s behind t w)
      (heq : g = g' ++ (w ++ behind)) : False := by
    obtain ⟨hne, hstart⟩ := ht.startsToken hs (behind ++ ['\n'])
    have := (hg.newline.unique (x := []) hg' (by simp [StartsToken]) hstart (by simp [heq])).2
    simp at this
  induction h generalizing ts' with
  | nil hg =>
    cases h' with
    | nil => rfl
    | cons hg' ht' _ => exact (hlast hg hg' ht' rfl).elim
  | @cons before g w behind t ts hg ht _ ih =>
    generalize hcs : g ++ (w ++ behind) = cs at h'
    cases h' with
    | nil hg' => exact (hlast hg' hg ht hcs.symm).elim
    | cons hg' ht' h' =>
      obtain ⟨rfl, htext⟩ := hg.unique hg' (ht.startsToken hs behind).2 (ht'.startsToken hs _).2 hcs
      obtain ⟨rfl, rfl, rfl⟩ := ht.unique hs ht' htext
      rw [ih h']

end Unique

/-- **The lexer tiles its text.** The tokens of a text are free of errors and are its tiling by tokens and gaps, which is
the only one: nothing is lost, doubled or misplaced. -/
theorem tokens_tile {s : Settings} (hs : s.Proper) (text : String) :
    ∃ ts : List (Located Token), (CharSource.ofString text).tokens s = ts.map .ok ∧
      ∀ ts', Tiles s [] text.toList ts' ↔ ts' = ts := by
  have hread : Lexer.ReadsTiles s .start [] text.toList := Lexer.after_tiles hs rfl rfl
  obtain ⟨ts, hdone, hts⟩ := hread
  refine ⟨ts, ?_, fun ts' => ⟨fun h => h.unique hs hts, fun h => h ▸ hts⟩⟩
  show TokenStream.upToError (Lexer.start.after s text.toList).flush.done.toList = ts.map .ok
  rw [hdone]
  exact upToError_ok ts

/-- a comment behind a word that splits, a quote mark and a character outside of ASCII -/
theorem tokens_tile_split : Settings.default.Proper ∧
    ∃ ts : List (Located Token), (CharSource.ofString "(12λ;x\n \x60b").tokens .default = ts.map .ok ∧
      ∀ ts', Tiles .default [] "(12λ;x\n \x60b".toList ts' ↔ ts' = ts := by
  have hs : Settings.default.Proper := by decide
  exact ⟨hs, tokens_tile hs _⟩

end FrameGraph
