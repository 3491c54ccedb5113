/-
Texts that write expressions, and what reading makes of them.

A token is written by its sign or, a leaf, by a word that the rules match as a whole (`Spells`). A text writes tokens if it
is their spellings with any gaps around them, where two neighbouring leaves need a gap between them, and a comment that no
newline ends may stand at its end (`Writes`). No text is laid out by the reader's own choices: every gap is arbitrary.

Results:
- `tokens_of_writes`: the lexer finds exactly the tokens that a text writes.
- `onward_tokensAll`: a reading of the tokens of expressions visits these expressions one by one and stops for no reason.
- `visiting_of_writes`: so reading a text that writes expressions visits exactly these, in order, from any arena on.
-/
import FrameGraph.Proofs.Lexing
import FrameGraph.Proofs.Reader
import FrameGraph.Reading
import Mathlib.Data.List.TakeWhile

namespace FrameGraph

/-! ## Written tokens -/

/-- what can stand behind the last token: a gap, and a comment that no newline ends -/
inductive LastGap : List Char → Prop where
  | gap {g : List Char} (hg : Gap g) : LastGap g
  | comment {g body : List Char} (hg : Gap g) (hb : '\n' ∉ body) : LastGap (g ++ ';' :: body)

def Token.isLeaf : Token → Bool
  | .leaf _ => true
  | _ => false

/-- the texts of a single token -/
inductive Spells (s : Settings) : Token → List Char → Prop where
  | opening : Spells s .opening ['(']
  | closing : Spells s .closing [')']
  | quote : Spells s (.quote (Lexer.quoteLabel s)) [s.quote]
  | leaf {w : List Char} {x : Label} (hne : w ≠ []) (hw : ∀ c ∈ w, Lexer.isWordChar s c = true)
    (hx : Word.classify w = some ⟨x, w.length⟩) : Spells s (.leaf x) w

/-- the text writes the tokens, with a gap before each and one behind the last; `behindLeaf` tells that a leaf stands right
before the text, from which another leaf has to be kept apart -/
inductive Writes (s : Settings) : Bool → List Token → List Char → Prop where
  | nil {behindLeaf : Bool} {g : List Char} (hg : LastGap g) : Writes s behindLeaf [] g
  | cons {behindLeaf : Bool} {g w text : List Char} {t : Token} {ts : List Token} (hg : Gap g)
    (apart : behindLeaf = true → t.isLeaf = true → g ≠ []) (ht : Spells s t w) (h : Writes s t.isLeaf ts text) :
    Writes s behindLeaf (t :: ts) (g ++ (w ++ text))

/-! ## The lexer on written tokens -/

theorem LastGap.breaks (s : Settings) {g : List Char} (hg : LastGap g) (hne : g ≠ []) : Breaks s g := by
  cases hg with
  | gap hg => exact hg.breaks s hne
  | @comment g body hg _ =>
    by_cases h : g = []
    · exact ⟨';', body, by simp [h], by simp [Lexer.isWordChar]⟩
    · exact (hg.breaks s h).append _

theorem Spells.breaks {s : Settings} {t : Token} {w : List Char} (ht : Spells s t w) (hl : t.isLeaf = false) :
    Breaks s w := by
  cases ht with
  | opening => exact ⟨'(', [], rfl, by simp [Lexer.isWordChar]⟩
  | closing => exact ⟨')', [], rfl, by simp [Lexer.isWordChar]⟩
  | quote => exact ⟨s.quote, [], rfl, by simp [Lexer.isWordChar]⟩
  | leaf => simp [Token.isLeaf] at hl

namespace Lexer

variable {s : Settings} {l : Lexer}

theorem after_lastGap (hs : s.Proper) {g : List Char} (hg : LastGap g) (h : l.mode = .gap) :
    (l.after s g).flush.done = l.done := by
  cases hg with
  | gap hg =>
    obtain ⟨hm, hd⟩ := after_gap hs hg h
    rw [flush_gap hm, hd]
  | @comment g body hg hb =>
    obtain ⟨hm, hd⟩ := after_gap hs hg h
    rw [after_append, after_cons, step_gap hm, takeInGap_semicolon hs.ne_semicolon]
    obtain ⟨hm', hd'⟩ := after_comment (s := s) hb (mode_advance (l.after s g) ';' .comment)
    rw [flush_comment hm', hd', done_advance, hd]

/-- a spelling read from a gap completes its token, or leaves it pending as a word -/
theorem after_spelling (hs : s.Proper) {t : Token} {w : List Char} (ht : Spells s t w) (h : l.mode = .gap) :
    (l.after s w).mode ≠ .comment ∧ (t.isLeaf = false → (l.after s w).mode = .gap) ∧
      (l.after s w).flush.done = l.done.push (.ok ⟨t, l.here⟩) := by
  cases ht with
  | opening =>
    have h1 : l.after s ['('] = l.emit '(' .opening := by simp [after, step_gap h, takeInGap]
    rw [h1, flush_gap (mode_emit ..)]
    exact ⟨by simp, fun _ => rfl, rfl⟩
  | closing =>
    have h1 : l.after s [')'] = l.emit ')' .closing := by simp [after, step_gap h, takeInGap]
    rw [h1, flush_gap (mode_emit ..)]
    exact ⟨by simp, fun _ => rfl, rfl⟩
  | quote =>
    have h1 : l.after s [s.quote] = l.emit s.quote (.quote (quoteLabel s)) := by
      simp [after, step_gap h, takeInGap_quote hs]
    rw [h1, flush_gap (mode_emit ..)]
    exact ⟨by simp, fun _ => rfl, rfl⟩
  | leaf hne hw hx =>
    obtain ⟨hm, hd⟩ := after_word_of_gap hne hw h
    refine ⟨by simp [hm], fun hl => by simp [Token.isLeaf] at hl, ?_⟩
    rw [flush_word hne hx hm, hd]

/-- the lexer behind a written text has found what it had before and the tokens written -/
theorem after_writes (hs : s.Proper) {behindLeaf : Bool} {ts : List Token} {text : List Char}
    (hw : Writes s behindLeaf ts text) (h : l.mode ≠ .comment) (hgap : behindLeaf = false → l.mode = .gap) :
    ∃ p : List (Located Token), p.map Located.item = ts ∧
      (l.after s text).flush.done.toList = l.flush.done.toList ++ p.map .ok := by
  induction hw generalizing l with
  | @nil behindLeaf g hg =>
    refine ⟨[], rfl, ?_⟩
    by_cases hne : g = []
    · simp [hne, after]
    · rw [after_flush h (.inr (hg.breaks s hne)), after_lastGap hs hg (mode_flush h)]
      simp
  | @cons behindLeaf g w text t ts hg apart ht _ ih =>
    have hbreaks : l.mode = .gap ∨ Breaks s (g ++ (w ++ text)) := by
      by_cases hl : behindLeaf = true ∧ g = []
      · right
        have ht' : t.isLeaf = false := by
          by_contra hc
          exact apart hl.1 (by simpa using hc) hl.2
        simpa [hl.2] using (ht.breaks ht').append text
      · by_cases hb : behindLeaf = true
        · exact .inr ((hg.breaks s fun hg => hl ⟨hb, hg⟩).append _)
        · exact .inl (hgap (by simpa using hb))
    rw [after_flush h hbreaks, after_append, after_append]
    obtain ⟨hm, hd⟩ := after_gap hs hg (mode_flush h)
    obtain ⟨hm', hgap', hd'⟩ := after_spelling hs ht hm
    obtain ⟨p, hp, hdone⟩ := ih hm' hgap'
    refine ⟨⟨t, (l.flush.after s g).here⟩ :: p, by simp [hp], ?_⟩
    rw [hdone, hd', hd]
    simp

end Lexer

theorem upToError_ok (p : List (Located Token)) : TokenStream.upToError (p.map .ok) = p.map .ok := by
  have hok : ∀ t ∈ (p.map .ok : TokenStream), t.isOk = true := by simp [Except.isOk, Except.toBool]
  have hnone : (p.map .ok : TokenStream).find? (fun t => !t.isOk) = none := by simpa using hok
  rw [TokenStream.upToError, hnone, List.takeWhile_eq_self_iff.2 hok]
  simp

/-- the lexer finds exactly the tokens that a text writes -/
theorem tokens_of_writes {s : Settings} (hs : s.Proper) {ts : List Token} {text : String}
    (hw : Writes s false ts text.toList) :
    ∃ p : List (Located Token), p.map Located.item = ts ∧ (CharSource.ofString text).tokens s = p.map .ok := by
  obtain ⟨p, hp, hdone⟩ := Lexer.after_writes hs hw (l := .start) Mode.noConfusion fun _ => rfl
  refine ⟨p, hp, ?_⟩
  show TokenStream.upToError (Lexer.start.after s text.toList).flush.done.toList = p.map .ok
  rw [hdone]
  exact upToError_ok p

/-! ## Readings of expressions -/

theorem Arena.plantAll_cons (a : Arena) (e : Expr) (es : List Expr) : a.plantAll (e :: es) = (a.plant e).plantAll es := by
  simp only [plantAll, plant, Expr.framesAll, extend_extend, size_extend, Expr.length_frames]

namespace Reading

variable {σ ε : Type}

theorem onward_ended {d : Nat} {visit : Visit σ ε} {n : Nat} {st : σ} {a a' : Arena} {ts r : TokenStream}
    (h : Reader.next d a ts = ⟨a', .ended, r⟩) : onward d visit n st a ts = ⟨a', st, .all n⟩ := by
  rw [onward]
  split
  all_goals simp_all

theorem onward_expression {d : Nat} {visit : Visit σ ε} {n : Nat} {st : σ} {a a' : Arena} {ts r : TokenStream}
    {x : Handle} (h : Reader.next d a ts = ⟨a', .expression x, r⟩) (hv : (visit st a' x).2.2 = none) :
    onward d visit n st a ts = onward d visit (n + 1) (visit st a' x).1 (visit st a' x).2.1 r := by
  rw [onward]
  split
  · simp_all
  · simp_all
  next b y rest hb =>
    obtain ⟨rfl, hx, rfl⟩ : b = a' ∧ Outcome.expression y = .expression x ∧ rest = r := by simpa [h, eq_comm] using hb
    obtain rfl := Outcome.expression.inj hx
    split
    next hvis => rw [hvis]
    next hvis => simp [hvis] at hv

/-- the state and the arena that visits to `es` leave, each expression planted in the arena that the visit before left -/
def visited (visit : Visit σ ε) (st : σ) (a : Arena) : List Expr → σ × Arena
  | [] => (st, a)
  | e :: es =>
    let left := visit st (a.plant e) a.next
    visited visit left.1 left.2.1 es

/-- the arena and the handle at each of these visits -/
def visits (visit : Visit σ ε) (st : σ) (a : Arena) : List Expr → List (Arena × Handle)
  | [] => []
  | e :: es =>
    let left := visit st (a.plant e) a.next
    (a.plant e, a.next) :: visits visit left.1 left.2.1 es

theorem holds_visits (visit : Visit σ ε) (st : σ) (a : Arena) (es : List Expr) :
    List.Forall₂ (fun v e => Holds v.1 v.2 e) (visits visit st a es) es := by
  induction es generalizing st a with
  | nil => exact .nil
  | cons e es ih => exact .cons (holds_plant a e) (ih _ _)

theorem visited_state (visit : Visit σ ε) (st : σ) (a : Arena) (es : List Expr) :
    (visited visit st a es).1 = (visits visit st a es).foldl (fun st v => (visit st v.1 v.2).1) st := by
  induction es generalizing st a with
  | nil => rfl
  | cons e es ih => exact ih _ _

/-- visits that leave the arena as it is find the expressions one behind the other -/
theorem visited_arena {visit : Visit σ ε} (hv : ∀ st a h, (visit st a h).2.1 = a) (st : σ) (a : Arena) (es : List Expr) :
    (visited visit st a es).2 = a.plantAll es ∧ (visits visit st a es).map Prod.snd = Expr.handles a.size es := by
  induction es generalizing st a with
  | nil => exact ⟨(a.extend_nil).symm, rfl⟩
  | cons e es ih =>
    obtain ⟨harena, hhandles⟩ := ih (visit st (a.plant e) a.next).1 (a.plant e)
    simp only [visited, visits, List.map_cons, hv, harena, hhandles, Arena.plantAll_cons]
    simp [Expr.handles, Arena.plant, Expr.length_frames, Arena.next_eq]

/-- a reading of the tokens of expressions visits these expressions and stops for no reason -/
theorem onward_tokensAll {d : Nat} {visit : Visit σ ε} (hv : ∀ st a h, (visit st a h).2.2 = none) {es : List Expr}
    (hd : ∀ e ∈ es, e.nesting ≤ d) {p : List (Located Token)} (hp : p.map Located.item = Expr.tokensAll es)
    (n : Nat) (st : σ) (a : Arena) :
    onward d visit n st a (p.map .ok) = ⟨(visited visit st a es).2, (visited visit st a es).1, .all (n + es.length)⟩ := by
  induction es generalizing p n st a with
  | nil =>
    obtain rfl : p = [] := by simpa [Expr.tokensAll] using hp
    exact onward_ended rfl
  | cons e es ih =>
    obtain ⟨pe, ps, rfl, hpe, hps⟩ := List.map_eq_append_iff.1 hp
    have hparse : Grammar.parse d [] ((pe ++ ps).map .ok) = .expression e (ps.map .ok) :=
      Grammar.parse_expression_iff.2 ⟨pe, by simp, hpe, hd e List.mem_cons_self⟩
    have hcall : Reader.next d a ((pe ++ ps).map .ok) = ⟨a.plant e, .expression a.next, ps.map .ok⟩ := by
      rw [Grammar.next_eq_parse, hparse]
      rfl
    rw [onward_expression hcall (hv _ _ _), ih (fun e he => hd e (List.mem_cons_of_mem _ he)) hps]
    simp only [visited, List.length_cons, Nat.add_assoc, Nat.add_comm 1]

end Reading

/-- **Text round trip.** Reading a text that writes expressions within the limit, with any gaps, visits exactly these
expressions in their order and stops for no reason: each visit finds its expression in the arena, and where the visits
leave the arena as it is, the arena holds all of them in the end and its own frames before them. -/
theorem visiting_of_writes {σ ε : Type} {s : Settings} (hs : s.Proper) {es : List Expr}
    (hd : ∀ e ∈ es, e.nesting ≤ s.maxDepth) {text : String} (hw : Writes s false (Expr.tokensAll es) text.toList)
    {visit : Visit σ ε} (hv : ∀ st a h, (visit st a h).2.2 = none) (st : σ) (a : Arena) :
    let r := Reading.visiting s.maxDepth visit st a ((CharSource.ofString text).tokens s)
    r.ending = .all es.length ∧
    ∃ vs : List (Arena × Handle), List.Forall₂ (fun v e => Holds v.1 v.2 e) vs es ∧
      r.state = vs.foldl (fun st v => (visit st v.1 v.2).1) st ∧
      ((∀ st a h, (visit st a h).2.1 = a) →
        r.arena = a.plantAll es ∧ List.Forall₂ (Holds r.arena) (vs.map Prod.snd) es) := by
  intro r
  obtain ⟨p, hp, htokens⟩ := tokens_of_writes hs hw
  have hr : r = ⟨(Reading.visited visit st a es).2, (Reading.visited visit st a es).1, .all es.length⟩ := by
    have h := Reading.onward_tokensAll hv hd hp 0 st a
    rw [Nat.zero_add] at h
    show Reading.onward s.maxDepth visit 0 st a ((CharSource.ofString text).tokens s) = _
    rw [htokens, h]
  rw [hr]
  refine ⟨rfl, Reading.visits visit st a es, Reading.holds_visits .., Reading.visited_state .., fun hlook => ?_⟩
  obtain ⟨harena, hhandles⟩ := Reading.visited_arena hlook st a es
  rw [harena, hhandles]
  exact ⟨rfl, holdsAll_plantAll a es⟩

/-- a list with a leaf and a quoted leaf, and a number -/
def Expr.nestedPair : List Expr :=
  [.list [.leaf ⟨.symbol, .text "a"⟩, .quote (Lexer.quoteLabel .default) (.leaf ⟨.symbol, .text "b"⟩)],
    .leaf ⟨.integer, .number (.integer 12)⟩]

theorem writes_nestedPair : Writes .default false (Expr.tokensAll Expr.nestedPair) " (a ;x\n\x60b)12 ; end".toList := by
  have hword (w : List Char) (h : w.all (Lexer.isWordChar .default) = true) :
      ∀ c ∈ w, Lexer.isWordChar .default c = true := List.all_eq_true.1 h
  refine .cons (.blank rfl .nil) (by decide) .opening ?_
  refine .cons .nil (by decide) (.leaf (w := ['a']) (by simp) (hword _ rfl) rfl) ?_
  refine .cons (.blank (c := ' ') rfl (@Gap.comment ['x'] [] (by decide) .nil)) (by decide) .quote ?_
  refine .cons .nil (by decide) (.leaf (w := ['b']) (by simp) (hword _ rfl) rfl) ?_
  refine .cons .nil (by decide) .closing ?_
  refine .cons .nil (by decide) (.leaf (w := ['1', '2']) (by simp) (hword _ rfl) rfl) ?_
  exact .nil (@LastGap.comment [' '] [' ', 'e', 'n', 'd'] (.blank rfl .nil) (by decide))

/-- a text with a comment in a list, a word behind a parenthesis and a comment that nothing ends -/
theorem visiting_nestedPair :
    Settings.default.Proper ∧ (∀ e ∈ Expr.nestedPair, e.nesting ≤ Settings.default.maxDepth) ∧
    let r := Reading.visiting Settings.default.maxDepth Reading.collect.visit #[] .empty
      ((CharSource.ofString " (a ;x\n\x60b)12 ; end").tokens .default)
    r.ending = .all 2 ∧ ∃ hs, List.Forall₂ (Holds r.arena) hs Expr.nestedPair := by
  have hs : Settings.default.Proper := by decide
  have hd : ∀ e ∈ Expr.nestedPair, e.nesting ≤ Settings.default.maxDepth := by
    simp [Expr.nestedPair, Expr.nesting, Expr.nestingAll, Settings.default]
  obtain ⟨hall, vs, -, -, hvs⟩ := visiting_of_writes hs hd writes_nestedPair
    (fun _ _ _ => rfl : ∀ st a h, (Reading.collect.visit st a h).2.2 = none) #[] .empty
  exact ⟨hs, hd, hall, vs.map Prod.snd, (hvs fun _ _ _ => rfl).2⟩

end FrameGraph
