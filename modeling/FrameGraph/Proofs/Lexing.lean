/-
What the lexer does on pieces of text: on gaps, on words and on single characters, from any state it can be in.

Everything the lexer has done so far counts for the text behind it only through its mode. In a gap it has nothing pending;
behind a word, the word's leaves are pending until a character comes that does not belong to it, which is then taken as
if the lexer had been in a gap with the leaves complete (`step_flush`).

Results:
- `after_gap`: blanks and comments leave nothing behind.
- `after_word`: word characters are kept as the word that the lexer is in.
- `flush_word`: a word that is one leaf as a whole is complete with this leaf.
- `after_flush`: text that no word goes on with is taken as if everything before it were complete.
- `here_after`: the lexer counts every character it reads, in whatever mode.
-/
import FrameGraph.Token.Lexer
import Mathlib.Tactic

namespace FrameGraph

/-- the quote mark is no blank, no semicolon and no parenthesis -/
def Settings.Proper (s : Settings) : Prop := s.quote ∉ [' ', '\t', '\r', '\n', ';', '(', ')']

instance (s : Settings) : Decidable s.Proper := by
  unfold Settings.Proper; infer_instance

theorem Settings.Proper.ne_semicolon {s : Settings} (hs : s.Proper) : s.quote ≠ ';' := fun h => hs (by simp [h])

/-- blanks and comments, each with the newline that ends it -/
inductive Gap : List Char → Prop where
  | nil : Gap []
  | blank {c : Char} {g : List Char} (hc : Lexer.isBlank c = true) (hg : Gap g) : Gap (c :: g)
  | comment {body g : List Char} (hb : '\n' ∉ body) (hg : Gap g) : Gap (';' :: (body ++ '\n' :: g))

/-- the text starts with a character that no word goes on with -/
def Breaks (s : Settings) (cs : List Char) : Prop := ∃ c ds, cs = c :: ds ∧ Lexer.isWordChar s c = false

theorem Breaks.append {s : Settings} {cs : List Char} (h : Breaks s cs) (ds : List Char) : Breaks s (cs ++ ds) := by
  obtain ⟨c, es, rfl, hc⟩ := h
  exact ⟨c, es ++ ds, rfl, hc⟩

theorem Gap.breaks (s : Settings) {g : List Char} (hg : Gap g) (hne : g ≠ []) : Breaks s g := by
  cases hg with
  | nil => exact absurd rfl hne
  | @blank c g hc _ => exact ⟨c, g, rfl, by simp [Lexer.isWordChar, hc]⟩
  | @comment body g _ _ => exact ⟨';', _, rfl, by simp [Lexer.isWordChar]⟩

namespace Lexer

variable {s : Settings} {l : Lexer}

theorem after_cons (s : Settings) (l : Lexer) (c : Char) (cs : List Char) :
    l.after s (c :: cs) = (step s l c).after s cs := rfl

theorem after_snoc (s : Settings) (l : Lexer) (cs : List Char) (c : Char) :
    l.after s (cs ++ [c]) = step s (l.after s cs) c := after_append s l cs [c]

@[simp] theorem mode_advance (l : Lexer) (c : Char) (m : Mode) : (l.advance c m).mode = m := rfl

@[simp] theorem done_advance (l : Lexer) (c : Char) (m : Mode) : (l.advance c m).done = l.done := rfl

@[simp] theorem mode_emit (l : Lexer) (c : Char) (t : Token) : (l.emit c t).mode = .gap := rfl

/-! ## Characters in a gap -/

theorem isBlank_iff {c : Char} : isBlank c = true ↔ c = ' ' ∨ c = '\t' ∨ c = '\r' ∨ c = '\n' := by
  simp [isBlank, or_assoc]

theorem takeInGap_blank (hs : s.Proper) (l : Lexer) {c : Char} (hc : isBlank c = true) :
    l.takeInGap s c = l.advance c .gap := by
  have hq : c ≠ s.quote := by
    rintro rfl
    rw [isBlank_iff] at hc
    simp only [Settings.Proper, List.mem_cons] at hs
    tauto
  have h1 : c ≠ '(' := by rintro rfl; simp [isBlank] at hc
  have h2 : c ≠ ')' := by rintro rfl; simp [isBlank] at hc
  simp [takeInGap, h1, h2, hq, hc]

theorem takeInGap_semicolon (hq : s.quote ≠ ';') (l : Lexer) : l.takeInGap s ';' = l.advance ';' .comment := by
  simp [takeInGap, hq.symm, isBlank]

theorem takeInGap_quote (hs : s.Proper) (l : Lexer) :
    l.takeInGap s s.quote = l.emit s.quote (.quote (quoteLabel s)) := by
  have h1 : s.quote ≠ '(' := fun h => hs (by simp [h])
  have h2 : s.quote ≠ ')' := fun h => hs (by simp [h])
  simp [takeInGap, h1, h2]

theorem takeInGap_wordChar (l : Lexer) {c : Char} (hc : isWordChar s c = true) :
    l.takeInGap s c = l.advance c (.word l.here [c]) := by
  simp only [isWordChar, Bool.and_eq_true, Bool.not_eq_true', bne_iff_ne] at hc
  simp [takeInGap, hc]

theorem step_gap (h : l.mode = .gap) (c : Char) : step s l c = l.takeInGap s c := by
  simp [step, h]

/-! ## Gaps and comments -/

theorem after_comment {body : List Char} (hb : '\n' ∉ body) (h : l.mode = .comment) :
    (l.after s body).mode = .comment ∧ (l.after s body).done = l.done := by
  induction body generalizing l with
  | nil => exact ⟨h, rfl⟩
  | cons c body ih =>
    rw [List.mem_cons, not_or] at hb
    have hc : step s l c = l.advance c .comment := by simp [step, h, Ne.symm hb.1]
    rw [after_cons, hc]
    exact ih hb.2 rfl

theorem step_newline (h : l.mode = .comment) : step s l '\n' = l.advance '\n' .gap := by
  simp [step, h]

theorem after_gap (hs : s.Proper) {g : List Char} (hg : Gap g) (h : l.mode = .gap) :
    (l.after s g).mode = .gap ∧ (l.after s g).done = l.done := by
  induction hg generalizing l with
  | nil => exact ⟨h, rfl⟩
  | @blank c g hc _ ih =>
    rw [after_cons, step_gap h, takeInGap_blank hs l hc]
    exact ih rfl
  | @comment body g hb _ ih =>
    rw [after_cons, step_gap h, takeInGap_semicolon hs.ne_semicolon, after_append, after_cons]
    obtain ⟨hm, hd⟩ := after_comment (s := s) hb (mode_advance l ';' .comment)
    rw [step_newline hm]
    obtain ⟨hm', hd'⟩ := ih (mode_advance ((l.advance ';' .comment).after s body) '\n' .gap)
    exact ⟨hm', hd'.trans hd⟩

/-! ## Words -/

theorem after_word {w : List Char} {p : Position} {r : List Char} (hw : ∀ c ∈ w, isWordChar s c = true)
    (h : l.mode = .word p r) : (l.after s w).mode = .word p (w.reverse ++ r) ∧ (l.after s w).done = l.done := by
  induction w generalizing l r with
  | nil => exact ⟨h, rfl⟩
  | cons c w ih =>
    have hc : step s l c = l.advance c (.word p (c :: r)) := by simp [step, h, hw c List.mem_cons_self]
    rw [after_cons, hc]
    have := ih (fun d hd => hw d (List.mem_cons_of_mem _ hd)) (mode_advance l c (.word p (c :: r)))
    simpa using this

/-- a word that is read from a gap -/
theorem after_word_of_gap {w : List Char} (hne : w ≠ []) (hw : ∀ c ∈ w, isWordChar s c = true) (h : l.mode = .gap) :
    (l.after s w).mode = .word l.here w.reverse ∧ (l.after s w).done = l.done := by
  cases w with
  | nil => exact absurd rfl hne
  | cons c w =>
    rw [after_cons, step_gap h, takeInGap_wordChar l (hw c List.mem_cons_self)]
    have := after_word (fun d hd => hw d (List.mem_cons_of_mem _ hd)) (mode_advance l c (.word l.here [c]))
    simpa using this

theorem flush_gap (h : l.mode = .gap) : l.flush = l := by
  simp [flush, h]

theorem flush_comment (h : l.mode = .comment) : l.flush = l := by
  simp [flush, h]

theorem mode_flush (h : l.mode ≠ .comment) : l.flush.mode = .gap := by
  cases hm : l.mode with
  | gap => rw [flush_gap hm, hm]
  | comment => exact absurd hm h
  | word p r => simp [flush, hm]

/-- a word that is one leaf as a whole is complete with this leaf -/
theorem flush_word {w : List Char} {p : Position} {x : Label} (hne : w ≠ [])
    (hx : Word.classify w = some ⟨x, w.length⟩) (h : l.mode = .word p w.reverse) :
    l.flush.done = l.done.push (.ok ⟨.leaf x, p⟩) := by
  obtain ⟨c, w, rfl⟩ := List.exists_cons_of_ne_nil hne
  have hrest : Word.leavesFrom w.length [] (p.right (w.length + 1)) = [] := by cases w.length <;> rfl
  have hleaves : Word.leaves (c :: w) p = [.ok ⟨.leaf x, p⟩] := by
    simp only [Word.leaves, List.length_cons] at hx ⊢
    simp [Word.leavesFrom, hx, hrest]
  simp only [flush, h, List.reverse_reverse, hleaves]
  simp

/-- outside a word and a comment nothing is pending; behind a word, a character that does not belong to it is taken as
if the word's leaves were complete -/
theorem step_flush {c : Char} (h : l.mode ≠ .comment) (hc : l.mode = .gap ∨ isWordChar s c = false) :
    step s l c = l.flush.takeInGap s c := by
  cases hm : l.mode with
  | gap => rw [step_gap hm, flush_gap hm]
  | comment => exact absurd hm h
  | word p r =>
    rw [hm] at hc
    simp [step, hm, hc.resolve_left Mode.noConfusion]

theorem after_flush {cs : List Char} (h : l.mode ≠ .comment) (hc : l.mode = .gap ∨ Breaks s cs) :
    l.after s cs = l.flush.after s cs := by
  rcases hc with hc | ⟨c, cs, rfl, hc⟩
  · rw [flush_gap hc]
  · rw [after_cons, after_cons, step_flush h (.inr hc), step_gap (mode_flush h)]

/-! ## Positions -/

theorem here_takeInGap (l : Lexer) (c : Char) : (l.takeInGap s c).here = l.here.after c := by
  unfold takeInGap
  split_ifs <;> rfl

theorem here_flush (l : Lexer) : l.flush.here = l.here := by
  unfold flush
  split <;> rfl

theorem here_step (l : Lexer) (c : Char) : (step s l c).here = l.here.after c := by
  unfold step
  split
  · exact here_takeInGap l c
  · rfl
  · split_ifs
    · rfl
    · rw [here_takeInGap, here_flush]

/-- whatever is read, the next position is the one behind all characters -/
theorem here_after (l : Lexer) (cs : List Char) : (l.after s cs).here = l.here.afterAll cs := by
  induction cs generalizing l with
  | nil => rfl
  | cons c cs ih =>
    rw [after_cons, ih, here_step]
    rfl

end Lexer

end FrameGraph
