/-
What the lexer has pending at the end of a text.

Where the lexer stands behind a text shows at the end of the text: in a comment, if there is a semicolon in the last line; if not,
in a word, if the text ends in word characters; otherwise in a gap. Only the leaves of this word are still to come. A comment
completes them and leaves nothing behind, so it can be left out; an error of decoding takes their place.

Results:
- `mode_after`: the mode of the lexer behind a text.
- `last_after`: the lexer knows the position of the last character, which is where an error is reported.
- `done_comment`: a comment leaves the tokens complete that it finds.
- `tokens_comment`: a comment is as good as no comment.
- `tokens_break_off`: where decoding fails, the tokens of the text before end, without the leaves of its last word.
-/
import FrameGraph.Proofs.LineEnds
import Mathlib.Data.List.DropRight

namespace FrameGraph

/-! ## The end of a text -/

/-- the last line of a text, empty behind a newline -/
def lastLine (cs : List Char) : List Char := cs.rtakeWhile (· != '\n')

/-- whether a text ends in a comment: a semicolon begins one if it does not stand in one, and only a newline ends it -/
def EndsInComment (cs : List Char) : Prop := ';' ∈ lastLine cs

instance (cs : List Char) : Decidable (EndsInComment cs) := inferInstanceAs (Decidable (';' ∈ lastLine cs))

/-- the word that a text ends in: the run of word characters at its end, if this is not in a comment -/
def lastWord (s : Settings) (cs : List Char) : List Char :=
  if EndsInComment cs then [] else cs.rtakeWhile (Lexer.isWordChar s)

/-- what stands before the last word of a text -/
def beforeWord (s : Settings) (cs : List Char) : List Char :=
  if EndsInComment cs then cs else cs.rdropWhile (Lexer.isWordChar s)

/-- the mode behind the characters `w` of a word, in front of which `before` stands; without characters there is no word -/
def Mode.behind (before w : List Char) : Mode := if w = [] then .gap else .word (Position.start.afterAll before) w.reverse

theorem endsInComment_newline (cs : List Char) : ¬ EndsInComment (cs ++ ['\n']) := by
  simp [EndsInComment, lastLine]

theorem endsInComment_snoc (cs : List Char) {c : Char} (hc : c ≠ '\n') :
    EndsInComment (cs ++ [c]) ↔ EndsInComment cs ∨ c = ';' := by
  have hline : lastLine (cs ++ [c]) = lastLine cs ++ [c] := List.rtakeWhile_concat_pos _ _ _ (by simpa using hc)
  rw [EndsInComment, hline, List.mem_append, List.mem_singleton]
  exact or_congr Iff.rfl eq_comm

theorem append_lastWord (s : Settings) (cs : List Char) : beforeWord s cs ++ lastWord s cs = cs := by
  unfold beforeWord lastWord
  split_ifs
  · exact List.append_nil cs
  · exact List.rdropWhile_append_rtakeWhile ..

theorem Lexer.isWordChar_semicolon (s : Settings) : isWordChar s ';' = false := by
  simp [isWordChar]

/-- a word character goes on with the word that the text ends in, outside of a comment -/
theorem word_snoc {s : Settings} {cs : List Char} (h : ¬ EndsInComment cs) {c : Char} (hc : Lexer.isWordChar s c = true) :
    ¬ EndsInComment (cs ++ [c]) ∧ beforeWord s (cs ++ [c]) = beforeWord s cs ∧
      lastWord s (cs ++ [c]) = lastWord s cs ++ [c] := by
  have hnone : ¬ EndsInComment (cs ++ [c]) := by
    rw [endsInComment_snoc cs (Lexer.ne_newline_of_isWordChar hc)]
    rintro (hcs | rfl)
    · exact h hcs
    · rw [Lexer.isWordChar_semicolon] at hc
      cases hc
  refine ⟨hnone, ?_, ?_⟩
  · simp [beforeWord, h, hnone, hc]
  · simp [lastWord, h, hnone, hc]

/-- no word goes on with any other character -/
theorem lastWord_break {s : Settings} (cs : List Char) {c : Char} (hc : Lexer.isWordChar s c = false) :
    lastWord s (cs ++ [c]) = [] := by
  simp [lastWord, hc]

namespace Lexer

variable {s : Settings} {l : Lexer}

/-! ## Modes -/

theorem mode_step_comment (h : l.mode = .comment) (c : Char) :
    (step s l c).mode = if c = '\n' then .gap else .comment := by
  simp only [step, h, mode_advance]

/-- a character that no word goes on with leaves the lexer in a gap, if it does not begin a comment -/
theorem mode_step_break (hq : s.quote ≠ ';') (h : l.mode ≠ .comment) {c : Char} (hc : isWordChar s c = false) :
    (step s l c).mode = if c = ';' then .comment else .gap := by
  rw [step_flush h (.inr hc)]
  by_cases hsemi : c = ';'
  · subst hsemi
    rw [takeInGap_semicolon hq, if_pos rfl, mode_advance]
  · rw [if_neg hsemi]
    unfold takeInGap
    split_ifs with hopen hclose hquote hblank
    · rfl
    · rfl
    · rfl
    · rfl
    · simp [isWordChar, *] at hc

/-- a word character outside of a comment begins a word or goes on with one -/
theorem mode_step_word {before w : List Char} (h : l.mode = .behind before w)
    (hp : l.here = Position.start.afterAll (before ++ w)) {c : Char} (hc : isWordChar s c = true) :
    (step s l c).mode = .behind before (w ++ [c]) := by
  by_cases hw : w = []
  · subst hw
    have hgap : l.mode = .gap := h
    rw [step_gap hgap, takeInGap_wordChar l hc, mode_advance, hp, List.append_nil]
    rfl
  · have hword : l.mode = .word (Position.start.afterAll before) w.reverse := by rw [h, Mode.behind, if_neg hw]
    simp [step, hword, hc, Mode.behind]

/-- **The end of a text shows where the lexer stands behind it.** -/
theorem mode_after (hq : s.quote ≠ ';') (cs : List Char) : (start.after s cs).mode =
    if EndsInComment cs then .comment else .behind (beforeWord s cs) (lastWord s cs) := by
  -- by induction on the text from its end, character by character as the lexer takes them
  induction cs using List.reverseRecOn with
  | nil => rfl
  | append_singleton cs c ih =>
    rw [after_snoc]
    by_cases hcomment : EndsInComment cs
    · rw [if_pos hcomment] at ih
      rw [mode_step_comment ih]
      by_cases hnl : c = '\n'
      · subst hnl
        rw [if_pos rfl, if_neg (endsInComment_newline cs), lastWord_break cs (by simp [isWordChar, isBlank])]
        rfl
      · rw [if_neg hnl, if_pos ((endsInComment_snoc cs hnl).2 (.inl hcomment))]
    · rw [if_neg hcomment] at ih
      have hopen : (start.after s cs).mode ≠ .comment := by
        rw [ih, Mode.behind]
        split_ifs <;> exact Mode.noConfusion
      cases hc : isWordChar s c with
      | true =>
        obtain ⟨hnone, hbefore, hword⟩ := word_snoc hcomment hc
        have hhere : (start.after s cs).here = Position.start.afterAll (beforeWord s cs ++ lastWord s cs) := by
          rw [here_after, append_lastWord]
          rfl
        rw [if_neg hnone, hbefore, hword]
        exact mode_step_word ih hhere hc
      | false =>
        rw [mode_step_break hq hopen hc, lastWord_break cs hc]
        by_cases hnl : c = '\n'
        · subst hnl
          rw [if_neg (endsInComment_newline cs)]
          rfl
        · simp [endsInComment_snoc cs hnl, hcomment, Mode.behind]

/-! ## What is pending -/

/-- a run of word characters completes nothing, whether it makes a word or stands in a comment -/
theorem done_after_run {w : List Char} (hw : ∀ c ∈ w, isWordChar s c = true) (l : Lexer) : (l.after s w).done = l.done := by
  induction w generalizing l with
  | nil => rfl
  | cons c w ih =>
    have hc : isWordChar s c = true := hw c List.mem_cons_self
    have hstep : (step s l c).done = l.done := by
      cases hm : l.mode with
      | gap => rw [step_gap hm, takeInGap_wordChar l hc, done_advance]
      | comment => simp only [step, hm, done_advance]
      | word p r => simp only [step, hm, hc, if_true, done_advance]
    rw [after_cons, ih (fun d hd => hw d (List.mem_cons_of_mem c hd)), hstep]

/-- only the leaves of the last word are still to come -/
theorem done_flush_after (hq : s.quote ≠ ';') (cs : List Char) : (start.after s cs).flush.done.toList =
    (start.after s cs).done.toList ++ Word.leaves (lastWord s cs) (Position.start.afterAll (beforeWord s cs)) := by
  have hmode := mode_after hq cs
  by_cases hcomment : EndsInComment cs
  · rw [if_pos hcomment] at hmode
    rw [flush_comment hmode, lastWord, if_pos hcomment]
    exact (List.append_nil _).symm
  · rw [if_neg hcomment, Mode.behind] at hmode
    by_cases hw : lastWord s cs = []
    · rw [if_pos hw] at hmode
      rw [flush_gap hmode, hw]
      exact (List.append_nil _).symm
    · rw [if_neg hw] at hmode
      simp [flush, hmode]

/-- what is complete are the tokens of the text before the last word -/
theorem done_after (hq : s.quote ≠ ';') (cs : List Char) :
    (start.after s cs).done = (start.after s (beforeWord s cs)).flush.done := by
  have hnone : lastWord s (beforeWord s cs) = [] := by
    unfold lastWord beforeWord
    split_ifs
    · rfl
    · rfl
    · exact List.rtakeWhile_eq_nil_iff.2 fun hl => List.rdropWhile_last_not _ _ hl
  have hflush := done_flush_after hq (beforeWord s cs)
  rw [hnone] at hflush
  have hrun : ∀ c ∈ lastWord s cs, isWordChar s c = true := by
    unfold lastWord
    split_ifs
    · simp
    · intro c hc
      exact List.mem_rtakeWhile_imp hc
  have hword := done_after_run hrun (start.after s (beforeWord s cs))
  rw [← after_append, append_lastWord] at hword
  rw [hword]
  exact Array.toList_inj.1 (hflush.trans (List.append_nil _)).symm

theorem last_step (l : Lexer) (c : Char) : (step s l c).last = l.here := by
  have htake (k : Lexer) : (k.takeInGap s c).last = k.here := by
    unfold takeInGap
    split_ifs <;> rfl
  unfold step
  split
  · exact htake l
  · rfl
  · split_ifs
    · rfl
    · rw [htake, here_flush]

/-- the position of the last character of a text, and the start where there is none -/
theorem last_after (cs : List Char) (fault : Option DecodeError) : (start.after s cs).last =
    ((⟨cs, fault⟩ : CharSource).located.getLast?.map Located.position).getD .start := by
  rw [CharSource.located_eq]
  cases cs using List.reverseRecOn with
  | nil => rfl
  | append_singleton cs c =>
    have hlast : ((cs ++ [c]).mapIdx fun i d => (⟨d, Position.start.afterAll ((cs ++ [c]).take i)⟩ : Located Char)).getLast? =
        some ⟨c, Position.start.afterAll cs⟩ := by simp [List.mapIdx_append]
    rw [after_snoc, last_step, here_after, hlast]
    rfl

/-- a comment completes what is pending, and leaves nothing behind -/
theorem done_comment (hq : s.quote ≠ ';') {body : List Char} (hb : '\n' ∉ body) (l : Lexer) :
    (l.after s (';' :: body)).flush.done = l.flush.done := by
  by_cases h : l.mode = .comment
  · have hline : '\n' ∉ ';' :: body := by simpa using hb
    obtain ⟨hmode, hdone⟩ := after_comment (s := s) hline h
    rw [flush_comment hmode, flush_comment h, hdone]
  · obtain ⟨hmode, hdone⟩ := after_comment (s := s) hb (mode_advance l.flush ';' .comment)
    rw [after_cons, step_flush h (.inr (isWordChar_semicolon s)), takeInGap_semicolon hq, flush_comment hmode, hdone]
    rfl

end Lexer

/-! ## Comments -/

/-- a comment that a text ends in adds nothing to its tokens -/
theorem tokens_comment_end {s : Settings} (hq : s.quote ≠ ';') (cs : List Char) {body : List Char} (hb : '\n' ∉ body) :
    (⟨cs ++ ';' :: body, none⟩ : CharSource).tokens s = (⟨cs, none⟩ : CharSource).tokens s := by
  obtain ⟨p, hp, htokens⟩ := tokens_text s cs
  obtain ⟨q, hq', htokens'⟩ := tokens_text s (cs ++ ';' :: body)
  rw [Lexer.after_append, Lexer.done_comment hq hb, hp] at hq'
  rw [htokens, htokens', hq']

/-- **A comment is as good as no comment.** Up to the newline that ends it, a comment leaves no trace in the tokens of a text, nor
in their positions, whatever it says and wherever it begins: in a gap, right behind a word or another token, or in a comment. -/
theorem tokens_comment {s : Settings} (hq : s.quote ≠ ';') (hnl : s.quote ≠ '\n') (before behind body : String)
    (hb : '\n' ∉ body.toList) :
    (CharSource.ofString (before ++ ";" ++ body ++ "\n" ++ behind)).tokens s =
      (CharSource.ofString (before ++ "\n" ++ behind)).tokens s ∧
    (CharSource.ofString (before ++ ";" ++ body)).tokens s = (CharSource.ofString before).tokens s := by
  have hlines : (before.toList ++ ';' :: body.toList).count '\n' = before.toList.count '\n' := by
    rw [List.count_append, List.count_cons_of_ne (by decide), List.count_eq_zero.2 hb, Nat.add_zero]
  refine ⟨?_, ?_⟩
  · calc (CharSource.ofString (before ++ ";" ++ body ++ "\n" ++ behind)).tokens s
        = (⟨(before.toList ++ ';' :: body.toList) ++ '\n' :: behind.toList, none⟩ : CharSource).tokens s := by
          simp [CharSource.ofString]
      _ = (⟨before.toList ++ ';' :: body.toList, none⟩ : CharSource).tokens s ++
            TokenStream.relocate (.down ((before.toList ++ ';' :: body.toList).count '\n' + 1))
              ((⟨behind.toList, none⟩ : CharSource).tokens s) := tokens_lines hnl _ _
      _ = (⟨before.toList, none⟩ : CharSource).tokens s ++
            TokenStream.relocate (.down (before.toList.count '\n' + 1))
              ((⟨behind.toList, none⟩ : CharSource).tokens s) := by rw [tokens_comment_end hq _ hb, hlines]
      _ = (⟨before.toList ++ '\n' :: behind.toList, none⟩ : CharSource).tokens s := (tokens_lines hnl _ _).symm
      _ = (CharSource.ofString (before ++ "\n" ++ behind)).tokens s := by simp [CharSource.ofString]
  · have hend := tokens_comment_end hq before.toList hb
    simpa [CharSource.ofString] using hend

/-- a comment behind a word, with a parenthesis, a quote mark and a semicolon in it -/
theorem tokens_comment_word : Settings.default.quote ≠ ';' ∧ Settings.default.quote ≠ '\n' ∧ '\n' ∉ "(\x60;".toList ∧
    (CharSource.ofString ("12x" ++ ";" ++ "(\x60;" ++ "\n" ++ "y")).tokens .default =
      (CharSource.ofString ("12x" ++ "\n" ++ "y")).tokens .default ∧
    (CharSource.ofString ("12x" ++ ";" ++ "(\x60;")).tokens .default = (CharSource.ofString "12x").tokens .default := by
  have hq : Settings.default.quote ≠ ';' := by decide
  have hnl : Settings.default.quote ≠ '\n' := by decide
  have hb : '\n' ∉ "(\x60;".toList := by decide
  exact ⟨hq, hnl, hb, tokens_comment hq hnl "12x" "y" "(\x60;" hb⟩

/-! ## Errors of decoding -/

/-- **An error of decoding cuts the tokens off.** A source that breaks off behind some characters has the tokens of these
characters alone, less all leaves of the word that they end in, which is the run of word characters at their end unless it is in a
comment. What is left are the tokens of the text before this word; then comes the error, at the position of the last character or at
the start if there is none, and then nothing. -/
theorem tokens_break_off {s : Settings} (hs : s.Proper) (cs : List Char) (e : DecodeError) :
    ∃ kept : List (Located Token),
      (⟨beforeWord s cs, none⟩ : CharSource).tokens s = kept.map .ok ∧
      (⟨cs, none⟩ : CharSource).tokens s =
        kept.map .ok ++ Word.leaves (lastWord s cs) (Position.start.afterAll (beforeWord s cs)) ∧
      (⟨cs, some e⟩ : CharSource).tokens s = kept.map .ok ++ [.error ⟨.decode e,
        ((⟨cs, some e⟩ : CharSource).located.getLast?.map Located.position).getD .start⟩] := by
  obtain ⟨kept, hkept, hbroken⟩ := tokens_fault s cs e
  refine ⟨kept, ?_, ?_, ?_⟩
  · obtain ⟨p, hp, htokens⟩ := tokens_text s (beforeWord s cs)
    rw [htokens, ← hp, ← Lexer.done_after hs.ne_semicolon, hkept]
  · obtain ⟨p, hp, htokens⟩ := tokens_text s cs
    rw [htokens, ← hp, Lexer.done_flush_after hs.ne_semicolon, hkept]
  · rw [hbroken, Lexer.last_after]

/-- an error behind a word of two leaves, of which none is left -/
theorem tokens_break_off_word :
    let cs := ['(', 'a', ' ', '1', '2', 'x']
    let e : DecodeError := .invalidUtf8 [0xFF]
    Settings.default.Proper ∧ lastWord .default cs = ['1', '2', 'x'] ∧
    ∃ kept : List (Located Token),
      (⟨['(', 'a', ' '], none⟩ : CharSource).tokens .default = kept.map .ok ∧
      (⟨cs, none⟩ : CharSource).tokens .default = kept.map .ok ++ Word.leaves ['1', '2', 'x'] ⟨0, 3⟩ ∧
      (⟨cs, some e⟩ : CharSource).tokens .default = kept.map .ok ++ [.error ⟨.decode e, ⟨0, 5⟩⟩] := by
  intro cs e
  have hs : Settings.default.Proper := by decide
  obtain ⟨kept, hbefore, halone, hbroken⟩ := tokens_break_off hs cs e
  exact ⟨hs, by decide, kept, hbefore, halone, hbroken⟩

end FrameGraph
