/-
Texts that are cut at the end of a line.

At a newline the lexer has nothing pending, whatever it is in: a word is complete, a comment ends and a gap goes on. So
the tokens in front of a newline are those that the text has which ends there, and what stands behind it is lexed as a
text of its own, only that it begins further down. Two lexers that differ in nothing but the tokens they have and the
line they are in stay so (`Lexer.Below`), character by character.

Results:
- `Lexer.after_line`: behind a newline the lexer is in a gap, with everything before it complete.
- `tokens_text`: a text has no lexical error.
- `tokens_fault`: a source that breaks off has no lexical error but its own, behind the tokens that are complete.
- `tokens_ahead`: the tokens of a line that ends come first, whatever stands behind it and however the source ends.
- `tokens_lines`: the tokens of two texts, one behind a newline, are those of both, the second moved down.
- `ByteSource.decode_ahead`: a text in front of any bytes is decoded first, and the bytes as if they stood alone.
- `ByteSource.tokens_ahead_of_text`: so a text whose last line ends has its tokens, whatever bytes stand behind it.
-/
import FrameGraph.Proofs.Decoding
import FrameGraph.Proofs.Tiling

namespace FrameGraph

/-! ## Moved positions -/

namespace Position

/-- `n` lines further down, in the same column -/
def down (n : Nat) (p : Position) : Position := ⟨p.line + UInt32.ofNat n, p.column⟩

theorem down_after (n : Nat) (p : Position) (c : Char) : (p.after c).down n = (p.down n).after c := by
  unfold after
  split_ifs
  · simp only [down, UInt32.add_assoc, UInt32.add_comm 1]
  · rfl

theorem down_right (n k : Nat) (p : Position) : (p.right k).down n = (p.down n).right k := rfl

theorem line_afterAll (p : Position) (cs : List Char) :
    (p.afterAll cs).line = p.line + UInt32.ofNat (cs.count '\n') := by
  induction cs generalizing p with
  | nil => simp [afterAll]
  | cons c cs ih =>
    have hcons : p.afterAll (c :: cs) = (p.after c).afterAll cs := rfl
    rw [hcons, ih]
    by_cases hc : c = '\n'
    · subst hc
      rw [after_newline, List.count_cons_self, UInt32.ofNat_add, UInt32.add_assoc, UInt32.add_comm 1]
      rfl
    · rw [after_of_ne hc, List.count_cons_of_ne hc]

/-- a text that ends in a newline ends at the start of a line -/
theorem afterAll_newline (cs : List Char) : start.afterAll (cs ++ ['\n']) = start.down (cs.count '\n' + 1) := by
  have hlast : start.afterAll (cs ++ ['\n']) = (start.afterAll cs).after '\n' := by
    rw [afterAll_append]
    rfl
  rw [hlast, after_newline, line_afterAll, down, UInt32.ofNat_add, UInt32.add_assoc]
  rfl

end Position

/-- the same thing at another position -/
def Located.relocate {α : Type} (f : Position → Position) (x : Located α) : Located α := ⟨x.item, f x.position⟩

/-- the same tokens, and the same error, at other positions -/
def TokenStream.relocate (f : Position → Position) (ts : TokenStream) : TokenStream :=
  ts.map fun t => (t.map (Located.relocate f)).mapError (Located.relocate f)

namespace TokenStream

theorem relocate_append (f : Position → Position) (ts us : TokenStream) :
    relocate f (ts ++ us) = relocate f ts ++ relocate f us := List.map_append

/-- an error counts only behind the tokens before it -/
theorem upToError_append (p : List (Located Token)) (ts : TokenStream) :
    upToError (p.map .ok ++ ts) = p.map .ok ++ upToError ts := by
  induction p with
  | nil => rfl
  | cons t p ih =>
    have hcons (us : TokenStream) : upToError (.ok t :: us) = .ok t :: upToError us := rfl
    rw [List.map_cons, List.cons_append, hcons, ih]
    rfl

end TokenStream

/-! ## The lexer at a newline -/

/-- the leaves of a word are tokens all -/
theorem Word.exists_leaves (w : List Char) (p : Position) : ∃ q : List (Located Token), leaves w p = q.map .ok := by
  induction w using leafInduction generalizing p with
  | nil => exact ⟨[], rfl⟩
  | leaf u v x _ hx ih =>
    obtain ⟨q, hq⟩ := ih (p.right u.length)
    exact ⟨⟨.leaf x, p⟩ :: q, by rw [leaves_append hx, hq, List.map_cons]⟩

namespace Lexer

variable {s : Settings} {l l' : Lexer}

/-- **Whatever the lexer is in, a newline completes it.** -/
theorem after_line (hs : s.quote ≠ '\n') (l : Lexer) (cs : List Char) :
    l.after s (cs ++ ['\n']) =
      ⟨.gap, l.here.afterAll (cs ++ ['\n']), l.here.afterAll cs, (l.after s cs).flush.done⟩ := by
  have hgap (k : Lexer) : k.takeInGap s '\n' = k.advance '\n' .gap := by
    simp [takeInGap, hs.symm, isBlank]
  have hstep (k : Lexer) : step s k '\n' = k.flush.advance '\n' .gap := by
    cases hm : k.mode with
    | gap => rw [step_gap hm, hgap, flush_gap hm]
    | comment => rw [step_newline hm, flush_comment hm]
    | word p w =>
      have hword : isWordChar s '\n' = false := by simp [isWordChar, isBlank]
      rw [step_flush (by simp [hm]) (.inr hword), hgap]
  rw [after_snoc, hstep, advance, here_flush, here_after, Position.afterAll_append]
  rfl

/-- the lexer has met no error -/
def Clean (l : Lexer) : Prop := ∃ p : List (Located Token), l.done.toList = p.map .ok

theorem Clean.advance (h : l.Clean) (c : Char) (m : Mode) : (l.advance c m).Clean := h

theorem Clean.emit (h : l.Clean) (c : Char) (t : Token) : (l.emit c t).Clean := by
  obtain ⟨p, hp⟩ := h
  exact ⟨p ++ [⟨t, l.here⟩], by simp [Lexer.emit, hp]⟩

theorem Clean.takeInGap (h : l.Clean) (c : Char) : (l.takeInGap s c).Clean := by
  unfold Lexer.takeInGap
  split_ifs
  exacts [h.emit .., h.emit .., h.emit .., h.advance .., h.advance .., h.advance ..]

theorem Clean.flush (h : l.Clean) : l.flush.Clean := by
  unfold Lexer.flush
  split
  next p w _ =>
    obtain ⟨q, hq⟩ := h
    obtain ⟨r, hr⟩ := Word.exists_leaves w.reverse p
    exact ⟨q ++ r, by simp [hq, hr]⟩
  · exact h

theorem Clean.step (h : l.Clean) (c : Char) : (step s l c).Clean := by
  unfold Lexer.step
  split
  · exact h.takeInGap c
  · exact h.advance ..
  · split_ifs
    · exact h.advance ..
    · exact h.flush.takeInGap c

theorem clean_after (h : l.Clean) (cs : List Char) : (l.after s cs).Clean := by
  induction cs generalizing l with
  | nil => exact h
  | cons c cs ih => exact ih (h.step c)

theorem clean_start : start.Clean := ⟨[], rfl⟩

/-! ## The lexer further down -/

/-- `l'` is where `l` is, `n` lines further down and with the tokens `front` before its own. The position of the character
before is left out: it is reported only where a source breaks off, and there may be no character before in `l` -/
structure Below (n : Nat) (front : TokenStream) (l l' : Lexer) : Prop where
  mode : l'.mode = match l.mode with
    | .word p w => .word (p.down n) w
    | m => m
  here : l'.here = l.here.down n
  done : l'.done.toList = front ++ TokenStream.relocate (.down n) l.done.toList

variable {n : Nat} {front : TokenStream}

theorem Below.emit (h : Below n front l l') (c : Char) (t : Token) : Below n front (l.emit c t) (l'.emit c t) where
  mode := rfl
  here := by simp only [Lexer.emit, h.here, Position.down_after]
  done := by
    simp only [Lexer.emit, Array.toList_push, h.done, h.here, TokenStream.relocate_append, List.append_assoc]
    rfl

theorem Below.takeInGap (h : Below n front l l') (c : Char) :
    Below n front (l.takeInGap s c) (l'.takeInGap s c) := by
  have hhere : l'.here.after c = (l.here.after c).down n := by rw [h.here, Position.down_after]
  unfold Lexer.takeInGap
  split_ifs
  · exact h.emit ..
  · exact h.emit ..
  · exact h.emit ..
  · exact ⟨rfl, hhere, h.done⟩
  · exact ⟨rfl, hhere, h.done⟩
  · exact ⟨by simp [advance, h.here], hhere, h.done⟩

end Lexer

/-- the leaves of a word that stands further down -/
theorem Word.leaves_down (n : Nat) (w : List Char) (p : Position) :
    leaves w (p.down n) = TokenStream.relocate (.down n) (leaves w p) := by
  induction w using Word.leafInduction generalizing p with
  | nil => rfl
  | leaf u v x _ hx ih =>
    rw [leaves_append hx, leaves_append hx, ← Position.down_right, ih]
    rfl

namespace Lexer

variable {s : Settings} {l l' : Lexer} {n : Nat} {front : TokenStream}

theorem Below.flush (h : Below n front l l') : Below n front l.flush l'.flush := by
  cases hm : l.mode with
  | gap =>
    have hm' : l'.mode = .gap := by rw [h.mode, hm]
    rwa [flush_gap hm, flush_gap hm']
  | comment =>
    have hm' : l'.mode = .comment := by rw [h.mode, hm]
    rwa [flush_comment hm, flush_comment hm']
  | word p w =>
    have hm' : l'.mode = .word (p.down n) w := by rw [h.mode, hm]
    simp only [Lexer.flush, hm, hm']
    refine ⟨rfl, h.here, ?_⟩
    simp only [Array.toList_appendList, h.done, Word.leaves_down, TokenStream.relocate_append,
      List.append_assoc]

theorem Below.step (h : Below n front l l') (c : Char) : Below n front (step s l c) (step s l' c) := by
  have hhere : l'.here.after c = (l.here.after c).down n := by rw [h.here, Position.down_after]
  cases hm : l.mode with
  | gap =>
    have hm' : l'.mode = .gap := by rw [h.mode, hm]
    rw [step_gap hm, step_gap hm']
    exact h.takeInGap c
  | comment =>
    have hm' : l'.mode = .comment := by rw [h.mode, hm]
    simp only [Lexer.step, hm, hm']
    refine ⟨?_, hhere, h.done⟩
    split_ifs <;> rfl
  | word p w =>
    have hm' : l'.mode = .word (p.down n) w := by rw [h.mode, hm]
    simp only [Lexer.step, hm, hm']
    split_ifs
    · exact ⟨rfl, hhere, h.done⟩
    · exact h.flush.takeInGap c

theorem below_after (h : Below n front l l') (cs : List Char) : Below n front (l.after s cs) (l'.after s cs) := by
  induction cs generalizing l l' with
  | nil => exact h
  | cons c cs ih => exact ih (h.step c)

/-- behind a line, a text is lexed as if it stood alone, only further down -/
theorem below_lines (hs : s.quote ≠ '\n') (cs ds : List Char) :
    Below (cs.count '\n' + 1) (start.after s cs).flush.done.toList (start.after s ds)
      (start.after s (cs ++ '\n' :: ds)) := by
  have hline : Below (cs.count '\n' + 1) (start.after s cs).flush.done.toList start (start.after s (cs ++ ['\n'])) := by
    rw [after_line hs]
    exact ⟨rfl, Position.afterAll_newline cs, (List.append_nil _).symm⟩
  have hafter := below_after (s := s) hline ds
  rwa [← after_append, List.append_assoc, List.singleton_append] at hafter

end Lexer

/-! ## Tokens of texts that are cut at a newline -/

/-- a text has no lexical error -/
theorem tokens_text (s : Settings) (cs : List Char) : ∃ p : List (Located Token),
    (Lexer.start.after s cs).flush.done.toList = p.map .ok ∧ (⟨cs, none⟩ : CharSource).tokens s = p.map .ok := by
  obtain ⟨p, hp⟩ := (Lexer.clean_after (s := s) Lexer.clean_start cs).flush
  refine ⟨p, hp, ?_⟩
  show TokenStream.upToError (Lexer.start.after s cs).flush.done.toList = p.map .ok
  rw [hp, upToError_ok]

/-- a source that breaks off has the tokens that are complete, and then its error -/
theorem tokens_fault (s : Settings) (cs : List Char) (e : DecodeError) : ∃ p : List (Located Token),
    (Lexer.start.after s cs).done.toList = p.map .ok ∧
    (⟨cs, some e⟩ : CharSource).tokens s = p.map .ok ++ [.error ⟨.decode e, (Lexer.start.after s cs).last⟩] := by
  obtain ⟨p, hp⟩ := Lexer.clean_after (s := s) Lexer.clean_start cs
  refine ⟨p, hp, ?_⟩
  show TokenStream.upToError ((Lexer.start.after s cs).finish (some e)) = _
  rw [Lexer.finish, Array.toList_push, hp, TokenStream.upToError_append]
  rfl

/-- **What stands behind a line does not change its tokens.** -/
theorem tokens_ahead {s : Settings} (hs : s.quote ≠ '\n') (cs ds : List Char) (fault : Option DecodeError) :
    ∃ us, (⟨cs ++ '\n' :: ds, fault⟩ : CharSource).tokens s = (⟨cs, none⟩ : CharSource).tokens s ++ us := by
  obtain ⟨p, hp, htokens⟩ := tokens_text s cs
  have hbelow := Lexer.below_lines hs cs ds
  rw [hp] at hbelow
  suffices hfinish : ∃ us, (Lexer.start.after s (cs ++ '\n' :: ds)).finish fault = p.map .ok ++ us by
    obtain ⟨us, hus⟩ := hfinish
    exact ⟨TokenStream.upToError us, by rw [htokens, ← TokenStream.upToError_append, ← hus]; rfl⟩
  cases fault with
  | none => exact ⟨_, hbelow.flush.done⟩
  | some e => exact ⟨_, by rw [Lexer.finish, Array.toList_push, hbelow.done, List.append_assoc]⟩

/-- **Tokens of texts line by line.** -/
theorem tokens_lines {s : Settings} (hs : s.quote ≠ '\n') (cs ds : List Char) :
    (⟨cs ++ '\n' :: ds, none⟩ : CharSource).tokens s = (⟨cs, none⟩ : CharSource).tokens s ++
      TokenStream.relocate (.down (cs.count '\n' + 1)) ((⟨ds, none⟩ : CharSource).tokens s) := by
  obtain ⟨p, hp, htokens⟩ := tokens_text s cs
  obtain ⟨q, hq, htokens'⟩ := tokens_text s ds
  obtain ⟨r, hr, htokens''⟩ := tokens_text s (cs ++ '\n' :: ds)
  have hbelow := Lexer.below_lines hs cs ds
  rw [hp] at hbelow
  rw [htokens, htokens', htokens'', ← hr, hbelow.flush.done, hq]

/-! ## Bytes behind a text -/

namespace Text.Utf8

/-- the bytes of a text are cut into its characters, and nothing is left -/
theorem scan_encode (cs : List Char) : ∃ ps : Array Piece, ps.toList = cs.map .char ∧ scan (encode cs) = ⟨ps, none⟩ := by
  have hnone : ∀ c, ¬ String.utf8EncodeChar c <+: [] := fun c hle => encodeChar_ne_nil c (List.prefix_nil.1 hle)
  have hscanned := scanned (encode cs)
  generalize hsc : scan (encode cs) = sc at hscanned
  generalize hbs : encode cs = bs at hscanned
  rw [← List.append_nil (encode cs)] at hbs
  cases hscanned with
  | stray ds more ps hrefused hpieces =>
    obtain ⟨-, hnil⟩ := encode_append_inj hnone (hrefused.no_character more) hbs
    simp at hnil
  | clean ds hpieces hbegun =>
    obtain ⟨ps, begun⟩ := sc
    cases begun with
    | none =>
      obtain ⟨rfl, -⟩ := encode_append_inj hnone hnone hbs
      exact ⟨ps, hpieces, rfl⟩
    | some p =>
      have hbeginning : Beginning p.bytes := reached_begun_iff.1 ⟨p, hbegun p rfl⟩
      obtain ⟨-, hnil⟩ := encode_append_inj hnone hbeginning.no_character hbs
      exact absurd hnil.symm hbeginning.1

end Text.Utf8

/-- **Bytes behind a text are decoded as if they stood alone.** -/
theorem ByteSource.decode_ahead (cs : List Char) (r : List UInt8) (failure : Option String) :
    (⟨Text.Utf8.encode cs ++ r, failure⟩ : ByteSource).decode =
      ⟨cs ++ (⟨r, failure⟩ : ByteSource).decode.chars, (⟨r, failure⟩ : ByteSource).decode.fault⟩ := by
  obtain ⟨ps, hps, hscan⟩ := Text.Utf8.scan_encode cs
  have hbehind : Text.Utf8.scan (Text.Utf8.encode cs ++ r) =
      ⟨ps ++ (Text.Utf8.scan r).pieces, (Text.Utf8.scan r).begun⟩ := by
    have hfold := Text.Utf8.foldl_append ps #[] none r
    rw [Array.append_empty, ← hscan] at hfold
    rw [Text.Utf8.scan, List.foldl_append]
    exact hfold
  calc (⟨Text.Utf8.encode cs ++ r, failure⟩ : ByteSource).decode
      = (Text.Utf8.scan (Text.Utf8.encode cs ++ r)).close failure := rfl
    _ = _ := by
      rw [hbehind, Text.Utf8.close_chars hps]
      rfl

/-- what the tokens of a text are does not depend on the bytes behind its last line -/
theorem ByteSource.tokens_ahead_of_text {s : Settings} (hs : s.quote ≠ '\n') (text : String) (r : List UInt8)
    (failure : Option String) :
    ∃ us, (⟨text.toUTF8.data.toList ++ 10 :: r, failure⟩ : ByteSource).decode.tokens s =
      (ByteSource.ofBytes text.toUTF8.data.toList).decode.tokens s ++ us := by
  have hbytes : text.toUTF8.data.toList ++ 10 :: r = Text.Utf8.encode (text.toList ++ ['\n']) ++ r := by
    rw [data_toUTF8, Text.Utf8.encode_snoc, List.append_assoc]
    rfl
  obtain ⟨us, hus⟩ := FrameGraph.tokens_ahead hs text.toList (⟨r, failure⟩ : ByteSource).decode.chars
    (⟨r, failure⟩ : ByteSource).decode.fault
  refine ⟨us, ?_⟩
  rw [hbytes, decode_ahead, data_toUTF8, decode_encode, ← hus, List.append_assoc]
  rfl

end FrameGraph
