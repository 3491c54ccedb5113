/-
The rules for words as regular expressions, and what the matchers find in a word.

The pattern of a rule is a language, put together from ranges of characters, fixed texts, concatenation and repetition; the
matchers know nothing of it. A matcher counts characters from the start of a word, and what it counts is the longest beginning
of the word that is in the pattern of its rule. That it is the longest has one reason throughout: the digits of a word end
where a character stands that is no digit, so a beginning that goes on with another character goes on behind all of them.

Results:
- `signedDigits_append`, `exists_of_signedDigits`: what the matcher for digits with a sign finds, and where it finds anything.
- `mem_pattern_of_matchLength`: what a rule matches is in its pattern.
- `exists_matchLength_of_mem`: a rule matches at least every beginning that is in its pattern.
- `longest_of_matchLength`, `matchLength_eq_none_iff`: so it matches the longest of these, and nothing where there are none.
-/
import FrameGraph.Proofs.Words
import Mathlib.Computability.Language
import Mathlib.Data.List.TakeWhile

namespace FrameGraph

open scoped Computability

/-! ## Patterns -/

namespace Pattern

/-- `[a-z]` -/
def range (first last : Char) : Language Char := {w | ∃ c, first ≤ c ∧ c ≤ last ∧ w = [c]}

/-- any single character -/
def any : Language Char := {w | ∃ c, w = [c]}

/-- a fixed text -/
def text (w : List Char) : Language Char := {w}

/-- `l+` -/
def oneOrMore (l : Language Char) : Language Char := l * l∗

/-- `[+-]?` -/
def sign : Language Char := 1 + text ['+'] + text ['-']

/-- `[0-9]` -/
def digit : Language Char := range '0' '9'

/-- `[0-9a-fA-F]` -/
def hexDigit : Language Char := digit + range 'a' 'f' + range 'A' 'F'

/-- `[01]` -/
def binDigit : Language Char := text ['0'] + text ['1']

/-- `[eE]` -/
def mark : Language Char := text ['e'] + text ['E']

end Pattern

/-- the texts that a rule is for -/
def Rule.pattern : Rule → Language Char
  | exponent => Pattern.sign * Pattern.oneOrMore Pattern.digit * Pattern.mark *
      (Pattern.sign * Pattern.oneOrMore Pattern.digit)
  | decimal => Pattern.sign * Pattern.oneOrMore Pattern.digit * Pattern.text ['.'] * Pattern.digit∗
  | hex => Pattern.text ['0', 'x'] * Pattern.oneOrMore Pattern.hexDigit
  | bin => Pattern.text ['0', 'b'] * Pattern.oneOrMore Pattern.binDigit
  | integer => Pattern.sign * Pattern.oneOrMore Pattern.digit
  | symbol => Pattern.oneOrMore Pattern.any

namespace Pattern

/-- the language is that of the single characters that pass a test -/
def IsClass (l : Language Char) (p : Char → Bool) : Prop := ∀ w, w ∈ l ↔ ∃ c, p c = true ∧ w = [c]

theorem mem_text {u w : List Char} : u ∈ text w ↔ u = w := Iff.rfl

theorem mem_range {first last : Char} {w : List Char} : w ∈ range first last ↔ ∃ c, first ≤ c ∧ c ≤ last ∧ w = [c] :=
  Iff.rfl

theorem isDigit_iff {c : Char} : c.isDigit = true ↔ '0' ≤ c ∧ c ≤ '9' := by
  simp only [Char.isDigit, Bool.and_eq_true, decide_eq_true_eq]
  rfl

theorem isClass_digit : IsClass digit Char.isDigit := by
  intro w
  simp only [digit, mem_range, isDigit_iff, and_assoc]

theorem isClass_any : IsClass any fun _ => true := by
  intro w
  exact ⟨fun ⟨c, hc⟩ => ⟨c, rfl, hc⟩, fun ⟨c, _, hc⟩ => ⟨c, hc⟩⟩

theorem isClass_hexDigit : IsClass hexDigit Word.isHexDigit := by
  intro w
  simp only [hexDigit, Language.mem_add, isClass_digit w, mem_range, Word.isHexDigit, Bool.or_eq_true, Bool.and_eq_true,
    decide_eq_true_eq, or_and_right, exists_or, and_assoc]

theorem isClass_binDigit : IsClass binDigit Word.isBinDigit := by
  intro w
  simp only [binDigit, Language.mem_add, mem_text, Word.isBinDigit, Bool.or_eq_true, beq_iff_eq, or_and_right, exists_or,
    exists_eq_left]

theorem mem_star {l : Language Char} {p : Char → Bool} (hl : IsClass l p) {w : List Char} :
    w ∈ l∗ ↔ ∀ c ∈ w, p c = true := by
  rw [Language.mem_kstar]
  constructor
  · rintro ⟨ws, rfl, hws⟩ c hc
    obtain ⟨u, hu, hc⟩ := List.mem_flatten.1 hc
    obtain ⟨d, hd, rfl⟩ := (hl u).1 (hws u hu)
    rwa [List.mem_singleton.1 hc]
  · intro hw
    have hchars : w = (w.map fun c => [c]).flatten := by simp [← List.flatMap_def]
    refine ⟨w.map fun c => [c], hchars, ?_⟩
    intro u hu
    obtain ⟨c, hc, rfl⟩ := List.mem_map.1 hu
    exact (hl _).2 ⟨c, hw c hc, rfl⟩

theorem mem_oneOrMore {l : Language Char} {p : Char → Bool} (hl : IsClass l p) {w : List Char} :
    w ∈ oneOrMore l ↔ w ≠ [] ∧ ∀ c ∈ w, p c = true := by
  rw [oneOrMore, Language.mem_mul]
  constructor
  · rintro ⟨u, hu, v, hv, rfl⟩
    obtain ⟨c, hc, rfl⟩ := (hl u).1 hu
    refine ⟨by simp, ?_⟩
    rw [List.singleton_append, List.forall_mem_cons]
    exact ⟨hc, (mem_star hl).1 hv⟩
  · rintro ⟨hne, hw⟩
    obtain ⟨c, w, rfl⟩ := List.exists_cons_of_ne_nil hne
    rw [List.forall_mem_cons] at hw
    exact ⟨[c], (hl _).2 ⟨c, hw.1, rfl⟩, w, (mem_star hl).2 hw.2, rfl⟩

/-- a sign, or none -/
def signs : List (List Char) := [[], ['+'], ['-']]

theorem mem_sign {w : List Char} : w ∈ sign ↔ w ∈ signs := by
  simp only [sign, Language.mem_add, Language.mem_one, mem_text, signs, List.mem_cons, List.not_mem_nil, or_false, or_assoc]

theorem mem_mark {w : List Char} : w ∈ mark ↔ ∃ c, (c = 'e' ∨ c = 'E') ∧ w = [c] := by
  simp only [mark, Language.mem_add, mem_text, or_and_right, exists_or, exists_eq_left]

/-- digits behind a sign or without one -/
structure Signed (sg ds : List Char) : Prop where
  sign : sg ∈ signs
  nonempty : ds ≠ []
  digits : ∀ c ∈ ds, c.isDigit = true

theorem mem_signed {w : List Char} : w ∈ sign * oneOrMore digit ↔ ∃ sg ds, Signed sg ds ∧ w = sg ++ ds := by
  rw [Language.mem_mul]
  constructor
  · rintro ⟨sg, hsg, ds, hds, rfl⟩
    obtain ⟨hne, hds⟩ := (mem_oneOrMore isClass_digit).1 hds
    exact ⟨sg, ds, ⟨mem_sign.1 hsg, hne, hds⟩, rfl⟩
  · rintro ⟨sg, ds, ⟨hsg, hne, hds⟩, rfl⟩
    exact ⟨sg, mem_sign.2 hsg, ds, (mem_oneOrMore isClass_digit).2 ⟨hne, hds⟩, rfl⟩

end Pattern

/-! ## Runs and signs -/

namespace Word

open Pattern

theorem takeWhile_of_stop {p : Char → Bool} {ds rest : List Char} (hds : ∀ c ∈ ds, p c = true)
    (hrest : ∀ c ∈ rest.head?, p c = false) : (ds ++ rest).takeWhile p = ds := by
  rw [List.takeWhile_append_of_pos hds]
  cases rest with
  | nil => simp
  | cons c rest => simp [hrest c rfl]

theorem run_append {p : Char → Bool} {ds rest : List Char} (hne : ds ≠ []) (hds : ∀ c ∈ ds, p c = true)
    (hrest : ∀ c ∈ rest.head?, p c = false) : run p (ds ++ rest) = some ds.length := by
  obtain ⟨n, hn⟩ := Nat.exists_eq_succ_of_ne_zero (List.length_pos_iff.2 hne).ne'
  simp only [run, takeWhile_of_stop hds hrest, hn]

theorem run_of_all {p : Char → Bool} {ds : List Char} (hne : ds ≠ []) (hds : ∀ c ∈ ds, p c = true) :
    run p ds = some ds.length := by
  have hend : ∀ c ∈ ([] : List Char).head?, p c = false := by simp
  simpa using run_append hne hds hend

theorem stop_dropWhile (p : Char → Bool) (w : List Char) : ∀ c ∈ (w.dropWhile p).head?, p c = false := by
  intro c hc
  have hstop := List.head?_dropWhile_not p w
  rwa [Option.mem_def.1 hc] at hstop

/-- a run, and what stands behind it -/
theorem exists_of_run {p : Char → Bool} {w : List Char} {n : Nat} (h : run p w = some n) :
    ∃ ds rest, w = ds ++ rest ∧ n = ds.length ∧ ds ≠ [] ∧ (∀ c ∈ ds, p c = true) ∧ ∀ c ∈ rest.head?, p c = false := by
  refine ⟨w.takeWhile p, w.dropWhile p, List.takeWhile_append_dropWhile.symm, ?_, ?_, ?_, ?_⟩
  · unfold run at h
    split at h
    · cases h
    next m hm =>
      obtain rfl := Option.some.inj h
      exact hm.symm
  · intro hnil
    simp [run, hnil] at h
  · exact fun c hc => List.mem_takeWhile_imp hc
  · exact stop_dropWhile p w

theorem signLength_append {sg ds rest : List Char} (h : Signed sg ds) : signLength (sg ++ ds ++ rest) = sg.length := by
  obtain ⟨c, ds, rfl⟩ := List.exists_cons_of_ne_nil h.nonempty
  have hsg := h.sign
  simp only [signs, List.mem_cons, List.not_mem_nil, or_false] at hsg
  rcases hsg with rfl | rfl | rfl
  · have hc := h.digits c List.mem_cons_self
    unfold signLength
    split <;> simp_all
  · rfl
  · rfl

/-- the digits behind a sign end where a character stands that is no digit -/
theorem signedDigits_append {sg ds rest : List Char} (h : Signed sg ds) (hrest : ∀ c ∈ rest.head?, c.isDigit = false) :
    signedDigits (sg ++ ds ++ rest) = some (sg ++ ds).length := by
  rw [signedDigits, signLength_append h, List.append_assoc, List.drop_left, run_append h.nonempty h.digits hrest,
    Option.map_some, List.length_append]

theorem signedDigits_of_signed {sg ds : List Char} (h : Signed sg ds) : signedDigits (sg ++ ds) = some (sg ++ ds).length := by
  have hend : ∀ c ∈ ([] : List Char).head?, c.isDigit = false := by simp
  simpa using signedDigits_append h hend

/-- where digits are found there are some, behind a sign or without one -/
theorem exists_of_signedDigits {w : List Char} {n : Nat} (h : signedDigits w = some n) :
    ∃ sg ds rest, w = sg ++ ds ++ rest ∧ n = (sg ++ ds).length ∧ Signed sg ds ∧ ∀ c ∈ rest.head?, c.isDigit = false := by
  obtain ⟨k, hk, rfl⟩ := Option.map_eq_some_iff.1 h
  obtain ⟨ds, rest, hdrop, rfl, hne, hds, hrest⟩ := exists_of_run hk
  refine ⟨w.take (signLength w), ds, rest, ?_, ?_, ⟨?_, hne, hds⟩, hrest⟩
  · rw [List.append_assoc, ← hdrop, List.take_append_drop]
  · rw [List.length_append, List.length_take, Nat.min_eq_left (signLength_le w)]
  · unfold signLength
    split <;> simp [signs]

/-! ## What the matchers find -/

theorem mem_of_signedDigits {w : List Char} {n : Nat} (h : signedDigits w = some n) :
    w.take n ∈ Pattern.sign * oneOrMore digit := by
  obtain ⟨sg, ds, rest, rfl, rfl, hsigned, -⟩ := exists_of_signedDigits h
  rw [List.take_left]
  exact mem_signed.2 ⟨sg, ds, hsigned, rfl⟩

theorem exists_signedDigits {u : List Char} (hu : u ∈ Pattern.sign * oneOrMore digit) (v : List Char) :
    ∃ n, signedDigits (u ++ v) = some n ∧ u.length ≤ n := by
  obtain ⟨sg, ds, hsigned, rfl⟩ := mem_signed.1 hu
  -- the digits that `v` begins with count as well
  have hdigits : ∀ c ∈ ds ++ v.takeWhile Char.isDigit, c.isDigit = true := by
    rw [List.forall_mem_append]
    exact ⟨hsigned.digits, fun c hc => List.mem_takeWhile_imp hc⟩
  have hsigned' : Signed sg (ds ++ v.takeWhile Char.isDigit) := ⟨hsigned.sign, by simp [hsigned.nonempty], hdigits⟩
  have hsplit : sg ++ ds ++ v = sg ++ (ds ++ v.takeWhile Char.isDigit) ++ v.dropWhile Char.isDigit := by
    simp only [List.append_assoc, List.takeWhile_append_dropWhile]
  refine ⟨(sg ++ (ds ++ v.takeWhile Char.isDigit)).length, ?_, ?_⟩
  · rw [hsplit]
    exact signedDigits_append hsigned' (stop_dropWhile _ v)
  · simp only [List.length_append]
    omega

theorem exponentForm_append {sg ds rest : List Char} (h : Signed sg ds) :
    (∀ c ∈ rest.head?, c.isDigit = false) → exponentForm (sg ++ ds ++ rest) =
      match rest with
      | 'e' :: back => (signedDigits back).map ((sg ++ ds).length + 1 + ·)
      | 'E' :: back => (signedDigits back).map ((sg ++ ds).length + 1 + ·)
      | _ => none := by
  intro hrest
  rewrite [exponentForm, signedDigits_append h hrest, Option.bind_some, List.drop_left]
  rfl

theorem pointForm_append {sg ds rest : List Char} (h : Signed sg ds) :
    (∀ c ∈ rest.head?, c.isDigit = false) → pointForm (sg ++ ds ++ rest) =
      match rest with
      | '.' :: back => some ((sg ++ ds).length + 1 + (back.takeWhile Char.isDigit).length)
      | _ => none := by
  intro hrest
  rewrite [pointForm, signedDigits_append h hrest, Option.bind_some, List.drop_left]
  rfl

theorem mem_exponent {u : List Char} : u ∈ Rule.exponent.pattern ↔
    ∃ a c b, a ∈ Pattern.sign * oneOrMore digit ∧ (c = 'e' ∨ c = 'E') ∧ b ∈ Pattern.sign * oneOrMore digit ∧
      u = a ++ c :: b := by
  rw [Rule.pattern, Language.mem_mul]
  constructor
  · rintro ⟨front, hfront, b, hb, rfl⟩
    obtain ⟨a, ha, m, hm, rfl⟩ := Language.mem_mul.1 hfront
    obtain ⟨c, hc, rfl⟩ := mem_mark.1 hm
    exact ⟨a, c, b, ha, hc, hb, by simp⟩
  · rintro ⟨a, c, b, ha, hc, hb, rfl⟩
    exact ⟨a ++ [c], Language.append_mem_mul ha (mem_mark.2 ⟨c, hc, rfl⟩), b, hb, by simp⟩

theorem mem_decimal {u : List Char} : u ∈ Rule.decimal.pattern ↔
    ∃ a fs, a ∈ Pattern.sign * oneOrMore digit ∧ (∀ c ∈ fs, c.isDigit = true) ∧ u = a ++ '.' :: fs := by
  rw [Rule.pattern, Language.mem_mul]
  constructor
  · rintro ⟨front, hfront, fs, hfs, rfl⟩
    obtain ⟨a, ha, m, rfl, rfl⟩ := Language.mem_mul.1 hfront
    exact ⟨a, fs, ha, (mem_star isClass_digit).1 hfs, by simp⟩
  · rintro ⟨a, fs, ha, hfs, rfl⟩
    exact ⟨a ++ ['.'], Language.append_mem_mul ha rfl, fs, (mem_star isClass_digit).2 hfs, by simp⟩

theorem mem_of_exponentForm {w : List Char} {n : Nat} (h : exponentForm w = some n) : w.take n ∈ Rule.exponent.pattern := by
  obtain ⟨m, hm, hrest⟩ := Option.bind_eq_some_iff.1 h
  obtain ⟨sg, ds, rest, rfl, rfl, hsigned, -⟩ := exists_of_signedDigits hm
  have hmark {c : Char} {back : List Char} (hc : c = 'e' ∨ c = 'E')
      (hback : (signedDigits back).map ((sg ++ ds).length + 1 + ·) = some n) :
      (sg ++ ds ++ c :: back).take n ∈ Rule.exponent.pattern := by
    obtain ⟨k, hk, rfl⟩ := Option.map_eq_some_iff.1 hback
    have htake : (sg ++ ds ++ c :: back).take ((sg ++ ds).length + 1 + k) = sg ++ ds ++ c :: back.take k := by
      rw [Nat.add_assoc, List.take_length_add_append, Nat.add_comm 1, List.take_succ_cons]
    rw [htake]
    exact mem_exponent.2 ⟨sg ++ ds, c, back.take k, mem_signed.2 ⟨sg, ds, hsigned, rfl⟩, hc, mem_of_signedDigits hk, rfl⟩
  rw [List.drop_left] at hrest
  split at hrest
  · exact hmark (.inl rfl) hrest
  · exact hmark (.inr rfl) hrest
  · cases hrest

theorem exists_exponentForm {u : List Char} (hu : u ∈ Rule.exponent.pattern) (v : List Char) :
    ∃ n, exponentForm (u ++ v) = some n ∧ u.length ≤ n := by
  obtain ⟨a, c, b, ha, hc, hb, rfl⟩ := mem_exponent.1 hu
  obtain ⟨sg, ds, hsigned, rfl⟩ := mem_signed.1 ha
  obtain ⟨k, hk, hle⟩ := exists_signedDigits hb v
  have hrest : ∀ d ∈ (c :: (b ++ v)).head?, d.isDigit = false := by
    rcases hc with rfl | rfl <;> simp
  refine ⟨(sg ++ ds).length + 1 + k, ?_, ?_⟩
  · rw [List.append_assoc, List.cons_append, exponentForm_append hsigned hrest]
    rcases hc with rfl | rfl <;> simp [hk]
  · rw [List.length_append, List.length_cons]
    omega

theorem mem_of_pointForm {w : List Char} {n : Nat} (h : pointForm w = some n) : w.take n ∈ Rule.decimal.pattern := by
  obtain ⟨m, hm, hrest⟩ := Option.bind_eq_some_iff.1 h
  obtain ⟨sg, ds, rest, rfl, rfl, hsigned, -⟩ := exists_of_signedDigits hm
  rw [List.drop_left] at hrest
  split at hrest
  next back =>
    obtain rfl := Option.some.inj hrest
    have htake : (sg ++ ds ++ '.' :: back).take ((sg ++ ds).length + 1 + (back.takeWhile Char.isDigit).length) =
        sg ++ ds ++ '.' :: back.takeWhile Char.isDigit := by
      rw [Nat.add_assoc, List.take_length_add_append, Nat.add_comm 1, List.take_succ_cons,
        ← List.prefix_iff_eq_take.1 (List.takeWhile_prefix _)]
    rw [htake]
    exact mem_decimal.2 ⟨sg ++ ds, _, mem_signed.2 ⟨sg, ds, hsigned, rfl⟩, fun c hc => List.mem_takeWhile_imp hc, rfl⟩
  next => cases hrest

theorem exists_pointForm {u : List Char} (hu : u ∈ Rule.decimal.pattern) (v : List Char) :
    ∃ n, pointForm (u ++ v) = some n ∧ u.length ≤ n := by
  obtain ⟨a, fs, ha, hfs, rfl⟩ := mem_decimal.1 hu
  obtain ⟨sg, ds, hsigned, rfl⟩ := mem_signed.1 ha
  have hle : fs.length ≤ ((fs ++ v).takeWhile Char.isDigit).length := by
    rw [List.takeWhile_append_of_pos hfs, List.length_append]
    omega
  refine ⟨(sg ++ ds).length + 1 + ((fs ++ v).takeWhile Char.isDigit).length, ?_, ?_⟩
  · rw [List.append_assoc, List.cons_append, pointForm_append hsigned (by simp)]
    rfl
  · rw [List.length_append, List.length_cons]
    omega

/-- a matcher that asks for two fixed characters and a run of others behind them -/
structure Prefixed (form : List Char → Option Nat) (a b : Char) (p : Char → Bool) : Prop where
  matched : ∀ rest, form (a :: b :: rest) = (run p rest).map (2 + ·)
  unmatched : ∀ {w n}, form w = some n → ∃ rest, w = a :: b :: rest

theorem prefixed_hexForm : Prefixed hexForm '0' 'x' isHexDigit := by
  refine ⟨fun _ => rfl, fun {w n} h => ?_⟩
  unfold hexForm at h
  split at h
  · exact ⟨_, rfl⟩
  · cases h

theorem prefixed_binForm : Prefixed binForm '0' 'b' isBinDigit := by
  refine ⟨fun _ => rfl, fun {w n} h => ?_⟩
  unfold binForm at h
  split at h
  · exact ⟨_, rfl⟩
  · cases h

section Prefixed

variable {form : List Char → Option Nat} {a b : Char} {p : Char → Bool} {l : Language Char}

theorem mem_prefixed (hl : IsClass l p) {u : List Char} :
    u ∈ text [a, b] * oneOrMore l ↔ ∃ ds, ds ≠ [] ∧ (∀ c ∈ ds, p c = true) ∧ u = a :: b :: ds := by
  rw [Language.mem_mul]
  constructor
  · rintro ⟨front, rfl, ds, hds, rfl⟩
    obtain ⟨hne, hds⟩ := (mem_oneOrMore hl).1 hds
    exact ⟨ds, hne, hds, rfl⟩
  · rintro ⟨ds, hne, hds, rfl⟩
    exact ⟨[a, b], rfl, ds, (mem_oneOrMore hl).2 ⟨hne, hds⟩, rfl⟩

theorem Prefixed.mem (hform : Prefixed form a b p) (hl : IsClass l p) {w : List Char} {n : Nat} (h : form w = some n) :
    w.take n ∈ text [a, b] * oneOrMore l := by
  obtain ⟨rest, rfl⟩ := hform.unmatched h
  rw [hform.matched] at h
  obtain ⟨k, hk, rfl⟩ := Option.map_eq_some_iff.1 h
  obtain ⟨ds, back, rfl, rfl, hne, hds, -⟩ := exists_of_run hk
  have htake : (a :: b :: (ds ++ back)).take (2 + ds.length) = a :: b :: ds := by
    rw [Nat.add_comm, List.take_succ_cons, List.take_succ_cons, List.take_left]
  rw [htake]
  exact (mem_prefixed hl).2 ⟨ds, hne, hds, rfl⟩

theorem Prefixed.exists_of_mem (hform : Prefixed form a b p) (hl : IsClass l p) {u : List Char}
    (hu : u ∈ text [a, b] * oneOrMore l) (v : List Char) : ∃ n, form (u ++ v) = some n ∧ u.length ≤ n := by
  obtain ⟨ds, hne, hds, rfl⟩ := (mem_prefixed hl).1 hu
  have hall : ∀ c ∈ ds ++ v.takeWhile p, p c = true := by
    rw [List.forall_mem_append]
    exact ⟨hds, fun c hc => List.mem_takeWhile_imp hc⟩
  have hrun : run p (ds ++ v) = some (ds ++ v.takeWhile p).length := by
    have happend := run_append (by simp [hne]) hall (stop_dropWhile p v)
    rwa [List.append_assoc, List.takeWhile_append_dropWhile] at happend
  refine ⟨2 + (ds ++ v.takeWhile p).length, ?_, ?_⟩
  · rw [List.cons_append, List.cons_append, hform.matched, hrun, Option.map_some]
  · simp only [List.length_cons, List.length_append]
    omega

end Prefixed

theorem mem_symbol {u : List Char} : u ∈ Rule.symbol.pattern ↔ u ≠ [] := by
  rw [Rule.pattern, mem_oneOrMore isClass_any]
  simp

end Word

namespace Rule

/-- what a rule matches is in its pattern -/
theorem mem_pattern_of_matchLength {r : Rule} {w : List Char} {n : Nat} (h : r.matchLength w = some n) :
    w.take n ∈ r.pattern := by
  cases r with
  | exponent => exact Word.mem_of_exponentForm h
  | decimal => exact Word.mem_of_pointForm h
  | hex => exact Word.prefixed_hexForm.mem Pattern.isClass_hexDigit h
  | bin => exact Word.prefixed_binForm.mem Pattern.isClass_binDigit h
  | integer => exact Word.mem_of_signedDigits h
  | symbol =>
    obtain ⟨hne, rfl⟩ := Word.whole_eq_some.1 h
    rw [List.take_length]
    exact Word.mem_symbol.2 hne

/-- a rule matches at least every beginning that is in its pattern -/
theorem exists_matchLength_of_mem {r : Rule} {u : List Char} (hu : u ∈ r.pattern) (v : List Char) :
    ∃ n, r.matchLength (u ++ v) = some n ∧ u.length ≤ n := by
  cases r with
  | exponent => exact Word.exists_exponentForm hu v
  | decimal => exact Word.exists_pointForm hu v
  | hex => exact Word.prefixed_hexForm.exists_of_mem Pattern.isClass_hexDigit hu v
  | bin => exact Word.prefixed_binForm.exists_of_mem Pattern.isClass_binDigit hu v
  | integer => exact Word.exists_signedDigits hu v
  | symbol =>
    have hne : u ++ v ≠ [] := by simp [Word.mem_symbol.1 hu]
    exact ⟨_, Word.whole_eq_some.2 ⟨hne, rfl⟩, by simp⟩

/-- a rule matches the longest beginning that is in its pattern -/
theorem longest_of_matchLength {r : Rule} {w : List Char} {n : Nat} (h : r.matchLength w = some n) {u : List Char}
    (hu : u ∈ r.pattern) (hw : u <+: w) : u.length ≤ n := by
  obtain ⟨v, rfl⟩ := hw
  obtain ⟨m, hm, hle⟩ := exists_matchLength_of_mem hu v
  rw [h] at hm
  exact hle.trans_eq (Option.some.inj hm).symm

/-- a rule matches nothing where no beginning is in its pattern, and only there -/
theorem matchLength_eq_none_iff {r : Rule} {w : List Char} :
    r.matchLength w = none ↔ ∀ u ∈ r.pattern, ¬ u <+: w := by
  constructor
  · rintro hnone u hu ⟨v, rfl⟩
    obtain ⟨n, hn, -⟩ := exists_matchLength_of_mem hu v
    rw [hnone] at hn
    cases hn
  · intro hnone
    cases hmatch : r.matchLength w with
    | none => rfl
    | some n => exact absurd (List.take_prefix n w) (hnone _ (mem_pattern_of_matchLength hmatch))

end Rule

end FrameGraph
