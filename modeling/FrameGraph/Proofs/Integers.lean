/-
Which texts are read as integers, and as which.

A numeral is a digit and then digits and underscores, in any radix and in either case; it denotes what its digits make by their
places. Two readers take a sign before it: the outer one strips a plus sign, the inner one takes a sign of its own. So all
numerals with one sign or none are read, and besides them those with a plus sign before their sign.

Results:
- `continueNatural_eq_some_iff`: what stands behind a numeral goes on with it if it is digits and underscores.
- `readNatural_eq_some_iff`, `readSigned_eq_some_iff`: each reader takes exactly the texts of its form.
- `readInteger_eq_some_iff`: integers are numerals with one sign or none, and numerals with a plus sign before their sign.
-/
import FrameGraph.Proofs.Patterns

namespace FrameGraph.Radix

variable {r : Radix} {cs ds : List Char} {sg : List Char}

/-! ## Digits -/

/-- value of digits by their places -/
def positional (base : Nat) (ds : List Char) : Nat := Nat.ofDigits base (ds.reverse.map fun c => (digitValue c).getD 0)

theorem positional_snoc {base : Nat} (ds : List Char) {c : Char} {d : Nat} (hd : digitValue c = some d) :
    positional base (ds ++ [c]) = positional base ds * base + d := by
  simp only [positional, List.reverse_append, List.reverse_singleton, List.singleton_append, List.map_cons,
    Nat.ofDigits_cons, hd, Option.getD_some]
  ring

theorem digit_eq_some_iff {c : Char} {d : Nat} : r.digit c = some d ↔ digitValue c = some d ∧ d < r.val := by
  simp [digit, Option.filter_eq_some_iff]

/-- no sign is a digit -/
theorem ne_sign_of_digit {c : Char} {d : Nat} (hd : r.digit c = some d) : c ≠ '+' ∧ c ≠ '-' := by
  have hvalue := (digit_eq_some_iff.1 hd).1
  constructor <;> rintro rfl <;> cases hvalue

theorem ne_underscore_of_digit {c : Char} {d : Nat} (hd : r.digit c = some d) : c ≠ '_' := by
  rintro rfl
  cases (digit_eq_some_iff.1 hd).1

/-! ## Numerals -/

/-- a digit or an underscore -/
def GoesOn (r : Radix) (c : Char) : Prop := c = '_' ∨ ∃ d, r.digit c = some d

/-- a digit, and then digits and underscores -/
def Numeral (r : Radix) (cs : List Char) : Prop :=
  ∃ c ds, cs = c :: ds ∧ (∃ d, r.digit c = some d) ∧ ∀ x ∈ ds, r.GoesOn x

/-- a text without its underscores -/
def bare (cs : List Char) : List Char := cs.filter (· ≠ '_')

/-- a numeral behind the sign `sg`, and the integer that they denote -/
def Signed (r : Radix) (sg cs : List Char) (n : Int) : Prop :=
  ∃ ds, cs = sg ++ ds ∧ r.Numeral ds ∧
    (if sg = ['-'] then -(positional r.val (bare ds) : Int) else positional r.val (bare ds)) = n

theorem bare_underscore (cs : List Char) : bare ('_' :: cs) = bare cs := by simp [bare]

theorem bare_cons {c : Char} (hc : c ≠ '_') (cs : List Char) : bare (c :: cs) = c :: bare cs := by simp [bare, hc]

/-- digits behind digits that were read: those before them count a place more for each of them -/
theorem continueNatural_eq_some_iff {before : List Char} {n : Nat} :
    r.continueNatural (positional r.val before) cs = some n ↔
      (∀ x ∈ cs, r.GoesOn x) ∧ n = positional r.val (before ++ bare cs) := by
  induction cs generalizing before with
  | nil => simp [continueNatural, bare, eq_comm]
  | cons c cs ih =>
    rw [continueNatural, List.forall_mem_cons]
    split_ifs with hc
    · subst hc
      rw [ih, bare_underscore]
      simp [GoesOn]
    · rw [bare_cons hc]
      cases hd : r.digit c with
      | none => simp [GoesOn, hc, hd]
      | some d =>
        have hgoes : r.GoesOn c := .inr ⟨d, hd⟩
        dsimp only
        rw [← positional_snoc before (digit_eq_some_iff.1 hd).1, ih, List.append_assoc, List.singleton_append]
        simp [hgoes]

/-- exactly numerals are read, as what their digits make -/
theorem readNatural_eq_some_iff {n : Nat} :
    r.readNatural cs = some n ↔ r.Numeral cs ∧ n = positional r.val (bare cs) := by
  cases cs with
  | nil => simp [readNatural, Numeral]
  | cons c cs =>
    rw [readNatural]
    cases hd : r.digit c with
    | none => simp [Numeral, hd]
    | some d =>
      have hplace : positional r.val ([] ++ [c]) = positional r.val [] * r.val + d :=
        positional_snoc [] (digit_eq_some_iff.1 hd).1
      have hvalue : d = positional r.val [c] := by simpa [positional] using hplace.symm
      dsimp only
      rw [hvalue, continueNatural_eq_some_iff, bare_cons (ne_underscore_of_digit hd)]
      simp [Numeral, hd]

/-! ## Signs -/

theorem signed_iff {n : Int} : r.Signed sg cs n ↔
    ∃ ds m, cs = sg ++ ds ∧ r.readNatural ds = some m ∧ (if sg = ['-'] then -(m : Int) else m) = n := by
  simp [Signed, readNatural_eq_some_iff]

/-- no numeral begins with a sign -/
theorem readNatural_of_sign {c : Char} (hc : c = '+' ∨ c = '-') (cs : List Char) : r.readNatural (c :: cs) = none := by
  have hdigit : r.digit c = none := by
    cases hd : r.digit c with
    | none => rfl
    | some d => exact absurd hc (by simp [ne_sign_of_digit hd])
  rw [readNatural, hdigit]

/-- the inner reader takes one sign or none -/
theorem readSigned_eq_some_iff {n : Int} : r.readSigned cs = some n ↔ ∃ sg ∈ Pattern.signs, r.Signed sg cs n := by
  simp only [Pattern.signs, List.mem_cons, List.not_mem_nil, or_false, exists_eq_or_imp, exists_eq_left, signed_iff]
  unfold readSigned
  split
  · next ds => cases hm : r.readNatural ds <;> simp [readNatural_of_sign (r := r) (.inr rfl) ds, hm]
  · next ds => cases hm : r.readNatural ds <;> simp [readNatural_of_sign (r := r) (.inl rfl) ds, hm]
  · next hminus hplus =>
    have hplus' (ds : List Char) : ¬ cs = '+' :: ds := hplus ds
    have hminus' (ds : List Char) : ¬ cs = '-' :: ds := hminus ds
    cases hm : r.readNatural cs <;> simp [hm, hplus', hminus']

/-- a text that does not begin with a plus sign is left to the inner reader -/
theorem readInteger_of_ne_plus (h : ∀ ds, cs ≠ '+' :: ds) : r.readInteger cs = r.readSigned cs := by
  unfold readInteger
  split
  · next ds => exact absurd rfl (h ds)
  · rfl

/-- **Integers are read behind one sign or none, or behind a plus sign and one sign.** A text is read as an integer, in any
radix, if and only if it is a numeral with at most one sign before it, or a plus sign and behind it a numeral with one sign; it
is read as what the digits of the numeral denote by their places, negated if and only if the sign before them is a minus. -/
theorem readInteger_eq_some_iff (r : Radix) (cs : List Char) (n : Int) :
    r.readInteger cs = some n ↔ (∃ sg ∈ Pattern.signs, r.Signed sg cs n) ∨
      ∃ sg ∈ [['+'], ['-']], ∃ ds, cs = '+' :: ds ∧ r.Signed sg ds n := by
  by_cases hplus : ∃ ds, cs = '+' :: ds
  · obtain ⟨ds, rfl⟩ := hplus
    have hstrip : r.readInteger ('+' :: ds) = r.readSigned ds := rfl
    have hone : (∃ sg ∈ Pattern.signs, r.Signed sg ('+' :: ds) n) ↔ r.Signed [] ds n := by
      simp [Pattern.signs, signed_iff, readNatural_of_sign (r := r) (.inl rfl) ds]
    rw [hstrip, readSigned_eq_some_iff, hone]
    simp [Pattern.signs]
  · have hne (ds : List Char) : cs ≠ '+' :: ds := fun h => hplus ⟨ds, h⟩
    rw [readInteger_of_ne_plus hne, readSigned_eq_some_iff]
    simp [hne]

/-- so not only numerals behind one sign or none are read: `++17` is -/
theorem readInteger_twoSigns :
    ¬ ∀ (r : Radix) (cs : List Char) (n : Int),
      r.readInteger cs = some n ↔ ∃ sg ∈ Pattern.signs, r.Signed sg cs n := by
  intro h
  have hread : decimal.readInteger ['+', '+', '1', '7'] = some 17 := by decide
  obtain ⟨sg, hsg, hsigned⟩ := (h _ _ _).1 hread
  obtain ⟨ds, m, hcs, hm, -⟩ := signed_iff.1 hsigned
  simp only [Pattern.signs, List.mem_cons, List.not_mem_nil, or_false] at hsg
  rcases hsg with rfl | rfl | rfl
  · rw [← List.nil_append ds, ← hcs, readNatural_of_sign (.inl rfl)] at hm
    cases hm
  · obtain rfl : _ = ds := (List.cons.inj hcs).2
    rw [readNatural_of_sign (.inl rfl)] at hm
    cases hm
  · exact absurd (List.cons.inj hcs).1 (by decide)

end FrameGraph.Radix
