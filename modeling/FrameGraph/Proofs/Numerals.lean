/-
Numerals: what is written for an integer reads back as it.

Results:
- `exists_digitChar_of_mem`: digits are the only characters of a numeral.
- `Radix.readNatural_toDigits`: the digits of a number read back as the number, in every radix up to sixteen.
- `signedDigits_injective`, `radixText_injective`: so different integers have different texts, also with a mark and a sign.
-/
import FrameGraph.Number
import Mathlib.Data.Bool.AllAny
import Mathlib.Tactic

namespace FrameGraph

/-- the characters that numbers are written with -/
def IsNumeric (c : Char) : Prop := c.isAlphanum = true ∨ c = '+' ∨ c = '-' ∨ c = '.'

instance (c : Char) : Decidable (IsNumeric c) := by
  unfold IsNumeric; infer_instance

theorem isNumeric_of_isDigit {c : Char} (hc : c.isDigit = true) : IsNumeric c :=
  .inl (Bool.or_eq_true_iff.2 (.inr hc))

/-! ## Digits -/

/-- every character of a numeral is a digit -/
theorem exists_digitChar_of_mem {b : Nat} (hb : 1 < b) {n : Nat} {c : Char} (hc : c ∈ Nat.toDigits b n) :
    ∃ d < b, c = Nat.digitChar d := by
  induction n using Nat.strong_induction_on with
  | _ n ih =>
    rw [Nat.toDigits_eq_if hb] at hc
    split_ifs at hc with hlt
    · exact ⟨n, hlt, List.mem_singleton.1 hc⟩
    · rcases List.mem_append.1 hc with hc | hc
      · exact ih (n / b) (Nat.div_lt_self (by omega) hb) hc
      · exact ⟨n % b, Nat.mod_lt n (by omega), List.mem_singleton.1 hc⟩

theorem isNumeric_of_mem_toDigits {b : Nat} (hb : 1 < b) (hb' : b ≤ 16) {n : Nat} {c : Char}
    (hc : c ∈ Nat.toDigits b n) : IsNumeric c ∧ c ≠ '-' := by
  obtain ⟨d, hd, rfl⟩ := exists_digitChar_of_mem hb hc
  have hlt : d < 16 := by omega
  clear hc hd
  interval_cases d <;> decide

theorem notMem_toDigits {b : Nat} (hb : 1 < b) (hb' : b ≤ 16) {c : Char} (hc : ¬ IsNumeric c) (n : Nat) :
    c ∉ Nat.toDigits b n :=
  fun hmem => hc (isNumeric_of_mem_toDigits hb hb' hmem).1

namespace Radix

theorem digit_digitChar {r : Radix} (hr : r.val ≤ 16) {d : Nat} (hd : d < r.val) : r.digit (Nat.digitChar d) = some d := by
  have hvalue : digitValue (Nat.digitChar d) = some d := by
    have hlt : d < 16 := by omega
    clear hd
    interval_cases d <;> decide
  rw [digit, hvalue, Option.filter_some, if_pos (by simpa using hd)]

theorem continueNatural_append (r : Radix) (n : Nat) (cs ds : List Char) :
    r.continueNatural n (cs ++ ds) = (r.continueNatural n cs).bind fun m => r.continueNatural m ds := by
  induction cs generalizing n with
  | nil => rfl
  | cons c cs ih =>
    rw [List.cons_append, continueNatural, continueNatural]
    split_ifs
    · exact ih n
    · cases r.digit c with
      | none => rfl
      | some d => exact ih _

/-- one more digit behind a numeral -/
theorem readNatural_snoc {r : Radix} {cs : List Char} {n d : Nat} {c : Char} (h : r.readNatural cs = some n)
    (hc : c ≠ '_') (hd : r.digit c = some d) : r.readNatural (cs ++ [c]) = some (n * r.val + d) := by
  cases cs with
  | nil => simp [readNatural] at h
  | cons b cs =>
    rw [readNatural] at h
    rw [List.cons_append, readNatural]
    cases hb : r.digit b with
    | none => simp [hb] at h
    | some k =>
      simp only [hb] at h ⊢
      rw [continueNatural_append, h]
      simp [continueNatural, hc, hd]

/-- the digits of a number read back as the number -/
theorem readNatural_toDigits {r : Radix} (hr : r.val ≤ 16) (n : Nat) : r.readNatural (Nat.toDigits r.val n) = some n := by
  have hbase : 1 < r.val := r.two_le
  induction n using Nat.strong_induction_on with
  | _ n ih =>
    rw [Nat.toDigits_eq_if hbase]
    split_ifs with hlt
    · simp [readNatural, digit_digitChar hr hlt, continueNatural]
    · have hmod : n % r.val < r.val := Nat.mod_lt n (by omega)
      have hread := ih (n / r.val) (Nat.div_lt_self (by omega) hbase)
      have hunderscore : Nat.digitChar (n % r.val) ≠ '_' := Nat.digitChar_ne '_' (by decide)
      rw [readNatural_snoc hread hunderscore (digit_digitChar hr hmod), Nat.div_add_mod']

end Radix

theorem toDigits_injective {b : Nat} (hb : 1 < b) (hb' : b ≤ 16) {m n : Nat}
    (h : Nat.toDigits b m = Nat.toDigits b n) : m = n := by
  have hread (k : Nat) := Radix.readNatural_toDigits (r := ⟨b, hb, by omega⟩) hb' k
  apply Option.some.inj
  rw [← hread m, ← hread n, h]

/-! ## Integers -/

theorem toList_signedDigits (base : Nat) (mark : String) (n : Int) :
    (signedDigits base mark n).toList =
      (if n < 0 then ['-'] else []) ++ (mark.toList ++ Nat.toDigits base n.natAbs) := by
  unfold signedDigits
  split_ifs <;> simp

theorem signedDigits_injective {b : Nat} (hb : 1 < b) (hb' : b ≤ 16) {mark : String} (hmark : '-' ∉ mark.toList)
    {m n : Int} (h : signedDigits b mark m = signedDigits b mark n) : m = n := by
  -- only a negative number has a minus sign
  have hsign (k : Int) : k < 0 ↔ '-' ∈ (signedDigits b mark k).toList := by
    have hdigits : '-' ∉ Nat.toDigits b k.natAbs := fun hc => (isNumeric_of_mem_toDigits hb hb' hc).2 rfl
    rw [toList_signedDigits]
    split_ifs with hk <;> simp [hk, hmark, hdigits]
  have hiff : m < 0 ↔ n < 0 := by rw [hsign m, hsign n, h]
  have hlist := congrArg String.toList h
  rw [toList_signedDigits, toList_signedDigits] at hlist
  simp only [hiff, List.append_cancel_left_eq] at hlist
  have habs := toDigits_injective hb hb' hlist
  omega

theorem radixText_eq (base : Nat) :
    ∃ b mark, 1 < b ∧ b ≤ 16 ∧ '-' ∉ mark.toList ∧ (∀ c ∈ mark.toList, IsNumeric c) ∧
      radixText base = signedDigits b mark := by
  by_cases h16 : base = 16
  · subst h16
    exact ⟨16, "0x", by decide, by decide, by decide, List.all_iff_forall_prop.1 (by decide), rfl⟩
  · by_cases h2 : base = 2
    · subst h2
      exact ⟨2, "0b", by decide, by decide, by decide, List.all_iff_forall_prop.1 (by decide), rfl⟩
    · refine ⟨10, "", by decide, by decide, by decide, List.all_iff_forall_prop.1 (by decide), ?_⟩
      funext n
      unfold radixText
      split
      · exact absurd rfl h16
      · exact absurd rfl h2
      · rfl

/-- different integers have different texts -/
theorem radixText_injective {base : Nat} {m n : Int} (h : radixText base m = radixText base n) : m = n := by
  obtain ⟨b, mark, hb, hb', hmark, -, heq⟩ := radixText_eq base
  rw [heq] at h
  exact signedDigits_injective hb hb' hmark h

theorem isNumeric_of_mem_radixText {base : Nat} {n : Int} {c : Char} (hc : c ∈ (radixText base n).toList) :
    IsNumeric c := by
  obtain ⟨b, mark, hb, hb', -, hmark, heq⟩ := radixText_eq base
  rw [heq, toList_signedDigits] at hc
  rcases List.mem_append.1 hc with hc | hc
  · split_ifs at hc
    · rw [List.mem_singleton.1 hc]
      decide
    · cases hc
  · rcases List.mem_append.1 hc with hc | hc
    · exact hmark c hc
    · exact (isNumeric_of_mem_toDigits hb hb' hc).1

end FrameGraph
