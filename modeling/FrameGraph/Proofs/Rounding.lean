/-
Decimals that round to a floating-point number, and the shortest of them.

The decimals that round to a number fill an interval around it, which is closed for an even significand and open for an odd
one (`Attracts`). A decimal in the interval of a number is read as the number, whatever its digits and its exponent are;
the shortest decimal of a number is searched for on finer and finer grids, and is in its interval wherever the search ends.

Results:
- `roundHalfEven_eq`: the nearest integer is the one at most a half away, the even one half way.
- `nearestBits_of_attracts`: a ratio in the interval of a number rounds to it; below a power of two the ratio has the
  exponent of the numbers below it, and its significand carries into the next one.
- `ofDecimal_of_attracts`: so does a decimal, since no exponent that is settled without the power is that of a number.
- `attracts_shortest`: the shortest decimal of a number is in its interval.
-/
import FrameGraph.Number
import Mathlib.Tactic

namespace FrameGraph.Binary64

/-! ## The layout of the bits -/

/-- the number has a place among the finite ones other than zero -/
structure Ordinary (x : Binary64) : Prop where
  nonzero : x.magnitudeBits ≠ 0
  finite : x.magnitudeBits < infinityBits

variable {x : Binary64}

theorem magnitudeBits_eq (x : Binary64) : x.magnitudeBits = x.scale * 2 ^ 52 + x.significand := by
  have hpow : Nat.pow 2 52 = 2 ^ 52 := rfl
  simp only [significand, scale, hpow]
  omega

theorem significand_lt (x : Binary64) : x.significand < 2 ^ 53 := by
  have hpow : Nat.pow 2 52 = 2 ^ 52 := rfl
  simp only [significand, scale, hpow]
  omega

theorem le_significand (h : x.scale ≠ 0) : 2 ^ 52 ≤ x.significand := by
  have hpow : Nat.pow 2 52 = 2 ^ 52 := rfl
  simp only [significand, scale, hpow] at *
  omega

theorem Ordinary.significand_pos (h : x.Ordinary) : 0 < x.significand := by
  have hnonzero := h.nonzero
  have hlayout := magnitudeBits_eq x
  rcases Nat.eq_zero_or_pos x.scale with hscale | hscale
  · rw [hscale] at hlayout
    omega
  · have := le_significand hscale.ne'
    omega

theorem Ordinary.scale_le (h : x.Ordinary) : x.scale ≤ 2045 := by
  have hfinite := h.finite
  have hpow : Nat.pow 2 52 = 2 ^ 52 := rfl
  simp only [infinityBits, hpow] at hfinite
  simp only [scale, hpow]
  omega

theorem lowerGap_le (x : Binary64) : x.lowerGap ≤ 2 := by
  unfold lowerGap
  split_ifs <;> omega

theorem lowerGap_pos (x : Binary64) : 0 < x.lowerGap := by
  unfold lowerGap
  split_ifs <;> omega

/-! ## Intervals -/

/-- the lower end of the interval of `x`, in quarters of a unit -/
def lowEnd (x : Binary64) : ℚ := (4 * x.significand - x.lowerGap) * 2 ^ x.scale

/-- the upper end -/
def highEnd (x : Binary64) : ℚ := (4 * x.significand + 2) * 2 ^ x.scale

/-- `q` units round to `x`; the ends of the interval belong to an even significand -/
def Attracts (x : Binary64) (q : ℚ) : Prop :=
  x.lowEnd ≤ 4 * q ∧ 4 * q ≤ x.highEnd ∧ (x.significand % 2 = 1 → x.lowEnd < 4 * q ∧ 4 * q < x.highEnd)

/-- a number rounds to itself -/
theorem attracts_units (x : Binary64) : x.Attracts x.units := by
  have hpow : (0 : ℚ) < 2 ^ x.scale := by positivity
  have hgap : (0 : ℚ) < x.lowerGap := by exact_mod_cast x.lowerGap_pos
  have hunits : (4 * x.units : ℚ) = 4 * x.significand * 2 ^ x.scale := by
    simp only [units, Nat.pow_eq]
    push_cast
    ring
  have hlow : x.lowEnd < 4 * (x.units : ℚ) := by
    rw [hunits, lowEnd]
    exact mul_lt_mul_of_pos_right (by linarith) hpow
  have hhigh : 4 * (x.units : ℚ) < x.highEnd := by
    rw [hunits, highEnd]
    exact mul_lt_mul_of_pos_right (by linarith) hpow
  exact ⟨hlow.le, hhigh.le, fun _ => ⟨hlow, hhigh⟩⟩

theorem Ordinary.two_le_lowEnd (h : x.Ordinary) : 2 ≤ x.lowEnd := by
  have hsig : (1 : ℚ) ≤ x.significand := by exact_mod_cast h.significand_pos
  have hgap : (x.lowerGap : ℚ) ≤ 2 := by exact_mod_cast x.lowerGap_le
  have hpow : (1 : ℚ) ≤ 2 ^ x.scale := one_le_pow₀ (by norm_num)
  calc (2 : ℚ) = 2 * 1 := by norm_num
    _ ≤ (4 * x.significand - x.lowerGap) * 2 ^ x.scale := by
      apply mul_le_mul
      · linarith
      · exact hpow
      · norm_num
      · linarith

/-- the test for the interval, in natural numbers, is the test for the ratio of its arguments -/
theorem attracts_of_roundsTo (h : x.Ordinary) {factor point : Nat} (hfactor : 0 < factor)
    (hx : x.roundsTo factor point = true) : x.Attracts (point / (4 * factor)) := by
  have hf : (0 : ℚ) < factor := by exact_mod_cast hfactor
  have hquarters : 4 * ((point : ℚ) / (4 * factor)) = point / factor := by
    field_simp
  have hsub : x.lowerGap ≤ 4 * x.significand := by
    have := h.significand_pos
    have := x.lowerGap_le
    omega
  have hlow : x.lowEnd * factor = (((4 * x.significand - x.lowerGap) * 2 ^ x.scale * factor : Nat) : ℚ) := by
    rw [lowEnd]
    push_cast [Nat.cast_sub hsub]
    ring
  have hhigh : x.highEnd * factor = (((4 * x.significand + 2) * 2 ^ x.scale * factor : Nat) : ℚ) := by
    rw [highEnd]
    push_cast
    ring
  simp only [roundsTo, Nat.pow_eq] at hx
  rw [Attracts, hquarters, le_div_iff₀ hf, div_le_iff₀ hf, lt_div_iff₀ hf, div_lt_iff₀ hf, hlow, hhigh]
  split_ifs at hx with heven
  · simp only [Bool.and_eq_true, decide_eq_true_eq] at hx
    refine ⟨by exact_mod_cast hx.1, by exact_mod_cast hx.2, ?_⟩
    intro hodd
    omega
  · simp only [Bool.and_eq_true, decide_eq_true_eq] at hx
    have hinside : (_ : ℚ) < _ ∧ (_ : ℚ) < _ := ⟨Nat.cast_lt.2 hx.1, Nat.cast_lt.2 hx.2⟩
    exact ⟨hinside.1.le, hinside.2.le, fun _ => hinside⟩

/-! ## Rounding of ratios -/

theorem roundHalfEven_eq {n d k : Nat} (hd : 0 < d) (hlow : 2 * (k * d) ≤ 2 * n + d) (hhigh : 2 * n ≤ 2 * (k * d) + d)
    (hodd : k % 2 = 1 → 2 * (k * d) < 2 * n + d ∧ 2 * n < 2 * (k * d) + d) : roundHalfEven n d = k := by
  have hdiv : n = n / d * d + n % d := (Nat.div_add_mod' n d).symm
  have hmod : n % d < d := Nat.mod_lt n hd
  set whole := n / d with hwhole
  set rest := n % d with hrest
  have hle : k ≤ whole + 1 := by
    by_contra hlt
    have := Nat.mul_le_mul_right d (Nat.not_le.1 hlt)
    simp only [Nat.add_mul, Nat.succ_eq_add_one, Nat.one_mul] at this
    omega
  have hge : whole ≤ k := by
    by_contra hlt
    have := Nat.mul_le_mul_right d (Nat.not_le.1 hlt)
    simp only [Nat.add_mul, Nat.succ_eq_add_one, Nat.one_mul] at this
    omega
  simp only [roundHalfEven, ← hwhole, ← hrest]
  rcases Nat.eq_or_lt_of_le hge with heq | hlt
  · subst heq
    split_ifs <;> omega
  · obtain rfl : k = whole + 1 := by omega
    simp only [Nat.add_mul, Nat.one_mul] at *
    split_ifs <;> omega

/-- the bounds of the interval for a ratio, in natural numbers -/
theorem bounds_of_attracts {n d : Nat} (hd : 0 < d) (hx : x.Attracts (n / d)) :
    let w := 2 ^ x.scale * d
    4 * (x.significand * w) ≤ 4 * n + x.lowerGap * w ∧ 4 * n ≤ 4 * (x.significand * w) + 2 * w ∧
      (x.significand % 2 = 1 →
        4 * (x.significand * w) < 4 * n + x.lowerGap * w ∧ 4 * n < 4 * (x.significand * w) + 2 * w) := by
  intro w
  have hd' : (0 : ℚ) < d := by exact_mod_cast hd
  have hlow : x.lowEnd * d = 4 * (x.significand * w : Nat) - (x.lowerGap * w : Nat) := by
    simp only [lowEnd, w]
    push_cast
    ring
  have hhigh : x.highEnd * d = (4 * (x.significand * w) + 2 * w : Nat) := by
    simp only [highEnd, w]
    push_cast
    ring
  rw [Attracts, ← mul_div_assoc, le_div_iff₀ hd', div_le_iff₀ hd', lt_div_iff₀ hd', div_lt_iff₀ hd', hlow, hhigh,
    sub_le_iff_le_add, sub_lt_iff_lt_add] at hx
  exact_mod_cast hx

theorem log2_div_eq {n d k : Nat} (hd : 0 < d) (hlow : 2 ^ k * d ≤ n) (hhigh : n < 2 ^ (k + 1) * d) :
    (n / d).log2 = k := by
  have hge : 2 ^ k ≤ n / d := (Nat.le_div_iff_mul_le hd).2 hlow
  have hlt : n / d < 2 ^ (k + 1) := (Nat.div_lt_iff_lt_mul hd).2 hhigh
  exact (Nat.log2_eq_iff (Nat.ne_of_gt (lt_of_lt_of_le (Nat.two_pow_pos k) hge))).2 ⟨hge, hlt⟩

/-- how many units make a one -/
def one : Nat := Nat.pow 2 places

/-- the units of one in quarters -/
theorem four_mul_one : 4 * one = Nat.pow 2 (places + 2) := by
  rw [one, Nat.pow_eq, Nat.pow_eq, Nat.pow_add]
  ring

/-- a power of ten above all finite numbers and one below the least, in units -/
theorem one_bounds : 2 ^ 55 * 2 ^ 2045 < 4 * (10 ^ 311 * one) ∧ 2 * one < 10 ^ 331 := by
  decide +kernel

/-- a ratio that has this exponent and is rounded to this significand there -/
theorem nearestBits_eq (h : x.Ordinary) {num den scale k : Nat} (hscale : (num * one / den).log2 - 52 = scale)
    (hround : roundHalfEven (num * one) (2 ^ scale * den) = k) (hbits : scale * 2 ^ 52 + k = x.magnitudeBits) :
    nearestBits num den = x.magnitudeBits := by
  have hnearest : nearestBits num den =
      min infinityBits (scale * 2 ^ 52 + roundHalfEven (num * one) (den * 2 ^ scale)) := by
    rw [← hscale]
    rfl
  rw [hnearest, Nat.mul_comm den, hround, hbits]
  exact Nat.min_eq_right h.finite.le

/-- below the power of two that a number is, ratios in its interval have the exponent of the number before it, and round
up to a significand that carries -/
theorem nearestBits_of_below (h : x.Ordinary) {num den : Nat} (hden : 0 < den)
    (hx : x.Attracts ((num * one : Nat) / den)) (hscale : x.scale ≠ 0)
    (hbelow : num * one < 2 ^ 52 * (2 ^ x.scale * den)) : nearestBits num den = x.magnitudeBits := by
  obtain ⟨hlow, -, -⟩ := bounds_of_attracts hden hx
  obtain ⟨e, he⟩ := Nat.exists_eq_succ_of_ne_zero hscale
  have hw : 0 < 2 ^ e * den := Nat.mul_pos (Nat.two_pow_pos e) hden
  have hdouble : 2 ^ x.scale * den = 2 * (2 ^ e * den) := by
    rw [he, Nat.pow_succ]
    ring
  rw [hdouble] at hlow hbelow
  have hpower : x.significand = 2 ^ 52 := by
    have hleast := le_significand hscale
    by_contra hne
    have hmore : 2 ^ 52 + 1 ≤ x.significand := by omega
    have hmul := Nat.mul_le_mul_right (2 * (2 ^ e * den)) hmore
    have hgap := Nat.mul_le_mul_right (2 * (2 ^ e * den)) x.lowerGap_le
    rw [Nat.add_mul, Nat.one_mul] at hmul
    omega
  have hgap : x.lowerGap = 1 := by
    rw [lowerGap, if_pos ⟨hpower, hscale⟩]
  rw [hpower, hgap] at hlow
  have hlog : (num * one / den).log2 = 52 + e := by
    apply log2_div_eq hden
    · rw [Nat.pow_add, Nat.mul_assoc]
      omega
    · calc num * one < 2 ^ 52 * (2 * (2 ^ e * den)) := hbelow
        _ = 2 ^ (52 + e + 1) * den := by ring
  have hround : roundHalfEven (num * one) (2 ^ e * den) = 2 ^ 53 := by
    apply roundHalfEven_eq hw
    · omega
    · omega
    · intro hodd
      omega
  apply nearestBits_eq h _ hround
  · rw [magnitudeBits_eq, hpower, he]
    omega
  · omega

/-- everywhere else they have the exponent of the number -/
theorem nearestBits_of_not_below (h : x.Ordinary) {num den : Nat} (hden : 0 < den)
    (hx : x.Attracts ((num * one : Nat) / den))
    (hnot : x.scale ≠ 0 → 2 ^ 52 * (2 ^ x.scale * den) ≤ num * one) : nearestBits num den = x.magnitudeBits := by
  obtain ⟨hlow, hhigh, hodd⟩ := bounds_of_attracts hden hx
  have hw : 0 < 2 ^ x.scale * den := Nat.mul_pos (Nat.two_pow_pos _) hden
  have hgap := Nat.mul_le_mul_right (2 ^ x.scale * den) x.lowerGap_le
  have hround : roundHalfEven (num * one) (2 ^ x.scale * den) = x.significand := by
    apply roundHalfEven_eq hw
    · omega
    · omega
    · intro hodd'
      obtain ⟨hlow', hhigh'⟩ := hodd hodd'
      omega
  have hupper : num * one < 2 ^ (52 + x.scale + 1) * den := by
    have hmul := Nat.mul_le_mul_right (2 ^ x.scale * den) (Nat.succ_le_of_lt (significand_lt x))
    rw [Nat.succ_eq_add_one, Nat.add_mul, Nat.one_mul] at hmul
    calc num * one < 2 ^ 53 * (2 ^ x.scale * den) := by omega
      _ = 2 ^ (52 + x.scale + 1) * den := by ring
  have hlog : (num * one / den).log2 - 52 = x.scale := by
    rcases Nat.eq_zero_or_pos x.scale with hscale | hscale
    · -- subnormal numbers and the normal ones next to them share the least exponent
      rw [hscale]
      by_cases hzero : num * one / den = 0
      · rw [hzero, Nat.log2_zero]
      · have hlt : num * one / den < 2 ^ 53 := by
          rw [Nat.div_lt_iff_lt_mul hden]
          simpa [hscale] using hupper
        have := (Nat.log2_lt hzero).2 hlt
        omega
    · have hlower : 2 ^ (52 + x.scale) * den ≤ num * one := by
        rw [Nat.pow_add, Nat.mul_assoc]
        exact hnot hscale.ne'
      rw [log2_div_eq hden hlower hupper]
      omega
  exact nearestBits_eq h hlog hround (magnitudeBits_eq x).symm

/-- a ratio in the interval of a number rounds to the number -/
theorem nearestBits_of_attracts (h : x.Ordinary) {num den : Nat} (hden : 0 < den)
    (hx : x.Attracts ((num * one : Nat) / den)) : nearestBits num den = x.magnitudeBits := by
  by_cases hbelow : x.scale ≠ 0 ∧ num * one < 2 ^ 52 * (2 ^ x.scale * den)
  · exact nearestBits_of_below h hden hx hbelow.1 hbelow.2
  · exact nearestBits_of_not_below h hden hx fun hscale => Nat.not_lt.1 fun hlt => hbelow ⟨hscale, hlt⟩

/-! ## Decimals -/

/-- a decimal in units -/
def decimal (digits : Nat) (exponent : Int) : ℚ := digits * 10 ^ exponent * one

theorem zpow_eq_div (k : Int) : (10 : ℚ) ^ k = 10 ^ k.toNat / 10 ^ (-k).toNat := by
  rcases Int.le_total 0 k with hk | hk
  · obtain ⟨n, rfl⟩ := Int.eq_ofNat_of_zero_le hk
    simp
  · obtain ⟨n, hn⟩ := Int.eq_ofNat_of_zero_le (Int.neg_nonneg_of_nonpos hk)
    obtain rfl : k = -n := by omega
    simp

theorem pow_le_zpow {n : Nat} {k : Int} (h : n ≤ k) : ((10 ^ n : Nat) : ℚ) ≤ 10 ^ k := by
  rw [Nat.cast_pow, ← zpow_natCast]
  exact zpow_le_zpow_right₀ (by norm_num) h

theorem zpow_mul_pow_le {n : Nat} {k : Int} (h : k + n ≤ 0) : (10 : ℚ) ^ k * (10 ^ n : Nat) ≤ 1 := by
  have hsum : (10 : ℚ) ^ k * (10 ^ n : Nat) = 10 ^ (k + n) := by
    rw [Nat.cast_pow, ← zpow_natCast, zpow_add₀ (by norm_num)]
    rfl
  rw [hsum]
  exact zpow_le_one_of_nonpos₀ (by norm_num) h

/-- the exponent of a decimal in the interval of a number is not settled as infinite -/
theorem exponent_le_of_attracts (h : x.Ordinary) {digits : Nat} {exponent : Int} (hd : digits ≠ 0)
    (hx : x.Attracts (decimal digits exponent)) : exponent ≤ 310 := by
  by_contra hlarge
  have hpower : ((10 ^ 311 : Nat) : ℚ) ≤ 10 ^ exponent := pow_le_zpow (by omega)
  obtain ⟨hbound, -⟩ := one_bounds
  generalize 10 ^ 311 = p at hpower hbound
  have hdigits : (1 : ℚ) ≤ digits := by exact_mod_cast Nat.one_le_iff_ne_zero.2 hd
  have hone : (0 : ℚ) ≤ one := Nat.cast_nonneg one
  have hdecimal : (p : ℚ) * one ≤ decimal digits exponent := by
    calc (p : ℚ) * one ≤ 10 ^ exponent * one := mul_le_mul_of_nonneg_right hpower hone
      _ = 1 * 10 ^ exponent * one := by rw [one_mul]
      _ ≤ decimal digits exponent := by
        rw [decimal]
        gcongr
  have hend : x.highEnd ≤ ((2 ^ 55 * 2 ^ 2045 : Nat) : ℚ) := by
    have hsig : ((4 * x.significand + 2 : Nat) : ℚ) ≤ (2 ^ 55 : Nat) := by
      have := significand_lt x
      exact_mod_cast (by omega : 4 * x.significand + 2 ≤ 2 ^ 55)
    have hscale (n : Nat) (hn : x.scale ≤ n) : ((2 ^ x.scale : Nat) : ℚ) ≤ (2 ^ n : Nat) :=
      Nat.cast_le.2 (Nat.pow_le_pow_right (by norm_num) hn)
    calc x.highEnd = ((4 * x.significand + 2 : Nat) : ℚ) * (2 ^ x.scale : Nat) := by
          rw [highEnd]
          push_cast
          rfl
      _ ≤ (2 ^ 55 : Nat) * (2 ^ 2045 : Nat) := by
        apply mul_le_mul hsig (hscale 2045 h.scale_le) (by positivity) (by positivity)
      _ = ((2 ^ 55 * 2 ^ 2045 : Nat) : ℚ) := (Nat.cast_mul _ _).symm
  have hcontra : 4 * decimal digits exponent < 4 * ((p : ℚ) * one) := by
    calc 4 * decimal digits exponent ≤ ((2 ^ 55 * 2 ^ 2045 : Nat) : ℚ) := hx.2.1.trans hend
      _ < ((4 * (p * one) : Nat) : ℚ) := Nat.cast_lt.2 hbound
      _ = 4 * ((p : ℚ) * one) := by push_cast; rfl
  linarith

/-- nor is it settled as zero -/
theorem le_exponent_of_attracts (h : x.Ordinary) {digits : Nat} {exponent : Int}
    (hx : x.Attracts (decimal digits exponent)) : -330 ≤ exponent + (digits.log2 / 3 + 1 : Nat) := by
  by_contra hsmall
  set n := digits.log2 / 3 + 1 with hn
  have hpower : (10 : ℚ) ^ (exponent + n) * (10 ^ 331 : Nat) ≤ 1 := zpow_mul_pow_le (by omega)
  obtain ⟨-, hbound⟩ := one_bounds
  generalize 10 ^ 331 = p at hpower hbound
  have hdigits : (digits : ℚ) ≤ 10 ^ (n : Int) := by
    have hlt : digits < 10 ^ n := by
      calc digits < 2 ^ (digits.log2 + 1) := Nat.lt_log2_self
        _ ≤ 2 ^ (3 * n) := Nat.pow_le_pow_right (by norm_num) (by omega)
        _ = 8 ^ n := by rw [Nat.pow_mul]
        _ ≤ 10 ^ n := Nat.pow_le_pow_left (by norm_num) n
    exact_mod_cast hlt.le
  have hone : (0 : ℚ) ≤ one := Nat.cast_nonneg one
  have hscaled : decimal digits exponent * p ≤ one := by
    calc decimal digits exponent * p ≤ 10 ^ (n : Int) * 10 ^ exponent * one * p := by
          rw [decimal]
          gcongr
      _ = 10 ^ (exponent + n) * p * one := by
          rw [zpow_add₀ (by norm_num)]
          ring
      _ ≤ 1 * one := mul_le_mul_of_nonneg_right hpower hone
      _ = one := one_mul _
  have hhalf : (1 : ℚ) / 2 ≤ decimal digits exponent := by
    have := h.two_le_lowEnd.trans hx.1
    linarith
  have hbound' : (2 : ℚ) * one < p := by exact_mod_cast hbound
  have hcontra : (p : ℚ) / 2 ≤ one := by
    calc (p : ℚ) / 2 = 1 / 2 * p := by ring
      _ ≤ decimal digits exponent * p := mul_le_mul_of_nonneg_right hhalf (Nat.cast_nonneg p)
      _ ≤ one := hscaled
  linarith

/-- a decimal in the interval of a number is read as the number -/
theorem ofDecimal_of_attracts (h : x.Ordinary) {digits : Nat} {exponent : Int}
    (hx : x.Attracts (decimal digits exponent)) (negative : Bool) :
    ofDecimal negative digits exponent = ofMagnitude negative x.magnitudeBits := by
  have hdigits : digits ≠ 0 := by
    rintro rfl
    have hlow := h.two_le_lowEnd.trans hx.1
    simp [decimal] at hlow
    linarith
  have hlarge := exponent_le_of_attracts h hdigits hx
  have hsmall := le_exponent_of_attracts h hx
  have hratio : decimal digits exponent =
      ((digits * Nat.pow 10 exponent.toNat * one : Nat) : ℚ) / (Nat.pow 10 (-exponent).toNat : Nat) := by
    rw [decimal, zpow_eq_div, Nat.pow_eq, Nat.pow_eq]
    push_cast
    ring
  rw [hratio] at hx
  have hbits := nearestBits_of_attracts h (Nat.pow_pos (by norm_num)) hx
  rw [ofDecimal, if_neg hdigits, if_neg (by omega), if_neg (by omega)]
  split_ifs with hsign
  · obtain hzero : (-exponent).toNat = 0 := by omega
    rw [hzero] at hbits
    rw [ofRatio]
    exact congrArg _ hbits
  · obtain hzero : exponent.toNat = 0 := by omega
    rw [hzero] at hbits
    rw [ofRatio]
    simpa using congrArg _ hbits

/-! ## The shortest decimal -/

theorem attracts_of_onGrid (h : x.Ordinary) {k : Int} {digits : Nat} (hx : x.onGrid k = some digits) :
    x.Attracts (decimal digits k) := by
  have hgrid : x.roundsTo (Nat.pow 10 (-k).toNat) (digits * (Nat.pow 2 (places + 2) * Nat.pow 10 k.toNat)) = true := by
    simp only [onGrid] at hx
    split_ifs at hx with hbelow habove
    · obtain rfl := Option.some.inj hx
      exact (Bool.and_eq_true_iff.1 hbelow).1
    · obtain rfl := Option.some.inj hx
      exact habove
  have hattracts := attracts_of_roundsTo h (Nat.pow_pos (by norm_num)) hgrid
  have hvalue : ((digits * (4 * one * 10 ^ k.toNat) : Nat) : ℚ) / (4 * (10 ^ (-k).toNat : Nat)) = decimal digits k := by
    rw [decimal, zpow_eq_div]
    push_cast
    field_simp
  rw [← four_mul_one] at hattracts
  exact hvalue ▸ hattracts

/-- the exact decimal is the number itself -/
theorem decimal_exact (x : Binary64) : decimal x.exact.digits x.exact.exponent = x.units := by
  have hpower (n : Nat) : ((5 ^ n : Nat) : ℚ) * 10 ^ (-(n : Int)) * (2 ^ n : Nat) = 1 := by
    have hten : (10 : ℚ) ^ n = 5 ^ n * 2 ^ n := by
      rw [← mul_pow]
      norm_num
    rw [zpow_neg, zpow_natCast, hten]
    push_cast
    field_simp
  calc decimal x.exact.digits x.exact.exponent
      = ((x.units * 5 ^ places : Nat) : ℚ) * 10 ^ (-(places : Int)) * (2 ^ places : Nat) := rfl
    _ = x.units * (((5 ^ places : Nat) : ℚ) * 10 ^ (-(places : Int)) * (2 ^ places : Nat)) := by
      rw [Nat.cast_mul]
      ring
    _ = x.units := by rw [hpower, mul_one]

/-- the shortest decimal of a number rounds to it -/
theorem attracts_shortest (h : x.Ordinary) : x.Attracts (decimal x.shortest.digits x.shortest.exponent) := by
  rw [shortest]
  cases hsearch : x.searchGrids x.topGrid (x.topGrid + places).toNat with
  | none =>
    rw [Option.getD_none, decimal_exact]
    exact x.attracts_units
  | some d =>
    obtain ⟨i, -, hgrid⟩ := List.exists_of_findSome?_eq_some hsearch
    obtain ⟨digits, hdigits, rfl⟩ := Option.map_eq_some_iff.1 hgrid
    exact attracts_of_onGrid h hdigits

end FrameGraph.Binary64
