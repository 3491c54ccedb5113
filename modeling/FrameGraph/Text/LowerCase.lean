/-
Lower-casing of whole texts by the full Unicode rules: each character by its mapping, `İ` to two characters, and a
capital sigma by its place in the word.

`lower_lower` says that this is done once and for all: no mapping covers what another one makes of a character, so wherever
the sigmas of a text stand, its lower case is left as it is. `lower_of_isLower` says so of texts in small Latin letters.
-/
import FrameGraph.Text.CaseData

namespace FrameGraph.Text

namespace CaseRun

def covers (r : CaseRun) (n : Nat) : Bool :=
  r.first ≤ n && n ≤ r.last && (n - r.first) % r.stride == 0

def map (r : CaseRun) (n : Nat) : Nat := r.image + (n - r.first)

/-- a test that no code point of `s` is an image under `r`: the two lie apart, or the ones are odd and the others even -/
def misses (r s : CaseRun) : Bool :=
  r.image + (r.last - r.first) < s.first || s.last < r.image ||
    ((r.stride == 2 || r.first == r.last) && s.stride == 2 && (r.image + s.first) % 2 == 1)

theorem covers_iff (r : CaseRun) (n : Nat) :
    r.covers n = true ↔ r.first ≤ n ∧ n ≤ r.last ∧ (n - r.first) % r.stride = 0 := by
  simp [covers, and_assoc]

theorem covers_map_of_misses {r s : CaseRun} (h : r.misses s = true) {n : Nat} (hn : r.covers n = true) :
    s.covers (r.map n) = false := by
  rw [covers_iff] at hn
  rw [← Bool.not_eq_true, covers_iff, map]
  simp only [misses, Bool.or_eq_true, Bool.and_eq_true, decide_eq_true_eq, beq_iff_eq] at h
  rcases h with (h | h) | ⟨⟨heven | hpoint, hs⟩, hodd⟩
  · omega
  · omega
  · rw [heven] at hn
    rw [hs]
    omega
  · rw [hs]
    omega

end CaseRun

/-- lower case of a single character away from its context; a character without a mapping stays -/
def lowerChar (c : Char) : Char :=
  match lowerRuns.find? (·.covers c.toNat) with
  | some r => Char.ofNat (r.map c.toNat)
  | none => c

/-- whether the first character that is not case-ignorable is cased -/
def meetsCased (cs : List Char) : Bool :=
  match cs.dropWhile caseIgnorableRanges.contains with
  | c :: _ => casedRanges.contains c
  | [] => false

/-- a sigma ends its word if a cased letter stands before it and none after it -/
def sigma (before after : List Char) : Char :=
  if meetsCased before && !meetsCased after then 'ς' else 'σ'

/-- lower case of `c` between `before`, nearest character first, and `after` -/
def lowerBetween (before : List Char) (c : Char) (after : List Char) : List Char :=
  if c = 'Σ' then [sigma before after]
  else if c = 'İ' then ['i', '\u0307']
  else [lowerChar c]

/-- lower case of a text that follows `before`, nearest character first -/
def lowerFrom (before : List Char) : List Char → List Char
  | [] => []
  | c :: cs => lowerBetween before c cs ++ lowerFrom (c :: before) cs

/-- lower case of a text -/
def lower (s : String) : String := String.ofList (lowerFrom [] s.toList)

/-! ## Texts in lower case -/

/-- the mapping, and `İ`, which is mapped by itself -/
def changing : List CaseRun := ⟨0x130, 0x130, 1, 0x69⟩ :: lowerRuns

/-- whether no mapping covers the code point -/
def isUncovered (n : Nat) : Bool := changing.all fun r => !r.covers n

theorem isUncovered_iff {n : Nat} : isUncovered n = true ↔ ∀ r ∈ changing, r.covers n = false := by
  simp [isUncovered]

theorem isUncovered_map {r : CaseRun} (hr : r ∈ lowerRuns) {n : Nat} (hn : r.covers n = true) :
    isUncovered (r.map n) = true := by
  have h : (lowerRuns.all fun r => changing.all fun s => r.misses s) = true := by decide +kernel
  simp only [List.all_eq_true] at h
  exact isUncovered_iff.2 fun s hs => CaseRun.covers_map_of_misses (h r hr s hs) hn

theorem isUncovered_of_find? {n : Nat} (hdot : n ≠ 0x130) (h : lowerRuns.find? (·.covers n) = none) :
    isUncovered n = true := by
  refine isUncovered_iff.2 (List.forall_mem_cons.2 ⟨?_, by simpa using h⟩)
  rw [← Bool.not_eq_true, CaseRun.covers_iff]
  dsimp only
  omega

theorem isUncovered_ofNat {n : Nat} (h : isUncovered n = true) : isUncovered (Char.ofNat n).toNat = true := by
  by_cases hn : n.isValidChar
  · rw [Char.ofNat, dif_pos hn]
    exact h
  · rw [Char.ofNat, dif_neg hn]
    decide +kernel

/-- small Latin letters lie apart from all mappings -/
theorem isUncovered_of_isLower {c : Char} (hc : c.isLower = true) : isUncovered c.toNat = true := by
  have hapart : (changing.all fun r => r.last < 'a'.toNat || 'z'.toNat < r.first) = true := by decide +kernel
  have hrange : 'a'.toNat ≤ c.toNat ∧ c.toNat ≤ 'z'.toNat := by
    obtain ⟨hlow, hhigh⟩ := Bool.and_eq_true_iff.1 hc
    exact ⟨UInt32.le_iff_toNat_le.1 (of_decide_eq_true hlow), UInt32.le_iff_toNat_le.1 (of_decide_eq_true hhigh)⟩
  refine isUncovered_iff.2 fun r hr => ?_
  have hr := List.all_eq_true.1 hapart r hr
  simp only [Bool.or_eq_true, decide_eq_true_eq] at hr
  rw [← Bool.not_eq_true, CaseRun.covers_iff]
  omega

/-- a character that no mapping covers is its own lower case, whatever stands around it -/
theorem lowerBetween_of_isUncovered {c : Char} (h : isUncovered c.toNat = true) (before after : List Char) :
    lowerBetween before c after = [c] := by
  have hsigma : c ≠ 'Σ' := by
    rintro rfl
    exact absurd h (by decide +kernel)
  have hdot : c ≠ 'İ' := by
    rintro rfl
    exact absurd h (by decide +kernel)
  have hfind : lowerRuns.find? (fun r => r.covers c.toNat) = none := by
    simpa using fun r hr => isUncovered_iff.1 h r (List.mem_cons_of_mem _ hr)
  rw [lowerBetween, if_neg hsigma, if_neg hdot, lowerChar, hfind]

/-- no mapping covers what lower-casing makes of a character -/
theorem isUncovered_of_mem_lowerBetween {before after : List Char} {c d : Char} (hd : d ∈ lowerBetween before c after) :
    isUncovered d.toNat = true := by
  have hmarks : (['ς', 'σ', 'i', '\u0307'].all fun x => isUncovered x.toNat) = true := by decide +kernel
  rw [List.all_eq_true] at hmarks
  unfold lowerBetween sigma at hd
  split at hd
  · exact hmarks d (by split at hd <;> simp_all)
  · split at hd
    · exact hmarks d (by simp_all)
    · next hdot =>
      rw [List.mem_singleton.1 hd, lowerChar]
      split
      · next r hr =>
        have hcovers : r.covers c.toNat = true := by simpa using List.find?_some hr
        exact isUncovered_ofNat (isUncovered_map (List.mem_of_find?_eq_some hr) hcovers)
      · next hnone => exact isUncovered_of_find? (fun hc => hdot (Char.toNat_inj.1 hc)) hnone

theorem lowerFrom_of_isUncovered {cs : List Char} (h : ∀ c ∈ cs, isUncovered c.toNat = true) (before : List Char) :
    lowerFrom before cs = cs := by
  induction cs generalizing before with
  | nil => rfl
  | cons c cs ih =>
    obtain ⟨hc, hcs⟩ := List.forall_mem_cons.1 h
    rw [lowerFrom, lowerBetween_of_isUncovered hc, ih hcs, List.singleton_append]

theorem isUncovered_of_mem_lowerFrom {before cs : List Char} {d : Char} (hd : d ∈ lowerFrom before cs) :
    isUncovered d.toNat = true := by
  induction cs generalizing before with
  | nil => cases hd
  | cons c cs ih =>
    rw [lowerFrom, List.mem_append] at hd
    exact hd.elim isUncovered_of_mem_lowerBetween ih

/-- a text in lower case is its own lower case -/
theorem lower_lower (s : String) : lower (lower s) = lower s := by
  rw [lower, lower, String.toList_ofList, lowerFrom_of_isUncovered fun c hc => isUncovered_of_mem_lowerFrom hc]

theorem lower_of_isLower {s : String} (h : ∀ c ∈ s.toList, c.isLower = true) : lower s = s := by
  rw [lower, lowerFrom_of_isUncovered fun c hc => isUncovered_of_isLower (h c hc), String.ofList_toList]

end FrameGraph.Text
