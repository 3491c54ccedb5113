/-
Tags are canonical: which kind a tag names is decided by its lower case, and the kind carries this lower case as its tag.

A tag that names no built-in kind as it stands is asked for again in lower case. The built-in tags are in lower case, and a text
in lower case is left as it is; so a second question leads to no third one, and the first one, where it finds a kind, finds the
one that the second would have found.

Results:
- `builtin?_eq_some_iff`, `mem_builtin_iff`: the built-in kinds are all but the custom ones, and each is found by its tag.
- `lower_tag`: built-in tags are in lower case.
- `ofTag_eq`: the kind that a tag names, read off its lower case.
- `ofTag_canonical`: tags name the same kind if and only if they have the same lower case.
-/
import FrameGraph.Kind

namespace FrameGraph.Kind

variable {t u : String} {k : Kind}

/-! ## Built-in kinds -/

theorem mem_builtin_iff : k ∈ builtin ↔ ∀ c, k ≠ custom c := by
  cases k with
  | custom c => exact ⟨fun hk => absurd hk (by simp [builtin]), fun hk => absurd rfl (hk c)⟩
  | _ => simp [builtin]

theorem builtin?_eq_some_iff : builtin? t = some k ↔ k ∈ builtin ∧ k.tag = t := by
  constructor
  · intro hk
    exact ⟨List.mem_of_find?_eq_some hk, by simpa using List.find?_some hk⟩
  · rintro ⟨hk, rfl⟩
    revert k
    decide

theorem builtin?_eq_none_iff : builtin? t = none ↔ ∀ k ∈ builtin, k.tag ≠ t := by
  simp [builtin?]

theorem lower_tag (hk : k ∈ builtin) : Text.lower k.tag = k.tag := by
  have hsmall : (builtin.all fun k => k.tag.toList.all Char.isLower) = true := by decide
  exact Text.lower_of_isLower (List.all_eq_true.1 (List.all_eq_true.1 hsmall k hk))

/-! ## What a tag names -/

/-- to say which kind `t` names, it is asked which one `u` names -/
def Asks (t u : String) : Prop := builtin? t = none ∧ Text.lower t ≠ t ∧ u = Text.lower t

theorem ofTag_of_asks (h : Asks t u) : ofTag t = ofTag u := by
  obtain ⟨hnone, hlower, rfl⟩ := h
  rw [ofTag, hnone]
  exact dif_neg hlower

/-- a tag that is asked for again is in lower case, and leads to no further question -/
theorem not_asks_of_asks (h : Asks t u) (v : String) : ¬ Asks u v := by
  obtain ⟨-, -, rfl⟩ := h
  rintro ⟨-, hlower, -⟩
  exact hlower (Text.lower_lower t)

/-- a tag in lower case names the built-in kind that carries it, or else a kind of its own -/
theorem ofTag_of_lower (h : Text.lower t = t) : ofTag t = (builtin? t).getD (custom t) := by
  rw [ofTag]
  cases builtin? t with
  | some k => rfl
  | none => exact dif_pos h

/-- any tag names what its lower case names -/
theorem ofTag_lower (t : String) : ofTag (Text.lower t) = ofTag t := by
  cases ht : builtin? t with
  | some k =>
    obtain ⟨hk, rfl⟩ := builtin?_eq_some_iff.1 ht
    rw [lower_tag hk]
  | none =>
    by_cases hlower : Text.lower t = t
    · rw [hlower]
    · exact (ofTag_of_asks ⟨ht, hlower, rfl⟩).symm

theorem ofTag_eq (t : String) : ofTag t = (builtin? (Text.lower t)).getD (custom (Text.lower t)) := by
  rw [← ofTag_lower, ofTag_of_lower (Text.lower_lower t)]

theorem tag_ofTag (t : String) : (ofTag t).tag = Text.lower t := by
  rw [ofTag_eq]
  cases hk : builtin? (Text.lower t) with
  | some k => exact (builtin?_eq_some_iff.1 hk).2
  | none => rfl

theorem exists_custom_iff : (∃ c, ofTag t = custom c) ↔ ∀ k ∈ builtin, k.tag ≠ Text.lower t := by
  rw [← builtin?_eq_none_iff, ofTag_eq]
  cases hk : builtin? (Text.lower t) with
  | some k =>
    have hne := mem_builtin_iff.1 (builtin?_eq_some_iff.1 hk).1
    simpa using hne
  | none => simp

/-- **Tags are canonical.** A tag is asked for again at most once, and that gives the kind that it names. Tags name the same
kind if and only if they have the same lower case. This is the tag of the kind, so that the tag of a kind names it again. A tag
names a custom kind if and only if its lower case is no built-in tag; so the tag of a custom kind is never a built-in one, and
always its own lower case. -/
theorem ofTag_canonical (s t : String) :
    (∀ u, Asks t u → ofTag t = ofTag u ∧ ∀ v, ¬ Asks u v) ∧
    (ofTag s = ofTag t ↔ Text.lower s = Text.lower t) ∧
    (ofTag t).tag = Text.lower t ∧
    ofTag (ofTag t).tag = ofTag t ∧
    ((∃ c, ofTag t = custom c) ↔ ∀ k ∈ builtin, k.tag ≠ Text.lower t) ∧
    ∀ c, ofTag t = custom c → (∀ k ∈ builtin, k.tag ≠ c) ∧ Text.lower c = c := by
  refine ⟨fun u hu => ⟨ofTag_of_asks hu, not_asks_of_asks hu⟩, ⟨fun h => ?_, fun h => ?_⟩, tag_ofTag t, ?_,
    exists_custom_iff, fun c hc => ?_⟩
  · rw [← tag_ofTag s, ← tag_ofTag t, h]
  · rw [ofTag_eq s, ofTag_eq t, h]
  · rw [tag_ofTag, ofTag_lower]
  · have htag : c = Text.lower t := by rw [← tag_ofTag t, hc, tag]
    rw [htag]
    exact ⟨exists_custom_iff.1 ⟨c, hc⟩, Text.lower_lower t⟩

end FrameGraph.Kind
