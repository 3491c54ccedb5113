/-
Parentheses that belong together, and how many lists are open around a token.

Tokens are balanced if they are complete lists and tokens that are no parentheses, one behind the other. A list ends at the closing
parenthesis that balanced tokens lead to from its opening one (`Pairs`); a closing parenthesis that ends no list is passed over.
A list is open around the tokens behind its opening parenthesis and before the one that ends it (`Surrounds`).

A count that goes up where a list is opened, and down where one is closed but never below zero, is the number of lists that the
tokens so far leave open. What carries this is a list of the places where these begin, the innermost first (`Unclosed`): balanced
tokens stand behind the innermost, so a closing parenthesis ends that one, and where there is none it ends nothing.

Results:
- `balanced_iff`: balanced tokens open as many lists as they close, and no beginning of them closes more than it opens.
- `Pairs.eq_iff`: no parenthesis belongs to two others.
- `Unclosed.mem_iff`: the places that a text of tokens keeps are those of the lists that it leaves open.
- `depthAt_eq`: the count up to a token, one less at a closing parenthesis, is the number of lists that are open around it.
- `Pairs.depthAt_eq`: around both parentheses of a list the same lists are open.
- `depthAt_of_stray`, `foldl_deepen_eraseIdx`: around a closing parenthesis that ends no list none is, and counting goes on behind it
  as if it were not there.
-/
import FrameGraph.Token
import Mathlib.Tactic

namespace FrameGraph.Token

variable {ts us : List Token} {i j k : Nat}

/-! ## Balanced tokens -/

/-- complete lists, and tokens that are no parentheses -/
inductive Balanced : List Token → Prop where
  | nil : Balanced []
  | single {t : Token} {ts : List Token} (hopening : t ≠ .opening) (hclosing : t ≠ .closing) (hts : Balanced ts) :
    Balanced (t :: ts)
  | list {us ts : List Token} (hus : Balanced us) (hts : Balanced ts) : Balanced (.opening :: (us ++ .closing :: ts))

theorem Balanced.append (h : Balanced ts) (h' : Balanced us) : Balanced (ts ++ us) := by
  induction h with
  | nil => exact h'
  | single hopening hclosing _ ih => exact .single hopening hclosing ih
  | list hus _ _ ih =>
    rw [List.cons_append, List.append_assoc, List.cons_append]
    exact .list hus ih

/-- as many lists are closed as are opened, and in no beginning more -/
def IsDyck (ts : List Token) : Prop :=
  ts.count .closing = ts.count .opening ∧ ∀ n ≤ ts.length, (ts.take n).count .closing ≤ (ts.take n).count .opening

instance (ts : List Token) : Decidable (IsDyck ts) := by
  unfold IsDyck; infer_instance

theorem Balanced.count_eq (h : Balanced ts) : ts.count .closing = ts.count .opening := by
  induction h with
  | nil => rfl
  | single hopening hclosing _ ih => simpa [List.count_cons, hopening, hclosing] using ih
  | list _ _ ihus ihts =>
    simp [List.count_append, ihus, ihts]
    omega

theorem Balanced.count_take (h : Balanced ts) (n : Nat) : (ts.take n).count .closing ≤ (ts.take n).count .opening := by
  induction h generalizing n with
  | nil => simp
  | single hopening hclosing _ ih =>
    cases n with
    | zero => simp
    | succ n => simpa [List.count_cons, hopening, hclosing] using ih n
  | @list us ts hus _ ihus ihts =>
    cases n with
    | zero => simp
    | succ n =>
      have hbefore := ihus n
      have hinside := hus.count_eq
      rw [List.take_succ_cons, List.take_append]
      cases hrest : n - us.length with
      | zero =>
        simp at hbefore ⊢
        omega
      | succ m =>
        have hall : us.take n = us := List.take_of_length_le (by omega)
        have hbehind := ihts m
        rw [hall, List.take_succ_cons]
        simp [List.count_append] at hbehind ⊢
        omega

/-- what stands behind a place in balanced tokens opens no more than it closes -/
theorem Balanced.count_drop (h : Balanced ts) (n : Nat) : (ts.drop n).count .opening ≤ (ts.drop n).count .closing := by
  have hboth := h.count_eq
  have hbefore := h.count_take n
  rw [← List.take_append_drop n ts, List.count_append, List.count_append] at hboth
  omega

/-! ## Lists that are left open -/

/-- what a token does to the number of lists that are open -/
def deepen (d : Nat) : Token → Nat
  | .opening => d + 1
  | .closing => d - 1
  | .quote _ | .leaf _ => d

/-- where the lists begin that the tokens leave open, the innermost first -/
inductive Unclosed : List Token → List Nat → Prop where
  | nil : Unclosed [] []
  | stray {ts : List Token} (h : Unclosed ts []) : Unclosed (ts ++ [.closing]) []
  | opening {ts : List Token} {is : List Nat} (h : Unclosed ts is) : Unclosed (ts ++ [.opening]) (ts.length :: is)
  | balanced {ts us : List Token} {is : List Nat} (h : Unclosed ts is) (hus : Balanced us) : Unclosed (ts ++ us) is

variable {is : List Nat}

/-- only balanced tokens stand behind the innermost of the lists that are left open -/
theorem Unclosed.innermost (h : Unclosed ts (i :: is)) :
    ∃ front us, ts = front ++ .opening :: us ∧ i = front.length ∧ Unclosed front is ∧ Balanced us := by
  generalize hjs : i :: is = js at h
  induction h with
  | nil => cases hjs
  | stray => cases hjs
  | @opening ts js h =>
    obtain ⟨rfl, rfl⟩ := List.cons.inj hjs
    exact ⟨ts, [], rfl, rfl, h, .nil⟩
  | @balanced ts us js _ hus ih =>
    obtain ⟨front, vs, rfl, hi, hfront, hvs⟩ := ih hjs
    exact ⟨front, vs ++ us, by simp, hi, hfront, hvs.append hus⟩

theorem balanced_singleton {t : Token} (hopening : t ≠ .opening) (hclosing : t ≠ .closing) : Balanced [t] :=
  .single hopening hclosing .nil

/-- one more token opens a list, closes the innermost one, or leaves all lists as they are -/
theorem Unclosed.snoc (h : Unclosed ts is) (t : Token) : ∃ js, Unclosed (ts ++ [t]) js ∧ js.length = deepen is.length t := by
  cases t with
  | opening => exact ⟨_, h.opening, rfl⟩
  | closing =>
    cases is with
    | nil => exact ⟨[], h.stray, rfl⟩
    | cons i is =>
      obtain ⟨front, us, rfl, -, hfront, hus⟩ := h.innermost
      refine ⟨is, ?_, rfl⟩
      rw [List.append_assoc, List.cons_append]
      exact hfront.balanced (.list hus .nil)
  | quote op => exact ⟨is, h.balanced (balanced_singleton (by simp) (by simp)), rfl⟩
  | leaf l => exact ⟨is, h.balanced (balanced_singleton (by simp) (by simp)), rfl⟩

/-- the count that never goes below zero counts the lists that are left open -/
theorem exists_unclosed (ts : List Token) : ∃ is, Unclosed ts is ∧ is.length = ts.foldl deepen 0 := by
  induction ts using List.reverseRecOn with
  | nil => exact ⟨[], .nil, rfl⟩
  | append_singleton ts t ih =>
    obtain ⟨is, his, hlength⟩ := ih
    obtain ⟨js, hjs, hlength'⟩ := his.snoc t
    exact ⟨js, hjs, by rw [hlength', hlength, List.foldl_append, List.foldl_cons, List.foldl_nil]⟩

/-- no beginning of the tokens closes more lists than it opens -/
def NoStray (ts : List Token) : Prop := ∀ p, p <+: ts → p.count .closing ≤ p.count .opening

theorem NoStray.of_append (h : NoStray (ts ++ us)) : NoStray ts := fun p hp => h p (hp.trans (List.prefix_append ts us))

/-- where every closing parenthesis ends a list, those that are left open are the ones that were opened and not closed -/
theorem Unclosed.length_add_count (h : Unclosed ts is) (hts : NoStray ts) :
    is.length + ts.count .closing = ts.count .opening := by
  induction h with
  | nil => rfl
  | @stray ts _ ih =>
    have hbefore := ih hts.of_append
    have hall := hts _ List.prefix_rfl
    simp [List.count_append] at hbefore hall
    omega
  | opening _ ih =>
    have hbefore := ih hts.of_append
    simp [List.count_append]
    omega
  | balanced _ hus ih =>
    have hbefore := ih hts.of_append
    rw [List.count_append, List.count_append, hus.count_eq]
    omega

/-- tokens that close nothing but what they have opened, and leave nothing open, are balanced -/
theorem Unclosed.toBalanced (h : Unclosed ts is) (hts : NoStray ts) (hnil : is = []) : Balanced ts := by
  induction h with
  | nil => exact .nil
  | stray h =>
    have hbefore := h.length_add_count hts.of_append
    have hall := hts _ List.prefix_rfl
    simp [List.count_append] at hbefore hall
    omega
  | opening => cases hnil
  | balanced _ hus ih => exact (ih hts.of_append hnil).append hus

/-- **Tokens are balanced if they open as many lists as they close, and no beginning of them closes more than it opens.** -/
theorem balanced_iff : Balanced ts ↔ IsDyck ts := by
  constructor
  · intro h
    exact ⟨h.count_eq, fun n _ => h.count_take n⟩
  · rintro ⟨hcount, htake⟩
    have hts : NoStray ts := by
      intro p hp
      rw [List.prefix_iff_eq_take.1 hp]
      exact htake _ hp.length_le
    obtain ⟨is, his, -⟩ := exists_unclosed ts
    have hlength := his.length_add_count hts
    exact his.toBalanced hts (List.length_eq_zero_iff.1 (by omega))

instance (ts : List Token) : Decidable (Balanced ts) := decidable_of_iff (IsDyck ts) balanced_iff.symm

/-! ## Parentheses that belong together -/

/-- the list that begins at `i` ends at `j` -/
structure Pairs (ts : List Token) (i j : Nat) : Prop where
  before : i < j
  opening : ts[i]? = some .opening
  closing : ts[j]? = some .closing
  inside : Balanced ((ts.take j).drop (i + 1))

instance (ts : List Token) (i j : Nat) : Decidable (Pairs ts i j) :=
  decidable_of_iff (i < j ∧ ts[i]? = some .opening ∧ ts[j]? = some .closing ∧ Balanced ((ts.take j).drop (i + 1)))
    ⟨fun ⟨h1, h2, h3, h4⟩ => ⟨h1, h2, h3, h4⟩, fun ⟨h1, h2, h3, h4⟩ => ⟨h1, h2, h3, h4⟩⟩

/-- a closing parenthesis ends one list only: of two that it ends, the inner one would close no more than it opens -/
theorem Pairs.not_lt_of_end {i' : Nat} (h : Pairs ts i j) (h' : Pairs ts i' j) : ¬ i < i' := by
  intro hlt
  have hopening : (ts.take j)[i']? = some .opening := by rw [List.getElem?_take_of_lt h'.before, h'.opening]
  have hsplit : ((ts.take j).drop (i + 1)).drop (i' - (i + 1)) = .opening :: (ts.take j).drop (i' + 1) := by
    rw [List.drop_drop, Nat.add_sub_cancel' hlt, List.drop_eq_getElem?_toList_append, hopening]
    rfl
  have hclosed := h.inside.count_drop (i' - (i + 1))
  have hinside := h'.inside.count_eq
  rw [hsplit] at hclosed
  simp [hinside] at hclosed

/-- and a list ends once only: behind its end it would be closed twice -/
theorem Pairs.not_lt_of_begin {j' : Nat} (h : Pairs ts i j) (h' : Pairs ts i j') : ¬ j < j' := by
  intro hlt
  have hbefore := h.before
  have hinside := h.inside.count_eq
  have hopened := h'.inside.count_take (j - i)
  have hsplit : ((ts.take j').drop (i + 1)).take (j - i) = (ts.take j).drop (i + 1) ++ [.closing] := by
    have hlength : i + 1 ≤ (ts.take j).length := by
      have hj : j < ts.length := (List.getElem?_eq_some_iff.1 h.closing).1
      rw [List.length_take]
      omega
    calc ((ts.take j').drop (i + 1)).take (j - i) = (ts.take (j + 1)).drop (i + 1) := by
          rw [List.take_drop, List.take_take]
          congr 2
          omega
      _ = (ts.take j).drop (i + 1) ++ [.closing] := by
          rw [List.take_add_one, h.closing, List.drop_append_of_le_length hlength]
          rfl
  rw [hsplit, List.count_append, List.count_append] at hopened
  simp [hinside] at hopened

/-- **Parentheses belong together two by two.** -/
theorem Pairs.eq_iff {i' j' : Nat} (h : Pairs ts i j) (h' : Pairs ts i' j') : i = i' ↔ j = j' := by
  constructor
  · rintro rfl
    exact Nat.le_antisymm (Nat.le_of_not_lt (h'.not_lt_of_begin h)) (Nat.le_of_not_lt (h.not_lt_of_begin h'))
  · rintro rfl
    exact Nat.le_antisymm (Nat.le_of_not_lt (h'.not_lt_of_end h)) (Nat.le_of_not_lt (h.not_lt_of_end h'))

/-- what stands behind a list does not change where it ends -/
theorem pairs_take {n : Nat} : Pairs (ts.take n) i j ↔ j < n ∧ Pairs ts i j := by
  constructor
  · rintro ⟨hbefore, hopening, hclosing, hinside⟩
    rw [List.getElem?_take] at hopening hclosing
    split_ifs at hopening hclosing with hi hj
    rw [List.take_take, Nat.min_eq_left hj.le] at hinside
    exact ⟨hj, hbefore, hopening, hclosing, hinside⟩
  · rintro ⟨hj, hbefore, hopening, hclosing, hinside⟩
    refine ⟨hbefore, ?_, ?_, ?_⟩
    · rwa [List.getElem?_take_of_lt (hbefore.trans hj)]
    · rwa [List.getElem?_take_of_lt hj]
    · rwa [List.take_take, Nat.min_eq_left hj.le]

theorem pairs_append (hj : j < ts.length) : Pairs (ts ++ us) i j ↔ Pairs ts i j := by
  have htake : (ts ++ us).take ts.length = ts := List.take_left
  rw [← and_iff_right hj (b := Pairs (ts ++ us) i j), ← pairs_take, htake]

/-- nor does what stands before it -/
theorem Pairs.behind (h : Pairs ts i j) (us : List Token) : Pairs (us ++ ts) (us.length + i) (us.length + j) := by
  obtain ⟨hbefore, hopening, hclosing, hinside⟩ := h
  refine ⟨by omega, ?_, ?_, ?_⟩
  · rwa [List.getElem?_append_right (by omega), Nat.add_sub_cancel_left]
  · rwa [List.getElem?_append_right (by omega), Nat.add_sub_cancel_left]
  · rwa [List.take_length_add_append, Nat.add_assoc, List.drop_length_add_append]

theorem exists_pairs_behind (h : ∃ j, Pairs ts i j) (us : List Token) (hk : us.length + i = k) :
    ∃ j, Pairs (us ++ ts) k j := by
  obtain ⟨j, hj⟩ := h
  subst hk
  exact ⟨_, hj.behind us⟩

/-- every list in balanced tokens ends in them -/
theorem Balanced.exists_pairs (h : Balanced ts) (hi : ts[i]? = some .opening) : ∃ j, Pairs ts i j := by
  induction h generalizing i with
  | nil => simp at hi
  | @single t ts hopening _ _ ih =>
    cases i with
    | zero => exact absurd (Option.some.inj hi) hopening
    | succ i => exact exists_pairs_behind (ih hi) [t] (Nat.add_comm 1 i)
  | @list us ts hus _ ihus ihts =>
    cases i with
    | zero =>
      refine ⟨us.length + 1, by omega, rfl, by simp, ?_⟩
      simpa using hus
    | succ i =>
      rw [List.getElem?_cons_succ] at hi
      rcases Nat.lt_trichotomy i us.length with hlt | rfl | hgt
      · rw [List.getElem?_append_left hlt] at hi
        obtain ⟨j, hj⟩ := ihus hi
        have hend : j < us.length := (List.getElem?_eq_some_iff.1 hj.closing).1
        exact exists_pairs_behind ⟨j, (pairs_append hend).2 hj⟩ [.opening] (Nat.add_comm 1 i)
      · simp at hi
      · obtain ⟨n, rfl⟩ : ∃ n, i = us.length + 1 + n := ⟨i - us.length - 1, by omega⟩
        have hn : us.length + 1 + n - us.length = n + 1 := by omega
        rw [List.getElem?_append_right (by omega), hn, List.getElem?_cons_succ] at hi
        have hlength : (Token.opening :: (us ++ [.closing])).length + n = us.length + 1 + n + 1 := by
          simp
          omega
        have hsplit : .opening :: (us ++ .closing :: ts) = .opening :: (us ++ [.closing]) ++ ts := by simp
        rw [hsplit]
        exact exists_pairs_behind (ihts hi) _ hlength

/-- balanced tokens do not end a list that begins before them -/
theorem Balanced.not_pairs (h : Balanced us) (hi : i < ts.length) : ¬ Pairs (ts ++ us) i (ts.length + j) := by
  rintro ⟨-, -, hclosing, hinside⟩
  rw [List.getElem?_append_right (Nat.le_add_right ..), Nat.add_sub_cancel_left] at hclosing
  -- the parenthesis closes more than the tokens before it in `us` open, and they close all that they open
  have hopened := h.count_take (j + 1)
  have hclosed := hinside.count_drop (ts.length - (i + 1))
  rw [List.take_add_one, hclosing, List.count_append, List.count_append] at hopened
  rw [List.take_length_add_append, List.drop_drop, Nat.add_sub_cancel' (by omega), List.drop_left] at hclosed
  simp at hopened
  omega

/-- the list that begins at `i` does not end in the tokens -/
def LeftOpen (ts : List Token) (i : Nat) : Prop := ts[i]? = some .opening ∧ ∀ j, ¬ Pairs ts i j

theorem LeftOpen.lt (h : LeftOpen ts i) : i < ts.length := (List.getElem?_eq_some_iff.1 h.1).1

theorem leftOpen_append (hi : i < ts.length) :
    LeftOpen (ts ++ us) i ↔ LeftOpen ts i ∧ ∀ j, ¬ Pairs (ts ++ us) i (ts.length + j) := by
  have hopening : (ts ++ us)[i]? = ts[i]? := List.getElem?_append_left hi
  rw [LeftOpen, LeftOpen, hopening, and_assoc]
  refine and_congr_right fun _ => ⟨fun h => ⟨fun j hj => ?_, fun j => h _⟩, fun ⟨h, h'⟩ j hj => ?_⟩
  · have hend : j < ts.length := (List.getElem?_eq_some_iff.1 hj.closing).1
    exact h j ((pairs_append hend).2 hj)
  · rcases Nat.lt_or_ge j ts.length with hlt | hge
    · exact h j ((pairs_append hlt).1 hj)
    · rw [← Nat.add_sub_cancel' hge] at hj
      exact h' _ hj

/-- a closing parenthesis leaves no list open that was not -/
theorem LeftOpen.of_closing (h : LeftOpen (ts ++ [.closing]) i) : LeftOpen ts i := by
  have hi := h.lt
  rw [List.length_append, List.length_singleton] at hi
  rcases Nat.lt_succ_iff_lt_or_eq.1 hi with hlt | rfl
  · exact ((leftOpen_append hlt).1 h).1
  · have hopening := h.1
    simp at hopening

/-- an opening one leaves one more list open, the one that begins with it -/
theorem leftOpen_opening : LeftOpen (ts ++ [.opening]) i ↔ i = ts.length ∨ LeftOpen ts i := by
  have hclosing (i j : Nat) : ¬ Pairs (ts ++ [.opening]) i (ts.length + j) := by
    intro hpairs
    have hend := hpairs.closing
    rw [List.getElem?_append_right (Nat.le_add_right ..), Nat.add_sub_cancel_left] at hend
    cases j <;> simp at hend
  constructor
  · intro h
    have hi := h.lt
    rw [List.length_append, List.length_singleton] at hi
    rcases Nat.lt_succ_iff_lt_or_eq.1 hi with hlt | rfl
    · exact .inr ((leftOpen_append hlt).1 h).1
    · exact .inl rfl
  · rintro (rfl | h)
    · refine ⟨by simp, fun j hj => ?_⟩
      rw [← Nat.add_sub_cancel' hj.before.le] at hj
      exact hclosing _ _ hj
    · exact (leftOpen_append h.lt).2 ⟨h, hclosing i⟩

/-- balanced tokens leave no list open and end none that was -/
theorem leftOpen_balanced (hus : Balanced us) : LeftOpen (ts ++ us) i ↔ LeftOpen ts i := by
  rcases Nat.lt_or_ge i ts.length with hlt | hge
  · rw [leftOpen_append hlt, and_iff_left fun j => hus.not_pairs hlt]
  · refine iff_of_false (fun h => ?_) fun h => absurd h.lt (Nat.not_lt_of_le hge)
    obtain ⟨n, rfl⟩ := Nat.exists_eq_add_of_le hge
    have hopening := h.1
    rw [List.getElem?_append_right hge, Nat.add_sub_cancel_left] at hopening
    obtain ⟨j, hj⟩ := exists_pairs_behind (hus.exists_pairs hopening) ts rfl
    exact h.2 j hj

/-- **The lists that tokens leave open are those that do not end in them.** -/
theorem Unclosed.mem_iff (h : Unclosed ts is) : i ∈ is ↔ LeftOpen ts i := by
  induction h with
  | nil => simp [LeftOpen]
  | stray _ ih => exact iff_of_false List.not_mem_nil fun hleft => List.not_mem_nil (ih.2 hleft.of_closing)
  | opening _ ih => rw [List.mem_cons, ih, leftOpen_opening]
  | balanced _ hus ih => rw [ih, leftOpen_balanced hus]

theorem Unclosed.nodup (h : Unclosed ts is) : is.Nodup := by
  induction h with
  | nil => exact List.nodup_nil
  | stray => exact List.nodup_nil
  | opening h ih => exact List.nodup_cons.2 ⟨fun hmem => (h.mem_iff.1 hmem).lt.false, ih⟩
  | balanced _ _ ih => exact ih

/-! ## Lists around a token -/

/-- the list that begins at `i` is open around the token at `k`: it begins before the token, and does not end before it or with it -/
def Surrounds (ts : List Token) (k i : Nat) : Prop := ts[i]? = some .opening ∧ ∀ j ≤ k, ¬ Pairs ts i j

instance (ts : List Token) (k i : Nat) : Decidable (Surrounds ts k i) := by
  unfold Surrounds; infer_instance

/-- how many lists are open around the token at `k` -/
def depthAt (ts : List Token) (k : Nat) : Nat := {i ∈ Finset.range k | Surrounds ts k i}.card

/-- the number of lists around a token, where `d` are open in front of it: a closing parenthesis ends one of them -/
def level (d : Nat) (t : Token) : Nat := if t = .closing then d - 1 else d

theorem surrounds_iff (hi : i ≤ k) : Surrounds ts k i ↔ LeftOpen (ts.take (k + 1)) i := by
  rw [Surrounds, LeftOpen, List.getElem?_take_of_lt (Nat.lt_succ_of_le hi)]
  refine and_congr_right fun _ => ⟨fun h j hj => ?_, fun h j hj hpairs => ?_⟩
  · obtain ⟨hlt, hpairs⟩ := pairs_take.1 hj
    exact h j (Nat.le_of_lt_succ hlt) hpairs
  · exact h j (pairs_take.2 ⟨Nat.lt_succ_of_le hj, hpairs⟩)

theorem level_opening (d : Nat) : level d .opening = d := rfl

theorem level_closing (d : Nat) : level d .closing = d - 1 := rfl

theorem level_of_ne {t : Token} (ht : t ≠ .opening) (d : Nat) : level d t = deepen d t := by
  cases t with
  | opening => exact absurd rfl ht
  | closing => rfl
  | quote op => rfl
  | leaf l => rfl

/-- the lists around a token are those that are left open with it, except one that begins with it -/
theorem Unclosed.filter_surrounds (h : Unclosed (ts.take (k + 1)) is) :
    {i ∈ Finset.range k | Surrounds ts k i} = is.toFinset.erase k := by
  ext i
  rw [Finset.mem_filter, Finset.mem_range, Finset.mem_erase, List.mem_toFinset, h.mem_iff]
  constructor
  · rintro ⟨hi, hsurrounds⟩
    exact ⟨hi.ne, (surrounds_iff hi.le).1 hsurrounds⟩
  · rintro ⟨hne, hleft⟩
    have hi := hleft.lt
    rw [List.length_take] at hi
    exact ⟨by omega, (surrounds_iff (by omega)).2 hleft⟩

theorem Unclosed.mem_last {t : Token} (h : Unclosed (ts.take k ++ [t]) is) (hk : k < ts.length) : k ∈ is ↔ t = .opening := by
  have hlength : (ts.take k).length = k := List.length_take_of_le hk.le
  have hlast : (ts.take k ++ [t])[k]? = some t := by rw [List.getElem?_append_right hlength.le, hlength, Nat.sub_self]; rfl
  rw [h.mem_iff]
  constructor
  · intro hleft
    exact Option.some.inj (hlast.symm.trans hleft.1)
  · rintro rfl
    exact leftOpen_opening.2 (.inl hlength.symm)

/-- **The count up to a token is the number of lists around it**, but for a closing parenthesis, which ends one of them. -/
theorem depthAt_eq {t : Token} (ht : ts[k]? = some t) : depthAt ts k = level ((ts.take k).foldl deepen 0) t := by
  obtain ⟨hk, -⟩ := List.getElem?_eq_some_iff.1 ht
  obtain ⟨is, his, hlength⟩ := exists_unclosed (ts.take k)
  obtain ⟨js, hjs, hlength'⟩ := his.snoc t
  have hlast : k ∈ js.toFinset ↔ t = .opening := by rw [List.mem_toFinset, hjs.mem_last hk]
  have hcard : js.toFinset.card = deepen ((ts.take k).foldl deepen 0) t := by
    rw [List.toFinset_card_of_nodup hjs.nodup, hlength', hlength]
  have htake : ts.take k ++ [t] = ts.take (k + 1) := by
    rw [List.take_add_one, ht]
    rfl
  rw [htake] at hjs
  rw [depthAt, hjs.filter_surrounds]
  by_cases hopening : t = .opening
  · rw [Finset.card_erase_of_mem (hlast.2 hopening), hcard, hopening, level_opening]
    rfl
  · rw [Finset.erase_eq_of_notMem (mt hlast.1 hopening), hcard, level_of_ne hopening]

/-- behind a stray parenthesis, two lists of which the first is inside the second -/
example : (List.range 5).map (depthAt [.closing, .opening, .opening, .closing, .closing]) = [0, 0, 1, 1, 0] := by decide

/-! ## Both ends of a list, and parentheses that end none -/

/-- behind balanced tokens as many lists are open as before them -/
theorem Balanced.foldl_deepen (h : Balanced ts) (d : Nat) : ts.foldl deepen d = d := by
  induction h generalizing d with
  | nil => rfl
  | @single t ts hopening hclosing _ ih =>
    have hsame : deepen d t = d := by rw [← level_of_ne hopening, level, if_neg hclosing]
    rw [List.foldl_cons, hsame, ih]
  | list _ _ ihus ihts =>
    rw [List.foldl_cons, List.foldl_append, ihus, List.foldl_cons, ihts]
    rfl

/-- **The parentheses of a list stand equally deep.** -/
theorem Pairs.depthAt_eq (h : Pairs ts i j) : depthAt ts i = depthAt ts j := by
  have hsplit : ts.take j = ts.take i ++ .opening :: (ts.take j).drop (i + 1) := by
    have hopening : (ts.take j)[i]? = some .opening := by rw [List.getElem?_take_of_lt h.before, h.opening]
    have htake : (ts.take j).take i = ts.take i := by rw [List.take_take, Nat.min_eq_left h.before.le]
    calc ts.take j = (ts.take j).take i ++ (ts.take j).drop i := (List.take_append_drop ..).symm
      _ = ts.take i ++ .opening :: (ts.take j).drop (i + 1) := by rw [htake, List.drop_eq_getElem?_toList_append, hopening]; rfl
  rw [Token.depthAt_eq h.opening, Token.depthAt_eq h.closing, hsplit, List.foldl_append, List.foldl_cons,
    h.inside.foldl_deepen, level_opening, level_closing]
  rfl

section Stray

variable (hclosing : ts[k]? = some .closing) (hstray : ∀ i, ¬ Pairs ts i k)

include hclosing hstray

/-- no list is left open in front of a closing parenthesis that ends none -/
theorem foldl_deepen_of_stray : (ts.take k).foldl deepen 0 = 0 := by
  obtain ⟨is, his, hlength⟩ := exists_unclosed (ts.take k)
  cases is with
  | nil => exact hlength.symm
  | cons i is =>
    -- else the innermost one would end there
    obtain ⟨front, us, htake, rfl, -, hus⟩ := his.innermost
    have hk : k < ts.length := (List.getElem?_eq_some_iff.1 hclosing).1
    have hbefore : front.length < k := by
      have hlengths := congrArg List.length htake
      rw [List.length_take, List.length_append, List.length_cons] at hlengths
      omega
    have hopening : ts[front.length]? = some .opening := by
      rw [← List.getElem?_take_of_lt hbefore, htake]
      simp
    have hinside : (ts.take k).drop (front.length + 1) = us := by rw [htake]; simp
    exact absurd ⟨hbefore, hopening, hclosing, hinside.symm ▸ hus⟩ (hstray front.length)

theorem depthAt_of_stray : depthAt ts k = 0 := by
  rw [depthAt_eq hclosing, foldl_deepen_of_stray hclosing hstray]
  rfl

/-- behind it the count is what it would be without it -/
theorem foldl_deepen_eraseIdx {n : Nat} (hn : k ≤ n) :
    ((ts.eraseIdx k).take n).foldl deepen 0 = (ts.take (n + 1)).foldl deepen 0 := by
  have hzero := foldl_deepen_of_stray hclosing hstray
  obtain ⟨m, rfl⟩ := Nat.exists_eq_add_of_le hn
  obtain ⟨front, behind, rfl, rfl⟩ : ∃ front behind, ts = front ++ .closing :: behind ∧ front.length = k := by
    obtain ⟨hk, hget⟩ := List.getElem?_eq_some_iff.1 hclosing
    exact ⟨ts.take k, ts.drop (k + 1), by simp [← hget], List.length_take_of_le hk.le⟩
  have hwithout : ((front ++ .closing :: behind).eraseIdx front.length).take (front.length + m) = front ++ behind.take m := by
    rw [List.eraseIdx_append_of_length_le le_rfl, Nat.sub_self, List.eraseIdx_cons_zero, List.take_length_add_append]
  have hwith : (front ++ .closing :: behind).take (front.length + m + 1) = front ++ .closing :: behind.take m := by
    rw [Nat.add_assoc, List.take_length_add_append, List.take_succ_cons]
  rw [List.take_left] at hzero
  rw [hwithout, hwith, List.foldl_append, List.foldl_append, hzero, List.foldl_cons]
  rfl

end Stray

end FrameGraph.Token
