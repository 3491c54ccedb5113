/-
The limit on nesting, and what becomes of a reading if it is raised.

An expression that is read within a limit is read within a higher one, and so is every error but that of nesting too
deep. Two readings of the same tokens with different limits go together up to the first token that opens a list or a
quote inside as many others as the lower limit allows (`Encloses`): there the lower one ends, and what it has printed is
the beginning of what the other one prints.

Results:
- `parseAll_limit`: a higher limit reads what a lower one reads, and more only behind an error of nesting.
- `Encloses.unique`: tokens determine the constructs that enclose what stands behind them.
- `encloses_of_deep`: nesting is too deep at the first token that opens a construct inside as many as the limit allows.
- `printAll_limit`: raising the limit only ever extends what is printed.
-/
import FrameGraph.Proofs.Decoding
import FrameGraph.Proofs.Deliveries

namespace FrameGraph

namespace Grammar

open FrameGraph.Expr

/-! ## Raising the limit -/

theorem Halts.raise {d d' : Nat} {stack : List Opened} {tail rest : TokenStream} {err : Located ReadError}
    (h : Halts d stack tail err rest) (hne : err.item ≠ .structural .nestingTooDeep) : Halts d' stack tail err rest := by
  cases h with
  | stray ht hs => exact .stray ht hs
  | deep ht hs => exact absurd rfl hne
  | lexical => exact .lexical
  | ended hs => exact .ended hs

theorem parse_expression_raise {d d' : Nat} (hd : d ≤ d') {ts rest : TokenStream} {e : Expr}
    (h : parse d [] ts = .expression e rest) : parse d' [] ts = .expression e rest := by
  obtain ⟨p, hts, hp, hnesting⟩ := parse_expression_iff.1 h
  exact parse_expression_iff.2 ⟨p, hts, hp, hnesting.trans hd⟩

theorem parse_failed_raise {d d' : Nat} (hd : d ≤ d') {ts rest : TokenStream} {stack : List Opened}
    {err : Located ReadError} (h : parse d [] ts = .failed stack err rest)
    (hne : err.item ≠ .structural .nestingTooDeep) : parse d' [] ts = .failed stack err rest := by
  obtain ⟨p, tail, hts, hopen, hdepth, hhalts⟩ := parse_failed_iff.1 h
  exact parse_failed_iff.2 ⟨p, tail, hts, hopen, hdepth.trans hd, hhalts.raise hne⟩

/-- **A higher limit reads what a lower one reads**, and reads more only behind an error of nesting. -/
theorem parseAll_limit {d d' : Nat} (hd : d ≤ d') (ts : TokenStream) :
    (parseAll d ts).exprs <+: (parseAll d' ts).exprs ∧
    ((∀ failed, (parseAll d ts).failure = some failed → failed.error.item ≠ .structural .nestingTooDeep) →
      parseAll d' ts = parseAll d ts) := by
  induction ts using parseAll.induct d with
  | case1 ts hparse =>
    obtain rfl := parse_ended_iff.1 hparse
    rw [parseAll_ended hparse, parseAll_ended rfl]
    exact ⟨List.prefix_rfl, fun _ => rfl⟩
  | case2 ts e rest hparse ih =>
    rw [parseAll_expression hparse, parseAll_expression (parse_expression_raise hd hparse)]
    refine ⟨List.cons_prefix_cons.2 ⟨rfl, ih.1⟩, fun hne => ?_⟩
    rw [ih.2 hne]
  | case3 ts stack err rest hparse =>
    rw [parseAll_failed hparse]
    refine ⟨List.nil_prefix, fun hne => ?_⟩
    rw [parseAll_failed (parse_failed_raise hd hparse (hne _ rfl))]

/-! ## Constructs that enclose a token -/

/-- what stands behind the tokens is inside the constructs of `stack`, the innermost first, all of them in one top-level
expression: the tokens write whole expressions and then leave these constructs open -/
def Encloses (stack : List Opened) (before : List (Located Token)) : Prop :=
  ∃ (es : List Expr) (p q : List (Located Token)), before = p ++ q ∧ p.map Located.item = tokensAll es ∧ LeavesOpen stack q

/-- tokens of expressions within the limit are read as these -/
theorem parseAll_tokensAll {d : Nat} {es : List Expr} (hes : nestingAll es ≤ d) {p : List (Located Token)}
    (hp : p.map Located.item = tokensAll es) (ts : TokenStream) :
    parseAll d (p.map .ok ++ ts) = ⟨es ++ (parseAll d ts).exprs, (parseAll d ts).failure⟩ := by
  induction es generalizing p with
  | nil =>
    obtain rfl : p = [] := by simpa [tokensAll] using hp
    rfl
  | cons e es ih =>
    rw [nestingAll, max_le_iff] at hes
    obtain ⟨pe, ps, rfl, hpe, hps⟩ := List.map_eq_append_iff.1 hp
    have hparse : parse d [] ((pe ++ ps).map .ok ++ ts) = .expression e (ps.map .ok ++ ts) :=
      parse_expression_iff.2 ⟨pe, by simp, hpe, hes.1⟩
    rw [parseAll_expression hparse, ih hes.2 hps]
    rfl

/-- **What encloses a token is determined by the tokens before it.** -/
theorem Encloses.unique {stack stack' : List Opened} {before : List (Located Token)} (h : Encloses stack before)
    (h' : Encloses stack' before) : stack = stack' := by
  -- an error behind the tokens shows the stack that they lead to, under any limit that is high enough
  have hshows {stack : List Opened} (h : Encloses stack before) : ∃ n, ∀ d, n ≤ d →
      (parseAll d (before.map .ok ++ [.error ⟨.unmatched "", .start⟩])).failure.map Failure.stack = some stack := by
    obtain ⟨es, p, q, rfl, hp, hq⟩ := h
    refine ⟨max (nestingAll es) (depth stack), fun d hd => ?_⟩
    rw [max_le_iff] at hd
    have hfailed : parse d [] (q.map .ok ++ [.error ⟨.unmatched "", .start⟩]) = .failed stack _ [] :=
      parse_leavesOpen hq hd.2 _
    rw [List.map_append, List.append_assoc, parseAll_tokensAll hd.1 hp, parseAll_failed hfailed]
    rfl
  obtain ⟨n, hn⟩ := hshows h
  obtain ⟨n', hn'⟩ := hshows h'
  have h1 := hn _ (le_max_left n n')
  rw [hn' _ (le_max_right n n')] at h1
  exact (Option.some.inj h1).symm

/-- the token `u` behind the tokens `before` is one of an expression within the limit, with whole ones in front of it -/
def InExpression (d : Nat) (before : List (Located Token)) (u : Located Token) : Prop :=
  ∃ (es : List Expr) (p q : List (Located Token)) (e : Expr), before = p ++ q ∧ p.map Located.item = tokensAll es ∧
    e.nesting ≤ d ∧ (q ++ [u]).map Located.item <+: e.tokens

theorem InExpression.behind {d : Nat} {before : List (Located Token)} {u : Located Token} {e : Expr}
    (h : InExpression d before u) {pe : List (Located Token)} (hpe : pe.map Located.item = e.tokens) :
    InExpression d (pe ++ before) u := by
  obtain ⟨es, p, q, e', rfl, hp, he', hq⟩ := h
  refine ⟨e :: es, pe ++ p, q, e', (List.append_assoc ..).symm, ?_, he', hq⟩
  rw [List.map_append, hpe, hp, tokensAll]

/-- every token of expressions within the limit is inside one of them -/
theorem inExpression_of_tokensAll {d : Nat} {es : List Expr} (hes : nestingAll es ≤ d) {b c : List (Located Token)}
    {u : Located Token} (h : (b ++ u :: c).map Located.item = tokensAll es) : InExpression d b u := by
  induction es generalizing b with
  | nil => simp [tokensAll] at h
  | cons e es ih =>
    rw [nestingAll, max_le_iff] at hes
    obtain ⟨pe, ps, heq, hpe, hps⟩ := List.map_eq_append_iff.1 h
    have hlater {x : List (Located Token)} (hx : ps = x ++ u :: c) : InExpression d (pe ++ x) u :=
      (ih hes.2 (hx ▸ hps)).behind hpe
    rcases List.append_eq_append_iff.1 heq with ⟨x, hx, hrest⟩ | ⟨x, hb, hx⟩
    · rcases x with _ | ⟨v, x⟩
      · have hb : b = pe ++ [] := by simpa using hx.symm
        rw [hb]
        exact hlater hrest.symm
      · obtain ⟨rfl, -⟩ := List.cons.inj hrest
        refine ⟨[], [], b, e, rfl, rfl, hes.1, x.map Located.item, ?_⟩
        rw [← hpe, hx]
        simp
    · rw [hb]
      exact hlater hx

/-- an opening among the tokens of expressions within the limit is enclosed by fewer constructs than the limit -/
theorem encloses_of_opens {d : Nat} {es : List Expr} (hes : nestingAll es ≤ d) {b c : List (Located Token)}
    {u : Located Token} (h : (b ++ u :: c).map Located.item = tokensAll es) (hu : u.item.Opens) :
    ∃ outer, Encloses outer b ∧ outer.length < d := by
  obtain ⟨fs, p, q, e, rfl, hp, he, hq⟩ := inExpression_of_tokensAll hes h
  have hprefix : q.map Located.item <+: e.tokens := (List.map_append ▸ List.prefix_append _ _).trans hq
  have hproper : q.map Located.item ≠ e.tokens := by
    intro heq
    have hlength := hq.length_le
    rw [← heq] at hlength
    simp at hlength
  obtain ⟨outer, houter, hdepth⟩ := leavesOpen_of_proper hprefix hproper
  refine ⟨outer, ⟨fs, p, q, rfl, hp, houter⟩, Nat.not_le.1 fun hdeep => ?_⟩
  exact not_prefix_of_feed houter (hdepth.trans he) (feed_deep hu hdeep) he hq

/-! ## Where nesting is too deep -/

/-- what stands before a failure: the expressions, and the constructs that it leaves open -/
theorem exists_failure {d : Nat} {ts : TokenStream} {failed : Failure} (h : (parseAll d ts).failure = some failed) :
    ∃ (p q : List (Located Token)) (tail rest : TokenStream), ts = (p ++ q).map .ok ++ tail ∧
      p.map Located.item = tokensAll (parseAll d ts).exprs ∧ nestingAll (parseAll d ts).exprs ≤ d ∧
      LeavesOpen failed.stack q ∧ depth failed.stack ≤ d ∧ Halts d failed.stack tail failed.error rest := by
  induction ts using parseAll.induct d with
  | case1 ts hparse =>
    rw [parseAll_ended hparse] at h
    cases h
  | case2 ts e later hparse ih =>
    rw [parseAll_expression hparse] at h ⊢
    obtain ⟨pe, rfl, hpe, he⟩ := parse_expression_iff.1 hparse
    obtain ⟨p, q, tail, rest, hlater, hp, hnesting, hq⟩ := ih h
    refine ⟨pe ++ p, q, tail, rest, ?_, ?_, ?_, hq⟩
    · rw [hlater]
      simp
    · simp [hpe, hp, tokensAll]
    · rw [nestingAll, max_le_iff]
      exact ⟨he, hnesting⟩
  | case3 ts stack err rest hparse =>
    rw [parseAll_failed hparse] at h ⊢
    obtain rfl := Option.some.inj h
    obtain ⟨q, tail, rfl, hq, hdepth, hhalts⟩ := parse_failed_iff.1 hparse
    exact ⟨[], q, tail, rest, rfl, rfl, Nat.zero_le d, hq, hdepth, hhalts⟩

/-- **Nesting is too deep at the first token that opens a construct inside as many as the limit allows.** -/
theorem encloses_of_deep {d : Nat} {ts : TokenStream} {failed : Failure} (h : (parseAll d ts).failure = some failed)
    (hdeep : failed.error.item = .structural .nestingTooDeep) :
    ∃ (before : List (Located Token)) (t : Located Token) (after : TokenStream),
      ts = before.map .ok ++ .ok t :: after ∧ t.item.Opens ∧ t.position = failed.error.position ∧
      Encloses failed.stack before ∧ d ≤ failed.stack.length ∧
      ∀ b u c, before = b ++ u :: c → u.item.Opens → ∃ outer, Encloses outer b ∧ outer.length < d := by
  obtain ⟨p, q, tail, rest, rfl, hp, hnesting, hq, hdepth, hhalts⟩ := exists_failure h
  generalize herror : failed.error = err at hdeep hhalts
  cases hhalts with
  | stray => cases hdeep
  | lexical => cases hdeep
  | @ended o => cases o <;> cases hdeep
  | @deep t _ ht hs =>
    refine ⟨p ++ q, t, rest, rfl, ht, rfl, ⟨_, p, q, rfl, hp, hq⟩, hs, fun b u c hbefore hu => ?_⟩
    -- the tokens before begin expressions within the limit, the last of which closes what is open
    obtain ⟨e, he, ⟨more, hmore⟩, -⟩ := hq.proper
    obtain ⟨x, rfl⟩ := exists_located more
    set es := (parseAll d _).exprs
    have hes : nestingAll (es ++ [e]) ≤ d := by
      rw [nestingAll_append, nestingAll, nestingAll, Nat.max_zero, he]
      exact max_le hnesting hdepth
    have hitems : (b ++ u :: (c ++ x)).map Located.item = tokensAll (es ++ [e]) := by
      have hsplit : b ++ u :: (c ++ x) = p ++ (q ++ x) := by
        rw [← List.cons_append, ← List.append_assoc, ← hbefore, List.append_assoc]
      rw [hsplit, tokensAll_append, tokensAll, tokensAll, List.append_nil, ← hp, ← hmore]
      simp
    exact encloses_of_opens hes hitems hu

end Grammar

/-! ## Printing -/

/-- tokens do not depend on the limit -/
theorem CharSource.tokens_limit (src : CharSource) (quote : Char) (d d' : Nat) :
    src.tokens ⟨quote, d⟩ = src.tokens ⟨quote, d'⟩ := rfl

theorem Reading.deliveries_append (a : Arena) (es fs : List Expr) :
    deliveries a (es ++ fs) = deliveries a es ++ deliveries (a.plantAll es) fs := by
  induction es generalizing a with
  | nil => simp [deliveries, Arena.plantAll, Expr.framesAll]
  | cons e es ih => simp [deliveries, ih, Arena.plantAll_cons]

namespace Listing

open Grammar Reading

theorem texts_append (vs ws : List (Arena × Handle)) : texts (vs ++ ws) = texts vs ++ texts ws := by
  simp [texts]

/-- **Raising the limit only ever extends what is printed.** For every source, quote mark and limits `d ≤ d'`, a sink that
takes everything has at its end, under the higher limit, what it has under the lower one, and something behind it. If the
lower reading does not end because nesting is too deep, both print the same and end in the same way. If it does, its
error is at the first token of the stream that opens a list or a quote inside at least `d` others of its own top-level
expression: the token is enclosed by as many, and every earlier token that opens something by fewer. -/
theorem printAll_limit (src : ByteSource) (quote : Char) {d d' : Nat} (hd : d ≤ d') (written : ByteArray) :
    let low := printAll ⟨quote, d⟩ src (.taking written)
    let high := printAll ⟨quote, d'⟩ src (.taking written)
    (∃ out more : String, low.state = .taking (written ++ out.toUTF8) ∧
      high.state = .taking (written ++ (out ++ more).toUTF8)) ∧
    ((∀ p, low.ending ≠ .unreadable ⟨.structural .nestingTooDeep, p⟩) →
      high.state = low.state ∧ high.ending = low.ending) ∧
    ∀ p, low.ending = .unreadable ⟨.structural .nestingTooDeep, p⟩ →
      ∃ (before : List (Located Token)) (t : Located Token) (after : TokenStream) (stack : List Opened),
        src.decode.tokens ⟨quote, d⟩ = before.map .ok ++ .ok t :: after ∧ t.item.Opens ∧ t.position = p ∧
        Encloses stack before ∧ d ≤ stack.length ∧
        ∀ b u c, before = b ++ u :: c → u.item.Opens →
          (∃ outer, Encloses outer b) ∧ ∀ outer, Encloses outer b → outer.length < d := by
  intro low high
  obtain ⟨es, failure, hlow⟩ : ∃ es failure, parseAll d (src.decode.tokens ⟨quote, d⟩) = ⟨es, failure⟩ := ⟨_, _, rfl⟩
  obtain ⟨es', failure', hhigh⟩ : ∃ es failure, parseAll d' (src.decode.tokens ⟨quote, d'⟩) = ⟨es, failure⟩ := ⟨_, _, rfl⟩
  have hlimit := parseAll_limit hd (src.decode.tokens ⟨quote, d⟩)
  rw [hlow, CharSource.tokens_limit src.decode quote d d', hhigh] at hlimit
  obtain ⟨⟨fs, hfs⟩, hsame⟩ := hlimit
  replace hfs : es ++ fs = es' := hfs
  rw [show low = _ from printAll_of_parseAll (s := ⟨quote, d⟩) hlow written,
    show high = _ from printAll_of_parseAll (s := ⟨quote, d'⟩) hhigh written]
  refine ⟨⟨texts (deliveries .empty es), texts (deliveries (Arena.plantAll .empty es) fs), rfl, ?_⟩, fun hne => ?_,
    fun p hp => ?_⟩
  · rw [← hfs, deliveries_append, texts_append]
  · have hfailed : ∀ failed, failure = some failed → failed.error.item ≠ .structural .nestingTooDeep := by
      rintro ⟨stack, item, p⟩ rfl rfl
      exact hne p rfl
    obtain ⟨rfl, rfl⟩ := ParsedAll.mk.inj (hsame hfailed)
    exact ⟨rfl, rfl⟩
  · obtain ⟨stack, rfl⟩ : ∃ stack, failure = some ⟨stack, ⟨.structural .nestingTooDeep, p⟩⟩ := by
      rcases failure with _ | ⟨stack, err⟩
      · cases hp
      · obtain rfl := Ending.unreadable.inj hp
        exact ⟨stack, rfl⟩
    obtain ⟨before, t, after, htokens, ht, hposition, hencloses, hdeep, hearlier⟩ :=
      encloses_of_deep (congrArg ParsedAll.failure hlow) rfl
    refine ⟨before, t, after, stack, htokens, ht, hposition, hencloses, hdeep, fun b u c hbefore hu => ?_⟩
    obtain ⟨outer, houter, hlength⟩ := hearlier b u c hbefore hu
    exact ⟨⟨outer, houter⟩, fun other hother => hother.unique houter ▸ hlength⟩

/-- a list in a quote in a list, where a quote and a list are allowed -/
theorem printAll_limit_nested :
    let src : ByteSource := .ofBytes (Text.Utf8.encode ['x', '(', '\x60', '(', 'y'])
    let low := printAll ⟨'\x60', 2⟩ src (.taking .empty)
    let high := printAll ⟨'\x60', 3⟩ src (.taking .empty)
    2 ≤ 3 ∧ low.ending = .unreadable ⟨.structural .nestingTooDeep, ⟨0, 3⟩⟩ ∧
    (∃ out more : String, low.state = .taking (.empty ++ out.toUTF8) ∧
      high.state = .taking (.empty ++ (out ++ more).toUTF8)) ∧
    ∃ (before : List (Located Token)) (t : Located Token) (after : TokenStream) (stack : List Opened),
      src.decode.tokens ⟨'\x60', 2⟩ = before.map .ok ++ .ok t :: after ∧ t.position = ⟨0, 3⟩ ∧ Encloses stack before ∧
      2 ≤ stack.length := by
  intro src low high
  have htokens : src.decode.tokens ⟨'\x60', 2⟩ = [.ok ⟨.leaf ⟨.symbol, .text "x"⟩, ⟨0, 0⟩⟩, .ok ⟨.opening, ⟨0, 1⟩⟩,
      .ok ⟨.quote ⟨.op, .text "\x60"⟩, ⟨0, 2⟩⟩, .ok ⟨.opening, ⟨0, 3⟩⟩, .ok ⟨.leaf ⟨.symbol, .text "y"⟩, ⟨0, 4⟩⟩] := by
    rw [ByteSource.decode_encode]
    decide
  have hlow : low.ending = .unreadable ⟨.structural .nestingTooDeep, ⟨0, 3⟩⟩ := by
    show (printAll _ src (.taking .empty)).ending = _
    rw [printAll_taking, htokens, parseAll_expression rfl, parseAll_failed rfl]
    rfl
  obtain ⟨hprinted, -, hdeep⟩ := printAll_limit src '\x60' (show 2 ≤ 3 by decide) .empty
  obtain ⟨before, t, after, stack, hbefore, -, hposition, hencloses, hlength, -⟩ := hdeep _ hlow
  exact ⟨by decide, hlow, hprinted, before, t, after, stack, hbefore, hposition, hencloses, hlength⟩

end Listing

end FrameGraph
