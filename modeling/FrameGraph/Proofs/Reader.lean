/-
What the reader reads and where it fails, over all arenas, limits and token streams.

Results:
- `next_reads_grammar`: a call ends without an expression only where there are no tokens; it reads an expression exactly
  if one within the limit stands at the head of the tokens, takes its tokens and no others, and leaves it in the arena.
- `next_failed_iff`: a call fails exactly behind tokens that some expression within the limit begins with, at the first
  item that no such expression goes on with (`Fault` lists the four kinds of it), and leaves what stands behind that item.
-/
import FrameGraph.Proofs.Planting

namespace FrameGraph.Reader

open Grammar

/-! ## Outcomes of a call -/

theorem next_ended_iff {d : Nat} {a : Arena} {ts : TokenStream} : (next d a ts).outcome = .ended ↔ ts = [] := by
  rw [next_eq_parse, ← parse_ended_iff (d := d)]
  cases parse d [] ts <;> simp [Parsed.call]

theorem next_expression_iff {d : Nat} {a : Arena} {ts r : TokenStream} {h : Handle} :
    (next d a ts).outcome = .expression h ∧ (next d a ts).rest = r ↔
      h = a.next ∧ ∃ e, parse d [] ts = .expression e r ∧ (next d a ts).arena = a.plant e := by
  rw [next_eq_parse]
  cases parse d [] ts <;> simp [Parsed.call, eq_comm]

theorem next_failed_iff_parse {d : Nat} {a : Arena} {ts r : TokenStream} {err : Located ReadError} :
    (next d a ts).outcome = .failed err ∧ (next d a ts).rest = r ↔ ∃ stack, parse d [] ts = .failed stack err r := by
  rw [next_eq_parse]
  cases parse d [] ts <;> simp [Parsed.call]

/-! ## Expressions -/

/-- **The reader accepts exactly its grammar, and no more tokens than it needs.** A call finds the end iff there are no
tokens. It reads an expression and leaves the tokens `r` iff the tokens before `r` write an expression within the limit;
these tokens and the expression are the only ones that the stream begins with, and the graph at the handle that the call
answers is this expression. -/
theorem next_reads_grammar (d : Nat) (a : Arena) (ts : TokenStream) :
    ((next d a ts).outcome = .ended ↔ ts = []) ∧
    (∀ r, (∃ h, (next d a ts).outcome = .expression h ∧ (next d a ts).rest = r) ↔
      ∃ (p : List (Located Token)) (e : Expr), ts = p.map .ok ++ r ∧ p.map Located.item = e.tokens ∧ e.nesting ≤ d) ∧
    ∀ h, (next d a ts).outcome = .expression h → ∃ (p : List (Located Token)) (e : Expr),
      ts = p.map .ok ++ (next d a ts).rest ∧ p.map Located.item = e.tokens ∧ e.nesting ≤ d ∧
      Holds (next d a ts).arena h e ∧
      ∀ (p' : List (Located Token)) (e' : Expr) (r' : TokenStream), ts = p'.map .ok ++ r' →
        p'.map Located.item = e'.tokens → p' = p ∧ e' = e := by
  refine ⟨next_ended_iff, fun r => ?_, fun h hh => ?_⟩
  · simp only [next_expression_iff]
    constructor
    · rintro ⟨h, -, e, hp, -⟩
      obtain ⟨p, hts, hpe, hd⟩ := parse_expression_iff.1 hp
      exact ⟨p, e, hts, hpe, hd⟩
    · rintro ⟨p, e, hts, hpe, hd⟩
      have hp := parse_expression_iff.2 ⟨p, hts, hpe, hd⟩
      refine ⟨a.next, rfl, e, hp, ?_⟩
      rw [next_eq_parse, hp]
      rfl
  · obtain ⟨rfl, e, hp, ha⟩ := next_expression_iff.1 ⟨hh, rfl⟩
    obtain ⟨p, hts, hpe, hd⟩ := parse_expression_iff.1 hp
    refine ⟨p, e, hts, hpe, hd, ha ▸ holds_plant a e, fun p' e' r' hts' hpe' => ?_⟩
    obtain ⟨hp', he', -⟩ := expression_unique hts hpe hts' hpe'
    exact ⟨hp', he'⟩

/-! ## Errors -/

/-- the four ways in which reading fails -/
inductive Fault where
  | strayClose
  | tooDeep
  | lexical
  | cutShort
  deriving DecidableEq, Repr

/-- what each fault says of the tokens `p` that were taken, the items `tail` from the failing one on, the error and the
items `rest` behind the failing one -/
def Fault.Explains (d : Nat) (p : List (Located Token)) (tail : TokenStream) (err : Located ReadError)
    (rest : TokenStream) : Fault → Prop
  -- a closing parenthesis that goes on no expression
  | .strayClose => ∃ t, tail = .ok t :: rest ∧ t.item = .closing ∧ err = ⟨.structural .unexpectedClose, t.position⟩ ∧
      ∀ e : Expr, ¬ (p ++ [t]).map Located.item <+: e.tokens
  -- an opening that goes on expressions, but only too deep ones
  | .tooDeep => ∃ t, tail = .ok t :: rest ∧ t.item.Opens ∧ err = ⟨.structural .nestingTooDeep, t.position⟩ ∧
      (∃ e : Expr, (p ++ [t]).map Located.item <+: e.tokens) ∧
      ∀ e : Expr, (p ++ [t]).map Located.item <+: e.tokens → d < e.nesting
  | .lexical => ∃ e, tail = .error e :: rest ∧ err = ⟨.lexical e.item, e.position⟩
  -- the end, in a list with complete elements behind its opening, or right behind a quote
  | .cutShort => p ≠ [] ∧ tail = [] ∧ rest = [] ∧
      ((∃ p' t q es, p = p' ++ t :: q ∧ t.item = .opening ∧ q.map Located.item = Expr.tokensAll es ∧
          err = ⟨.structural .openList, t.position⟩) ∨
        ∃ p' t op, p = p' ++ [t] ∧ t.item = .quote op ∧ err = ⟨.structural (.openQuote op.value.raw), t.position⟩)

/-- the fault that an error reports -/
def Fault.ofError : ReadError → Fault
  | .lexical _ => .lexical
  | .structural .unexpectedClose => .strayClose
  | .structural .nestingTooDeep => .tooDeep
  | .structural .openList | .structural (.openQuote _) => .cutShort

theorem Fault.Explains.eq_ofError {d : Nat} {p : List (Located Token)} {tail rest : TokenStream}
    {err : Located ReadError} {f : Fault} (h : f.Explains d p tail err rest) : f = .ofError err.item := by
  cases f with
  | strayClose => obtain ⟨t, -, -, rfl, -⟩ := h; rfl
  | tooDeep => obtain ⟨t, -, -, rfl, -⟩ := h; rfl
  | lexical => obtain ⟨e, -, rfl⟩ := h; rfl
  | cutShort => obtain ⟨-, -, -, ⟨_, _, _, _, -, -, -, rfl⟩ | ⟨_, _, _, -, -, rfl⟩⟩ := h <;> rfl

theorem explains_of_halts {d : Nat} {stack : List Opened} {p : List (Located Token)} {tail rest : TokenStream}
    {err : Located ReadError} (h : LeavesOpen stack p) (hd : depth stack ≤ d) (hh : Halts d stack tail err rest) :
    ∃ f : Fault, f.Explains d p tail err rest := by
  cases hh with
  | @stray t ts ht hs =>
    refine ⟨.strayClose, t, rfl, ht, rfl, fun e => ?_⟩
    exact not_prefix_of_feed h (le_max_left _ e.nesting) (feed_stray _ ht hs) (le_max_right _ _)
  | @deep t ts ht hs =>
    refine ⟨.tooDeep, t, rfl, ht, rfl, ?_, fun e he => ?_⟩
    · obtain ⟨g, hg⟩ := exists_feed_of_opens ht (le_max_right d (stack.length + 1))
      obtain ⟨e, -, hp⟩ := prefix_of_feed h (hd.trans (le_max_left _ _)) hg
      exact ⟨e, hp⟩
    · by_contra hed
      exact not_prefix_of_feed h hd (feed_deep ht hs) (Nat.not_lt.1 hed) he
  | @lexical e ts => exact ⟨.lexical, e, rfl, rfl⟩
  | ended hs =>
    subst hs
    refine ⟨.cutShort, ?_⟩
    cases h with
    | list hp ht hq => exact ⟨by simp, rfl, rfl, .inl ⟨_, _, _, _, rfl, ht, hq, rfl⟩⟩
    | quote hp ht => exact ⟨by simp, rfl, rfl, .inr ⟨_, _, _, rfl, ht, rfl⟩⟩

theorem halts_of_explains {d : Nat} {stack : List Opened} {p : List (Located Token)} {tail rest : TokenStream}
    {err : Located ReadError} {f : Fault} (h : LeavesOpen stack p) (hd : depth stack ≤ d)
    (hf : f.Explains d p tail err rest) : Halts d stack tail err rest := by
  cases f with
  | strayClose =>
    obtain ⟨t, rfl, ht, rfl, hno⟩ := hf
    refine .stray ht fun hs => ?_
    rcases stack with _ | ⟨⟨o, done⟩ | ⟨o, op⟩, below⟩
    · exact hs
    · obtain ⟨e, -, hp⟩ := prefix_of_feed h hd (feed_closing ht)
      exact hno e hp
    · exact hs
  | tooDeep =>
    obtain ⟨t, rfl, ht, rfl, -, hdeep⟩ := hf
    refine .deep ht (Nat.not_lt.1 fun hs => ?_)
    obtain ⟨g, hg⟩ := exists_feed_of_opens ht hs
    obtain ⟨e, he, hp⟩ := prefix_of_feed h hd hg
    exact absurd (hdeep e hp) (Nat.not_lt.2 he)
  | lexical =>
    obtain ⟨e, rfl, rfl⟩ := hf
    exact .lexical
  | cutShort =>
    obtain ⟨-, rfl, rfl, ⟨p', t, q, es, rfl, ht, hq, rfl⟩ | ⟨p', t, op, rfl, ht, rfl⟩⟩ := hf
    -- the tokens before the construct leave a stack open, on which it stands
    · obtain ⟨below, hb⟩ := leavesOpen_of_append h
      rw [leavesOpen_unique h (.list hb ht hq)]
      exact .ended rfl
    · obtain ⟨below, hb⟩ := leavesOpen_of_append h
      rw [leavesOpen_unique h (.quote hb ht)]
      exact .ended rfl

/-- a call fails with an error exactly where a fault explains it -/
theorem next_failed_iff_fault {d : Nat} {a : Arena} {ts r : TokenStream} {err : Located ReadError} :
    (next d a ts).outcome = .failed err ∧ (next d a ts).rest = r ↔
      ∃ (p : List (Located Token)) (tail : TokenStream), ts = p.map .ok ++ tail ∧
        (∃ e : Expr, e.nesting ≤ d ∧ p.map Located.item <+: e.tokens ∧ p.map Located.item ≠ e.tokens) ∧
        ∃! f : Fault, f.Explains d p tail err r := by
  rw [next_failed_iff_parse]
  constructor
  · rintro ⟨stack, hp⟩
    obtain ⟨p, tail, hts, hl, hd, hh⟩ := parse_failed_iff.1 hp
    obtain ⟨e, he, hpre, hne⟩ := hl.proper
    obtain ⟨f, hf⟩ := explains_of_halts hl hd hh
    refine ⟨p, tail, hts, ⟨e, he ▸ hd, hpre, hne⟩, f, hf, fun f' hf' => ?_⟩
    rw [hf.eq_ofError, hf'.eq_ofError]
  · rintro ⟨p, tail, hts, ⟨e, he, hpre, hne⟩, f, hf, -⟩
    obtain ⟨stack, hl, hd⟩ := leavesOpen_of_proper hpre hne
    exact ⟨stack, parse_failed_iff.2 ⟨p, tail, hts, hl, hd.trans he, halts_of_explains hl (hd.trans he) hf⟩⟩

/-- a call fails exactly where there is something to read and no expression within the limit to be read -/
theorem next_fails_iff {d : Nat} {a : Arena} {ts : TokenStream} :
    (∃ err, (next d a ts).outcome = .failed err) ↔ ts ≠ [] ∧
      ¬ ∃ (p : List (Located Token)) (e : Expr) (r : TokenStream),
        ts = p.map .ok ++ r ∧ p.map Located.item = e.tokens ∧ e.nesting ≤ d := by
  constructor
  · rintro ⟨err, he⟩
    obtain ⟨stack, hp⟩ := next_failed_iff_parse.1 ⟨he, rfl⟩
    refine ⟨fun h0 => ?_, ?_⟩
    · rw [parse_ended_iff.2 h0] at hp
      exact Parsed.noConfusion hp
    · rintro ⟨p, e, r, hx⟩
      rw [parse_expression_iff.2 ⟨p, hx⟩] at hp
      exact Parsed.noConfusion hp
  · rintro ⟨h0, hno⟩
    cases hp : parse d [] ts with
    | ended => exact absurd (parse_ended_iff.1 hp) h0
    | expression e r =>
      obtain ⟨p, hx⟩ := parse_expression_iff.1 hp
      exact absurd ⟨p, e, r, hx⟩ hno
    | failed stack err r => exact ⟨err, (next_failed_iff_parse.2 ⟨stack, hp⟩).1⟩

/-- **Errors of the reader are exact and as early as possible.** A call fails with `err` and leaves `r` iff the stream
is `p ++ tail`, where `p` is a proper beginning of an expression within the limit and exactly one fault explains why
no expression goes on with `tail`, with the error and what stands behind the failing item. A call fails iff there are
tokens and no expression within the limit stands at their head. -/
theorem next_failed_iff (d : Nat) (a : Arena) (ts : TokenStream) :
    (∀ err r, (next d a ts).outcome = .failed err ∧ (next d a ts).rest = r ↔
      ∃ (p : List (Located Token)) (tail : TokenStream), ts = p.map .ok ++ tail ∧
        (∃ e : Expr, e.nesting ≤ d ∧ p.map Located.item <+: e.tokens ∧ p.map Located.item ≠ e.tokens) ∧
        ∃! f : Fault, f.Explains d p tail err r) ∧
    ((∃ err, (next d a ts).outcome = .failed err) ↔ ts ≠ [] ∧
      ¬ ∃ (p : List (Located Token)) (e : Expr) (r : TokenStream),
        ts = p.map .ok ++ r ∧ p.map Located.item = e.tokens ∧ e.nesting ≤ d) :=
  ⟨fun _ _ => next_failed_iff_fault, next_fails_iff⟩

end FrameGraph.Reader
