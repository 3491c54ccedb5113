/-
The grammar of expressions as a machine over trees: what can be known of the tokens taken so far, with no arena in sight.

The lists and quotes that are still open stand on a stack, the innermost on top; an open list carries the elements that
it has. `give` hands a finished expression to the stack, `feed` takes one token, and `parse` goes on to the end of the
expression or to the first token that does not fit. `LeavesOpen stack p` says the same of tokens without a machine: `p`
opens the constructs of `stack` and completes everything else.

Results:
- `parse_tokens`: the tokens of an expression within the limit are read as this expression, wherever it stands.
- `parse_leavesOpen`: tokens that leave constructs open lead to the stack of these constructs.
- `parse_sound`: what `parse` answers is so, and where it fails the tokens before leave constructs open.
- `tokens_close`: tokens that leave constructs open begin an expression, which need not nest deeper than they do.
-/
import FrameGraph.Proofs.Expression

namespace FrameGraph

/-- a list or a quote whose end is still to come, with the position it was opened at -/
inductive Opened where
  | list (opened : Position) (done : List Expr)
  | quote (opened : Position) (op : Label)

/-- the error that the tokens end in this construct -/
def Opened.unfinished : Opened → Located ReadError
  | .list p _ => ⟨.structural .openList, p⟩
  | .quote p op => ⟨.structural (.openQuote op.value.raw), p⟩

/-- the tokens that open a list or a quote -/
inductive Token.Opens : Token → Prop where
  | opening : Opens .opening
  | quote (op : Label) : Opens (.quote op)

namespace Grammar

open FrameGraph.Expr

/-! ## The machine -/

/-- where the machine stands after a token that fits -/
inductive Stage where
  | inside (stack : List Opened)
  | complete (e : Expr)

/-- hand a finished expression to the innermost open construct; a quote is finished by it and handed on -/
def give (e : Expr) : List Opened → Stage
  | [] => .complete e
  | .list p done :: below => .inside (.list p (done ++ [e]) :: below)
  | .quote _ op :: below => give (.quote op e) below

/-- open a list or a quote, if the limit allows one more -/
def deepen (d : Nat) (stack : List Opened) (o : Opened) (p : Position) : Except (Located ReadError) Stage :=
  if d ≤ stack.length then .error ⟨.structural .nestingTooDeep, p⟩ else .ok (.inside (o :: stack))

/-- take a token -/
def feed (d : Nat) (stack : List Opened) (t : Located Token) : Except (Located ReadError) Stage :=
  match t.item with
  | .leaf l => .ok (give (.leaf l) stack)
  | .closing =>
    match stack with
    | .list _ done :: below => .ok (give (.list done) below)
    | _ => .error ⟨.structural .unexpectedClose, t.position⟩
  | .quote op => deepen d stack (.quote t.position op) t.position
  | .opening => deepen d stack (.list t.position []) t.position

/-- what the machine comes to, and the tokens that it leaves -/
inductive Parsed where
  | ended
  | expression (e : Expr) (rest : TokenStream)
  | failed (stack : List Opened) (err : Located ReadError) (rest : TokenStream)

/-- go on inside the constructs of `stack` -/
def parse (d : Nat) (stack : List Opened) : TokenStream → Parsed
  | [] =>
    match stack with
    | [] => .ended
    | o :: _ => .failed stack o.unfinished []
  | .error e :: ts => .failed stack ⟨.lexical e.item, e.position⟩ ts
  | .ok t :: ts =>
    match feed d stack t with
    | .ok (.inside stack) => parse d stack ts
    | .ok (.complete e) => .expression e ts
    | .error err => .failed stack err ts

/-- go on from a stage -/
def goOn (d : Nat) (ts : TokenStream) : Stage → Parsed
  | .inside stack => parse d stack ts
  | .complete e => .expression e ts

theorem parse_of_feed {d : Nat} {stack : List Opened} {t : Located Token} {g : Stage} (h : feed d stack t = .ok g)
    (ts : TokenStream) : parse d stack (.ok t :: ts) = goOn d ts g := by
  rw [parse, h]
  cases g <;> rfl

/-! ## Completeness -/

theorem feed_leaf {d : Nat} {stack : List Opened} {t : Located Token} {l : Label} (ht : t.item = .leaf l) :
    feed d stack t = .ok (give (.leaf l) stack) := by
  simp [feed, ht]

theorem feed_closing {d : Nat} {p : Position} {done : List Expr} {below : List Opened} {t : Located Token}
    (ht : t.item = .closing) : feed d (.list p done :: below) t = .ok (give (.list done) below) := by
  simp [feed, ht]

theorem feed_opening {d : Nat} {stack : List Opened} {t : Located Token} (ht : t.item = .opening)
    (hd : stack.length + 1 ≤ d) : feed d stack t = .ok (.inside (.list t.position [] :: stack)) := by
  simp [feed, ht, deepen, Nat.not_le.2 hd]

theorem feed_quote {d : Nat} {stack : List Opened} {t : Located Token} {op : Label} (ht : t.item = .quote op)
    (hd : stack.length + 1 ≤ d) : feed d stack t = .ok (.inside (.quote t.position op :: stack)) := by
  simp [feed, ht, deepen, Nat.not_le.2 hd]

theorem exists_feed_of_opens {d : Nat} {stack : List Opened} {t : Located Token} (ht : t.item.Opens)
    (hd : stack.length + 1 ≤ d) : ∃ g, feed d stack t = .ok g := by
  generalize hi : t.item = i at ht
  cases ht with
  | opening => exact ⟨_, feed_opening hi hd⟩
  | quote op => exact ⟨_, feed_quote hi hd⟩

/-- the tokens `p` are read as the expression `e` wherever the limit allows it -/
def ReadAs (d : Nat) (e : Expr) : Prop :=
  ∀ (stack : List Opened) (p : List (Located Token)) (ts : TokenStream), p.map Located.item = e.tokens →
    stack.length + e.nesting ≤ d → parse d stack (p.map .ok ++ ts) = goOn d ts (give e stack)

/-- elements are collected by the list that is open -/
theorem parse_tokensAll_of {d : Nat} {es : List Expr} (h : ∀ e ∈ es, ReadAs d e) {opened : Position} {done : List Expr}
    {below : List Opened} {p : List (Located Token)} (ts : TokenStream) (hp : p.map Located.item = tokensAll es)
    (hd : below.length + 1 + nestingAll es ≤ d) :
    parse d (.list opened done :: below) (p.map .ok ++ ts) = parse d (.list opened (done ++ es) :: below) ts := by
  induction es generalizing done p with
  | nil =>
    rw [tokensAll, List.map_eq_nil_iff] at hp
    simp [hp]
  | cons e es ih =>
    rw [tokensAll, List.map_eq_append_iff] at hp
    obtain ⟨p, q, rfl, hp, hq⟩ := hp
    rw [nestingAll] at hd
    rw [List.map_append, List.append_assoc, h e List.mem_cons_self _ p _ hp (by simp only [List.length_cons]; omega)]
    simp only [give, goOn]
    rw [ih (fun e he => h e (List.mem_cons_of_mem _ he)) hq (by omega)]
    simp

theorem parse_tokens (d : Nat) (e : Expr) : ReadAs d e := by
  induction e with
  | leaf l =>
    intro stack p ts hp _
    rw [tokens, List.map_eq_singleton_iff] at hp
    obtain ⟨t, rfl, ht⟩ := hp
    exact parse_of_feed (feed_leaf ht) ts
  | quote op e ih =>
    intro stack p ts hp hd
    rw [tokens, List.map_eq_cons_iff] at hp
    obtain ⟨t, p, rfl, ht, hp⟩ := hp
    rw [nesting] at hd
    rw [List.map_cons, List.cons_append, parse_of_feed (feed_quote ht (by omega))]
    exact ih _ p ts hp (by simp only [List.length_cons]; omega)
  | list es ih =>
    intro stack p ts hp hd
    rw [tokens, List.map_eq_cons_iff] at hp
    obtain ⟨t, p, rfl, ht, hp⟩ := hp
    rw [List.map_eq_append_iff] at hp
    obtain ⟨p, q, rfl, hp, hq⟩ := hp
    rw [List.map_eq_singleton_iff] at hq
    obtain ⟨u, rfl, hu⟩ := hq
    rw [nesting] at hd
    rw [List.map_cons, List.cons_append, parse_of_feed (feed_opening ht (by omega)), goOn, List.map_append,
      List.append_assoc, parse_tokensAll_of ih _ hp (by omega)]
    exact parse_of_feed (feed_closing hu) ts

theorem parse_tokensAll {d : Nat} {es : List Expr} {opened : Position} {done : List Expr} {below : List Opened}
    {p : List (Located Token)} (ts : TokenStream) (hp : p.map Located.item = tokensAll es)
    (hd : below.length + 1 + nestingAll es ≤ d) :
    parse d (.list opened done :: below) (p.map .ok ++ ts) = parse d (.list opened (done ++ es) :: below) ts :=
  parse_tokensAll_of (fun e _ => parse_tokens d e) ts hp hd

/-! ## Tokens that leave constructs open -/

/-- the tokens open these constructs, the innermost last, and complete everything else -/
inductive LeavesOpen : List Opened → List (Located Token) → Prop where
  | nil : LeavesOpen [] []
  | list {below : List Opened} {p q : List (Located Token)} {t : Located Token} {es : List Expr} (h : LeavesOpen below p)
    (ht : t.item = .opening) (hq : q.map Located.item = tokensAll es) :
    LeavesOpen (.list t.position es :: below) (p ++ t :: q)
  | quote {below : List Opened} {p : List (Located Token)} {t : Located Token} {op : Label} (h : LeavesOpen below p)
    (ht : t.item = .quote op) : LeavesOpen (.quote t.position op :: below) (p ++ [t])

/-- how deep the open constructs nest with what they hold -/
def depth : List Opened → Nat
  | [] => 0
  | .list _ done :: below => max (below.length + 1 + nestingAll done) (depth below)
  | .quote _ _ :: below => max (below.length + 1) (depth below)

theorem length_le_depth (stack : List Opened) : stack.length ≤ depth stack := by
  cases stack with
  | nil => exact Nat.zero_le _
  | cons o below => cases o <;> simp only [depth, List.length_cons] <;> omega

theorem parse_leavesOpen {d : Nat} {stack : List Opened} {p : List (Located Token)} (h : LeavesOpen stack p)
    (hd : depth stack ≤ d) (ts : TokenStream) : parse d [] (p.map .ok ++ ts) = parse d stack ts := by
  induction h generalizing ts with
  | nil => rfl
  | list _ ht hq ih =>
    simp only [depth, max_le_iff] at hd
    rw [List.map_append, List.append_assoc, ih hd.2, List.map_cons, List.cons_append,
      parse_of_feed (feed_opening ht (by omega)), goOn, parse_tokensAll ts hq hd.1]
    rfl
  | quote _ ht ih =>
    simp only [depth, max_le_iff] at hd
    rw [List.map_append, List.append_assoc, ih hd.2]
    exact parse_of_feed (feed_quote ht hd.1) ts

/-- an expression in the innermost open construct, with all constructs closed behind it -/
def close (e : Expr) : List Opened → Expr
  | [] => e
  | .list _ done :: below => close (.list (done ++ [e])) below
  | .quote _ op :: below => close (.quote op e) below

theorem nesting_close (e : Expr) (stack : List Opened) :
    (close e stack).nesting = max (stack.length + e.nesting) (depth stack) := by
  induction stack generalizing e with
  | nil => simp [close, depth]
  | cons o below ih =>
    cases o with
    | list p done =>
      simp only [close, ih, nesting, nestingAll_append, nestingAll, depth, List.length_cons]
      omega
    | quote p op =>
      simp only [close, ih, nesting, depth, List.length_cons]
      omega

theorem tokens_close {stack : List Opened} {p : List (Located Token)} (h : LeavesOpen stack p) (e : Expr) :
    ∃ q, (close e stack).tokens = p.map Located.item ++ e.tokens ++ q := by
  induction h generalizing e with
  | nil => exact ⟨[], by simp [close]⟩
  | @list _ _ _ _ es _ ht hq ih =>
    obtain ⟨q, hc⟩ := ih (.list (es ++ [e]))
    exact ⟨.closing :: q, by simp [close, hc, tokens, tokensAll_append, tokensAll, ht, hq]⟩
  | @quote _ _ _ op _ ht ih =>
    obtain ⟨q, hc⟩ := ih (.quote op e)
    exact ⟨q, by simp [close, hc, tokens, ht]⟩

/-! ## Soundness -/

/-- what a stage says of the tokens that led to it -/
def Stage.Explains (d : Nat) (p : List (Located Token)) : Stage → Prop
  | .inside stack => LeavesOpen stack p ∧ depth stack ≤ d
  | .complete e => p.map Located.item = e.tokens ∧ e.nesting ≤ d

theorem give_explains {d : Nat} {stack : List Opened} {p q : List (Located Token)} {e : Expr} (h : LeavesOpen stack p)
    (hd : depth stack ≤ d) (hq : q.map Located.item = e.tokens) (he : stack.length + e.nesting ≤ d) :
    (give e stack).Explains d (p ++ q) := by
  induction h generalizing q e with
  | nil => exact ⟨by simpa using hq, by simpa using he⟩
  | @list below p q' t es hp ht hq' _ =>
    simp only [depth, max_le_iff, List.length_cons] at hd he
    refine ⟨?_, ?_⟩
    · rw [List.append_assoc, List.cons_append]
      exact .list hp ht (by simp [hq', hq, tokensAll_append, tokensAll])
    · simp only [depth, nestingAll_append, nestingAll]
      omega
  | @quote below p t op hp ht ih =>
    simp only [depth, max_le_iff, List.length_cons] at hd he
    rw [List.append_assoc]
    refine ih hd.2 ?_ ?_
    · simp [hq, ht, tokens]
    · rw [nesting]
      omega

theorem feed_explains {d : Nat} {stack : List Opened} {p : List (Located Token)} {t : Located Token} {g : Stage}
    (h : LeavesOpen stack p) (hd : depth stack ≤ d) (hg : feed d stack t = .ok g) : g.Explains d (p ++ [t]) := by
  have hlen := length_le_depth stack
  cases ht : t.item with
  | leaf l =>
    rw [feed_leaf ht, Except.ok.injEq] at hg
    subst hg
    exact give_explains h hd (by simp [ht, tokens]) (by rw [nesting]; omega)
  | closing =>
    cases h with
    | nil => simp [feed, ht] at hg
    | quote _ _ => simp [feed, ht] at hg
    | @list below p q u es hp hu hq =>
      rw [feed_closing ht, Except.ok.injEq] at hg
      subst hg
      simp only [depth, max_le_iff] at hd
      rw [List.append_assoc, List.cons_append]
      refine give_explains hp hd.2 ?_ ?_
      · simp [hu, hq, ht, tokens]
      · rw [nesting]
        omega
  | quote op =>
    simp only [feed, ht, deepen] at hg
    split_ifs at hg with hl
    rw [Except.ok.injEq] at hg
    subst hg
    refine ⟨.quote h ht, ?_⟩
    simp only [depth]
    omega
  | opening =>
    simp only [feed, ht, deepen] at hg
    split_ifs at hg with hl
    rw [Except.ok.injEq] at hg
    subst hg
    refine ⟨.list h ht rfl, ?_⟩
    simp only [depth, nestingAll]
    omega

/-- whether the innermost open construct is a list, which a closing parenthesis can close -/
def InList : List Opened → Prop
  | .list _ _ :: _ => True
  | _ => False

/-- why the machine stops short of an expression: the item at the head of the tokens, or that there is none, the error
and the tokens behind it -/
inductive Halts (d : Nat) (stack : List Opened) : TokenStream → Located ReadError → TokenStream → Prop where
  | stray {t : Located Token} {ts : TokenStream} (ht : t.item = .closing) (hs : ¬ InList stack) :
    Halts d stack (.ok t :: ts) ⟨.structural .unexpectedClose, t.position⟩ ts
  | deep {t : Located Token} {ts : TokenStream} (ht : t.item.Opens) (hs : d ≤ stack.length) :
    Halts d stack (.ok t :: ts) ⟨.structural .nestingTooDeep, t.position⟩ ts
  | lexical {e : Located LexError} {ts : TokenStream} :
    Halts d stack (.error e :: ts) ⟨.lexical e.item, e.position⟩ ts
  | ended {o : Opened} {below : List Opened} (hs : stack = o :: below) : Halts d stack [] o.unfinished []

theorem halts_of_feed {d : Nat} {stack : List Opened} {t : Located Token} {err : Located ReadError}
    (h : feed d stack t = .error err) (ts : TokenStream) : Halts d stack (.ok t :: ts) err ts := by
  cases ht : t.item with
  | leaf l => simp [feed, ht] at h
  | closing =>
    rcases stack with _ | ⟨⟨p, done⟩ | ⟨p, op⟩, below⟩
    · simp only [feed, ht, Except.error.injEq] at h
      exact h ▸ .stray ht id
    · simp [feed, ht] at h
    · simp only [feed, ht, Except.error.injEq] at h
      exact h ▸ .stray ht id
  | quote op =>
    simp only [feed, ht, deepen] at h
    split_ifs at h with hl
    rw [Except.error.injEq] at h
    exact h ▸ .deep (ht ▸ .quote op) hl
  | opening =>
    simp only [feed, ht, deepen] at h
    split_ifs at h with hl
    rw [Except.error.injEq] at h
    exact h ▸ .deep (ht ▸ .opening) hl

theorem feed_stray (d : Nat) {stack : List Opened} {t : Located Token} (ht : t.item = .closing) (hs : ¬ InList stack) :
    feed d stack t = .error ⟨.structural .unexpectedClose, t.position⟩ := by
  rcases stack with _ | ⟨⟨p, done⟩ | ⟨p, op⟩, below⟩
  · simp [feed, ht]
  · exact absurd trivial hs
  · simp [feed, ht]

theorem feed_deep {d : Nat} {stack : List Opened} {t : Located Token} (ht : t.item.Opens) (hs : d ≤ stack.length) :
    feed d stack t = .error ⟨.structural .nestingTooDeep, t.position⟩ := by
  rcases t with ⟨_, p⟩
  cases ht <;> simp [feed, deepen, hs]

theorem parse_of_feed_error {d : Nat} {stack : List Opened} {t : Located Token} {err : Located ReadError}
    (h : feed d stack t = .error err) (ts : TokenStream) : parse d stack (.ok t :: ts) = .failed stack err ts := by
  rw [parse, h]

theorem parse_halts {d : Nat} {stack : List Opened} {ts rest : TokenStream} {err : Located ReadError}
    (h : Halts d stack ts err rest) : parse d stack ts = .failed stack err rest := by
  cases h with
  | stray ht hs => exact parse_of_feed_error (feed_stray d ht hs) _
  | deep ht hs => exact parse_of_feed_error (feed_deep ht hs) _
  | lexical => rfl
  | ended hs => subst hs; rfl

/-- what the machine's answer says of the tokens `ts` behind the tokens `p` -/
def Parsed.Explains (d : Nat) (p : List (Located Token)) (ts : TokenStream) : Parsed → Prop
  | .ended => p = [] ∧ ts = []
  | .expression e rest =>
    ∃ q : List (Located Token), ts = q.map .ok ++ rest ∧ (p ++ q).map Located.item = e.tokens ∧ e.nesting ≤ d
  | .failed stack err rest =>
    ∃ (q : List (Located Token)) (tail : TokenStream), ts = q.map .ok ++ tail ∧ LeavesOpen stack (p ++ q) ∧
      depth stack ≤ d ∧ Halts d stack tail err rest

theorem Parsed.Explains.cons {d : Nat} {p : List (Located Token)} {t : Located Token} {ts : TokenStream} {x : Parsed}
    (h : x.Explains d (p ++ [t]) ts) : x.Explains d p (.ok t :: ts) := by
  cases x with
  | ended => simp [Parsed.Explains] at h
  | expression e rest =>
    obtain ⟨q, hts, hq, hd⟩ := h
    exact ⟨t :: q, by simp [hts], by simpa using hq, hd⟩
  | failed stack err rest =>
    obtain ⟨q, tail, hts, hq, hd, hh⟩ := h
    exact ⟨t :: q, tail, by simp [hts], by simpa using hq, hd, hh⟩

theorem parse_sound {d : Nat} {stack : List Opened} {p : List (Located Token)} (h : LeavesOpen stack p)
    (hd : depth stack ≤ d) (ts : TokenStream) : (parse d stack ts).Explains d p ts := by
  induction ts generalizing stack p with
  | nil =>
    cases stack with
    | nil => cases h; exact ⟨rfl, rfl⟩
    | cons o below => exact ⟨[], [], rfl, by simpa using h, hd, .ended rfl⟩
  | cons t ts ih =>
    cases t with
    | error e => exact ⟨[], _, rfl, by simpa using h, hd, .lexical⟩
    | ok t =>
      cases hf : feed d stack t with
      | error err =>
        rw [parse_of_feed_error hf]
        exact ⟨[], _, rfl, by simpa using h, hd, halts_of_feed hf ts⟩
      | ok g =>
        have hg := feed_explains h hd hf
        rw [parse_of_feed hf]
        cases g with
        | inside stack => exact (ih hg.1 hg.2).cons
        | complete e => exact ⟨[t], rfl, hg.1, hg.2⟩

/-! ## What is read from the start -/

theorem parse_explains (d : Nat) (ts : TokenStream) : (parse d [] ts).Explains d [] ts :=
  parse_sound .nil (Nat.zero_le d) ts

theorem parse_ended_iff {d : Nat} {ts : TokenStream} : parse d [] ts = .ended ↔ ts = [] := by
  constructor
  · intro h
    have hx := parse_explains d ts
    rw [h] at hx
    exact hx.2
  · rintro rfl
    rfl

theorem parse_expression_iff {d : Nat} {ts rest : TokenStream} {e : Expr} :
    parse d [] ts = .expression e rest ↔
      ∃ p : List (Located Token), ts = p.map .ok ++ rest ∧ p.map Located.item = e.tokens ∧ e.nesting ≤ d := by
  constructor
  · intro h
    have hx := parse_explains d ts
    rw [h] at hx
    exact hx
  · rintro ⟨p, rfl, hp, hd⟩
    exact parse_tokens d e [] p rest hp (by simpa using hd)

theorem parse_failed_iff {d : Nat} {ts rest : TokenStream} {stack : List Opened} {err : Located ReadError} :
    parse d [] ts = .failed stack err rest ↔ ∃ (p : List (Located Token)) (tail : TokenStream),
      ts = p.map .ok ++ tail ∧ LeavesOpen stack p ∧ depth stack ≤ d ∧ Halts d stack tail err rest := by
  constructor
  · intro h
    have hx := parse_explains d ts
    rw [h] at hx
    exact hx
  · rintro ⟨p, tail, rfl, hp, hd, hh⟩
    rw [parse_leavesOpen hp hd, parse_halts hh]

/-! ## Prefixes of expressions -/

theorem exists_located (ts : List Token) : ∃ p : List (Located Token), p.map Located.item = ts :=
  ⟨ts.map fun t => ⟨t, .start⟩, by simp [Function.comp_def]⟩

/-- at most one expression stands at the head of a stream -/
theorem expression_unique {ts r r' : TokenStream} {p p' : List (Located Token)} {e e' : Expr} (h : ts = p.map .ok ++ r)
    (hp : p.map Located.item = e.tokens) (h' : ts = p'.map .ok ++ r') (hp' : p'.map Located.item = e'.tokens) :
    p' = p ∧ e' = e ∧ r' = r := by
  have h1 := parse_expression_iff.2 ⟨p, h, hp, le_max_left e.nesting e'.nesting⟩
  have h2 := parse_expression_iff.2 ⟨p', h', hp', le_max_right e.nesting e'.nesting⟩
  rw [h2, Parsed.expression.injEq] at h1
  obtain ⟨rfl, rfl⟩ := h1
  rw [h, List.append_cancel_right_eq] at h'
  exact ⟨(List.map_injective_iff.2 (fun _ _ => Except.ok.inj) h').symm, rfl, rfl⟩

/-- no expression begins with another one -/
theorem tokens_append_inj {e e' : Expr} {q q' : List Token} (h : e.tokens ++ q = e'.tokens ++ q') : e = e' ∧ q = q' := by
  obtain ⟨p, hp⟩ := exists_located (e.tokens ++ q)
  obtain ⟨r, s, rfl, hr, hs⟩ := List.map_eq_append_iff.1 hp
  obtain ⟨r', s', hrs, hr', hs'⟩ := List.map_eq_append_iff.1 (hp.trans h)
  have h1 : ((r ++ s).map .ok : TokenStream) = r.map .ok ++ s.map .ok := List.map_append
  have h2 : ((r ++ s).map .ok : TokenStream) = r'.map .ok ++ s'.map .ok := by rw [hrs, List.map_append]
  obtain ⟨-, he, hss⟩ := expression_unique h1 hr h2 hr'
  have hs's : s' = s := List.map_injective_iff.2 (fun _ _ => Except.ok.inj) hss
  exact ⟨he.symm, by rw [← hs, ← hs', hs's]⟩

/-- tokens that the machine refuses begin no expression within the limit -/
theorem not_prefix_of_feed {d : Nat} {stack : List Opened} {p : List (Located Token)} {t : Located Token}
    {err : Located ReadError} (h : LeavesOpen stack p) (hd : depth stack ≤ d) (hf : feed d stack t = .error err) {e : Expr}
    (he : e.nesting ≤ d) : ¬ (p ++ [t]).map Located.item <+: e.tokens := by
  rintro ⟨q, hq⟩
  obtain ⟨r, rfl⟩ := exists_located q
  have h1 : parse d [] (p.map .ok ++ .ok t :: r.map .ok) = .expression e [] :=
    parse_expression_iff.2 ⟨p ++ t :: r, by simp, by simpa using hq, he⟩
  rw [parse_leavesOpen h hd, parse_of_feed_error hf] at h1
  exact Parsed.noConfusion h1

/-- tokens that leave constructs open are a proper beginning of an expression that nests as deep as they do -/
theorem LeavesOpen.proper {stack : List Opened} {p : List (Located Token)} (h : LeavesOpen stack p) :
    ∃ e : Expr, e.nesting = depth stack ∧ p.map Located.item <+: e.tokens ∧ p.map Located.item ≠ e.tokens := by
  obtain ⟨q, hq⟩ := tokens_close h (.leaf Reader.listLabel)
  refine ⟨_, ?_, ⟨_, (List.append_assoc .. ▸ hq).symm⟩, ?_⟩
  · simp [nesting_close, nesting, length_le_depth]
  · intro heq
    simp [heq, tokens] at hq

/-- tokens that the machine takes begin an expression within the limit -/
theorem prefix_of_feed {d : Nat} {stack : List Opened} {p : List (Located Token)} {t : Located Token} {g : Stage}
    (h : LeavesOpen stack p) (hd : depth stack ≤ d) (hf : feed d stack t = .ok g) :
    ∃ e : Expr, e.nesting ≤ d ∧ (p ++ [t]).map Located.item <+: e.tokens := by
  have hg := feed_explains h hd hf
  cases g with
  | inside stack =>
    obtain ⟨e, he, hp, -⟩ := hg.1.proper
    exact ⟨e, he ▸ hg.2, hp⟩
  | complete e => exact ⟨e, hg.2, hg.1 ▸ List.prefix_rfl⟩

/-- a proper beginning of an expression leaves constructs open, which nest no deeper than the expression -/
theorem leavesOpen_of_proper {e : Expr} {p : List (Located Token)} (h : p.map Located.item <+: e.tokens)
    (hne : p.map Located.item ≠ e.tokens) : ∃ stack, LeavesOpen stack p ∧ depth stack ≤ e.nesting := by
  induction p using List.reverseRecOn with
  | nil => exact ⟨[], .nil, Nat.zero_le _⟩
  | append_singleton p t ih =>
    obtain ⟨q, hq⟩ := h
    have hp : p.map Located.item <+: e.tokens := ⟨t.item :: q, by simpa using hq⟩
    obtain ⟨stack, hs, hd⟩ := ih hp fun heq => by simp [← hq] at heq
    cases hf : feed e.nesting stack t with
    | error err => exact absurd ⟨q, hq⟩ (not_prefix_of_feed hs hd hf le_rfl)
    | ok g =>
      have hg := feed_explains hs hd hf
      cases g with
      | inside stack => exact ⟨stack, hg⟩
      | complete e' =>
        -- the tokens so far are an expression already, so nothing is missing to `e`
        rw [hg.1, ← List.append_nil e.tokens] at hq
        obtain ⟨rfl, -⟩ := tokens_append_inj hq
        exact absurd hg.1 hne

theorem leavesOpen_of_append {stack : List Opened} {p q : List (Located Token)} (h : LeavesOpen stack (p ++ q)) :
    ∃ below, LeavesOpen below p := by
  obtain ⟨e, -, ⟨r, hr⟩, hne⟩ := h.proper
  have hp : p.map Located.item <+: e.tokens := ⟨q.map Located.item ++ r, by simpa using hr⟩
  have hpne : p.map Located.item ≠ e.tokens := by
    intro heq
    rw [← heq] at hr hne
    simp_all
  obtain ⟨below, hb, -⟩ := leavesOpen_of_proper hp hpne
  exact ⟨below, hb⟩

theorem leavesOpen_unique {stack stack' : List Opened} {p : List (Located Token)} (h : LeavesOpen stack p)
    (h' : LeavesOpen stack' p) : stack = stack' := by
  -- an error behind the tokens shows the stack that they lead to
  have h1 := parse_leavesOpen h (le_max_left _ (depth stack')) [.error ⟨.unmatched "", .start⟩]
  have h2 := parse_leavesOpen h' (le_max_right (depth stack) _) [.error ⟨.unmatched "", .start⟩]
  rw [h1] at h2
  simpa [parse] using h2

end Grammar

end FrameGraph
