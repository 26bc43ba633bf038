import DeskCalculator.Proofs.Step

/-!
# The descent

The same evaluation by recursive descent, one function for each rule of the grammar. A counter goes
with the parser: it is raised where a parenthesis, a call or a minus sign is entered, if the limit
allows it, and lowered on every way back, with a value or with an error. Whatever the parser and the
limit, a rule leaves the counter as it has found it, and the counter never exceeds the limit
(`restores_evaluate`).
-/

namespace DeskCalculator

/-- A parser, the number of levels that are open, and the greatest number there has been. -/
structure Counter where
  parser : Parser
  depth : Nat := 0
  deepest : Nat := 0

namespace Counter

/-- A bound on the tokens that can still be left behind. -/
def remaining (c : Counter) : Nat :=
  c.parser.remaining

/-- One level more. -/
def opened (c : Counter) : Counter :=
  { c with depth := c.depth + 1, deepest := max c.deepest (c.depth + 1) }

/-- One level less. -/
def closed (c : Counter) : Counter :=
  { c with depth := c.depth - 1 }

def advance (c : Counter) (current : Lookahead) : Counter :=
  { c with parser := c.parser.advance current }

def skip (c : Counter) : Counter :=
  { c with parser := c.parser.skip }

def warn (c : Counter) (warning? : Option Warning) : Counter :=
  { c with parser := { c.parser with warnings := c.parser.warnings ++ warning?.toList } }

theorem remaining_opened (c : Counter) : c.opened.remaining = c.remaining :=
  rfl

theorem remaining_warn (c : Counter) (warning? : Option Warning) :
    (c.warn warning?).remaining = c.remaining :=
  rfl

theorem remaining_skip_le (c : Counter) : c.skip.remaining ≤ c.remaining := by
  obtain ⟨⟨current, ⟨_ | ⟨item, items⟩, stop⟩, warnings⟩, depth, deepest⟩ := c
  · exact Nat.le_refl _
  · simp [remaining, Parser.remaining, skip, Parser.skip, TokenStream.next]

theorem remaining_advance_lt {c : Counter} {t : Token} {current : Lookahead}
    (hc : c.parser.current = .token t) (hnext : c.parser.stream.next.1 = .ok current) :
    (c.advance current).remaining < c.remaining := by
  obtain ⟨⟨_, ⟨_ | ⟨item, items⟩, stop⟩, warnings⟩, depth, deepest⟩ := c
  · cases hc
    cases stop with
    | error e => cases hnext
    | ok position =>
      cases hnext
      simp [remaining, Parser.remaining, advance, Parser.advance, TokenStream.next]
  · cases hc
    cases item with
    | error e => cases hnext
    | ok t' =>
      cases hnext
      simp [remaining, Parser.remaining, advance, Parser.advance, TokenStream.next]

end Counter

/-! ## What a rule returns -/

/-- What a rule returns: a result, and a parser that holds no more tokens than before. -/
structure Return (c : Counter) (α : Type) where
  result : Except Error α
  counter : Counter
  le : counter.remaining ≤ c.remaining

namespace Return

variable {α β : Type} {c c' : Counter}

def ok (a : α) (c : Counter) : Return c α :=
  ⟨.ok a, c, Nat.le_refl _⟩

def error (e : Error) (c : Counter) : Return c α :=
  ⟨.error e, c, Nat.le_refl _⟩

/-- Refuses what stands next. -/
def refuse (expected : Expected) (c : Counter) : Return c α :=
  error (.unexpected c.parser.current.kind expected c.parser.current.position) c

def weaken (r : Return c' α) (h : c'.remaining ≤ c.remaining) : Return c α :=
  ⟨r.result, r.counter, Nat.le_trans r.le h⟩

/-- Goes on with a result, unless it is an error. -/
def bind (r : Return c α) (f : α → (c' : Counter) → c'.remaining ≤ c.remaining → Return c' β) :
    Return c β :=
  match r.result with
  | .ok a => (f a r.counter r.le).weaken r.le
  | .error e => ⟨.error e, r.counter, r.le⟩

/-- Leaves behind the token that stands next, if the one after it can be read. -/
def leave (c : Counter) {t : Token} (hc : c.parser.current = .token t)
    (f : (c' : Counter) → c'.remaining < c.remaining → Return c' α) : Return c α :=
  match h : c.parser.stream.next.1 with
  | .ok current =>
    (f (c.advance current) (Counter.remaining_advance_lt hc h)).weaken
      (Nat.le_of_lt (Counter.remaining_advance_lt hc h))
  | .error e => ⟨.error (.lexical e), c.skip, c.remaining_skip_le⟩

/-- Leaves behind a token of one kind. -/
def expect (k : Kind) (c : Counter)
    (f : (c' : Counter) → c'.remaining < c.remaining → Return c' α) : Return c α :=
  match hc : c.parser.current with
  | .token t => if t.kind = k then leave c hc f else refuse (.kind k) c
  | .endOfInput _ => refuse (.kind k) c

/-- Applies a rule one level deeper, where the limit allows it. -/
def nested (limit : Option Nat) (c : Counter) (r : Return c.opened α) : Return c α :=
  match limit with
  | none => ⟨r.result, r.counter.closed, r.le⟩
  | some n =>
    if c.depth < n then ⟨r.result, r.counter.closed, r.le⟩
    else error (.tooNested c.parser.current.position n) c

end Return

open Return

/-! ## The rules -/

namespace Descent

/-- The value of a call, once its argument and the parenthesis after it have been read. -/
def call (name : String) (position : Nat) (x : Float) : Except Error Float :=
  match MathFunction.ofName? name with
  | none => .error (.unknownFunction name position)
  | some f =>
    match f.valueAt? x with
    | none => .error (.outsideDomain f x)
    | some value => .ok value

variable (limit : Option Nat)

mutual

/-- A term and the terms that follow it. -/
def expression (c : Counter) : Return c Float :=
  (term c).bind fun value c' _ => sums value c'
termination_by 4 * c.remaining + 3
decreasing_by all_goals omega

/-- The terms that follow in a sum. -/
def sums (value : Float) (c : Counter) : Return c Float :=
  match hc : c.parser.current with
  | .token ⟨.operator (.sum op), _⟩ =>
    leave c hc fun c' _ => (term c').bind fun right c'' _ => sums (op.apply value right) c''
  | _ => .ok value c
termination_by 4 * c.remaining
decreasing_by all_goals omega

/-- A factor and the factors that follow it. -/
def term (c : Counter) : Return c Float :=
  (factor c).bind fun value c' _ => products (.live value) c'
termination_by 4 * c.remaining + 2
decreasing_by all_goals omega

/-- The factors that follow in a term. -/
def products (product : Product) (c : Counter) : Return c Float :=
  match hc : c.parser.current with
  | .token ⟨.operator (.product op), _⟩ =>
    leave c hc fun c' _ => (factor c').bind fun right c'' _ =>
      (products (product.fold op right) (c''.warn (product.warning? op right))).weaken (Nat.le_refl _)
  | _ => .ok product.value c
termination_by 4 * c.remaining
decreasing_by all_goals first | omega | (rw [Counter.remaining_warn]; omega)

def factor (c : Counter) : Return c Float :=
  match hc : c.parser.current with
  | .token ⟨.number value _, _⟩ => leave c hc fun c' _ => .ok value c'
  | .token ⟨.constant k, _⟩ => leave c hc fun c' _ => .ok k.value c'
  | .token ⟨.name name, position⟩ =>
    leave c hc fun c' _ => (nested limit c' (parentheses c'.opened)).bind fun x c'' _ =>
      ⟨call name position x, c'', Nat.le_refl _⟩
  | .token ⟨.leftParen, _⟩ => nested limit c (parentheses c.opened)
  | .token ⟨.operator (.sum .minus), _⟩ => nested limit c (negation c.opened)
  | _ => refuse .factor c
termination_by 4 * c.remaining + 1
decreasing_by all_goals (rw [Counter.remaining_opened]; omega)

/-- An expression in parentheses. -/
def parentheses (c : Counter) : Return c Float :=
  expect .leftParen c fun c' _ => (expression c').bind fun value c'' _ =>
    expect .rightParen c'' fun c''' _ => .ok value c'''
termination_by 4 * c.remaining
decreasing_by all_goals omega

/-- A factor after a minus sign. -/
def negation (c : Counter) : Return c Float :=
  expect (.operator (.sum .minus)) c fun c' _ => (factor c').bind fun value c'' _ =>
    .ok (-value) c''
termination_by 4 * c.remaining
decreasing_by all_goals omega

end

/-- Evaluates one expression, which has to end with the input. -/
def evaluate (c : Counter) : Return c Float :=
  (expression limit c).bind fun value c' _ =>
    match c'.parser.current with
    | .endOfInput _ => .ok value c'
    | .token _ => refuse (.kind .endOfInput) c'

end Descent

/-! ## The counter -/

/-- A rule leaves the counter as it has found it, and does not raise it above the limit. -/
def Return.Restores {c : Counter} {α : Type} (limit : Option Nat) (r : Return c α) : Prop :=
  r.counter.depth = c.depth ∧ ∀ n, limit = some n → c.deepest ≤ n → r.counter.deepest ≤ n

namespace Return

variable {α β : Type} {c : Counter} {limit : Option Nat}

theorem restores_ok (a : α) : (ok a c).Restores limit :=
  ⟨rfl, fun _ _ h => h⟩

theorem restores_error (e : Error) : (error e c : Return c α).Restores limit :=
  ⟨rfl, fun _ _ h => h⟩

theorem restores_bind {r : Return c α}
    {f : α → (c' : Counter) → c'.remaining ≤ c.remaining → Return c' β} (hr : r.Restores limit)
    (hf : ∀ a c' h, (f a c' h).Restores limit) : (r.bind f).Restores limit := by
  obtain ⟨hdepth, hdeepest⟩ := hr
  rw [bind]
  split
  · next a _ =>
    obtain ⟨hdepth', hdeepest'⟩ := hf a r.counter r.le
    exact ⟨hdepth'.trans hdepth, fun n hn h => hdeepest' n hn (hdeepest n hn h)⟩
  · exact ⟨hdepth, hdeepest⟩

theorem restores_leave {t : Token} {hc : c.parser.current = .token t}
    {f : (c' : Counter) → c'.remaining < c.remaining → Return c' α}
    (hf : ∀ c' h, (f c' h).Restores limit) : (leave c hc f).Restores limit := by
  rw [leave]
  split
  · next current h => exact hf (c.advance current) (Counter.remaining_advance_lt hc h)
  · exact ⟨rfl, fun _ _ h => h⟩

theorem restores_expect {k : Kind}
    {f : (c' : Counter) → c'.remaining < c.remaining → Return c' α}
    (hf : ∀ c' h, (f c' h).Restores limit) : (expect k c f).Restores limit := by
  rw [expect]
  split
  · split
    · exact restores_leave hf
    · exact restores_error _
  · exact restores_error _

/-- Where a level is opened, the counter is below the limit. -/
theorem restores_nested {r : Return c.opened α} (hr : r.Restores limit) :
    (nested limit c r).Restores limit := by
  obtain ⟨hdepth, hdeepest⟩ := hr
  have hclosed : r.counter.closed.depth = c.depth := congrArg (· - 1) hdepth
  cases limit with
  | none => exact ⟨hclosed, fun n hn => by cases hn⟩
  | some n =>
    rw [nested]
    split
    · next hlt =>
      refine ⟨hclosed, fun m hm h => hdeepest m hm ?_⟩
      cases hm
      exact Nat.max_le.2 ⟨h, hlt⟩
    · exact restores_error _

end Return

namespace Descent

variable (limit : Option Nat)

mutual

theorem restores_expression (c : Counter) : (expression limit c).Restores limit := by
  rw [expression]
  exact restores_bind (restores_term c) fun value c' _ => restores_sums value c'
termination_by 4 * c.remaining + 3
decreasing_by all_goals omega

theorem restores_sums (value : Float) (c : Counter) : (sums limit value c).Restores limit := by
  rw [sums]
  split
  · exact restores_leave fun c' _ =>
      restores_bind (restores_term c') fun right c'' _ => restores_sums _ c''
  · exact restores_ok _
termination_by 4 * c.remaining
decreasing_by all_goals omega

theorem restores_term (c : Counter) : (term limit c).Restores limit := by
  rw [term]
  exact restores_bind (restores_factor c) fun value c' _ => restores_products _ c'
termination_by 4 * c.remaining + 2
decreasing_by all_goals omega

theorem restores_products (product : Product) (c : Counter) :
    (products limit product c).Restores limit := by
  rw [products]
  split
  · exact restores_leave fun c' _ => restores_bind (restores_factor c') fun right c'' _ =>
      restores_products _ (c''.warn _)
  · exact restores_ok _
termination_by 4 * c.remaining
decreasing_by all_goals first | omega | (rw [Counter.remaining_warn]; omega)

theorem restores_factor (c : Counter) : (factor limit c).Restores limit := by
  rw [factor]
  split
  · exact restores_leave fun c' _ => restores_ok _
  · exact restores_leave fun c' _ => restores_ok _
  · exact restores_leave fun c' _ =>
      restores_bind (restores_nested (restores_parentheses c'.opened)) fun x c'' _ =>
        ⟨rfl, fun _ _ h => h⟩
  · exact restores_nested (restores_parentheses c.opened)
  · exact restores_nested (restores_negation c.opened)
  · exact restores_error _
termination_by 4 * c.remaining + 1
decreasing_by all_goals (rw [Counter.remaining_opened]; omega)

theorem restores_parentheses (c : Counter) : (parentheses limit c).Restores limit := by
  rw [parentheses]
  exact restores_expect fun c' _ => restores_bind (restores_expression c') fun value c'' _ =>
    restores_expect fun c''' _ => restores_ok _
termination_by 4 * c.remaining
decreasing_by all_goals omega

theorem restores_negation (c : Counter) : (negation limit c).Restores limit := by
  rw [negation]
  exact restores_expect fun c' _ => restores_bind (restores_factor c') fun value c'' _ =>
    restores_ok _
termination_by 4 * c.remaining
decreasing_by all_goals omega

end

/-- An evaluation leaves the counter as it has found it, with a value or with an error, and does not
raise it above the limit. -/
theorem restores_evaluate (c : Counter) : (evaluate limit c).Restores limit := by
  refine restores_bind (restores_expression limit c) fun value c' _ => ?_
  split
  · exact restores_ok _
  · exact restores_error _

end Descent

end DeskCalculator
