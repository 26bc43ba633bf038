import DeskCalculator.Proofs.Descent
import DeskCalculator.Proofs.Run

/-!
# The descent, unrolled

The rules of the descent once more, without a measure: what a rule calls is left open (`Rule.body`), and
what is left behind on the way is noted, token or end. Calls are filled in with the rules themselves as
often as one likes, and with anything below that (`Rule.unrolled`). After finitely many times nothing
depends on what is below: no rule calls deeper than that, and it returns what the descent returns. On the
way it leaves tokens behind, never the end of the input (`Settles`, with one lemma for each rule).
-/

namespace DeskCalculator

/-! ## Rules with open calls -/

/-- What a rule returns, the counter it leaves, and what it has left behind. -/
structure Traced (α : Type) where
  result : Except Error α
  counter : Counter
  left : List Lookahead

namespace Traced

variable {α β : Type}

def ok (a : α) (c : Counter) : Traced α :=
  ⟨.ok a, c, []⟩

def error (e : Error) (c : Counter) : Traced α :=
  ⟨.error e, c, []⟩

/-- Refuses what stands next. -/
def refuse (expected : Expected) (c : Counter) : Traced α :=
  error (.unexpected c.parser.current.kind expected c.parser.current.position) c

/-- Goes on with a result, unless it is an error. -/
def bind (r : Traced α) (f : α → Counter → Traced β) : Traced β :=
  match r.result with
  | .ok a => ⟨(f a r.counter).result, (f a r.counter).counter, r.left ++ (f a r.counter).left⟩
  | .error e => ⟨.error e, r.counter, r.left⟩

/-- Leaves behind what stands next, whatever it is, if what comes after it can be read. -/
def leave (c : Counter) (f : Counter → Traced α) : Traced α :=
  match c.parser.stream.next.1 with
  | .ok current =>
    let r := f (c.advance current)
    { r with left := c.parser.current :: r.left }
  | .error e => error (.lexical e) c.skip

/-- Leaves behind what stands next if it is of one kind. -/
def expect (k : Kind) (c : Counter) (f : Counter → Traced α) : Traced α :=
  if c.parser.current.kind = k then leave c f else refuse (.kind k) c

/-- Goes one level deeper, where the limit allows it. -/
def nested (limit : Option Nat) (c : Counter) (f : Counter → Traced α) : Traced α :=
  let r := f c.opened
  match limit with
  | none => { r with counter := r.counter.closed }
  | some n =>
    if c.depth < n then { r with counter := r.counter.closed }
    else error (.tooNested c.parser.current.position n) c

end Traced

open Traced

/-- The rules of the descent, the loops of an expression and of a term among them. -/
inductive Rule
  | expression
  | sums (value : Float)
  | term
  | products (product : Product)
  | factor
  | parentheses
  | negation

namespace Rule

/-- What the calls of rules do. -/
abbrev Calls :=
  Rule → Counter → Traced Float

/-- What a rule does, given what its calls do. -/
def body (limit : Option Nat) (call : Calls) : Calls
  | expression, c => (call term c).bind fun value c' => call (sums value) c'
  | sums value, c =>
    match c.parser.current with
    | .token ⟨.operator (.sum op), _⟩ =>
      leave c fun c' => (call term c').bind fun right c'' => call (sums (op.apply value right)) c''
    | _ => ok value c
  | term, c => (call factor c).bind fun value c' => call (products (.live value)) c'
  | products product, c =>
    match c.parser.current with
    | .token ⟨.operator (.product op), _⟩ =>
      leave c fun c' => (call factor c').bind fun right c'' =>
        call (products (product.fold op right)) (c''.warn (product.warning? op right))
    | _ => ok product.value c
  | factor, c =>
    match c.parser.current with
    | .token ⟨.number value _, _⟩ => leave c fun c' => ok value c'
    | .token ⟨.constant k, _⟩ => leave c fun c' => ok k.value c'
    | .token ⟨.name name, position⟩ =>
      leave c fun c' => (nested limit c' (call parentheses)).bind fun x c'' =>
        ⟨Descent.call name position x, c'', []⟩
    | .token ⟨.leftParen, _⟩ => nested limit c (call parentheses)
    | .token ⟨.operator (.sum .minus), _⟩ => nested limit c (call negation)
    | _ => refuse .factor c
  | parentheses, c => expect .leftParen c fun c' => (call expression c').bind fun value c'' =>
      expect .rightParen c'' fun c''' => ok value c'''
  | negation, c => expect (.operator (.sum .minus)) c fun c' => (call factor c').bind fun value c'' =>
      ok (-value) c''

/-- The rules down to some depth of calls, and something else below. -/
def unrolled (limit : Option Nat) (below : Calls) : Nat → Calls
  | 0 => below
  | n + 1 => body limit (unrolled limit below n)

/-- What a rule returns in the descent. -/
def returned (limit : Option Nat) (c : Counter) : Rule → Return c Float
  | expression => Descent.expression limit c
  | sums value => Descent.sums limit value c
  | term => Descent.term limit c
  | products product => Descent.products limit product c
  | factor => Descent.factor limit c
  | parentheses => Descent.parentheses limit c
  | negation => Descent.negation limit c

end Rule

/-! ## What unrolling comes to -/

/-- How a rule passes over some tokens: they are the first readings, and what comes after them stands
next. If there is a result, all the other readings are still there, and the tokens are not too few. -/
structure Return.Passes {c : Counter} {α : Type} (r : Return c α) (least : Nat) (ts : List Token) :
    Prop where
  startsWith : StartsWith c.parser.reading ts
  current_eq : c.parser.reading ts.length = .ok r.counter.parser.current
  reading_eq : ∀ a, r.result = .ok a →
    ∀ i, r.counter.parser.reading i = c.parser.reading (ts.length + i)
  least_le : ∀ a, r.result = .ok a → least ≤ ts.length

/-- Where there is no result, nothing more is asked for. -/
theorem Return.passes_of_error {c : Counter} {α : Type} {r : Return c α} {least : Nat} {ts : List Token}
    {e : Error} (h : r.result = .error e) (hts : StartsWith c.parser.reading ts)
    (hcurrent : c.parser.reading ts.length = .ok r.counter.parser.current) : r.Passes least ts where
  startsWith := hts
  current_eq := hcurrent
  reading_eq a ha := by cases h.symm.trans ha
  least_le a ha := by cases h.symm.trans ha

/-- From some depth of unrolling on, a computation does what the descent does, whatever is below: it
returns the same, and what it leaves behind is some tokens that the descent passes over. -/
def Settles (limit : Option Nat) (depth : Nat) {c : Counter} {α : Type} (r : Return c α) (least : Nat)
    (f : Rule.Calls → Traced α) : Prop :=
  ∃ ts : List Token, r.Passes least ts ∧ ∀ below n, depth ≤ n →
    f (Rule.unrolled limit below n) = ⟨r.result, r.counter, ts.map .token⟩

namespace Settles

variable {α β : Type} {limit : Option Nat} {depth least least' : Nat} {c : Counter}

theorem mono {r : Return c α} {f : Rule.Calls → Traced α}
    (h : Settles limit depth r least f) (hle : least' ≤ least) : Settles limit depth r least' f := by
  obtain ⟨ts, hpasses, hf⟩ := h
  exact ⟨ts, { hpasses with least_le := fun a ha => Nat.le_trans hle (hpasses.least_le a ha) }, hf⟩

/-- A call settles one level further down than what it does. -/
theorem call {r : Return c Float} {rule : Rule} {depth' : Nat}
    (h : Settles limit depth r least fun call => rule.body limit call c) (hlt : depth < depth') :
    Settles limit depth' r least fun call => call rule c := by
  obtain ⟨ts, hpasses, hf⟩ := h
  refine ⟨ts, hpasses, fun below n hn => ?_⟩
  obtain ⟨n, rfl⟩ : ∃ m, n = m + 1 := ⟨n - 1, by omega⟩
  exact hf below n (by omega)

/-- What leaves nothing behind. -/
theorem unmoved (result : Except Error α) (h : ∀ a, result = .ok a → least = 0) :
    Settles limit depth (⟨result, c, Nat.le_refl _⟩ : Return c α) least fun _ => ⟨result, c, []⟩ :=
  ⟨[], ⟨startsWith_nil _, rfl, fun _ _ i => by rw [List.length_nil, Nat.zero_add],
    fun a ha => Nat.le_of_eq (h a ha)⟩, fun _ _ _ => rfl⟩

theorem ok (a : α) : Settles limit depth (Return.ok a c) 0 fun _ => Traced.ok a c :=
  unmoved _ fun _ _ => rfl

theorem refuse (expected : Expected) : Settles limit depth (Return.refuse expected c : Return c α) least
    fun _ => Traced.refuse expected c :=
  unmoved _ fun _ h => by cases h

theorem bind {r : Return c α} {f : α → (c' : Counter) → c'.remaining ≤ c.remaining → Return c' β}
    {F : Rule.Calls → Traced α}
    {G : Rule.Calls → α → Counter → Traced β}
    (hr : Settles limit depth r least F)
    (hf : ∀ a c' h, Settles limit depth (f a c' h) least' fun call => G call a c') :
    Settles limit depth (r.bind f) (least + least') fun call => (F call).bind (G call) := by
  obtain ⟨ts, hpasses, hF⟩ := hr
  rw [Return.bind]
  cases hresult : r.result with
  | error e =>
    refine ⟨ts, Return.passes_of_error rfl hpasses.startsWith hpasses.current_eq, fun below n hn => ?_⟩
    simp only [Traced.bind, hF below n hn, hresult]
  | ok a =>
    obtain ⟨ts', hpasses', hG⟩ := hf a r.counter r.le
    have hreading := hpasses.reading_eq a hresult
    refine ⟨ts ++ ts', ⟨?_, ?_, fun b hb i => ?_, fun b hb => ?_⟩, fun below n hn => ?_⟩
    · rw [startsWith_append, ← funext hreading]
      exact ⟨hpasses.startsWith, hpasses'.startsWith⟩
    · rw [List.length_append, ← hreading]
      exact hpasses'.current_eq
    · rw [List.length_append, Nat.add_assoc, ← hreading]
      exact hpasses'.reading_eq b hb i
    · rw [List.length_append]
      exact Nat.add_le_add (hpasses.least_le a hresult) (hpasses'.least_le b hb)
    · simp only [Traced.bind, hF below n hn, hresult, hG below n hn, List.map_append]
      rfl

theorem leave {t : Token} {hc : c.parser.current = .token t}
    {f : (c' : Counter) → c'.remaining < c.remaining → Return c' α}
    {F : Rule.Calls → Counter → Traced α}
    (hf : ∀ c' h, Settles limit depth (f c' h) least fun call => F call c') :
    Settles limit depth (Return.leave c hc f) (least + 1) fun call => Traced.leave c (F call) := by
  rw [Return.leave]
  split
  · next current hnext =>
    obtain ⟨ts, hpasses, hF⟩ := hf (c.advance current) (Counter.remaining_advance_lt hc hnext)
    have hreading : ∀ i, (c.advance current).parser.reading i = c.parser.reading (i + 1) :=
      Parser.reading_advance (c.parser.stream.next_fst.symm.trans hnext)
    refine ⟨t :: ts, ⟨startsWith_cons.2 ⟨congrArg Except.ok hc, ?_⟩, ?_, fun a ha i => ?_,
      fun a ha => ?_⟩, fun below n hn => ?_⟩
    · rw [← funext hreading]
      exact hpasses.startsWith
    · rw [List.length_cons, ← hreading]
      exact hpasses.current_eq
    · rw [List.length_cons, Nat.add_right_comm, ← hreading]
      exact hpasses.reading_eq a ha i
    · exact Nat.succ_le_succ (hpasses.least_le a ha)
    · simp only [Traced.leave, hnext, hF below n hn, hc, List.map_cons]
      rfl
  · next e hnext =>
    refine ⟨[], Return.passes_of_error rfl (startsWith_nil _) rfl, fun below n hn => ?_⟩
    simp only [Traced.leave, hnext]
    rfl

theorem expect {k : Kind} (hk : k ≠ .endOfInput)
    {f : (c' : Counter) → c'.remaining < c.remaining → Return c' α}
    {F : Rule.Calls → Counter → Traced α}
    (hf : ∀ c' h, Settles limit depth (f c' h) least fun call => F call c') :
    Settles limit depth (Return.expect k c f) (least + 1) fun call => Traced.expect k c (F call) := by
  rw [Return.expect]
  split
  · next t hc =>
    have hkind : c.parser.current.kind = t.kind := congrArg Lookahead.kind hc
    simp only [Traced.expect, hkind]
    split
    · exact leave hf
    · exact refuse _
  · next position hc =>
    have hkind : c.parser.current.kind = .endOfInput := congrArg Lookahead.kind hc
    simp only [Traced.expect, hkind, if_neg hk.symm]
    exact refuse _

theorem warn (warning? : Option Warning) {r : Return (c.warn warning?) α}
    {f : Rule.Calls → Traced α} (h : Settles limit depth r least f) :
    Settles limit depth (r.weaken (Nat.le_refl _) : Return c α) least f := by
  obtain ⟨ts, ⟨hts, hcurrent, hreading, hleast⟩, hf⟩ := h
  have hsame : (c.warn warning?).parser.reading = c.parser.reading := by
    funext i
    cases i <;> rfl
  rw [hsame] at hts hcurrent hreading
  exact ⟨ts, ⟨hts, hcurrent, hreading, hleast⟩, hf⟩

theorem nested {r : Return c.opened α} {F : Rule.Calls → Counter → Traced α}
    (h : Settles limit depth r least fun call => F call c.opened) :
    Settles limit depth (Return.nested limit c r) least fun call => Traced.nested limit c (F call) := by
  obtain ⟨ts, ⟨hts, hcurrent, hreading, hleast⟩, hF⟩ := h
  cases limit with
  | none =>
    refine ⟨ts, ⟨hts, hcurrent, hreading, hleast⟩, fun below n hn => ?_⟩
    simp only [Traced.nested, hF below n hn]
    rfl
  | some bound =>
    rw [Return.nested]
    by_cases hlt : c.depth < bound
    · rw [if_pos hlt]
      refine ⟨ts, ⟨hts, hcurrent, hreading, hleast⟩, fun below n hn => ?_⟩
      simp only [Traced.nested, hF below n hn, if_pos hlt]
    · simp only [Traced.nested, if_neg hlt]
      exact unmoved _ fun _ h => by cases h

end Settles

/-! ## One rule at a time -/

namespace Descent

variable (limit : Option Nat)

-- Behind a token less remains, and four levels are gained. In front of it the rules call each other in the
-- order in which they stand here, so that a rule settles where what it calls does.
mutual

theorem settles_expression (c : Counter) : Settles limit (4 * c.remaining + 3) (expression limit c) 1
    fun call => Rule.expression.body limit call c := by
  rw [expression]
  exact .bind (.call (settles_term c) (by omega)) fun value c' _ =>
    .call (settles_sums value c') (by omega)
termination_by 4 * c.remaining + 3
decreasing_by all_goals omega

theorem settles_sums (value : Float) (c : Counter) :
    Settles limit (4 * c.remaining) (sums limit value c) 0
      fun call => (Rule.sums value).body limit call c := by
  rw [sums]
  split
  · next op position hcurrent =>
    simp only [Rule.body, hcurrent]
    exact .mono (.leave fun c' _ => .bind (.call (settles_term c') (by omega)) fun right c'' _ =>
      .call (settles_sums (op.apply value right) c'') (by omega)) (Nat.zero_le _)
  · next hother =>
    have hbody (call : Rule.Calls) : (Rule.sums value).body limit call c = .ok value c := by
      rw [Rule.body]
      split
      · next hcurrent => exact (hother _ _ hcurrent).elim
      · rfl
    simp only [hbody]
    exact .ok value
termination_by 4 * c.remaining
decreasing_by all_goals omega

theorem settles_term (c : Counter) : Settles limit (4 * c.remaining + 2) (term limit c) 1
    fun call => Rule.term.body limit call c := by
  rw [term]
  exact .bind (.call (settles_factor c) (by omega)) fun value c' _ =>
    .call (settles_products (.live value) c') (by omega)
termination_by 4 * c.remaining + 2
decreasing_by all_goals omega

theorem settles_products (product : Product) (c : Counter) :
    Settles limit (4 * c.remaining) (products limit product c) 0
      fun call => (Rule.products product).body limit call c := by
  rw [products]
  split
  · next op position hcurrent =>
    simp only [Rule.body, hcurrent]
    exact .mono (.leave fun c' _ => .bind (.call (settles_factor c') (by omega)) fun right c'' _ =>
      .warn _ (.call (settles_products (product.fold op right) (c''.warn (product.warning? op right)))
        (by rw [Counter.remaining_warn]; omega))) (Nat.zero_le _)
  · next hother =>
    have hbody (call : Rule.Calls) : (Rule.products product).body limit call c = .ok product.value c := by
      rw [Rule.body]
      split
      · next hcurrent => exact (hother _ _ hcurrent).elim
      · rfl
    simp only [hbody]
    exact .ok product.value
termination_by 4 * c.remaining
decreasing_by all_goals first | omega | (rw [Counter.remaining_warn]; omega)

theorem settles_factor (c : Counter) : Settles limit (4 * c.remaining + 1) (factor limit c) 1
    fun call => Rule.factor.body limit call c := by
  rw [factor]
  split
  · next value fractional position hcurrent =>
    simp only [Rule.body, hcurrent]
    exact .leave fun c' _ => .ok value
  · next k position hcurrent =>
    simp only [Rule.body, hcurrent]
    exact .leave fun c' _ => .ok k.value
  · next name position hcurrent =>
    simp only [Rule.body, hcurrent]
    exact .mono (.leave fun c' _ => .bind
      (.nested (.call (settles_parentheses c'.opened) (by rw [Counter.remaining_opened]; omega)))
      fun x c'' _ => .unmoved (call name position x) fun _ _ => rfl) (by omega)
  · next position hcurrent =>
    simp only [Rule.body, hcurrent]
    exact .nested (.call (settles_parentheses c.opened) (by rw [Counter.remaining_opened]; omega))
  · next position hcurrent =>
    simp only [Rule.body, hcurrent]
    exact .nested (.call (settles_negation c.opened) (by rw [Counter.remaining_opened]; omega))
  · next hnumber hconstant hname hparen hminus =>
    have hbody (call : Rule.Calls) : Rule.factor.body limit call c = .refuse .factor c := by
      rw [Rule.body]
      split
      · next hcurrent => exact (hnumber _ _ _ hcurrent).elim
      · next hcurrent => exact (hconstant _ _ hcurrent).elim
      · next hcurrent => exact (hname _ _ hcurrent).elim
      · next hcurrent => exact (hparen _ hcurrent).elim
      · next hcurrent => exact (hminus _ hcurrent).elim
      · rfl
    simp only [hbody]
    exact .refuse .factor
termination_by 4 * c.remaining + 1
decreasing_by all_goals (rw [Counter.remaining_opened]; omega)

theorem settles_parentheses (c : Counter) : Settles limit (4 * c.remaining) (parentheses limit c) 1
    fun call => Rule.parentheses.body limit call c := by
  rw [parentheses]
  exact .mono (.expect (by decide) fun c' _ => .bind (.call (settles_expression c') (by omega))
    fun value c'' _ => .expect (by decide) fun c''' _ => .ok value) (by omega)
termination_by 4 * c.remaining
decreasing_by all_goals omega

theorem settles_negation (c : Counter) : Settles limit (4 * c.remaining) (negation limit c) 1
    fun call => Rule.negation.body limit call c := by
  rw [negation]
  exact .mono (.expect (by decide) fun c' _ => .bind (.call (settles_factor c') (by omega))
    fun value c'' _ => .ok (-value)) (by omega)
termination_by 4 * c.remaining
decreasing_by all_goals omega

end

end Descent

/-- The tokens that a rule leaves behind at least, if it returns a result: a loop may find none. -/
def Rule.least : Rule → Nat
  | sums _ => 0
  | products _ => 0
  | _ => 1

/-- Every rule comes to its end, with a limit or without: its calls are nested at most four times for each
token that remains, and four times more. -/
theorem Rule.settles (limit : Option Nat) (c : Counter) (rule : Rule) :
    Settles limit (4 * c.remaining + 4) (rule.returned limit c) rule.least fun call => call rule c := by
  cases rule with
  | expression => exact .call (Descent.settles_expression limit c) (by omega)
  | sums value => exact .call (Descent.settles_sums limit value c) (by omega)
  | term => exact .call (Descent.settles_term limit c) (by omega)
  | products product => exact .call (Descent.settles_products limit product c) (by omega)
  | factor => exact .call (Descent.settles_factor limit c) (by omega)
  | parentheses => exact .call (Descent.settles_parentheses limit c) (by omega)
  | negation => exact .call (Descent.settles_negation limit c) (by omega)

end DeskCalculator
