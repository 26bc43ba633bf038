import DeskCalculator.Evaluation.State
import DeskCalculator.Expression

/-!
# Beginnings of expressions

A beginning is what a reader knows of an expression after some of its tokens: the trees that are
complete, and what is still open around them. It is shaped like a state of an evaluation, with trees
in place of values. `push` adds one token, or refuses it; `read?` adds several. Reading the lexemes
of a tree gives that tree back (`read?_expression`), so no two trees are written alike
(`Expression.lexemes_injective`); what has been read is spelled by the beginning (`spells_read?`) and
tells it (`read?_of_spells`); and every beginning can be brought to an end (`exists_read?_closed`).
-/

namespace DeskCalculator

/-- A factor after some minus signs. -/
def Factor.negated (f : Factor) : Nat → Factor
  | 0 => f
  | n + 1 => (Factor.negation f).negated n

/-- An expression as its terms but the last, with the operator that joins them to it, and the last. -/
def Expression.split : Expression → Option (Expression × SumOp) × Term
  | .term t => (none, t)
  | .sum left op right => (some (left, op), right)

namespace Beginning

/-- What waits for the next factor. -/
structure Waiting where
  /-- The terms to the left and the operator that joins the current term to them. -/
  sum : Option (Expression × SumOp) := none
  /-- The factors to the left and the operator that joins the next factor to them. -/
  product : Option (Term × ProductOp) := none
  /-- The minus signs in front of the factor. -/
  negations : Nat := 0

/-- What comes next at the innermost level. -/
inductive Front
  | factor (waiting : Waiting)
  /-- The parenthesis of a call, whose name has been read. -/
  | parenthesis (waiting : Waiting) (name : String) (position : Nat)
  /-- An operator, or the end of the level. -/
  | operator (sum : Option (Expression × SumOp)) (product : Term)

end Beginning

open Beginning (Waiting Front)

structure Beginning where
  /-- For each open parenthesis, innermost first, what waits for its factor. -/
  outer : List (Waiting × Opening) := []
  front : Front := .factor {}

namespace Beginning

/-- The expression that ends with a term. -/
def join (sum : Option (Expression × SumOp)) (product : Term) : Expression :=
  match sum with
  | none => .term product
  | some (left, op) => .sum left op product

@[simp] theorem join_split (e : Expression) : join e.split.1 e.split.2 = e := by
  cases e <;> rfl

/-- What a factor makes of the beginning that waits for it. -/
def complete (outer : List (Waiting × Opening)) (waiting : Waiting) (f : Factor) : Beginning :=
  let f := f.negated waiting.negations
  match waiting.product with
  | none => ⟨outer, .operator waiting.sum (.factor f)⟩
  | some (product, op) => ⟨outer, .operator waiting.sum (.product product op f)⟩

/-- The beginning with one more token, if the grammar admits it. -/
def push (b : Beginning) (t : Token) : Option Beginning :=
  match b.front with
  | .factor waiting =>
    match t.lexeme with
    | .number value fractional => some (complete b.outer waiting (.number value fractional))
    | .constant c => some (complete b.outer waiting (.constant c))
    | .name name => some ⟨b.outer, .parenthesis waiting name t.position⟩
    | .leftParen => some ⟨(waiting, .group) :: b.outer, .factor {}⟩
    | .operator (.sum .minus) =>
      some ⟨b.outer, .factor { waiting with negations := waiting.negations + 1 }⟩
    | _ => none
  | .parenthesis waiting name position =>
    match t.lexeme with
    | .leftParen => some ⟨(waiting, .call name position) :: b.outer, .factor {}⟩
    | _ => none
  | .operator sum product =>
    match t.lexeme, b.outer with
    | .operator (.product op), _ => some ⟨b.outer, .factor { sum, product := some (product, op) }⟩
    | .operator (.sum op), _ => some ⟨b.outer, .factor { sum := some (join sum product, op) }⟩
    | .rightParen, (waiting, .group) :: outer =>
      some (complete outer waiting (.group (join sum product)))
    | .rightParen, (waiting, .call name _) :: outer =>
      some (complete outer waiting (.call name (join sum product)))
    | _, _ => none

/-- The beginning with some more tokens. -/
def read? (b : Beginning) (ts : List Token) : Option Beginning :=
  ts.foldlM push b

@[simp] theorem read?_nil (b : Beginning) : b.read? [] = some b :=
  rfl

@[simp] theorem read?_cons (b : Beginning) (t : Token) (ts : List Token) :
    b.read? (t :: ts) = (b.push t).bind fun b' => b'.read? ts :=
  rfl

theorem read?_append (b : Beginning) (us vs : List Token) :
    b.read? (us ++ vs) = (b.read? us).bind fun b' => b'.read? vs := by
  simp only [read?, List.foldlM_append, Option.bind_eq_bind]

/-- A beginning with the tokens before the last, and then with the last. -/
theorem read?_concat {b b₁ b' : Beginning} {ts : List Token} {t : Token} (h : b.read? ts = some b₁)
    (hpush : b₁.push t = some b') : b.read? (ts ++ [t]) = some b' := by
  rw [read?_append, h, Option.bind_some, read?_cons, hpush]
  rfl

/-- How a beginning, a token that it admits and the beginning with that token are related: one case
for each kind of token and place where the grammar admits it. -/
inductive Pushed : Beginning → Token → Beginning → Prop
  | number (outer : List (Waiting × Opening)) (waiting : Waiting) (value : Float)
      (fractional : Bool) (position : Nat) :
      Pushed ⟨outer, .factor waiting⟩ ⟨.number value fractional, position⟩
        (complete outer waiting (.number value fractional))
  | constant (outer : List (Waiting × Opening)) (waiting : Waiting) (c : Constant)
      (position : Nat) :
      Pushed ⟨outer, .factor waiting⟩ ⟨.constant c, position⟩ (complete outer waiting (.constant c))
  | name (outer : List (Waiting × Opening)) (waiting : Waiting) (name : String) (position : Nat) :
      Pushed ⟨outer, .factor waiting⟩ ⟨.name name, position⟩
        ⟨outer, .parenthesis waiting name position⟩
  | group (outer : List (Waiting × Opening)) (waiting : Waiting) (position : Nat) :
      Pushed ⟨outer, .factor waiting⟩ ⟨.leftParen, position⟩ ⟨(waiting, .group) :: outer, .factor {}⟩
  | minus (outer : List (Waiting × Opening)) (waiting : Waiting) (position : Nat) :
      Pushed ⟨outer, .factor waiting⟩ ⟨.operator (.sum .minus), position⟩
        ⟨outer, .factor { waiting with negations := waiting.negations + 1 }⟩
  | call (outer : List (Waiting × Opening)) (waiting : Waiting) (name : String)
      (position position' : Nat) :
      Pushed ⟨outer, .parenthesis waiting name position⟩ ⟨.leftParen, position'⟩
        ⟨(waiting, .call name position) :: outer, .factor {}⟩
  | product (outer : List (Waiting × Opening)) (sum : Option (Expression × SumOp)) (product : Term)
      (op : ProductOp) (position : Nat) :
      Pushed ⟨outer, .operator sum product⟩ ⟨.operator (.product op), position⟩
        ⟨outer, .factor { sum, product := some (product, op) }⟩
  | sum (outer : List (Waiting × Opening)) (sum : Option (Expression × SumOp)) (product : Term)
      (op : SumOp) (position : Nat) :
      Pushed ⟨outer, .operator sum product⟩ ⟨.operator (.sum op), position⟩
        ⟨outer, .factor { sum := some (join sum product, op) }⟩
  | groupEnd (outer : List (Waiting × Opening)) (waiting : Waiting)
      (sum : Option (Expression × SumOp)) (product : Term) (position : Nat) :
      Pushed ⟨(waiting, .group) :: outer, .operator sum product⟩ ⟨.rightParen, position⟩
        (complete outer waiting (.group (join sum product)))
  | callEnd (outer : List (Waiting × Opening)) (waiting : Waiting) (name : String)
      (position : Nat) (sum : Option (Expression × SumOp)) (product : Term) (position' : Nat) :
      Pushed ⟨(waiting, .call name position) :: outer, .operator sum product⟩
        ⟨.rightParen, position'⟩ (complete outer waiting (.call name (join sum product)))

theorem pushed_of_push {b b' : Beginning} {t : Token} (h : b.push t = some b') : b.Pushed t b' := by
  obtain ⟨outer, front⟩ := b
  obtain ⟨lexeme, position⟩ := t
  cases front with
  | factor waiting =>
    cases lexeme with
    | number value fractional => cases h; exact .number ..
    | constant c => cases h; exact .constant ..
    | name name => cases h; exact .name ..
    | leftParen => cases h; exact .group ..
    | rightParen => cases h
    | operator op =>
      rcases op with (_ | _) | op
      · cases h
      · cases h; exact .minus ..
      · cases h
  | parenthesis waiting name position' =>
    cases lexeme with
    | leftParen => cases h; exact .call ..
    | _ => cases h
  | operator sum product =>
    cases lexeme with
    | operator op =>
      rcases op with op | op
      · cases h; exact .sum ..
      · cases h; exact .product ..
    | rightParen =>
      rcases outer with _ | ⟨⟨waiting, _ | ⟨name, position'⟩⟩, outer⟩
      · cases h
      · cases h; exact .groupEnd ..
      · cases h; exact .callEnd ..
    | _ => cases h

/-! ## Reading a tree -/

theorem complete_negation (outer : List (Waiting × Opening)) (waiting : Waiting) (f : Factor) :
    complete outer { waiting with negations := waiting.negations + 1 } f =
      complete outer waiting (.negation f) :=
  rfl

mutual

/-- The lexemes of an expression, read at the start of a level, yield that expression. -/
theorem read?_expression (e : Expression) (outer : List (Waiting × Opening)) (ts : List Token)
    (h : ts.map Token.lexeme = e.lexemes) :
    read? ⟨outer, .factor {}⟩ ts = some ⟨outer, .operator e.split.1 e.split.2⟩ := by
  cases e with
  | term t => exact read?_term t outer none ts h
  | sum left op right =>
    obtain ⟨us, vs', rfl, hu, hv⟩ := List.map_eq_append_iff.1 h
    obtain ⟨t, vs, rfl, ht, hv⟩ := List.map_eq_cons_iff.1 hv
    rw [read?_append, read?_expression left outer us hu]
    simp only [Option.bind_some, read?_cons, push, ht, join_split]
    exact read?_term right outer (some (left, op)) vs hv

theorem read?_term (t : Term) (outer : List (Waiting × Opening)) (sum : Option (Expression × SumOp))
    (ts : List Token) (h : ts.map Token.lexeme = t.lexemes) :
    read? ⟨outer, .factor { sum }⟩ ts = some ⟨outer, .operator sum t⟩ := by
  cases t with
  | factor f => exact read?_factor f outer { sum } ts h
  | product left op right =>
    obtain ⟨us, vs', rfl, hu, hv⟩ := List.map_eq_append_iff.1 h
    obtain ⟨t, vs, rfl, ht, hv⟩ := List.map_eq_cons_iff.1 hv
    rw [read?_append, read?_term left outer sum us hu]
    simp only [Option.bind_some, read?_cons, push, ht]
    exact read?_factor right outer { sum, product := some (left, op) } vs hv

theorem read?_factor (f : Factor) (outer : List (Waiting × Opening)) (waiting : Waiting)
    (ts : List Token) (h : ts.map Token.lexeme = f.lexemes) :
    read? ⟨outer, .factor waiting⟩ ts = some (complete outer waiting f) := by
  cases f with
  | number value fractional =>
    obtain ⟨t, rfl, ht⟩ := List.map_eq_singleton_iff.1 h
    simp only [read?_cons, push, ht, Option.bind_some, read?_nil]
  | constant c =>
    obtain ⟨t, rfl, ht⟩ := List.map_eq_singleton_iff.1 h
    simp only [read?_cons, push, ht, Option.bind_some, read?_nil]
  | call name argument =>
    obtain ⟨t, ts', rfl, ht, h⟩ := List.map_eq_cons_iff.1 h
    obtain ⟨paren, ts', rfl, hp, h⟩ := List.map_eq_cons_iff.1 h
    obtain ⟨us, vs, rfl, hu, hv⟩ := List.map_eq_append_iff.1 h
    obtain ⟨close, rfl, hc⟩ := List.map_eq_singleton_iff.1 hv
    simp only [read?_cons, push, ht, hp, Option.bind_some]
    rw [read?_append, read?_expression argument _ us hu]
    simp only [Option.bind_some, read?_cons, push, hc, join_split, read?_nil]
  | group inner =>
    obtain ⟨paren, ts', rfl, hp, h⟩ := List.map_eq_cons_iff.1 h
    obtain ⟨us, vs, rfl, hu, hv⟩ := List.map_eq_append_iff.1 h
    obtain ⟨close, rfl, hc⟩ := List.map_eq_singleton_iff.1 hv
    simp only [read?_cons, push, hp, Option.bind_some]
    rw [read?_append, read?_expression inner _ us hu]
    simp only [Option.bind_some, read?_cons, push, hc, join_split, read?_nil]
  | negation operand =>
    obtain ⟨t, us, rfl, ht, hu⟩ := List.map_eq_cons_iff.1 h
    simp only [read?_cons, push, ht, Option.bind_some]
    rw [read?_factor operand outer _ us hu, complete_negation]

end

/-- The tokens of an expression, read from the start, yield that expression. -/
theorem read?_start (e : Expression) {ts : List Token} (h : ts.map Token.lexeme = e.lexemes) :
    read? {} ts = some ⟨[], .operator e.split.1 e.split.2⟩ :=
  read?_expression e [] ts h

/-- The tokens of a call are its name and more, and then a parenthesis, before which its argument is
complete. -/
theorem exists_read?_call {name : String} {argument : Expression} {us : List Token}
    (h : us.map Token.lexeme = (Factor.call name argument).lexemes) :
    ∃ t ts closing, us = t :: ts ++ [closing] ∧ t.lexeme = .name name ∧ closing.lexeme = .rightParen ∧
      ∀ outer waiting, read? ⟨outer, .factor waiting⟩ (t :: ts) = some
        ⟨(waiting, .call name t.position) :: outer, .operator argument.split.1 argument.split.2⟩ := by
  obtain ⟨t, us, rfl, ht, h⟩ := List.map_eq_cons_iff.1 h
  obtain ⟨paren, us, rfl, hparen, h⟩ := List.map_eq_cons_iff.1 h
  obtain ⟨vs, ws, rfl, hvs, hws⟩ := List.map_eq_append_iff.1 h
  obtain ⟨closing, rfl, hclosing⟩ := List.map_eq_singleton_iff.1 hws
  refine ⟨t, paren :: vs, closing, rfl, ht, hclosing, fun outer waiting => ?_⟩
  simp only [read?_cons, push, ht, hparen, Option.bind_some]
  exact read?_expression argument _ vs hvs

/-! ## What has been read -/

/-- The lexemes of the terms to the left of the current one. -/
def sumLexemes : Option (Expression × SumOp) → List Lexeme
  | none => []
  | some (left, op) => left.lexemes ++ [.operator (.sum op)]

/-- The lexemes of the factors to the left of the next one. -/
def productLexemes : Option (Term × ProductOp) → List Lexeme
  | none => []
  | some (left, op) => left.lexemes ++ [.operator (.product op)]

/-- The lexemes of what waits for a factor, in order. -/
def Waiting.lexemes (waiting : Waiting) : List Lexeme :=
  sumLexemes waiting.sum ++ productLexemes waiting.product ++
    List.replicate waiting.negations (.operator (.sum .minus))

/-- The tokens that stand for what is open around the innermost level, the parentheses included. -/
inductive SpellsOuter : List (Waiting × Opening) → List Token → Prop
  | nil : SpellsOuter [] []
  | group {outer : List (Waiting × Opening)} {waiting : Waiting} {us vs : List Token}
      {paren : Token} (houter : SpellsOuter outer us)
      (hwaiting : vs.map Token.lexeme = waiting.lexemes) (hparen : paren.lexeme = .leftParen) :
      SpellsOuter ((waiting, .group) :: outer) (us ++ vs ++ [paren])
  | call {outer : List (Waiting × Opening)} {waiting : Waiting} {us vs : List Token}
      {name : String} {position : Nat} {paren : Token} (houter : SpellsOuter outer us)
      (hwaiting : vs.map Token.lexeme = waiting.lexemes) (hparen : paren.lexeme = .leftParen) :
      SpellsOuter ((waiting, .call name position) :: outer)
        (us ++ vs ++ [⟨.name name, position⟩, paren])

/-- The tokens that stand for a beginning. -/
inductive Spells : Beginning → List Token → Prop
  | factor {outer : List (Waiting × Opening)} {waiting : Waiting} {us vs : List Token}
      (houter : SpellsOuter outer us) (hwaiting : vs.map Token.lexeme = waiting.lexemes) :
      Spells ⟨outer, .factor waiting⟩ (us ++ vs)
  | parenthesis {outer : List (Waiting × Opening)} {waiting : Waiting} {us vs : List Token}
      {name : String} {position : Nat} (houter : SpellsOuter outer us)
      (hwaiting : vs.map Token.lexeme = waiting.lexemes) :
      Spells ⟨outer, .parenthesis waiting name position⟩ (us ++ vs ++ [⟨.name name, position⟩])
  | operator {outer : List (Waiting × Opening)} {sum : Option (Expression × SumOp)}
      {product : Term} {us vs : List Token} (houter : SpellsOuter outer us)
      (hinner : vs.map Token.lexeme = (join sum product).lexemes) :
      Spells ⟨outer, .operator sum product⟩ (us ++ vs)

theorem lexemes_negated (f : Factor) (n : Nat) :
    (f.negated n).lexemes = List.replicate n (.operator (.sum .minus)) ++ f.lexemes := by
  induction n generalizing f with
  | zero => rfl
  | succ n ih =>
    rw [Factor.negated, ih, Factor.lexemes, List.replicate_succ', List.append_assoc]
    rfl

theorem lexemes_join (sum : Option (Expression × SumOp)) (product : Term) :
    (join sum product).lexemes = sumLexemes sum ++ product.lexemes := by
  rcases sum with _ | ⟨left, op⟩
  · simp [join, sumLexemes, Expression.lexemes]
  · simp [join, sumLexemes, Expression.lexemes]

/-- A beginning that has just been completed by a factor is spelled by the tokens before that factor
and those of the factor. -/
theorem spells_complete {outer : List (Waiting × Opening)} {waiting : Waiting} {f : Factor}
    {us vs ws : List Token} (houter : SpellsOuter outer us)
    (hwaiting : vs.map Token.lexeme = waiting.lexemes) (hf : ws.map Token.lexeme = f.lexemes) :
    Spells (complete outer waiting f) (us ++ vs ++ ws) := by
  obtain ⟨sum, product, negations⟩ := waiting
  rw [List.append_assoc]
  rcases product with _ | ⟨left, op⟩
  · refine .operator houter ?_
    rw [List.map_append, hwaiting, hf, lexemes_join, Term.lexemes, lexemes_negated]
    simp [Waiting.lexemes, productLexemes]
  · refine .operator houter ?_
    rw [List.map_append, hwaiting, hf, lexemes_join, Term.lexemes, lexemes_negated]
    simp [Waiting.lexemes, productLexemes]

theorem spells_fresh {outer : List (Waiting × Opening)} {ts : List Token}
    (h : SpellsOuter outer ts) : Spells ⟨outer, .factor {}⟩ ts := by
  have hs : Spells ⟨outer, .factor {}⟩ (ts ++ []) := .factor h rfl
  rwa [List.append_nil] at hs

/-- A token that has been added is spelled after the tokens before it. -/
theorem spells_push {b b' : Beginning} {ts : List Token} {t : Token} (h : b.Spells ts)
    (hb : b.push t = some b') : b'.Spells (ts ++ [t]) := by
  cases pushed_of_push hb with
  | number outer waiting value fractional position =>
    obtain ⟨houter, hwaiting⟩ := h
    exact spells_complete houter hwaiting rfl
  | constant outer waiting c position =>
    obtain ⟨houter, hwaiting⟩ := h
    exact spells_complete houter hwaiting rfl
  | name outer waiting name position =>
    obtain ⟨houter, hwaiting⟩ := h
    exact .parenthesis houter hwaiting
  | group outer waiting position =>
    obtain ⟨houter, hwaiting⟩ := h
    exact spells_fresh (.group houter hwaiting rfl)
  | minus outer waiting position =>
    obtain ⟨houter, hwaiting⟩ := h
    rw [List.append_assoc]
    refine .factor houter ?_
    simp [Waiting.lexemes, hwaiting, List.replicate_succ']
  | call outer waiting name position position' =>
    obtain - | ⟨houter, hwaiting⟩ := h
    rw [List.append_assoc]
    exact spells_fresh (.call houter hwaiting rfl)
  | product outer sum product op position =>
    obtain - | - | ⟨houter, hinner⟩ := h
    rw [List.append_assoc]
    refine .factor houter ?_
    simp [Waiting.lexemes, hinner, lexemes_join, productLexemes]
  | sum outer sum product op position =>
    obtain - | - | ⟨houter, hinner⟩ := h
    rw [List.append_assoc]
    refine .factor houter ?_
    simp [Waiting.lexemes, hinner, sumLexemes, productLexemes]
  | groupEnd outer waiting sum product position =>
    cases h with
    | @operator _ _ _ us vs houter hinner =>
    cases houter with
    | @group _ _ us vs' paren houter hwaiting hparen =>
      have hf : (paren :: (vs ++ [⟨.rightParen, position⟩])).map Token.lexeme =
          (Factor.group (join sum product)).lexemes := by
        simp [hparen, hinner, Factor.lexemes]
      simpa using spells_complete houter hwaiting hf
  | callEnd outer waiting name position sum product position' =>
    cases h with
    | @operator _ _ _ us vs houter hinner =>
    cases houter with
    | @call _ _ us vs' _ _ paren houter hwaiting hparen =>
      have hf : (⟨.name name, position⟩ :: paren :: (vs ++ [⟨.rightParen, position'⟩])).map
          Token.lexeme = (Factor.call name (join sum product)).lexemes := by
        simp [hparen, hinner, Factor.lexemes]
      simpa using spells_complete houter hwaiting hf

/-- What has been read stands for what is known of it. -/
theorem spells_read? {b b' : Beginning} {us ts : List Token} (h : b.Spells us)
    (hb : b.read? ts = some b') : b'.Spells (us ++ ts) := by
  induction ts generalizing b us with
  | nil =>
    cases hb
    rwa [List.append_nil]
  | cons t ts ih =>
    obtain ⟨b₁, hpush, hread⟩ := Option.bind_eq_some_iff.1 hb
    have hs := ih (spells_push h hpush) hread
    rwa [List.append_assoc] at hs

theorem spells_start : Spells {} [] :=
  spells_fresh .nil

/-- Once nothing is open, the tokens are those of an expression. -/
theorem lexemes_of_spells {sum : Option (Expression × SumOp)} {product : Term} {ts : List Token}
    (h : Spells ⟨[], .operator sum product⟩ ts) :
    ts.map Token.lexeme = (join sum product).lexemes := by
  cases h with
  | operator houter hinner =>
    cases houter
    exact hinner

/-! ## Reading what is spelled -/

theorem split_join (sum : Option (Expression × SumOp)) (product : Term) :
    (join sum product).split = (sum, product) := by
  cases sum <;> rfl

theorem read?_minus {ts : List Token} {n : Nat} (outer : List (Waiting × Opening)) (waiting : Waiting)
    (h : ts.map Token.lexeme = List.replicate n (.operator (.sum .minus))) :
    read? ⟨outer, .factor waiting⟩ ts =
      some ⟨outer, .factor { waiting with negations := waiting.negations + n }⟩ := by
  induction n generalizing ts waiting with
  | zero =>
    obtain rfl := List.map_eq_nil_iff.1 h
    rfl
  | succ n ih =>
    obtain ⟨t, ts, rfl, ht, h⟩ := List.map_eq_cons_iff.1 h
    simp only [read?_cons, push, ht, Option.bind_some]
    rw [ih _ h, Nat.add_assoc, Nat.add_comm 1]

/-- What waits for a factor is read from its lexemes. -/
theorem read?_waiting {ts : List Token} (outer : List (Waiting × Opening)) (waiting : Waiting)
    (h : ts.map Token.lexeme = waiting.lexemes) :
    read? ⟨outer, .factor {}⟩ ts = some ⟨outer, .factor waiting⟩ := by
  obtain ⟨sum, product, negations⟩ := waiting
  obtain ⟨ts, minuses, rfl, h, hminuses⟩ := List.map_eq_append_iff.1 h
  obtain ⟨us, vs, rfl, hus, hvs⟩ := List.map_eq_append_iff.1 h
  have hsum : read? ⟨outer, .factor {}⟩ us = some ⟨outer, .factor { sum }⟩ := by
    rcases sum with _ | ⟨left, op⟩
    · obtain rfl := List.map_eq_nil_iff.1 hus
      rfl
    · obtain ⟨ls, ops, rfl, hls, hops⟩ := List.map_eq_append_iff.1 hus
      obtain ⟨t, rfl, ht⟩ := List.map_eq_singleton_iff.1 hops
      rw [read?_append, read?_expression left outer ls hls]
      simp only [Option.bind_some, read?_cons, push, ht, join_split, read?_nil]
  have hproduct : read? ⟨outer, .factor { sum }⟩ vs = some ⟨outer, .factor { sum, product }⟩ := by
    rcases product with _ | ⟨left, op⟩
    · obtain rfl := List.map_eq_nil_iff.1 hvs
      rfl
    · obtain ⟨ls, ops, rfl, hls, hops⟩ := List.map_eq_append_iff.1 hvs
      obtain ⟨t, rfl, ht⟩ := List.map_eq_singleton_iff.1 hops
      rw [read?_append, read?_term left outer sum ls hls]
      simp only [Option.bind_some, read?_cons, push, ht, read?_nil]
  rw [read?_append, read?_append, hsum, Option.bind_some, hproduct, Option.bind_some,
    read?_minus outer _ hminuses, Nat.zero_add]

theorem read?_of_spellsOuter {outer : List (Waiting × Opening)} {ts : List Token}
    (h : SpellsOuter outer ts) : read? {} ts = some ⟨outer, .factor {}⟩ := by
  induction h with
  | nil => rfl
  | group houter hwaiting hparen ih =>
    rw [read?_append, read?_append, ih, Option.bind_some, read?_waiting _ _ hwaiting]
    simp only [Option.bind_some, read?_cons, push, hparen, read?_nil]
  | call houter hwaiting hparen ih =>
    rw [read?_append, read?_append, ih, Option.bind_some, read?_waiting _ _ hwaiting]
    simp only [Option.bind_some, read?_cons, push, hparen, read?_nil]

/-- A beginning is read from the tokens that stand for it. -/
theorem read?_of_spells {b : Beginning} {ts : List Token} (h : b.Spells ts) :
    read? {} ts = some b := by
  cases h with
  | factor houter hwaiting =>
    rw [read?_append, read?_of_spellsOuter houter, Option.bind_some, read?_waiting _ _ hwaiting]
  | parenthesis houter hwaiting =>
    rw [read?_append, read?_append, read?_of_spellsOuter houter, Option.bind_some,
      read?_waiting _ _ hwaiting]
    rfl
  | operator houter hinner =>
    rw [read?_append, read?_of_spellsOuter houter, Option.bind_some, read?_expression _ _ _ hinner,
      split_join]

/-- The last tokens of a product are those of its right operand, before which it is awaited. -/
theorem exists_operand_of_read? {outer : List (Waiting × Opening)} {sum : Option (Expression × SumOp)}
    {left : Term} {op : ProductOp} {right : Factor} {ts : List Token}
    (h : read? {} ts = some ⟨outer, .operator sum (.product left op right)⟩) :
    ∃ before operand, ts = before ++ operand ∧ operand.map Token.lexeme = right.lexemes ∧
      read? {} before = some ⟨outer, .factor { sum, product := some (left, op) }⟩ := by
  have hspells := spells_read? spells_start h
  rw [List.nil_append] at hspells
  cases hspells with
  | @operator _ _ _ us vs houter hinner =>
    have hsplit : (join sum (.product left op right)).lexemes =
        Waiting.lexemes { sum, product := some (left, op) } ++ right.lexemes := by
      simp [lexemes_join, Term.lexemes, Waiting.lexemes, productLexemes]
    obtain ⟨ws, operand, rfl, hws, hoperand⟩ := List.map_eq_append_iff.1 (hinner.trans hsplit)
    exact ⟨us ++ ws, operand, (List.append_assoc _ _ _).symm, hoperand,
      read?_of_spells (.factor houter hws)⟩

/-! ## Reaching the end -/

theorem exists_read?_closed_of_operator (outer : List (Waiting × Opening))
    (sum : Option (Expression × SumOp)) (product : Term) :
    ∃ ts sum' product', read? ⟨outer, .operator sum product⟩ ts =
      some ⟨[], .operator sum' product'⟩ := by
  induction outer generalizing sum product with
  | nil => exact ⟨[], sum, product, rfl⟩
  | cons level outer ih =>
    obtain ⟨⟨waitingSum, waitingProduct, negations⟩, opening⟩ := level
    -- the parenthesis that closes the level completes a factor of the level around it
    obtain ⟨f, hf⟩ : ∃ f, push ⟨(⟨waitingSum, waitingProduct, negations⟩, opening) :: outer,
        .operator sum product⟩ ⟨.rightParen, 0⟩ =
        some (complete outer ⟨waitingSum, waitingProduct, negations⟩ f) := by
      cases opening with
      | group => exact ⟨_, rfl⟩
      | call name position => exact ⟨_, rfl⟩
    rcases waitingProduct with _ | ⟨left, op⟩
    · obtain ⟨ts, sum', product', h⟩ := ih waitingSum (.factor (f.negated negations))
      exact ⟨⟨.rightParen, 0⟩ :: ts, sum', product', by rw [read?_cons, hf]; exact h⟩
    · obtain ⟨ts, sum', product', h⟩ := ih waitingSum (.product left op (f.negated negations))
      exact ⟨⟨.rightParen, 0⟩ :: ts, sum', product', by rw [read?_cons, hf]; exact h⟩

theorem exists_read?_closed_of_factor (outer : List (Waiting × Opening)) (waiting : Waiting) :
    ∃ ts sum product, read? ⟨outer, .factor waiting⟩ ts = some ⟨[], .operator sum product⟩ := by
  obtain ⟨sum, product, negations⟩ := waiting
  let f := (Factor.number 0 false).negated negations
  rcases product with _ | ⟨left, op⟩
  · obtain ⟨ts, sum', product', h⟩ := exists_read?_closed_of_operator outer sum (.factor f)
    exact ⟨⟨.number 0 false, 0⟩ :: ts, sum', product', h⟩
  · obtain ⟨ts, sum', product', h⟩ :=
      exists_read?_closed_of_operator outer sum (.product left op f)
    exact ⟨⟨.number 0 false, 0⟩ :: ts, sum', product', h⟩

/-- Every beginning can be brought to an end: some tokens more make a whole expression of it. -/
theorem exists_read?_closed (b : Beginning) :
    ∃ ts sum product, b.read? ts = some ⟨[], .operator sum product⟩ := by
  obtain ⟨outer, front⟩ := b
  cases front with
  | factor waiting => exact exists_read?_closed_of_factor outer waiting
  | parenthesis waiting name position =>
    obtain ⟨ts, sum, product, h⟩ :=
      exists_read?_closed_of_factor ((waiting, .call name position) :: outer) {}
    exact ⟨⟨.leftParen, 0⟩ :: ts, sum, product, h⟩
  | operator sum product => exact exists_read?_closed_of_operator outer sum product

end Beginning

/-- No two expressions are written alike. -/
theorem Expression.lexemes_injective {e e' : Expression} (h : e.lexemes = e'.lexemes) : e = e' := by
  obtain ⟨ts, hts⟩ : ∃ ts : List Token, ts.map Token.lexeme = e.lexemes :=
    ⟨e.lexemes.map fun l => ⟨l, 0⟩, by simp [Function.comp_def]⟩
  have hread := Beginning.read?_start e hts
  rw [Beginning.read?_start e' (hts.trans h)] at hread
  simp only [Option.some.injEq, Beginning.mk.injEq, Beginning.Front.operator.injEq, true_and] at hread
  rw [← Beginning.join_split e, ← Beginning.join_split e', hread.1, hread.2]

end DeskCalculator
