import DeskCalculator.Proofs.Beginning

/-!
# Sentences and their beginnings

A sentence is the list of the kinds of a whole input, the end of the input included; a list of kinds
is viable when some sentence begins with it. Whether a token may follow depends only on the number of
open parentheses and on what comes next at the innermost level, the shape of a beginning. So the
kinds that may follow what has been read are those that its shape admits (`viable_concat_iff`).
-/

namespace DeskCalculator

/-- The kinds of a whole input: those of the lexemes of an expression, and the end. -/
def Sentence (ks : List Kind) : Prop :=
  ∃ e : Expression, ks = e.lexemes.map Lexeme.kind ++ [.endOfInput]

/-- The kinds with which at least one sentence begins. -/
def Viable (ks : List Kind) : Prop :=
  ∃ rest, Sentence (ks ++ rest)

def Token.kind (t : Token) : Kind :=
  t.lexeme.kind

theorem Token.map_kind (ts : List Token) :
    ts.map Token.kind = (ts.map Token.lexeme).map Lexeme.kind := by
  rw [List.map_map]
  rfl

/-! ## Shapes -/

/-- What comes next at the innermost level. -/
inductive Stage
  | factor
  /-- The parenthesis of a call. -/
  | parenthesis
  /-- An operator, or the end of the level. -/
  | operator
  deriving DecidableEq, Repr

/-- Whether a new level is asked for: by a parenthesis or a minus sign in front of a factor, and by
whatever comes after the name of a call. -/
def Stage.opens : Stage → Kind → Bool
  | .factor, .leftParen => true
  | .factor, .operator (.sum .minus) => true
  | .parenthesis, _ => true
  | _, _ => false

/-- The number of open parentheses, and what comes next. -/
structure Shape where
  level : Nat := 0
  stage : Stage := .factor
  deriving DecidableEq, Repr

namespace Shape

/-- The shape after a token of some kind, if the grammar admits it. -/
def push : Shape → Kind → Option Shape
  | ⟨level, .factor⟩, .integer => some ⟨level, .operator⟩
  | ⟨level, .factor⟩, .fractional => some ⟨level, .operator⟩
  | ⟨level, .factor⟩, .constant _ => some ⟨level, .operator⟩
  | ⟨level, .factor⟩, .name => some ⟨level, .parenthesis⟩
  | ⟨level, .factor⟩, .leftParen => some ⟨level + 1, .factor⟩
  | ⟨level, .factor⟩, .operator (.sum .minus) => some ⟨level, .factor⟩
  | ⟨level, .parenthesis⟩, .leftParen => some ⟨level + 1, .factor⟩
  | ⟨level, .operator⟩, .operator _ => some ⟨level, .factor⟩
  | ⟨level + 1, .operator⟩, .rightParen => some ⟨level, .operator⟩
  | _, _ => none

/-- The shape after tokens of some kinds. -/
def read? (s : Shape) (ks : List Kind) : Option Shape :=
  ks.foldlM push s

theorem read?_append (s : Shape) (ks ks' : List Kind) :
    s.read? (ks ++ ks') = (s.read? ks).bind fun s' => s'.read? ks' := by
  simp only [read?, List.foldlM_append, Option.bind_eq_bind]

/-- Whether a kind may follow: that of a token, or the end of the input once all is closed. -/
def Admits (s : Shape) (k : Kind) : Prop :=
  (s.push k).isSome ∨ k = .endOfInput ∧ s = ⟨0, .operator⟩

theorem push_endOfInput (s : Shape) : s.push .endOfInput = none := by
  obtain ⟨level, stage⟩ := s
  cases stage <;> rfl

end Shape

namespace Beginning

def Front.stage : Front → Stage
  | .factor _ => .factor
  | .parenthesis _ _ _ => .parenthesis
  | .operator _ _ => .operator

def shape (b : Beginning) : Shape :=
  ⟨b.outer.length, b.front.stage⟩

@[simp] theorem shape_complete (outer : List (Waiting × Opening)) (waiting : Waiting) (f : Factor) :
    (complete outer waiting f).shape = ⟨outer.length, .operator⟩ := by
  obtain ⟨sum, product, negations⟩ := waiting
  rcases product with _ | ⟨left, op⟩ <;> rfl

/-- Whether a token is admitted, and the shape after it, depend on its kind alone. -/
theorem shape_push (b : Beginning) (t : Token) :
    (b.push t).map shape = b.shape.push t.kind := by
  obtain ⟨outer, front⟩ := b
  obtain ⟨lexeme, position⟩ := t
  cases front with
  | factor waiting =>
    cases lexeme with
    | number value fractional => cases fractional <;> exact congrArg some (shape_complete ..)
    | constant c => exact congrArg some (shape_complete ..)
    | operator op => rcases op with (_ | _) | op <;> rfl
    | _ => rfl
  | parenthesis waiting name position =>
    cases lexeme with
    | number value fractional => cases fractional <;> rfl
    | _ => rfl
  | operator sum product =>
    cases lexeme with
    | number value fractional => cases fractional <;> rfl
    | operator op => rcases op with op | op <;> rfl
    | rightParen =>
      rcases outer with _ | ⟨⟨waiting, _ | _⟩, outer⟩
      · rfl
      · exact congrArg some (shape_complete ..)
      · exact congrArg some (shape_complete ..)
    | _ => rfl

theorem shape_read? (b : Beginning) (ts : List Token) :
    (b.read? ts).map shape = b.shape.read? (ts.map Token.kind) := by
  induction ts generalizing b with
  | nil => rfl
  | cons t ts ih =>
    have hpush := shape_push b t
    rw [List.map_cons, Shape.read?, List.foldlM_cons, read?_cons, ← hpush]
    cases b.push t with
    | none => rfl
    | some b' => exact ih b'

end Beginning

theorem Token.kind_ne_endOfInput (t : Token) : t.kind ≠ .endOfInput := by
  obtain ⟨lexeme, position⟩ := t
  cases lexeme with
  | number value fractional => cases fractional <;> (intro h; cases h)
  | _ => intro h; cases h

/-- A token of a kind that the shape admits can be added. -/
theorem Beginning.exists_push_of_admits {b : Beginning} {t : Token} (h : b.shape.Admits t.kind) :
    ∃ b', b.push t = some b' := by
  rcases h with h | ⟨hend, -⟩
  · rw [← shape_push, Option.isSome_map] at h
    exact Option.isSome_iff_exists.1 h
  · exact absurd hend t.kind_ne_endOfInput

/-- The kinds of the lexemes of an expression lead from the start to its end. -/
theorem Shape.read?_expression (e : Expression) :
    Shape.read? {} (e.lexemes.map Lexeme.kind) = some ⟨0, .operator⟩ := by
  obtain ⟨ts, hts⟩ : ∃ ts : List Token, ts.map Token.lexeme = e.lexemes :=
    ⟨e.lexemes.map fun l => ⟨l, 0⟩, by simp [Function.comp_def]⟩
  have hshape := Beginning.shape_read? {} ts
  rw [Beginning.read?_start e hts] at hshape
  rw [← hts, ← Token.map_kind]
  exact hshape.symm

/-! ## What may follow -/

/-- What a beginning has read begins a sentence. -/
theorem viable_of_read? {ts : List Token} {b : Beginning} (h : Beginning.read? {} ts = some b) :
    Viable (ts.map Token.kind) := by
  obtain ⟨us, sum, product, hclosed⟩ := b.exists_read?_closed
  have hread : Beginning.read? {} (ts ++ us) = some ⟨[], .operator sum product⟩ := by
    rw [Beginning.read?_append, h]
    exact hclosed
  have hlexemes := Beginning.lexemes_of_spells (Beginning.spells_read? Beginning.spells_start hread)
  rw [List.nil_append] at hlexemes
  refine ⟨us.map Token.kind ++ [.endOfInput], Beginning.join sum product, ?_⟩
  rw [← hlexemes, ← Token.map_kind, List.map_append, List.append_assoc]

/-- Each kind but the end is that of some token. -/
theorem exists_token_of_kind {k : Kind} (h : k ≠ .endOfInput) : ∃ t : Token, t.kind = k := by
  cases k with
  | integer => exact ⟨⟨.number 0 false, 0⟩, rfl⟩
  | fractional => exact ⟨⟨.number 0 true, 0⟩, rfl⟩
  | constant c => exact ⟨⟨.constant c, 0⟩, rfl⟩
  | name => exact ⟨⟨.name "", 0⟩, rfl⟩
  | operator op => exact ⟨⟨.operator op, 0⟩, rfl⟩
  | leftParen => exact ⟨⟨.leftParen, 0⟩, rfl⟩
  | rightParen => exact ⟨⟨.rightParen, 0⟩, rfl⟩
  | endOfInput => exact absurd rfl h

/-- The end of the input is admitted where a whole expression has been read. -/
theorem Beginning.eq_operator_of_admits {b : Beginning} (h : b.shape.Admits .endOfInput) :
    ∃ sum product, b = ⟨[], .operator sum product⟩ := by
  obtain ⟨outer, front⟩ := b
  rcases h with h | ⟨-, h⟩
  · rw [Shape.push_endOfInput] at h
    exact absurd h (by decide)
  · obtain rfl : outer = [] := List.eq_nil_of_length_eq_zero (congrArg Shape.level h)
    cases front with
    | operator sum product => exact ⟨sum, product, rfl⟩
    | _ => exact absurd (congrArg Shape.stage h) (by simp [shape, Front.stage])

theorem viable_concat_of_admits {ts : List Token} {b : Beginning} {k : Kind}
    (h : Beginning.read? {} ts = some b) (hk : b.shape.Admits k) :
    Viable (ts.map Token.kind ++ [k]) := by
  by_cases hend : k = .endOfInput
  · -- the tokens are those of a whole expression, to which the end can be added
    subst hend
    obtain ⟨sum, product, rfl⟩ := Beginning.eq_operator_of_admits hk
    have hlexemes := Beginning.lexemes_of_spells (Beginning.spells_read? Beginning.spells_start h)
    refine ⟨[], Beginning.join sum product, ?_⟩
    rw [← hlexemes, ← Token.map_kind, List.append_nil, List.nil_append]
  · obtain ⟨t, rfl⟩ := exists_token_of_kind hend
    obtain ⟨b', hb'⟩ := Beginning.exists_push_of_admits hk
    simpa using viable_of_read? (Beginning.read?_concat h hb')

theorem admits_of_viable_concat {ts : List Token} {b : Beginning} {k : Kind}
    (h : Beginning.read? {} ts = some b) (hk : Viable (ts.map Token.kind ++ [k])) :
    b.shape.Admits k := by
  obtain ⟨rest, e, he⟩ := hk
  have hts := Beginning.shape_read? {} ts
  rw [h, Option.map_some] at hts
  have hread := Shape.read?_expression e
  rcases List.eq_nil_or_concat rest with rfl | ⟨rest, last, rfl⟩
  · rw [List.append_nil] at he
    obtain ⟨hkinds, hend⟩ := List.append_inj' he rfl
    rw [← hkinds] at hread
    exact .inr ⟨by simpa using hend, by simpa using hts.trans hread⟩
  · rw [List.concat_eq_append, ← List.append_assoc] at he
    obtain ⟨hkinds, -⟩ := List.append_inj' he rfl
    rw [← hkinds, List.append_assoc, Shape.read?_append] at hread
    obtain ⟨s, hs, hread⟩ := Option.bind_eq_some_iff.1 hread
    obtain ⟨s', hpush, -⟩ := Option.bind_eq_some_iff.1 hread
    obtain rfl : b.shape = s := by simpa using hts.trans hs
    exact .inl (Option.isSome_iff_exists.2 ⟨s', hpush⟩)

/-- After some tokens, the kinds with which a sentence can go on are those that the shape of what has
been read admits. -/
theorem viable_concat_iff {ts : List Token} {b : Beginning} (h : Beginning.read? {} ts = some b)
    (k : Kind) : Viable (ts.map Token.kind ++ [k]) ↔ b.shape.Admits k :=
  ⟨admits_of_viable_concat h, viable_concat_of_admits h⟩

end DeskCalculator
