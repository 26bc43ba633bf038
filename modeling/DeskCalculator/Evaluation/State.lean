import DeskCalculator.Error
import DeskCalculator.Evaluation.Product

/-!
# States of an evaluation

An expression is a sum of terms, a term a product of factors, and a factor is a number, a constant,
a call, an expression in parentheses or a factor after a minus sign. Its value is computed while it
is read, all binary operators grouping to the left.

A state holds what has been computed so far: for each open parenthesis, and for the innermost level,
the sum and the product to the left of the next factor and the minus signs in front of it.
`State.plan` says what a token does in a state, `Move.perform` carries it out, and `State.finish`
says what the end of the input does.
-/

namespace DeskCalculator

/-! ## States -/

/-- What waits for the next factor. -/
structure Pending where
  /-- The terms to the left and the operator that joins the current term to them. -/
  sum : Option (Float × SumOp) := none
  /-- The factors to the left and the operator that joins the next factor to them. -/
  product : Option (Product × ProductOp) := none
  /-- The minus signs in front of the factor. -/
  negations : Nat := 0
  deriving DecidableEq, Repr

/-- What an open parenthesis belongs to. -/
inductive Opening
  | group
  | call (name : String) (position : Nat)
  deriving DecidableEq, Repr

/-- What is read next at the innermost level. -/
inductive Phase
  | factor (pending : Pending)
  /-- The parenthesis of a call, whose name has been read. -/
  | parenthesis (pending : Pending) (name : String) (position : Nat)
  /-- What follows a factor: an operator, or the end of the level. -/
  | operator (sum : Option (Float × SumOp)) (product : Product)
  deriving DecidableEq, Repr

structure State where
  /-- For each open parenthesis, innermost first, what waits for its value. -/
  outer : List (Pending × Opening) := []
  phase : Phase := .factor {}
  deriving DecidableEq, Repr

/-- The greatest number of levels that may be open at once. -/
def nestingLimit : Nat :=
  256

namespace State

/-- The levels open around the parentheses: each parenthesis is one, and so is each minus sign whose
factor is not complete. -/
def outerDepth : List (Pending × Opening) → Nat
  | [] => 0
  | (pending, _) :: outer => outerDepth outer + pending.negations + 1

/-- The number of levels that are open. -/
def depth : State → Nat
  | ⟨outer, .factor pending⟩ => outerDepth outer + pending.negations
  | ⟨outer, .parenthesis pending _ _⟩ => outerDepth outer + pending.negations
  | ⟨outer, .operator _ _⟩ => outerDepth outer

/-- The value of a sum whose last term is complete. -/
def total (sum : Option (Float × SumOp)) (product : Product) : Float :=
  match sum with
  | none => product.value
  | some (value, op) => op.apply value product.value

/-- The value of a factor after its minus signs. -/
def negate (value : Float) : Nat → Float
  | 0 => value
  | n + 1 => negate (-value) n

/-- The state after a factor, and what is reported when it is folded into its term. -/
def complete (outer : List (Pending × Opening)) (pending : Pending) (value : Float) :
    State × Option Warning :=
  let factor := negate value pending.negations
  match pending.product with
  | none => (⟨outer, .operator pending.sum (.live factor)⟩, none)
  | some (product, op) =>
    (⟨outer, .operator pending.sum (product.fold op factor)⟩, product.warning? op factor)

end State

/-! ## Moves -/

/-- What a token does, once the one after it could be read. -/
inductive Move
  /-- Nothing is computed that could fail or be reported. -/
  | enter (next : State)
  /-- A factor is complete. -/
  | factor (outer : List (Pending × Opening)) (pending : Pending) (value : Float)
  /-- The argument of a call is complete. -/
  | call (outer : List (Pending × Opening)) (pending : Pending) (name : String) (position : Nat)
    (argument : Float)
  deriving DecidableEq, Repr

/-- A function that was called, its argument and its value. -/
structure Call where
  f : MathFunction
  argument : Float
  value : Float
  deriving DecidableEq, Repr

/-- What a move leads to. -/
structure Effect where
  state : State
  call? : Option Call := none
  warning? : Option Warning := none
  deriving DecidableEq, Repr

/-- Carries out a move. A call whose name is no function, or whose argument is outside the domain of
its function, is an error. -/
def Move.perform : Move → Except Error Effect
  | .enter next => .ok { state := next }
  | .factor outer pending value =>
    let (state, warning?) := State.complete outer pending value
    .ok { state, warning? }
  | .call outer pending name position argument =>
    match MathFunction.ofName? name with
    | none => .error (.unknownFunction name position)
    | some f =>
      match f.valueAt? argument with
      | none => .error (.outsideDomain f argument)
      | some value =>
        let (state, warning?) := State.complete outer pending value
        .ok { state, call? := some ⟨f, argument, value⟩, warning? }

namespace State

/-- Refuses a new level when the limit is reached. -/
def guardDepth (s : State) (position : Nat) (move : Except Error Move) : Except Error Move :=
  if s.depth < nestingLimit then move else .error (.tooNested position nestingLimit)

/-- The state at the start of an expression. -/
def fresh (outer : List (Pending × Opening)) : State :=
  ⟨outer, .factor {}⟩

/-- What a token does in a state. -/
def plan (s : State) (t : Token) : Except Error Move :=
  let refuse (expected : Expected) : Except Error Move :=
    .error (.unexpected t.lexeme.kind expected t.position)
  match s.phase with
  | .factor pending =>
    match t.lexeme with
    | .number value _ => .ok (.factor s.outer pending value)
    | .constant c => .ok (.factor s.outer pending c.value)
    | .name name => .ok (.enter ⟨s.outer, .parenthesis pending name t.position⟩)
    | .leftParen => s.guardDepth t.position (.ok (.enter (fresh ((pending, .group) :: s.outer))))
    | .operator (.sum .minus) =>
      s.guardDepth t.position
        (.ok (.enter ⟨s.outer, .factor { pending with negations := pending.negations + 1 }⟩))
    | _ => refuse .factor
  | .parenthesis pending name position =>
    s.guardDepth t.position <|
      match t.lexeme with
      | .leftParen => .ok (.enter (fresh ((pending, .call name position) :: s.outer)))
      | _ => refuse (.kind .leftParen)
  | .operator sum product =>
    match t.lexeme, s.outer with
    | .operator (.product op), _ =>
      .ok (.enter ⟨s.outer, .factor { sum, product := some (product, op) }⟩)
    | .operator (.sum op), _ =>
      .ok (.enter ⟨s.outer, .factor { sum := some (total sum product, op) }⟩)
    | .rightParen, (pending, .group) :: outer => .ok (.factor outer pending (total sum product))
    | .rightParen, (pending, .call name position) :: outer =>
      .ok (.call outer pending name position (total sum product))
    | _, [] => refuse (.kind .endOfInput)
    | _, _ :: _ => refuse (.kind .rightParen)

/-- What the end of the input does in a state: the value of the expression if it is complete. -/
def finish (s : State) (position : Nat) : Except Error Float :=
  let refuse (expected : Expected) : Except Error Float :=
    .error (.unexpected .endOfInput expected position)
  match s.phase with
  | .factor _ => refuse .factor
  | .parenthesis _ _ _ =>
    if s.depth < nestingLimit then refuse (.kind .leftParen)
    else .error (.tooNested position nestingLimit)
  | .operator sum product =>
    match s.outer with
    | [] => .ok (total sum product)
    | _ :: _ => refuse (.kind .rightParen)

end State

end DeskCalculator
