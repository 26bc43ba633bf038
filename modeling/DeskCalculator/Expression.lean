import DeskCalculator.Evaluation.Product
import DeskCalculator.MathFunction
import DeskCalculator.Token.Basic

/-!
# Parse trees

The trees of the grammar

    expression := term (('+' | '-') term)*
    term       := factor (('*' | '/' | '%' | '^') factor)*
    factor     := number | constant | name '(' expression ')' | '(' expression ')' | '-' factor

with all binary operators grouping to the left. `lexemes` writes a tree out, `depth` says how many
of its parentheses and minus signs are open at once, `calls` lists its calls, and `eval?` computes its
value and its warnings from the values of its parts, without any reading.
-/

namespace DeskCalculator

mutual

inductive Expression
  | term (t : Term)
  | sum (left : Expression) (op : SumOp) (right : Term)

inductive Term
  | factor (f : Factor)
  | product (left : Term) (op : ProductOp) (right : Factor)

inductive Factor
  | number (value : Float) (fractional : Bool)
  | constant (c : Constant)
  | call (name : String) (argument : Expression)
  | group (inner : Expression)
  | negation (operand : Factor)

end

/-! ## Writing a tree out -/

mutual

/-- The lexemes of an expression, in order. -/
def Expression.lexemes : Expression → List Lexeme
  | .term t => t.lexemes
  | .sum left op right => left.lexemes ++ .operator (.sum op) :: right.lexemes

/-- The lexemes of a term, in order. -/
def Term.lexemes : Term → List Lexeme
  | .factor f => f.lexemes
  | .product left op right => left.lexemes ++ .operator (.product op) :: right.lexemes

/-- The lexemes of a factor, in order. -/
def Factor.lexemes : Factor → List Lexeme
  | .number value fractional => [.number value fractional]
  | .constant c => [.constant c]
  | .call name argument => .name name :: .leftParen :: (argument.lexemes ++ [.rightParen])
  | .group inner => .leftParen :: (inner.lexemes ++ [.rightParen])
  | .negation operand => .operator (.sum .minus) :: operand.lexemes

end

/-! ## Nesting -/

mutual

/-- The greatest number of levels of an expression that are open at once. -/
def Expression.depth : Expression → Nat
  | .term t => t.depth
  | .sum left _ right => max left.depth right.depth

/-- The greatest number of levels of a term that are open at once. -/
def Term.depth : Term → Nat
  | .factor f => f.depth
  | .product left _ right => max left.depth right.depth

/-- The greatest number of levels of a factor that are open at once: parentheses, calls and minus
signs whose factor is not complete. -/
def Factor.depth : Factor → Nat
  | .number _ _ => 0
  | .constant _ => 0
  | .call _ argument => argument.depth + 1
  | .group inner => inner.depth + 1
  | .negation operand => operand.depth + 1

end

/-! ## Calls -/

mutual

/-- The calls in an expression, each as its name and its argument, in the order in which they end. -/
def Expression.calls : Expression → List (String × Expression)
  | .term t => t.calls
  | .sum left _ right => left.calls ++ right.calls

/-- The calls in a term. -/
def Term.calls : Term → List (String × Expression)
  | .factor f => f.calls
  | .product left _ right => left.calls ++ right.calls

/-- The calls in a factor. -/
def Factor.calls : Factor → List (String × Expression)
  | .number _ _ => []
  | .constant _ => []
  | .call name argument => argument.calls ++ [(name, argument)]
  | .group inner => inner.calls
  | .negation operand => operand.calls

end

/-! ## Values -/

/-- The value of an operation on two numbers, and what is reported of it. Zero to the power zero has
no value of its own: it makes void the term in which it stands. -/
def ProductOp.eval : ProductOp → Float → Float → Product × List Warning
  | .times, a, b => (.live (a * b), [])
  | .over, a, b =>
    (.live (a / b), if b == 0.0 then [if a == 0.0 then .zeroOverZero else .divisionByZero a] else [])
  | .modulo, a, b => (.live (Binary64.remainder a b), [])
  | .power, a, b =>
    if a == 0.0 && b == 0.0 then (.void, [.zeroToTheZero])
    else (.live (Binary64.power a b), if a == 0.0 && b == -1.0 then [.inverseOfZero] else [])

mutual

/-- The value of an expression and its warnings, left operand first; nothing if a call in it has no
value. -/
def Expression.eval? : Expression → Option (Float × List Warning)
  | .term t => do
    let (product, warnings) ← t.eval?
    some (product.value, warnings)
  | .sum left op right => do
    let (value, warnings) ← left.eval?
    let (product, warnings') ← right.eval?
    match op with
    | .plus => some (value + product.value, warnings ++ warnings')
    | .minus => some (value - product.value, warnings ++ warnings')

/-- The product of a term and its warnings; that of an operator follows those of its operands. The
factors that follow in a void term have their values and warnings, but are not folded. -/
def Term.eval? : Term → Option (Product × List Warning)
  | .factor f => do
    let (value, warnings) ← f.eval?
    some (.live value, warnings)
  | .product left op right => do
    let (product, warnings) ← left.eval?
    let (factor, warnings') ← right.eval?
    match product with
    | .live value =>
      let (product, reported) := op.eval value factor
      some (product, warnings ++ warnings' ++ reported)
    | .void => some (.void, warnings ++ warnings')

/-- The value of a factor and its warnings. A call has a value if its name is that of a function and
its argument is in the domain. -/
def Factor.eval? : Factor → Option (Float × List Warning)
  | .number value _ => some (value, [])
  | .constant c => some (c.value, [])
  | .call name argument => do
    let (x, warnings) ← argument.eval?
    let f ← MathFunction.ofName? name
    let value ← f.valueAt? x
    some (value, warnings)
  | .group inner => inner.eval?
  | .negation operand => do
    let (value, warnings) ← operand.eval?
    some (-value, warnings)

end

end DeskCalculator
