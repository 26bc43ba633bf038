import DeskCalculator.Token.Stream

/-!
# Readers

A reader takes a text token by token in two ways, which may be mixed. `next` always reads. `next?`
goes through the tokens once: it reads until it has met the end or an error itself, and nothing from
then on.
-/

namespace DeskCalculator

structure Reader where
  stream : TokenStream
  /-- Whether `next?` has met the end or an error. -/
  exhausted : Bool := false
  deriving Repr

namespace Reader

def ofString (text : String) : Reader :=
  ⟨.ofString text, false⟩

/-- The next reading; the end of the input and an unknown operator are read again for ever. -/
def next (r : Reader) : Except LexicalError Lookahead × Reader :=
  let (reading, stream) := r.stream.next
  (reading, { r with stream })

/-- The next token or error of a single pass, nothing once it is over. -/
def next? (r : Reader) : Option Item × Reader :=
  if r.exhausted then
    (none, r)
  else
    match r.next with
    | (.ok (.token t), r) => (some (.ok t), r)
    | (.ok (.endOfInput _), r) => (none, { r with exhausted := true })
    | (.error e, r) => (some (.error e), { r with exhausted := true })

end Reader

end DeskCalculator
