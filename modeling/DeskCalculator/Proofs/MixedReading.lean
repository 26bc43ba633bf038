import DeskCalculator.Proofs.Coverage
import DeskCalculator.Proofs.Run

/-!
# Reading in two ways at once

A reader can be asked for the next reading, whatever it is, and for the next token of a single pass, in any
order. What it answers tells of readings (`readings`): all the answers do but those of the single pass
once that is over. There are three things that an answer can be (`Answered`). With each answer that tells
of a reading the reader leaves one reading of its stream behind, and with no other anything (`first_ask`);
and the single pass is over as soon as it has itself told of the end or of an error (`exhausted_ask`). So
all readings together are those of a reader that is asked in one way (`ask_interleaved`).
-/

namespace DeskCalculator

/-! ## Readings of a stream in a row -/

namespace TokenStream

/-- The first readings of a stream, and what they leave. -/
def first (s : TokenStream) : Nat → List (Except LexicalError Lookahead) × TokenStream
  | 0 => ([], s)
  | n + 1 => (s.next.1 :: (s.next.2.first n).1, (s.next.2.first n).2)

theorem stop_next (s : TokenStream) : s.next.2.stop = s.stop := by
  obtain ⟨_ | ⟨item, items⟩, stop⟩ := s <;> rfl

theorem stop_first (s : TokenStream) (n : Nat) : (s.first n).2.stop = s.stop := by
  induction n generalizing s with
  | zero => rfl
  | succ n ih => exact (ih s.next.2).trans s.stop_next

/-- The end of the input is read where the stream has it. -/
theorem stop_of_endOfInput {s : TokenStream} {n : Nat} (h : s.next.1 = .ok (.endOfInput n)) :
    s.stop = .ok n := by
  obtain ⟨_ | ⟨item, items⟩, stop⟩ := s
  · cases stop with
    | error e => cases h
    | ok m => cases h; rfl
  · cases item <;> cases h

end TokenStream

theorem Scanner.first_stream (s : Scanner) (n : Nat) : (s.stream.first n).2 = (s.after n).stream := by
  induction n generalizing s with
  | zero => rfl
  | succ n ih => rw [TokenStream.first, s.next_stream, ih, after]

namespace Reader

/-! ## Requests and answers -/

/-- How a reader is asked: for the next reading, or for the next token of the single pass. -/
inductive Request
  | reading
  | item
  deriving DecidableEq, Repr

/-- What a reader answers. -/
inductive Answer
  | reading (reading : Except LexicalError Lookahead)
  | item (item? : Option Item)
  deriving DecidableEq, Repr

/-- The answer to a request, and the reader that it leaves. -/
def answer (r : Reader) : Request → Answer × Reader
  | .reading => (.reading r.next.1, r.next.2)
  | .item => (.item r.next?.1, r.next?.2)

/-- The answers to some requests, one after the other, and the reader that they leave. -/
def ask (r : Reader) : List Request → List Answer × Reader
  | [] => ([], r)
  | request :: requests =>
    ((r.answer request).1 :: ((r.answer request).2.ask requests).1,
      ((r.answer request).2.ask requests).2)

/-- The reading of which the single pass tells in a text of `n` characters: it tells of the end by
nothing. -/
def readingOf (n : Nat) : Option Item → Except LexicalError Lookahead
  | some item => item.map .token
  | none => .ok (.endOfInput n)

/-- Whether the single pass is over when it has told of a reading. -/
def ends : Option Item → Bool
  | some item => !item.isOk
  | none => true

/-- Whether an answer is one of the single pass with which that is over. -/
def Answer.ends : Answer → Bool
  | reading _ => false
  | item item? => Reader.ends item?

/-- The readings of which some answers tell in a text of `n` characters, if the single pass is over at
first or not: all that `next` gives, and what `next?` gives until that is over. -/
def readings (n : Nat) (exhausted : Bool) : List Answer → List (Except LexicalError Lookahead)
  | [] => []
  | .reading reading :: answers => reading :: readings n exhausted answers
  | .item item? :: answers =>
    if exhausted then readings n true answers
    else readingOf n item? :: readings n (ends item?) answers

/-! ## One answer -/

/-- All that an answer can be and do, in a text of `n` characters. -/
inductive Answered (n : Nat) (r : Reader) : Request → Answer → Reader → Prop
  | reading : Answered n r .reading (.reading r.stream.next.1) ⟨r.stream.next.2, r.exhausted⟩
  /-- The single pass goes on: it tells of the next reading. -/
  | item {item? : Option Item} (hexhausted : r.exhausted = false)
      (htold : readingOf n item? = r.stream.next.1) :
      Answered n r .item (.item item?) ⟨r.stream.next.2, ends item?⟩
  | nothing (hexhausted : r.exhausted = true) : Answered n r .item (.item none) r

variable {n : Nat} {r : Reader}

theorem next?_of_exhausted (h : r.exhausted = true) : r.next? = (none, r) := by
  rw [next?, if_pos h]

theorem next?_of_not_exhausted (h : r.exhausted = false)
    (hn : ∀ m, r.stream.stop = .ok m → m = n) :
    readingOf n r.next?.1 = r.stream.next.1 ∧ r.next?.2 = ⟨r.stream.next.2, ends r.next?.1⟩ := by
  have hnext : r.next = (r.stream.next.1, ⟨r.stream.next.2, r.exhausted⟩) := rfl
  rw [next?, h, if_neg Bool.false_ne_true, hnext, h]
  rcases hreading : r.stream.next.1 with e | t | m
  · exact ⟨rfl, rfl⟩
  · exact ⟨rfl, rfl⟩
  · rw [hn m (TokenStream.stop_of_endOfInput hreading)]
    exact ⟨rfl, rfl⟩

theorem answered_answer (hn : ∀ m, r.stream.stop = .ok m → m = n) (request : Request) :
    r.Answered n request (r.answer request).1 (r.answer request).2 := by
  cases request with
  | reading => exact .reading
  | item =>
    rcases hexhausted : r.exhausted with _ | _
    · obtain ⟨htold, hleft⟩ := next?_of_not_exhausted hexhausted hn
      rw [answer, hleft]
      exact .item hexhausted htold
    · rw [answer, next?_of_exhausted hexhausted]
      exact .nothing hexhausted

theorem Answered.stop_eq {request : Request} {answer : Answer} {r' : Reader}
    (h : r.Answered n request answer r') : r'.stream.stop = r.stream.stop := by
  cases h with
  | reading => exact r.stream.stop_next
  | item => exact r.stream.stop_next
  | nothing => rfl

/-! ## Some answers -/

/-- The readings of which the answers tell are the first of the stream, and they leave it as the reader
has it then. -/
theorem first_ask (hn : ∀ m, r.stream.stop = .ok m → m = n) (requests : List Request) :
    r.stream.first (readings n r.exhausted (r.ask requests).1).length =
      (readings n r.exhausted (r.ask requests).1, (r.ask requests).2.stream) := by
  induction requests generalizing r with
  | nil => rfl
  | cons request requests ih =>
    have hanswered := answered_answer hn request
    rw [ask]
    generalize (r.answer request).1 = answer, (r.answer request).2 = r' at hanswered
    have hrest := @ih r' (hanswered.stop_eq ▸ hn)
    cases hanswered with
    | reading => exact congrArg (fun rest => (r.stream.next.1 :: rest.1, rest.2)) hrest
    | item hexhausted htold =>
      rw [readings, hexhausted, if_neg Bool.false_ne_true, htold]
      exact congrArg (fun rest => (r.stream.next.1 :: rest.1, rest.2)) hrest
    | nothing hexhausted =>
      rw [hexhausted] at hrest
      rw [readings, hexhausted, if_pos rfl]
      exact hrest

/-- The single pass is over when it was so at first, or when one of its answers has ended it. -/
theorem exhausted_ask (hn : ∀ m, r.stream.stop = .ok m → m = n) (requests : List Request) :
    (r.ask requests).2.exhausted = (r.exhausted || (r.ask requests).1.any Answer.ends) := by
  induction requests generalizing r with
  | nil => exact (Bool.or_false _).symm
  | cons request requests ih =>
    have hanswered := answered_answer hn request
    rw [ask]
    generalize (r.answer request).1 = answer, (r.answer request).2 = r' at hanswered
    have hrest := @ih r' (hanswered.stop_eq ▸ hn)
    cases hanswered with
    | reading => exact hrest
    | item hexhausted htold => rw [hexhausted]; exact hrest
    | nothing hexhausted =>
      rw [hexhausted] at hrest ⊢
      exact hrest

/-- A reader that is asked for the next reading only gives the first readings of its stream. -/
theorem ask_reading (r : Reader) (n : Nat) :
    (r.ask (List.replicate n .reading)).1 = (r.stream.first n).1.map .reading := by
  induction n generalizing r with
  | zero => rfl
  | succ n ih => exact congrArg (List.cons _) (ih r.next.2)

/-- A reader that is asked in both ways. The readings of which it tells are those of a reader that is
asked as many times for the next reading only, and so many readings made on demand leave of the text what
it has left. The single pass tells of the next reading, whatever else has been read, until it has itself
told of the end or of an error: from then on it gives nothing, and changes nothing. -/
theorem ask_interleaved (text : String) (requests : List Request) :
    let answers := ((ofString text).ask requests).1
    let r := ((ofString text).ask requests).2
    let told := readings text.length false answers
    ((ofString text).ask (List.replicate told.length .reading)).1 = told.map .reading ∧
      r.stream = ((Scanner.ofString text).after told.length).stream ∧
        if answers.any Answer.ends then r.next? = (none, r)
        else readingOf text.length r.next?.1 = r.next.1 ∧ r.next?.2.stream = r.next.2.stream := by
  intro answers r told
  have hn : ∀ m, (ofString text).stream.stop = .ok m → m = text.length := by
    intro m hm
    rw [TokenStream.stop_scan hm, Nat.zero_add, String.length_toList]
  have hfirst : (ofString text).stream.first told.length = (told, r.stream) := first_ask hn requests
  have hexhausted : r.exhausted = answers.any Answer.ends := exhausted_ask hn requests
  refine ⟨?_, ?_, ?_⟩
  · rw [ask_reading, hfirst]
  · rw [← Scanner.first_stream]
    exact (congrArg Prod.snd hfirst).symm
  split
  · next hends => exact next?_of_exhausted (hexhausted.trans hends)
  · next hends =>
    have hstop : r.stream.stop = (ofString text).stream.stop := by
      rw [← (ofString text).stream.stop_first told.length, hfirst]
    obtain ⟨htold, hleft⟩ := next?_of_not_exhausted
      (hexhausted.trans (Bool.eq_false_iff.2 hends)) (hstop ▸ hn)
    have hstream : r.next?.2.stream = r.stream.next.2 := congrArg Reader.stream hleft
    exact ⟨htold, hstream⟩

example : ((ofString "1 $").ask [.item, .reading, .item, .reading, .item]).1 =
    [.item (some (.ok ⟨.number 1 false, 0⟩)), .reading (.error (.unknownOperator '$' 2)),
      .item (some (.error (.unknownOperator '$' 2))), .reading (.error (.unknownOperator '$' 2)),
      .item none] := by
  decide +kernel

end Reader

end DeskCalculator
