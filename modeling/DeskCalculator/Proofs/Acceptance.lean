import DeskCalculator.Proofs.Calls
import DeskCalculator.Proofs.Run

/-!
# Evaluation and trees

A text is evaluated while it is read. What comes of it is what the tree of its tokens is worth: the
evaluation succeeds when the text is readable, its tokens are those of a tree within the nesting
limit, and the tree has a value; and then it yields the value and the warnings of the tree
(`evaluate_eq_ok_iff`).
-/

namespace DeskCalculator

open Beginning (Waiting Front join)

/-- A text that is evaluated is readable, and its tree has the value and the warnings found. -/
theorem exists_tree_of_evaluate {text : String} {ev : Evaluation} (h : evaluate text = .ok ev) :
    (TokenStream.ofString text).Readable ∧ ∃ tree : Expression,
      tree.lexemes = (TokenStream.ofString text).tokens.map Token.lexeme ∧
        tree.depth ≤ nestingLimit ∧ tree.eval? = some (ev.value, ev.warnings) ∧
          ev.listing = listing text := by
  rcases hstart : Parser.start text with e | p
  · rw [evaluate_of_start_error hstart] at h
    cases h
  obtain ⟨ts, s, q, journal, b, ws, run, hreaches, hts, hrest, hread, hvalue, hnesting, hws, hjudged,
    hrun⟩ := exists_judged_of_start hstart
  rw [evaluate_of_start hstart, hrun] at h
  cases hjudged with
  | @finished position sum product value hcurrent hb hs hjoin =>
    subst hb
    cases h
    have hend : (TokenStream.ofString text).reading ts.length = .ok (.endOfInput position) := by
      rw [← hcurrent]
      exact (hrest 0).symm
    obtain ⟨hitems, hstop⟩ := TokenStream.items_eq_of_startsWith hts hend
    refine ⟨TokenStream.readable_of_items_eq hitems hstop, join sum product, ?_, ?_, ?_, rfl⟩
    · rw [TokenStream.tokens_of_items_eq hitems]
      exact (Beginning.lexemes_of_spells
        (Beginning.spells_read? Beginning.spells_start hread)).symm
    · rw [← Beginning.nesting_operator]
      exact hnesting
    · show (join sum product).eval? = some (value, q.warnings)
      rw [hjoin, hws]
  | _ => cases h

/-- A readable text whose tree has a value within the nesting limit is evaluated to that value. -/
theorem evaluate_of_tree {text : String} {tree : Expression} {value : Float} {ws : List Warning}
    (hreadable : (TokenStream.ofString text).Readable)
    (hlexemes : tree.lexemes = (TokenStream.ofString text).tokens.map Token.lexeme)
    (hdepth : tree.depth ≤ nestingLimit) (hvalue : tree.eval? = some (value, ws)) :
    evaluate text = .ok ⟨value, ws, listing text⟩ := by
  obtain ⟨hitems, hstop⟩ := hreadable
  have hitems := TokenStream.items_eq_map_tokens hitems
  obtain ⟨position, hstop⟩ : ∃ position, (TokenStream.ofString text).stop = .ok position := by
    cases hend : (TokenStream.ofString text).stop with
    | ok position => exact ⟨position, rfl⟩
    | error e => rw [hend] at hstop; cases hstop
  have hts := TokenStream.startsWith_reading hitems
  have hend := TokenStream.reading_length hitems
  rw [hstop] at hend
  have hread := Beginning.read?_start tree hlexemes.symm
  obtain ⟨⟨s, ws'⟩, hvalue'⟩ : ∃ r, Beginning.eval? ⟨[], .operator tree.split.1 tree.split.2⟩ =
      some r := by
    rw [← Option.ne_none_iff_exists', Ne, Beginning.eval?_operator_eq_none, Beginning.join_split,
      hvalue]
    rintro (h | h) <;> cases h
  have hnesting : Beginning.nesting ⟨[], .operator tree.split.1 tree.split.2⟩ ≤ nestingLimit := by
    rwa [Beginning.nesting_operator, Beginning.join_split]
  obtain ⟨p, q, journal, hstart, hreaches, hws, hcurrent, -⟩ :=
    exists_reaches_of_read? hread hvalue' hnesting hts hend
  obtain ⟨value', hjoin, -, hstep⟩ := Parser.step_finished hvalue' hcurrent
  rw [Beginning.join_split, hvalue] at hjoin
  cases hjoin
  rw [evaluate_of_reaches hstart hreaches hstep, ← hws]
  rfl

/-- A text whose readings are the tokens of a tree, and then the end, is evaluated as the tree. -/
theorem evaluate_of_items {text : String} (tree : Expression) {ts : List Token} {n : Nat}
    {value : Float} {ws : List Warning} (htext : TokenStream.ofString text = ⟨ts.map .ok, .ok n⟩)
    (hlexemes : tree.lexemes = ts.map Token.lexeme) (hdepth : tree.depth ≤ nestingLimit)
    (hvalue : tree.eval? = some (value, ws)) : evaluate text = .ok ⟨value, ws, listing text⟩ := by
  have hitems : (TokenStream.ofString text).items = ts.map .ok := by rw [htext]
  have hstop : (TokenStream.ofString text).stop = .ok n := by rw [htext]
  refine evaluate_of_tree (TokenStream.readable_of_items_eq hitems hstop) ?_ hdepth hvalue
  rw [TokenStream.tokens_of_items_eq hitems, hlexemes]

theorem evaluate_eq_ok_iff {text : String} {ev : Evaluation} : evaluate text = .ok ev ↔
    (TokenStream.ofString text).Readable ∧ ∃ tree : Expression,
      tree.lexemes = (TokenStream.ofString text).tokens.map Token.lexeme ∧
        tree.depth ≤ nestingLimit ∧ tree.eval? = some (ev.value, ev.warnings) ∧
          ev.listing = listing text := by
  constructor
  · exact exists_tree_of_evaluate
  · rintro ⟨hreadable, tree, hlexemes, hdepth, hvalue, hlisting⟩
    rw [evaluate_of_tree hreadable hlexemes hdepth hvalue, ← hlisting]

/-- The names in the tree of a text are made of letters. -/
theorem isAlpha_of_mem_calls {text : String} {tree : Expression} {call : String × Expression}
    (hlexemes : tree.lexemes = (TokenStream.ofString text).tokens.map Token.lexeme)
    (h : call ∈ tree.calls) : call.1.toList.all Char.isAlpha = true := by
  have hname := tree.name_mem_lexemes h
  rw [hlexemes] at hname
  obtain ⟨t, ht, hlexeme⟩ := List.mem_map.1 hname
  exact TokenStream.isAlpha_of_mem_scan (TokenStream.mem_items_of_mem_tokens ht) hlexeme

/-- A text is evaluated if and only if all of it can be read, its tokens are those of a tree, no point
of the tree is nested more than 256 levels deep, each of its calls names a function but for the case of
letters, and none takes the square root of a negative number. Its value and its warnings are then those
of its tree. -/
theorem evaluate_iff_tree (text : String) :
    ((∃ ev, evaluate text = .ok ev) ↔
      (TokenStream.ofString text).Readable ∧ ∃ tree : Expression,
        tree.lexemes = (TokenStream.ofString text).tokens.map Token.lexeme ∧
          tree.depth ≤ 256 ∧
          (∀ call ∈ tree.calls,
            ∃ f : MathFunction, f.name.toList = call.1.toList.map Char.toLower) ∧
          (∀ call ∈ tree.calls, MathFunction.sqrt.name.toList = call.1.toList.map Char.toLower →
            ∀ x ws, call.2.eval? = some (x, ws) → ¬ x < 0.0)) ∧
      ∀ ev, evaluate text = .ok ev → ∀ tree : Expression,
        tree.lexemes = (TokenStream.ofString text).tokens.map Token.lexeme →
          tree.eval? = some (ev.value, ev.warnings) ∧ ev.listing = listing text := by
  refine ⟨⟨?_, ?_⟩, ?_⟩
  · rintro ⟨ev, h⟩
    obtain ⟨hreadable, tree, hlexemes, hdepth, hvalue, -⟩ := evaluate_eq_ok_iff.1 h
    have hcalls := tree.isSome_eval?.1 (by rw [hvalue]; rfl)
    refine ⟨hreadable, tree, hlexemes, hdepth, fun call hcall => ?_, fun call hcall hroot => ?_⟩
    · obtain ⟨f, hf⟩ := (hcalls call hcall).1
      exact ⟨f, (MathFunction.ofName?_eq_some_iff (isAlpha_of_mem_calls hlexemes hcall) f).1 hf⟩
    · refine (hcalls call hcall).2 ?_
      exact (MathFunction.ofName?_eq_some_iff (isAlpha_of_mem_calls hlexemes hcall) _).2 hroot
  · rintro ⟨hreadable, tree, hlexemes, hdepth, hnames, hroots⟩
    have hcalls : ∀ call ∈ tree.calls, Callable call := by
      intro call hcall
      have hletters := isAlpha_of_mem_calls hlexemes hcall
      refine ⟨?_, fun hroot => hroots call hcall ?_⟩
      · obtain ⟨f, hf⟩ := hnames call hcall
        exact ⟨f, (MathFunction.ofName?_eq_some_iff hletters f).2 hf⟩
      · exact (MathFunction.ofName?_eq_some_iff hletters _).1 hroot
    obtain ⟨⟨value, ws⟩, hvalue⟩ := Option.isSome_iff_exists.1 (tree.isSome_eval?.2 hcalls)
    exact ⟨_, evaluate_of_tree hreadable hlexemes hdepth hvalue⟩
  · intro ev h tree hlexemes
    obtain ⟨-, tree', hlexemes', -, hvalue, hlisting⟩ := evaluate_eq_ok_iff.1 h
    rw [Expression.lexemes_injective (hlexemes.trans hlexemes'.symm)]
    exact ⟨hvalue, hlisting⟩

end DeskCalculator
