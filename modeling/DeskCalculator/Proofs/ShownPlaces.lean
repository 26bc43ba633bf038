import DeskCalculator.Proofs.Culprits
import DeskCalculator.Proofs.Events

/-!
# Where the desk shows an error

The desk evaluates its line without the blanks around it, and shows the place of an error as it is counted
there. The blanks behind the line make no difference to it, but each blank in front of the line puts what
the error names one character further on in the line itself (`evaluate_trimmedEnd`). So the place that is
shown is that of the culprit just as long as the line starts with no blank (`handle_evaluate_place`).
-/

namespace DeskCalculator

/-! ## The blanks around a line -/

namespace Text

/-- How many blanks a text starts with. -/
def indent (cs : List Char) : Nat :=
  (cs.takeWhile isBlank).length

/-- Unless nothing is left, a text without the blanks behind it is the trimmed text behind some blanks. -/
theorem trimEnd_eq_append_trim {cs : List Char} (h : trim cs ≠ []) :
    trimEnd cs = cs.takeWhile isBlank ++ trim cs := by
  obtain ⟨blanks, hblanks, hrest⟩ := exists_blanks (cs.dropWhile isBlank)
  have hsplit : cs = cs.takeWhile isBlank ++ trim cs ++ blanks := by
    rw [List.append_assoc, trim, ← hrest, List.takeWhile_append_dropWhile]
  have hkept := trimEnd_concat (cs.takeWhile isBlank ++ (trim cs).dropLast) (isBlank_getLast_trimEnd h)
  have hlast : (trim cs).dropLast ++ [(trimEnd (cs.dropWhile isBlank)).getLast h] = trim cs :=
    List.dropLast_append_getLast h
  rw [List.append_assoc, hlast] at hkept
  calc trimEnd cs
    _ = trimEnd (cs.takeWhile isBlank ++ trim cs ++ blanks) := congrArg trimEnd hsplit
    _ = cs.takeWhile isBlank ++ trim cs := by rw [trimEnd_append_of_blank _ hblanks, hkept]

end Text

/-! ## Places in errors -/

namespace Error

/-- The place that an error names, if it names one. -/
def position? : Error → Option Nat
  | lexical (.unknownOperator _ position) => some position
  | lexical (.malformedNumber _ position) => some position
  | unexpected _ _ position => some position
  | tooNested position _ => some position
  | unknownFunction _ position => some position
  | outsideDomain _ _ => none

/-- The error whose place is `k` characters further on. -/
def moved (k : Nat) (e : Error) : Error :=
  e.transcribe (.insertion 0 k)

theorem position?_moved (k : Nat) (e : Error) : (e.moved k).position? = e.position?.map (· + k) := by
  cases e with
  | lexical e => cases e <;> rfl
  | _ => rfl

theorem exists_before (front : String) {middle closing place : String}
    (h : middle = closing ++ " (position ") :
    ∃ before, front ++ middle ++ place ++ ")" = before ++ " (position " ++ place ++ ")" :=
  ⟨front ++ closing, by rw [h, ← String.append_assoc]⟩

/-- The text of an error ends with the place that it names. -/
theorem exists_message_eq {e : Error} {p : Nat} (h : e.position? = some p) :
    ∃ before, e.message = before ++ " (position " ++ toString p ++ ")" := by
  have hquote : "' (position " = "'" ++ " (position " := by decide
  have hquotes : "\" (position " = "\"" ++ " (position " := by decide
  have hlevels : " niveaux (position " = " niveaux" ++ " (position " := by decide
  cases e with
  | lexical e =>
    cases e with
    | unknownOperator c position =>
      cases h
      exact exists_before ("opérateur non reconnu '" ++ String.ofList [c]) hquote
    | malformedNumber text position =>
      cases h
      exact exists_before ("nombre malformé \"" ++ text) hquotes
  | unexpected found expected position =>
    cases h
    exact ⟨"jeton inattendu : " ++ found.text ++ ", attendu : " ++ expected.text, rfl⟩
  | tooNested position limit =>
    cases h
    exact exists_before ("expression trop imbriquée : plus de " ++ toString limit) hlevels
  | unknownFunction name position =>
    cases h
    exact ⟨"fonction inconnue : " ++ name, rfl⟩
  | outsideDomain f argument => cases h

end Error

/-! ## The line as it stands -/

/-- A line whose trimmed text has an error has the same error, as many characters further on as there are
blanks in front of it. -/
theorem evaluate_trimmedEnd {line : String} {e : Error} (hline : trimmed line ≠ "")
    (h : evaluate (trimmed line) = .error e) :
    evaluate (trimmedEnd line) = .error (e.moved (Text.indent line.toList)) := by
  have hne : Text.trim line.toList ≠ [] := fun hnil => hline (by rw [trimmed, hnil])
  have hread : TokenStream.ofString (trimmedEnd line) =
      (TokenStream.ofString (trimmed line)).transcribe
        (.insertion 0 (Text.indent line.toList)) := by
    have hblanks : ∀ c ∈ line.toList.takeWhile Text.isBlank, Text.isBlank c = true :=
      fun c => List.mem_takeWhile_imp
    have hscan := @TokenStream.scan_insert_blanks [] _ (Text.trim line.toList) hblanks
      fun w _ _ _ => .inl (Nat.zero_le w.start)
    rw [TokenStream.ofString, TokenStream.ofString, trimmedEnd, trimmed, String.toList_ofList,
      String.toList_ofList, Text.trimEnd_eq_append_trim hne]
    exact hscan
  rw [evaluate_of_transcribe _ hread, h]
  rfl

theorem culprit_of_error {text : String} {e : Error} (h : evaluate text = .error e) :
    Culprit text e := by
  obtain ⟨ts, -, hts, -, hfirst⟩ := exists_firstError h
  exact culprit_of_firstError hts hfirst

namespace Desk

/-- Where the evaluation of a line fails with an error that names a place, this place is the last that is
shown, and the line stays. The line itself, up to its last character that is no blank, has the same error,
and what that names stands there as many characters further on as the line starts with blanks. -/
theorem handle_evaluate_place {d : Desk} {e : Error} {p : Nat} (hline : trimmed d.line ≠ "")
    (h : evaluate (trimmed d.line) = .error e) (hp : e.position? = some p) :
    let found := e.moved (Text.indent d.line.toList)
    (d.handle .evaluate).line = d.line ∧
      (∃ before, (d.handle .evaluate).error = before ++ " (position " ++ toString p ++ ")") ∧
      evaluate (trimmedEnd d.line) = .error found ∧ Culprit (trimmedEnd d.line) found ∧
      found.position? = some (p + Text.indent d.line.toList) := by
  intro found
  have hfound := evaluate_trimmedEnd hline h
  obtain ⟨before, hmessage⟩ := Error.exists_message_eq hp
  refine ⟨?_, ?_, hfound, culprit_of_error hfound, by rw [Error.position?_moved, hp]; rfl⟩
  · generalize hd' : d.handle .evaluate = d'
    cases hd' ▸ d.handled .evaluate with
    | edited he => cases he
    | blank => rfl
    | refused => rfl
    | evaluated => rfl
  · generalize hd' : d.handle .evaluate = d'
    cases hd' ▸ d.handled .evaluate with
    | edited he => cases he
    | blank hblank => exact absurd hblank hline
    | refused _ he =>
      obtain rfl := Except.error.inj (h.symm.trans he)
      exact ⟨e.category.text ++ " : " ++ before, by
        simp only [reportError, hmessage, String.append_assoc]⟩
    | evaluated hev => cases h.symm.trans hev

/-- An unknown operator behind three blanks, and the end of a line behind two and in front of one. -/
theorem handle_evaluate_place_indented :
    (({ line := " \t\u00a02*$" } : Desk).handle .evaluate).error =
      "erreur lexicale : opérateur non reconnu '$' (position 2)" ∧
    Culprit " \t\u00a02*$" (.lexical (.unknownOperator '$' 5)) ∧
    (({ line := "  (1 " } : Desk).handle .evaluate).error =
      "erreur de syntaxe : jeton inattendu : fin de saisie, attendu : ')' (position 2)" ∧
    Culprit "  (1" (.unexpected .endOfInput (.kind .rightParen) 4) := by
  have hsymbol : evaluate (trimmed " \t\u00a02*$") = .error (.lexical (.unknownOperator '$' 2)) := by
    decide +kernel
  have hend : evaluate (trimmed "  (1 ") = .error (.unexpected .endOfInput (.kind .rightParen) 2) := by
    decide +kernel
  refine ⟨by decide +kernel, ?_, by decide +kernel, ?_⟩
  · exact (@handle_evaluate_place { line := " \t\u00a02*$" } _ 2 (by decide) hsymbol rfl).2.2.2.1
  · exact (@handle_evaluate_place { line := "  (1 " } _ 2 (by decide) hend rfl).2.2.2.1

/-- Behind one blank the place that is shown is that of the blank, not that of the operator. -/
theorem shown_place_indented :
    let d := run {} [.retype " $", .evaluate]
    d.line = " $" ∧ d.error = "erreur lexicale : opérateur non reconnu '$' (position 0)" ∧
      d.line.toList[0]? = some ' ' ∧ d.line.toList[1]? = some '$' := by
  decide +kernel

end Desk

end DeskCalculator
