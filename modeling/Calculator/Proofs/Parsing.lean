import Calculator.Proofs.Location
/-!
Parsing. A text is read as exactly the formulas that the grammar derives from its tokens
(`parse_grammar`), and every other text that has tokens is refused with its place.
-/
namespace Calculator

variable {scope : Scope} {bare : Bool} {r : Reading} {t : Token} {tokens body : List Token}
  {e : Element} {f : Frame} {elements : List Element} {length : Nat} {text : String}

/-- A failure that says where a text is no formula. -/
def Failure.IsParse (failure : Failure) : Prop :=
  ∃ fault position, failure = .parse fault position

theorem FormulaOf.read (h : IsFormula scope bare body elements) (position length : Nat) :
    ((body ++ [Token.atEnd position]).foldlM (Reading.step scope) {} >>= fun r =>
      r.finish length) = .ok elements := by
  obtain ⟨r, hr, hat⟩ := h.runs ⟨0, none, []⟩ [] (.empty _ _)
  obtain ⟨xs, last, rfl, ho, _⟩ := h.exists_last
  have hlast : r.step scope (.atEnd position) = _ :=
    (r.step_atEnd scope position).trans (hat.release (.atEnd position) (nomatch ·))
  change (List.foldlM (Reading.step scope) ⟨⟨0, none, []⟩, [], none⟩ _ >>= _) = _
  rw [foldlM_append_ok hr, foldlM_cons_ok hlast, List.foldlM_nil, pure_bind]
  have hcomplete : Frame.checkComplete _ length = _ :=
    Frame.checkComplete_of_last? (Frame.last?_extend_concat ⟨0, none, []⟩ xs last) ho length
  have hne : ((⟨0, none, []⟩ : Frame).extend (xs ++ [last])).elements.isEmpty = false := by
    simp [Frame.extend]
  simp only [Reading.finish, List.isEmpty_nil, Bool.not_true, hne, hcomplete]
  rfl

theorem exists_formula_of_read {position : Nat} (hb : ∀ t ∈ body, t.IsLexical)
    (h : ((body ++ [Token.atEnd position]).foldlM (Reading.step scope) {} >>= fun r =>
      r.finish length) = .ok elements) : ∃ bare, IsFormula scope bare body elements := by
  obtain ⟨r, hrun, hf⟩ := exists_of_bind_ok h
  rw [List.foldlM_append] at hrun
  obtain ⟨r₁, hbody, hend⟩ := exists_of_bind_ok hrun
  obtain ⟨r₂, hlast, hr⟩ := exists_of_bind_ok hend
  cases hr
  have hread := HasRead.start.run (fun t ht => (hb t ht).kind_ne_ending) hbody
  rw [List.nil_append] at hread
  rw [r₁.step_atEnd] at hlast
  exact hread.finish hlast hf

theorem readElements_eq {text : List Char} (hb : text.all Text.isBlank = false)
    (hs : scan text = .ok tokens) :
    readElements scope text = (tokens.foldlM (Reading.step scope) {} >>= fun r =>
      r.finish text.length) := by
  simp only [readElements, hb, Bool.false_eq_true, ↓reduceIte, scanText, hs]
  rfl

theorem Formula.ofText_ok {f : Formula} :
    Formula.ofText scope text = .ok f ↔
      ∃ elements, readElements scope text.toList = .ok elements ∧ f = .mk scope elements := by
  constructor
  · intro h
    obtain ⟨elements, hr, hf⟩ := exists_of_bind_ok h
    cases hf
    exact ⟨elements, hr, rfl⟩
  · rintro ⟨elements, hr, rfl⟩
    rw [Formula.ofText, hr]
    rfl

/-- A text parses as what the grammar derives from its tokens. -/
theorem FormulaOf.parse {position : Nat} (h : IsFormula scope bare body elements)
    (hb : text.toList.all Text.isBlank = false)
    (hs : scan text.toList = .ok (body ++ [.atEnd position])) :
    (Formula.parse scope text).result = .ok (.mk scope elements) := by
  rw [Formula.parse_result, Formula.ofText_ok]
  exact ⟨elements, (readElements_eq hb hs).trans (h.read position text.toList.length), rfl⟩

theorem exists_formula_of_ofText {f : Formula} (hb : text.toList.all Text.isBlank = false)
    (h : Formula.ofText scope text = .ok f) :
    ∃ body position bare elements, scan text.toList = .ok (body ++ [.atEnd position]) ∧
      (∀ t ∈ body, t.IsLexical) ∧ IsFormula scope bare body elements ∧ f = .mk scope elements := by
  obtain ⟨elements, hr, rfl⟩ := Formula.ofText_ok.1 h
  cases hs : scan text.toList with
  | ok tokens =>
    obtain ⟨body, position, rfl, hl⟩ := scan_complete hs
    rw [readElements_eq hb hs] at hr
    obtain ⟨bare, hf⟩ := exists_formula_of_read hl hr
    exact ⟨body, position, bare, elements, rfl, hl, hf, rfl⟩
  | error failure =>
    simp only [readElements, hb, Bool.false_eq_true, ↓reduceIte, scanText, hs] at hr
    cases hr

theorem parse_blank (hb : text.toList.all Text.isBlank = true) :
    (Formula.parse scope text).result = .ok (.mk scope []) := by
  rw [Formula.parse_result, Formula.ofText_ok]
  exact ⟨[], by rw [readElements, if_pos hb], rfl⟩

theorem parse_ok_iff {f : Formula} {position : Nat} (hb : text.toList.all Text.isBlank = false)
    (hs : scan text.toList = .ok (body ++ [.atEnd position])) :
    (Formula.parse scope text).result = .ok f ↔
      ∃ bare elements, IsFormula scope bare body elements ∧ f = .mk scope elements := by
  constructor
  · intro hp
    rw [Formula.parse_result] at hp
    obtain ⟨read, _, bare, elements, hread, _, hf, rfl⟩ := exists_formula_of_ofText hb hp
    obtain ⟨rfl, _⟩ := List.append_inj' (Except.ok.inj (hs.symm.trans hread)) rfl
    exact ⟨bare, elements, hf, rfl⟩
  · rintro ⟨bare, elements, hf, rfl⟩
    exact hf.parse hb hs

/-- A text that has tokens and is not blank parses as a formula if and only if the grammar derives
it from all the tokens but the one for the end; otherwise the failure tells of the text. -/
theorem parse_grammar (scope : Scope) (hb : text.toList.all Text.isBlank = false)
    (hs : scan text.toList = .ok tokens) :
    ∃ body position, tokens = body ++ [.atEnd position] ∧
      (∀ f, (Formula.parse scope text).result = .ok f ↔
        ∃ bare elements, IsFormula scope bare body elements ∧ f = .mk scope elements) ∧
      ∀ failure, (Formula.parse scope text).result = .error failure → failure.IsParse := by
  obtain ⟨body, position, rfl, hl⟩ := scan_complete hs
  refine ⟨body, position, rfl, fun f => ?_, fun failure hf => ?_⟩
  · constructor
    · rw [Formula.parse_result, Formula.ofText_ok, readElements_eq hb hs]
      rintro ⟨elements, hr, rfl⟩
      obtain ⟨bare, hf⟩ := exists_formula_of_read hl hr
      exact ⟨bare, elements, hf, rfl⟩
    · rintro ⟨bare, elements, hf, rfl⟩
      exact hf.parse hb hs
  · have hlies := parse_meets scope text
    rw [hf] at hlies
    obtain ⟨fault, position, rfl, _⟩ := hlies
    exact ⟨fault, position, rfl⟩

def bareGroup : List Token :=
  [⟨.opening, ['('], 0⟩, ⟨.identifier, ['x'], 1⟩, ⟨.closing, [')'], 2⟩, ⟨.opening, ['('], 3⟩,
    ⟨.operator, ['-'], 4⟩, ⟨.identifier, ['y'], 5⟩, ⟨.closing, [')'], 6⟩]

def bareGroupElements (scope : Scope) : List Element :=
  [.group (.mk scope [.variable "x"]), .operator .multiply,
    .group (.mk scope [.operator .subtract, .variable "y"])]

theorem isFormula_bareGroup (scope : Scope) :
    IsFormula scope true bareGroup (bareGroupElements scope) := by
  have hx : IsFormula scope false [⟨.identifier, ['x'], 1⟩] [.variable "x"] :=
    .start .nil (.variable rfl)
  have hy : IsFormula scope false [⟨.operator, ['-'], 4⟩, ⟨.identifier, ['y'], 5⟩]
      [.operator .subtract, .variable "y"] :=
    .start (.snoc .nil ⟨rfl, rfl⟩ (.inr rfl)) (.variable rfl)
  exact .product (.start .nil (IsOperand.group rfl hx rfl)) (IsOperand.group rfl hy rfl)

theorem parse_bareGroup :
    (Formula.parse ⟨0, 0⟩ "(x)(-y)").result = .ok (.mk ⟨0, 0⟩ (bareGroupElements ⟨0, 0⟩)) := by
  have hb : "(x)(-y)".toList.all Text.isBlank = false := by decide
  have hs : scan "(x)(-y)".toList = .ok (bareGroup ++ [.atEnd 7]) := by decide +kernel
  obtain ⟨body, position, ht, hf, _⟩ := parse_grammar ⟨0, 0⟩ hb hs
  obtain ⟨rfl, _⟩ := List.append_inj' ht rfl
  exact (hf _).2 ⟨true, _, isFormula_bareGroup ⟨0, 0⟩, rfl⟩

end Calculator
