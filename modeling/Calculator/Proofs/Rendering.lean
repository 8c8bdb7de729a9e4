import Calculator.Proofs.NumberText
import Calculator.Proofs.Rereading
/-!
Rendering. The text of a parsed formula is scanned as tokens from which the grammar derives its
rereading (`Formula.scannable`), so a rendered formula parses again, as the same formula if and
only if it has no infinite number (`parse_render`).
-/
namespace Calculator

variable {scope : Scope} {bare : Bool} {e : Element} {f : Formula} {elements rest : List Element}
  {fs : List Formula} {ts us vs ss : List Token} {t : Token} {op : Operator}
  {run signs : List Operator} {text : String}

section Derived

theorem SignRun.cons (ht : t.IsOperator op) (hs : op.isSign = true) (h : SignRun ss run) :
    SignRun (t :: ss) (op :: run) := by
  induction h with
  | nil => exact .snoc .nil ht (Operator.isSign_iff.1 hs)
  | snoc h ht' hs' ih => exact .snoc ih ht' hs'

inductive Derives (scope : Scope) : List Token → Element → Prop
  | operator {t : Token} {op : Operator} (ht : t.IsOperator op) : Derives scope [t] (.operator op)
  | operand {bare : Bool} {us : List Token} {e : Element} (h : IsOperand scope bare us e) :
      Derives scope us e

/-- The tokens derive the elements one by one, whether or not these are a formula. -/
inductive Yields (scope : Scope) : List Token → List Element → Prop
  | nil : Yields scope [] []
  | cons {ts us : List Token} {e : Element} {rest : List Element} (h : Derives scope ts e)
      (hr : Yields scope us rest) : Yields scope (ts ++ us) (e :: rest)

theorem Derives.isOperator (h : Derives scope ts (.operator op)) :
    ∃ t, ts = [t] ∧ t.IsOperator op := by
  cases h with
  | operator ht => exact ⟨_, rfl, ht⟩
  | operand h => cases h

theorem Derives.isOperand (h : Derives scope ts e) (he : e.isOperand = true) :
    ∃ bare, IsOperand scope bare ts e := by
  cases h with
  | operator ht => cases he
  | operand h => exact ⟨_, h⟩

theorem Yields.operand (hs : AllSigns signs) (he : e.isOperand = true)
    (h : Yields scope ts (signs.map .operator ++ e :: rest)) :
    ∃ bare ss us vs, ts = ss ++ us ++ vs ∧ SignRun ss signs ∧ IsOperand scope bare us e ∧
      Yields scope vs rest := by
  induction signs generalizing ts with
  | nil =>
    cases h with
    | cons h hr =>
      obtain ⟨bare, hu⟩ := h.isOperand he
      exact ⟨bare, [], _, _, rfl, .nil, hu, hr⟩
  | cons op signs ih =>
    cases h with
    | cons h hr =>
      obtain ⟨t, rfl, ht⟩ := h.isOperator
      obtain ⟨bare, ss, us, vs, rfl, hss, hu, hv⟩ := ih hs.tail hr
      exact ⟨bare, t :: ss, us, vs, rfl, hss.cons ht hs.head, hu, hv⟩

theorem Yields.terms {before : List Element} (hr : Terms rest) (h : Yields scope us rest)
    (hf : IsFormula scope bare ts before) :
    ∃ bare, IsFormula scope bare (ts ++ us) (before ++ rest) := by
  induction hr generalizing bare ts us before with
  | nil =>
    cases h with
    | nil =>
      rw [List.append_nil, List.append_nil]
      exact ⟨bare, hf⟩
  | cons op hs he hr ih =>
    cases h with
    | cons h hr' =>
      obtain ⟨t, rfl, ht⟩ := h.isOperator
      obtain ⟨_, ss, ws, vs, rfl, hss, hu, hv⟩ := hr'.operand hs he
      obtain ⟨bare', hf'⟩ := ih hv (hf.term ht hss hu)
      exact ⟨bare', by simpa using hf'⟩

theorem Yields.formula (hp : Plain elements) (h : Yields scope ts elements) :
    ∃ bare, IsFormula scope bare ts elements := by
  cases hp with
  | mk hs he hr =>
    obtain ⟨_, ss, us, vs, rfl, hss, hu, hv⟩ := h.operand hs he
    obtain ⟨bare, hf⟩ := hv.terms hr (.start hss hu)
    exact ⟨bare, by simpa using hf⟩

end Derived

section Unmultiplied

def NoProducts (ts : List Token) : Prop := ts.IsChain fun t next => multiplies t next = false

theorem multiplies_eq_false {u : Token}
    (h : (t.kind ≠ .number ∧ t.kind ≠ .identifier) ∨ u.kind ≠ .identifier) :
    multiplies t u = false := by
  rcases h with ⟨hn, hi⟩ | h
  · simp [multiplies, hn, hi]
  · simp [multiplies, h]

theorem NoProducts.cons (hk : t.kind ≠ .number ∧ t.kind ≠ .identifier) (h : NoProducts ts) :
    NoProducts (t :: ts) :=
  List.isChain_cons.2 ⟨fun _ _ => multiplies_eq_false (.inl hk), h⟩

theorem NoProducts.append_cons (ht : NoProducts ts) (hk : t.kind ≠ .identifier)
    (hu : NoProducts (t :: us)) : NoProducts (ts ++ t :: us) := by
  refine List.isChain_append.2 ⟨ht, hu, fun u _ v hv => ?_⟩
  cases hv
  exact multiplies_eq_false (.inr hk)

theorem noProducts_singleton (t : Token) : NoProducts [t] := List.isChain_singleton t

theorem NoProducts.behind_signs (hs : SignRun ss signs) (hu : NoProducts us) :
    NoProducts (ss ++ us) := by
  have hkind : ∀ t ∈ ss, t.kind = .operator := by
    induction hs with
    | nil => exact List.forall_mem_nil _
    | snoc h ht hsign ih =>
      intro t hm
      rcases List.mem_append.1 hm with hm | hm
      · exact ih t hm
      · rw [List.mem_singleton.1 hm]
        exact ht.1
  clear hs
  induction ss with
  | nil => exact hu
  | cons s ss ih =>
    have hs : s.kind = .operator := hkind s List.mem_cons_self
    have htail := ih fun t ht => hkind t (List.mem_cons_of_mem s ht)
    exact htail.cons (by rw [hs]; decide)

/-- The operands of a derivation, of which the statement is already known. -/
def SeparateOperand (scope : Scope) (bare : Bool) (us : List Token) (e : Element) : Prop :=
  IsOperand scope bare us e ∧ NoProducts us

theorem SeparateOperand.formula (h : FormulaOf (SeparateOperand scope) bare ts elements) :
    NoProducts ts := by
  induction h with
  | start hs hu => exact .behind_signs hs hu.2
  | term h ht hs hu ih =>
    have hk := ht.1
    apply ih.append_cons (by rw [hk]; decide)
    exact (NoProducts.behind_signs hs hu.2).cons (by rw [hk]; decide)
  | product h hg ih =>
    obtain ⟨o, vs, rfl, ho⟩ := hg.1.exists_opening
    exact ih.append_cons (by rw [ho]; decide) hg.2

theorem SeparateOperand.arguments (h : ArgumentsOf scope (SeparateOperand scope) ts fs) :
    NoProducts ts := by
  induction h with
  | one h => exact SeparateOperand.formula h
  | more hf ht h ih =>
    apply ih.append_cons (by rw [ht]; decide)
    exact (SeparateOperand.formula h).cons (by rw [ht]; decide)

theorem NoProducts.parenthesized {o c : Token} (ho : o.kind = .opening) (hc : c.kind = .closing)
    (h : NoProducts us) : NoProducts (o :: (us ++ [c])) := by
  apply NoProducts.cons (by rw [ho]; decide)
  exact h.append_cons (by rw [hc]; decide) (noProducts_singleton c)

/-- In a derivation a name stands behind an operator, a comma or an opening parenthesis only. -/
theorem IsOperand.noProducts (h : IsOperand scope bare us e) : NoProducts us := by
  refine IsOperand.induct (motive := fun _ us _ => NoProducts us) ?_ ?_ ?_ ?_ ?_ h
  · intro t x ht hx
    exact noProducts_singleton t
  · intro t ht
    exact noProducts_singleton t
  · intro t o c ht ho hc
    have hp : NoProducts (o :: ([] ++ [c])) := .parenthesized ho hc .nil
    exact (noProducts_singleton t).append_cons (by rw [ho]; decide) hp
  · intro t o c us fs ht ho h hc
    have hp := NoProducts.parenthesized ho hc (SeparateOperand.arguments h)
    exact (noProducts_singleton t).append_cons (by rw [ho]; decide) hp
  · intro bare o c us elements ho h hc
    exact .parenthesized ho hc (SeparateOperand.formula h)

theorem FormulaOf.noProducts (h : IsFormula scope bare ts elements) : NoProducts ts :=
  SeparateOperand.formula (h.imp fun _ _ _ hu => ⟨hu, hu.noProducts⟩)

theorem NoProducts.withMultiplications (h : NoProducts ts) : withMultiplications ts = ts := by
  induction ts with
  | nil => rfl
  | cons t ts ih =>
    cases ts with
    | nil => rfl
    | cons next ts =>
      obtain ⟨hm, ht⟩ := List.isChain_cons_cons.1 h
      rw [Calculator.withMultiplications, hm, ih ht]
      rfl

/-- Nothing is put in between tokens that no multiplication is understood between. -/
theorem NoProducts.scan {cs : List Char} {position : Nat} (h : NoProducts ts)
    (hs : Scans 0 cs [] ts) (hp : 0 + cs.length = position) :
    Calculator.scan cs = .ok (ts ++ [.atEnd position]) := by
  have hfrom : scanFrom 0 cs = .ok (ts ++ [.atEnd position]) := hp ▸ hs.scanFrom
  have hkind : (Token.atEnd position).kind ≠ .identifier := by
    intro h
    cases h
  have hall := h.append_cons hkind (noProducts_singleton _)
  rw [Calculator.scan, hfrom]
  exact congrArg Except.ok hall.withMultiplications

end Unmultiplied

section Scanned

variable {position : Nat} {tail : List Char}

/-- The text of the element is scanned as tokens that derive its rereading. -/
def Element.Scannable (scope : Scope) (e : Element) : Prop :=
  ∀ position tail, (e.isOperand = true → Delimited tail) →
    ∃ ts, Scans position (Element.render e).toList tail ts ∧ Derives scope ts e.reread

def Formula.Scannable (scope : Scope) (f : Formula) : Prop :=
  ∀ position tail, Delimited tail →
    ∃ bare ts, Scans position (Element.renderFormula f).toList tail ts ∧
      IsFormula scope bare ts f.reread.elements

theorem gap_cases (before previous : Option Element) (e : Element) :
    Element.gap before previous e = "" ∨ Element.gap before previous e = " " := by
  rw [Element.gap.eq_def]
  split
  · exact .inl rfl
  · split
    · exact .inl rfl
    · split
      · exact .inl rfl
      · exact .inr rfl

theorem scans_gap (before previous : Option Element) (e : Element) :
    Scans position (Element.gap before previous e).toList tail [] := by
  rcases gap_cases before previous e with h | h
  · rw [h]
    exact .nil
  · rw [h]
    exact scans_blank

theorem gap_behind_operand {before : Option Element} {next : Element} (he : e.isOperand = true)
    (hn : next.kind ≠ .comma) : Element.gap before (some e) next = " " := by
  have hs : Element.isSignAfter before e = false := by
    cases e with
    | operator op => cases he
    | _ => rfl
  cases next with
  | comma => exact absurd rfl hn
  | _ => simp only [Element.gap, hs, Bool.false_eq_true, ↓reduceIte]

/-- What is written behind an operand begins with a blank. -/
theorem delimited_renderFrom {before : Option Element} (he : e.isOperand = true)
    (hc : ∀ e ∈ elements, e.kind ≠ .comma) (ht : Delimited tail) :
    Delimited ((Element.renderFrom before (some e) elements).toList ++ tail) := by
  cases elements with
  | nil => exact ht
  | cons next rest =>
    rw [Element.renderFrom, gap_behind_operand he (hc next List.mem_cons_self)]
    simp only [String.toList_append, List.append_assoc]
    exact delimited_cons (.inl rfl)

theorem scans_renderFrom {before previous : Option Element}
    (h : ∀ e ∈ elements, e.Scannable scope) (hc : ∀ e ∈ elements, e.kind ≠ .comma)
    (ht : Delimited tail) :
    ∃ ts, Scans position (Element.renderFrom before previous elements).toList tail ts ∧
      Yields scope ts (rereadElements elements) := by
  induction elements generalizing position before previous with
  | nil => exact ⟨[], .nil, .nil⟩
  | cons e rest ih =>
    -- A lexeme that could go on ends here, for behind an operand stands a blank or the end.
    have hrest : ∀ e' ∈ rest, e'.kind ≠ .comma := fun e' he => hc e' (List.mem_cons_of_mem e he)
    rw [Element.renderFrom, String.toList_append, String.toList_append, List.append_assoc]
    obtain ⟨ts, hs, hd⟩ := h e List.mem_cons_self _
      ((Element.renderFrom previous (some e) rest).toList ++ tail)
      fun he => delimited_renderFrom he hrest ht
    obtain ⟨us, hu, hy⟩ := ih (fun e' he => h e' (List.mem_cons_of_mem e he)) hrest
    exact ⟨ts ++ us, (scans_gap before previous e).append (hs.append hu), .cons hd hy⟩

theorem Formula.scannable (hp : Plain f.elements) (h : ∀ e ∈ f.elements, e.Scannable scope) :
    f.Scannable scope := by
  intro position tail ht
  cases f with
  | mk scope' elements =>
    obtain ⟨ts, hs, hy⟩ := scans_renderFrom h hp.kind_ne_comma ht
    rw [rereadElements_eq_map] at hy
    obtain ⟨bare, hf⟩ := hy.formula hp.reread
    rw [← rereadElements_eq_map] at hf
    exact ⟨bare, ts, hs, hf⟩

theorem Formula.reread_eq_mk (h : f.scope = scope) : f.reread = .mk scope f.reread.elements := by
  cases f with
  | mk scope' elements =>
    rw [← h]
    rfl

theorem scans_arguments (h : ∀ g ∈ f :: fs, g.scope = scope ∧ g.Scannable scope)
    (ht : Delimited tail) :
    ∃ ts, Scans position (", ".intercalate (Element.renderFormulas (f :: fs))).toList tail ts ∧
      IsArguments scope ts (rereadFormulas (f :: fs)) := by
  induction fs generalizing f position with
  | nil =>
    obtain ⟨hscope, hscan⟩ := h f List.mem_cons_self
    obtain ⟨bare, ts, hs, hf⟩ := hscan position tail ht
    rw [Element.renderFormulas, Element.renderFormulas, String.intercalate_singleton,
      rereadFormulas, rereadFormulas, Formula.reread_eq_mk hscope]
    exact ⟨ts, hs, .one hf⟩
  | cons g fs ih =>
    obtain ⟨hscope, hscan⟩ := h f List.mem_cons_self
    have hrest : ∀ g' ∈ g :: fs, g'.scope = scope ∧ g'.Scannable scope :=
      fun g' hg => h g' (List.mem_cons_of_mem f hg)
    obtain ⟨bare, ts, hs, hf⟩ := hscan position
      (',' :: ' ' :: ((", ".intercalate (Element.renderFormulas (g :: fs))).toList ++ tail))
      (delimited_cons (.inr (.inl rfl)))
    obtain ⟨us, hu, ha⟩ := ih hrest
    have htext : (", ".intercalate (Element.renderFormulas (f :: g :: fs))).toList =
        (Element.renderFormula f).toList ++ ([','] ++ ([' '] ++
          (", ".intercalate (Element.renderFormulas (g :: fs))).toList)) := by
      simp only [Element.renderFormulas, String.intercalate_cons_cons, String.toList_append,
        List.append_assoc]
      rfl
    rw [htext, rereadFormulas, Formula.reread_eq_mk hscope]
    exact ⟨ts ++ ⟨.comma, [','], _⟩ :: us,
      hs.append ((scans_mark .comma (by decide) (by decide)).append (scans_blank.append hu)),
      .cons hf rfl ha⟩

theorem isName_inf : IsName "inf".toList := by
  have hall : ['n', 'f'].all Lexeme.isNameChar = true := by decide
  exact ⟨'i', ['n', 'f'], rfl, by decide, List.all_eq_true.1 hall⟩

theorem scannable_name {name : String} (hn : IsName name.toList) :
    Element.Scannable scope (.variable name) := by
  intro position tail ht
  obtain ⟨t, hk, rfl, hs⟩ := scans_name hn (ht rfl)
  exact ⟨_, hs, .operand (.variable hk)⟩

/-- The text of a number is scanned as the number, or as a name if the number is infinite. -/
theorem scannable_number {x : Float} (hx : Unsigned x) : Element.Scannable scope (.number x) := by
  intro position tail ht
  rw [Element.render, Element.reread]
  split
  · next hinf =>
    rw [hx.numeral_of_isInfinite hinf]
    exact scannable_name isName_inf position tail ht
  · next hfin =>
    obtain ⟨hn, hr⟩ := hx.numeral_reads (Bool.eq_false_iff.2 hfin)
    exact ⟨_, (Lexical.number hn).scans fun _ => ht rfl, .operand (.number rfl hr)⟩

theorem scannable_operator (op : Operator) : Element.Scannable scope (.operator op) := by
  intro position tail _
  rw [Element.render, Char.toString_eq_singleton, String.toList_singleton]
  exact ⟨_, scans_mark (.operator op) (by decide) (by decide), .operator ⟨rfl, rfl⟩⟩

theorem scannable_group {inner : Formula} (hi : inner.scope = scope)
    (h : inner.Scannable scope) : Element.Scannable scope (.group inner) := by
  intro position tail _
  obtain ⟨bare, ts, hs, hf⟩ := h (position + 1) (')' :: tail) (delimited_cons (by simp))
  obtain ⟨o, c, ho, hc, hp⟩ := scans_parenthesized hs
  have htext : (Element.render (.group inner)).toList =
      ['('] ++ ((Element.renderFormula inner).toList ++ [')']) := by
    simp [Element.render]
  rw [htext, Element.reread, Formula.reread_eq_mk hi]
  exact ⟨_, hp, .operand (.group ho hf hc)⟩

theorem scans_arguments_or_none (h : ∀ f ∈ fs, f.scope = scope ∧ f.Scannable scope)
    (ht : Delimited tail) :
    ∃ ts, Scans position (", ".intercalate (Element.renderFormulas fs)).toList tail ts ∧
      (fs = [] ∧ ts = [] ∨ IsArguments scope ts (rereadFormulas fs)) := by
  cases fs with
  | nil => exact ⟨[], .nil, .inl ⟨rfl, rfl⟩⟩
  | cons f fs =>
    obtain ⟨ts, hs, ha⟩ := scans_arguments h ht
    exact ⟨ts, hs, .inr ha⟩

theorem scannable_call {name : String} (hn : IsName name.toList)
    (h : ∀ f ∈ fs, f.scope = scope ∧ f.Scannable scope) :
    Element.Scannable scope (.call name fs) := by
  intro position tail _
  have htext : (Element.render (.call name fs)).toList = name.toList ++
      (['('] ++ ((", ".intercalate (Element.renderFormulas fs)).toList ++ [')'])) := by
    simp [Element.render]
  obtain ⟨t, hk, hname, hs⟩ := scans_name hn (delimited_cons (.inr (.inr (.inl rfl))))
  obtain ⟨ts, hargs, ha⟩ := scans_arguments_or_none h (delimited_cons (.inr (.inr (.inr rfl))))
  obtain ⟨o, c, ho, hc, hp⟩ := scans_parenthesized hargs
  have hcall : IsOperand scope false (t :: o :: (ts ++ [c])) (.call t.text (rereadFormulas fs)) := by
    rcases ha with ⟨hnone, hts⟩ | ha
    · rw [hnone, hts]
      exact .callOfNone hk ho hc
    · exact .call hk ho ha hc
  rw [hname] at hcall
  rw [htext, Element.reread]
  exact ⟨_, hs.append hp, .operand hcall⟩

/-- The text of whatever a text is read as is scanned as its rereading. -/
theorem Element.Parsed.scannable (h : e.Parsed scope) : e.Scannable scope := by
  induction h with
  | number hx => exact scannable_number hx
  | operator op => exact scannable_operator op
  | name hn => exact scannable_name hn
  | call hn hs hp he ih =>
    exact scannable_call hn fun f hf => ⟨hs f hf, Formula.scannable (hp f hf) (ih f hf)⟩
  | group hs hp he ih => exact scannable_group hs (Formula.scannable hp ih)

end Scanned

section RoundTrip

theorem Element.Parsed.exists_not_blank (h : e.Parsed scope) :
    ∃ c ∈ (Element.render e).toList, Text.isBlank c = false := by
  have hname {cs : List Char} (hn : IsName cs) : ∃ c ∈ cs, Text.isBlank c = false := by
    obtain ⟨c, cs, rfl, hc, _⟩ := hn
    exact ⟨c, List.mem_cons_self, isBlank_of_isNameStart hc⟩
  cases h with
  | @number x hx =>
    rw [Element.render]
    by_cases hf : Double.isInfinite x = true
    · rw [hx.numeral_of_isInfinite hf]
      exact hname isName_inf
    · obtain ⟨c, cs, hcs, hc⟩ := (hx.numeral_reads (Bool.eq_false_iff.2 hf)).1.head
      refine ⟨c, by rw [hcs]; exact List.mem_cons_self, ?_⟩
      rcases hc with hc | rfl
      · exact isBlank_of_isDigit hc
      · decide
  | operator op => exact ⟨op.symbol, by simp [Element.render], by cases op <;> decide⟩
  | name hn => exact hname hn
  | call hn hs hp he => exact ⟨'(', by simp [Element.render], by decide⟩
  | group hs hp he => exact ⟨'(', by simp [Element.render], by decide⟩

theorem Formula.Parsed.render_not_blank (h : f.Parsed scope) :
    f.render.toList.all Text.isBlank = false := by
  cases f with
  | mk scope' elements =>
    cases elements with
    | nil => exact absurd rfl h.plain.ne_nil
    | cons e rest =>
      obtain ⟨c, hc, hb⟩ := (h.elements e List.mem_cons_self).exists_not_blank
      rw [List.all_eq_false]
      refine ⟨c, ?_, Bool.eq_false_iff.1 hb⟩
      change c ∈ (Element.gap none none e ++ Element.render e ++ _ : String).toList
      simp only [String.toList_append, List.mem_append]
      exact .inl (.inr hc)

theorem Formula.Parsed.ofText_render (h : f.Parsed scope) :
    Formula.ofText scope f.render = .ok f.reread := by
  have hscan : f.Scannable scope :=
    Formula.scannable h.plain fun e he => (h.elements e he).scannable
  obtain ⟨bare, ts, hs, hd⟩ := hscan 0 [] .nil
  rw [Formula.reread_eq_mk h.scope_eq, ← Formula.parse_result]
  exact hd.parse h.render_not_blank (hd.noProducts.scan hs rfl)

/-- A formula that a text is read as is written so that it reads again, as the same formula if and
only if it has no infinite number. -/
theorem parse_render (h : (Formula.parse scope text).result = .ok f) :
    (Formula.parse scope f.render).result = .ok f.reread ∧
      (f.reread = f ↔ f.IsFinite) ∧ (Element.sameFormula f.reread f = true ↔ f.IsFinite) := by
  rw [Formula.parse_result] at h ⊢
  have hread : Formula.ofText scope f.render = .ok f.reread ∧
      ∀ e ∈ f.elements, e.Parsed scope := by
    by_cases hb : text.toList.all Text.isBlank = true
    -- A blank text is read as no elements, and no elements are written as a blank text.
    · obtain ⟨elements, hr, rfl⟩ := Formula.ofText_ok.1 h
      rw [readElements, if_pos hb] at hr
      cases hr
      exact ⟨rfl, List.forall_mem_nil _⟩
    · have hf := parsed_of_ofText (Bool.eq_false_iff.2 hb) h
      exact ⟨hf.ofText_render, hf.elements⟩
  obtain ⟨hr, he⟩ := hread
  refine ⟨hr, ⟨fun hself => ?_, Formula.reread_of_isFinite he⟩, isFinite_of_same_reread, fun hf => ?_⟩
  · exact isFinite_of_same_reread (Formula.same_of_reread he hself)
  · exact Formula.same_of_reread he (Formula.reread_of_isFinite he hf)

def overflow : List Element := [.variable "y", .operator .subtract, .number Double.infinity]

theorem isInfinite_infinity : Double.isInfinite Double.infinity = true := by
  rw [Double.isInfinite, Double.infinity, Double.rank_ofRank le_rfl]
  rfl

theorem readChars?_overflow :
    Decimal.readChars? ['1', 'e', '4', '0', '0'] = some Double.infinity := by
  have hone : Digits ['1'] := (asciiDigits_toDigits 1).digits
  have hmark : Exponent ['e', '4', '0', '0'] :=
    @Exponent.marked 'e' [] _ (.inl rfl) (.inl rfl) (asciiDigits_toDigits 400).digits nofun
  have hn : Numeral (['1'] ++ [] ++ ['e', '4', '0', '0']) := .mk hone .absent hmark (.inl nofun)
  have hu : Decimal.unsigned? ['1', 'e', '4', '0', '0'] = some (1, 400) := by decide
  have hlarge : Decimal.rankOfDecimal 1 400 = Double.infinityRank := by
    rw [Decimal.rankOfDecimal, if_neg one_ne_zero]
    exact if_pos (by decide)
  have hread := Decimal.readChars?_numeral hn hu
  rw [hlarge] at hread
  exact hread

theorem parse_overflow :
    (Formula.parse ⟨0, 0⟩ "y - 1e400").result = .ok (.mk ⟨0, 0⟩ overflow) := by
  have hb : "y - 1e400".toList.all Text.isBlank = false := by decide
  have hs : scan "y - 1e400".toList = .ok ([⟨.identifier, ['y'], 0⟩, ⟨.operator, ['-'], 2⟩,
      ⟨.number, ['1', 'e', '4', '0', '0'], 4⟩] ++ [.atEnd 9]) := by decide +kernel
  have hy : IsFormula ⟨0, 0⟩ false [⟨.identifier, ['y'], 0⟩] [.variable "y"] :=
    .start .nil (.variable rfl)
  have hx : IsOperand ⟨0, 0⟩ true [⟨.number, ['1', 'e', '4', '0', '0'], 4⟩]
      (.number Double.infinity) := .number rfl readChars?_overflow
  have hminus : Token.IsOperator ⟨.operator, ['-'], 2⟩ .subtract := ⟨rfl, rfl⟩
  exact (hy.term hminus .nil hx).parse hb hs

/-- The text of an infinite number is a name. -/
theorem parse_render_overflow :
    (Formula.parse ⟨0, 0⟩ "y - 1e400").result = .ok (.mk ⟨0, 0⟩ overflow) ∧
      (Formula.parse ⟨0, 0⟩ (Formula.mk ⟨0, 0⟩ overflow).render).result =
        .ok (.mk ⟨0, 0⟩ [.variable "y", .operator .subtract, .variable "inf"]) ∧
      Element.sameFormula (Formula.mk ⟨0, 0⟩ overflow).reread (.mk ⟨0, 0⟩ overflow) = false := by
  obtain ⟨hr, _, hsame⟩ := parse_render parse_overflow
  refine ⟨parse_overflow, ?_, ?_⟩
  · rw [hr]
    simp [overflow, Formula.reread, rereadElements, Element.reread, isInfinite_infinity]
  · apply Bool.eq_false_iff.2
    intro h
    have hfin := hsame.1 h _ .refl Double.infinity (by simp [overflow, Formula.elements])
    rw [isInfinite_infinity] at hfin
    cases hfin

end RoundTrip

end Calculator
