import Calculator.Proofs.Parsing
/-!
Parsed formulas. `Formula.Parsed` is what holds at every depth of a formula that a text is read as
(`parsed_of_ofText`): one scope, plain sequences, names that can be scanned and no negative number.
-/
namespace Calculator

variable {scope : Scope} {bare : Bool} {ts us : List Token} {e : Element} {f g : Formula}
  {elements : List Element} {fs : List Formula} {text : String}

inductive Element.Parsed (scope : Scope) : Element → Prop
  | number {x : Float} (hx : Unsigned x) : Element.Parsed scope (.number x)
  | operator (op : Operator) : Element.Parsed scope (.operator op)
  | name {name : String} (hn : IsName name.toList) : Element.Parsed scope (.variable name)
  | call {name : String} {arguments : List Formula} (hn : IsName name.toList)
      (hs : ∀ f ∈ arguments, f.scope = scope) (hp : ∀ f ∈ arguments, Plain f.elements)
      (he : ∀ f ∈ arguments, ∀ e ∈ f.elements, Element.Parsed scope e) :
      Element.Parsed scope (.call name arguments)
  | group {inner : Formula} (hs : inner.scope = scope) (hp : Plain inner.elements)
      (he : ∀ e ∈ inner.elements, Element.Parsed scope e) : Element.Parsed scope (.group inner)

structure Formula.Parsed (scope : Scope) (f : Formula) : Prop where
  scope_eq : f.scope = scope
  plain : Plain f.elements
  elements : ∀ e ∈ f.elements, e.Parsed scope

theorem Element.Parsed.inner {inner : Formula} (h : Element.Parsed scope (.group inner)) :
    inner.Parsed scope := by
  cases h with
  | group hs hp he => exact ⟨hs, hp, he⟩

theorem Element.Parsed.argument {name : String} (h : Element.Parsed scope (.call name fs))
    (hf : f ∈ fs) : f.Parsed scope := by
  cases h with
  | call hn hs hp he => exact ⟨hs f hf, hp f hf, he f hf⟩

/-- `g.Within f`: the formula `g` is `f` or stands in it at some depth. -/
inductive Formula.Within (g : Formula) : Formula → Prop
  | refl : Formula.Within g g
  | group {f inner : Formula} (h : .group inner ∈ f.elements) (hg : Formula.Within g inner) :
      Formula.Within g f
  | argument {f argument : Formula} {name : String} {arguments : List Formula}
      (h : .call name arguments ∈ f.elements) (ha : argument ∈ arguments)
      (hg : Formula.Within g argument) : Formula.Within g f

theorem Formula.Parsed.within (h : f.Parsed scope) (hg : g.Within f) : g.Parsed scope := by
  induction hg with
  | refl => exact h
  | group hm hg ih => exact ih (h.elements _ hm).inner
  | argument hm ha hg ih => exact ih ((h.elements _ hm).argument ha)

section Derived

def AllLexical (ts : List Token) : Prop := ∀ t ∈ ts, t.IsLexical

theorem AllLexical.left (h : AllLexical (ts ++ us)) : AllLexical ts :=
  fun t ht => h t (List.mem_append_left us ht)

theorem AllLexical.right (h : AllLexical (ts ++ us)) : AllLexical us :=
  fun t ht => h t (List.mem_append_right ts ht)

theorem AllLexical.tail {t : Token} (h : AllLexical (t :: ts)) : AllLexical ts :=
  fun u hu => h u (List.mem_cons_of_mem t hu)

/-- The operands of a derivation, of which the statement is already known. -/
def ParsedOperand (scope : Scope) (bare : Bool) (us : List Token) (e : Element) : Prop :=
  IsOperand scope bare us e ∧ (AllLexical us → e.Parsed scope)

theorem ParsedOperand.formula (h : FormulaOf (ParsedOperand scope) bare ts elements)
    (hl : AllLexical ts) : (Formula.mk scope elements).Parsed scope where
  scope_eq := rfl
  plain := FormulaOf.plain (h.imp fun _ _ _ ho => ho.1)
  elements := by
    have hsigns (signs : List Operator) (e : Element) (he : e.Parsed scope) :
        ∀ e' ∈ signs.map .operator ++ [e], e'.Parsed scope := by
      intro e' hm
      rcases List.mem_append.1 hm with hm | hm
      · obtain ⟨op, _, rfl⟩ := List.mem_map.1 hm
        exact .operator op
      · rw [List.mem_singleton.1 hm]
        exact he
    change ∀ e ∈ elements, e.Parsed scope
    induction h with
    | start hs hu => exact hsigns _ _ (hu.2 hl.right)
    | term h ht hs hu ih =>
      intro e hm
      rcases List.mem_append.1 hm with hm | hm
      · exact ih hl.left e hm
      · rcases List.mem_cons.1 hm with rfl | hm
        · exact .operator _
        · exact hsigns _ _ (hu.2 hl.right.tail.right) e hm
    | product h hg ih =>
      intro e hm
      rcases List.mem_append.1 hm with hm | hm
      · exact ih hl.left e hm
      · exact hsigns [.multiply] _ (hg.2 hl.right) e hm

theorem ParsedOperand.arguments (h : ArgumentsOf scope (ParsedOperand scope) ts fs)
    (hl : AllLexical ts) : ∀ f ∈ fs, f.Parsed scope := by
  induction h with
  | one h =>
    intro f hm
    rw [List.mem_singleton.1 hm]
    exact ParsedOperand.formula h hl
  | more hf ht h ih =>
    intro f hm
    rcases List.mem_append.1 hm with hm | hm
    · exact ih hl.left f hm
    · rw [List.mem_singleton.1 hm]
      exact ParsedOperand.formula h hl.right.tail

theorem isName_text {t : Token} (h : t.IsLexical) (hk : t.kind = .identifier) :
    IsName t.text.toList := by
  rw [Token.IsLexical, hk] at h
  cases h with
  | identifier hn => simpa [Token.text] using hn

theorem IsOperand.parsed (h : IsOperand scope bare us e) : AllLexical us → e.Parsed scope := by
  refine IsOperand.induct (motive := fun _ us e => AllLexical us → e.Parsed scope)
    ?_ ?_ ?_ ?_ ?_ h
  · intro t x ht hx hl
    have hn := hl t List.mem_cons_self
    rw [Token.IsLexical, ht] at hn
    cases hn with
    | number hn =>
      obtain ⟨y, hy, hread⟩ := hn.read
      rw [hread] at hx
      cases hx
      exact .number hy
  · intro t ht hl
    exact .name (isName_text (hl t List.mem_cons_self) ht)
  · intro t o c ht ho hc hl
    exact .call (isName_text (hl t List.mem_cons_self) ht) (List.forall_mem_nil _)
      (List.forall_mem_nil _) (List.forall_mem_nil _)
  · intro t o c us fs ht ho h hc hl
    have hargs := ParsedOperand.arguments h hl.tail.tail.left
    exact .call (isName_text (hl t List.mem_cons_self) ht) (fun f hf => (hargs f hf).scope_eq)
      (fun f hf => (hargs f hf).plain) (fun f hf => (hargs f hf).elements)
  · intro bare o c us elements ho h hc hl
    have hf := ParsedOperand.formula h hl.tail.left
    exact .group hf.scope_eq hf.plain hf.elements

/-- What a text that is not blank is read as is parsed at every depth. -/
theorem parsed_of_ofText (hb : text.toList.all Text.isBlank = false)
    (h : Formula.ofText scope text = .ok f) : f.Parsed scope := by
  obtain ⟨_, _, _, _, _, hl, hf, rfl⟩ := exists_formula_of_ofText hb h
  exact ParsedOperand.formula (hf.imp fun _ _ _ ho => ⟨ho, ho.parsed⟩) hl

theorem parsed_of_parse (hb : text.toList.all Text.isBlank = false)
    (hp : (Formula.parse scope text).result = .ok f) : f.Parsed scope := by
  rw [Formula.parse_result] at hp
  exact parsed_of_ofText hb hp

end Derived

end Calculator
