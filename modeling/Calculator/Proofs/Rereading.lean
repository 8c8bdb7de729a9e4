import Calculator.Proofs.Double
import Calculator.Proofs.Parsed
/-!
Formulas as their texts read. The text of an infinite number is a name, and `Formula.reread` puts
that name in its place. A formula of parsed elements without infinite numbers stays as it is
(`Formula.reread_of_isFinite`), and any other one becomes one that is not the same
(`isFinite_of_same_reread`).
-/
namespace Calculator

mutual
/-- An element with the name `inf` in the place of each infinite number. -/
def Element.reread : Element → Element
  | .number x => if Double.isInfinite x then .variable "inf" else .number x
  | .operator op => .operator op
  | .group inner => .group inner.reread
  | .call name arguments => .call name (rereadFormulas arguments)
  | .variable name => .variable name
  | .comma => .comma

def Formula.reread : Formula → Formula
  | .mk scope elements => .mk scope (rereadElements elements)

def rereadFormulas : List Formula → List Formula
  | [] => []
  | f :: rest => f.reread :: rereadFormulas rest

def rereadElements : List Element → List Element
  | [] => []
  | e :: rest => e.reread :: rereadElements rest
end

def Formula.IsFinite (f : Formula) : Prop :=
  ∀ g : Formula, g.Within f → ∀ x, .number x ∈ g.elements → Double.isInfinite x = false

variable {scope : Scope} {f g : Formula} {e : Element} {x : Float} {elements : List Element}
  {fs : List Formula}

theorem Formula.Within.trans {h : Formula} (hg : g.Within f) (hh : h.Within g) : h.Within f := by
  induction hg with
  | refl => exact hh
  | group hm _ ih => exact .group hm ih
  | argument hm ha _ ih => exact .argument hm ha ih

theorem Formula.IsFinite.within (h : f.IsFinite) (hg : g.Within f) : g.IsFinite :=
  fun k hk => h k (hg.trans hk)

theorem Element.reread_isOperand (e : Element) : e.reread.isOperand = e.isOperand := by
  cases e with
  | number x =>
    rw [Element.reread]
    split <;> rfl
  | _ => rfl

theorem rereadElements_eq_map (elements : List Element) :
    rereadElements elements = elements.map Element.reread := by
  induction elements with
  | nil => rfl
  | cons e rest ih => rw [rereadElements, ih, List.map_cons]

theorem map_reread_signs (signs : List Operator) :
    (signs.map Element.operator).map Element.reread = signs.map .operator := by
  rw [List.map_map]
  rfl

theorem Terms.reread (h : Terms elements) : Terms (elements.map Element.reread) := by
  induction h with
  | nil => exact .nil
  | @cons signs e rest op hs he ht ih =>
    rw [List.map_cons, List.map_append, map_reread_signs, List.map_cons]
    exact .cons op hs (e.reread_isOperand.trans he) ih

theorem Plain.reread (h : Plain elements) : Plain (elements.map Element.reread) := by
  cases h with
  | @mk signs e rest hs he ht =>
    rw [List.map_append, map_reread_signs, List.map_cons]
    exact .mk hs (e.reread_isOperand.trans he) ht.reread

section Same

theorem same_reread_of_mem (h : Element.sameAll (rereadElements elements) elements = true)
    (he : e ∈ elements) : Element.same e.reread e = true := by
  induction elements with
  | nil => cases he
  | cons e' rest ih =>
    simp only [rereadElements, Element.sameAll, Bool.and_eq_true] at h
    rcases List.mem_cons.1 he with rfl | he
    · exact h.1
    · exact ih h.2 he

theorem sameFormula_reread_of_mem (h : Element.sameFormulas (rereadFormulas fs) fs = true)
    (hf : f ∈ fs) : Element.sameFormula f.reread f = true := by
  induction fs with
  | nil => cases hf
  | cons f' rest ih =>
    simp only [rereadFormulas, Element.sameFormulas, Bool.and_eq_true] at h
    rcases List.mem_cons.1 hf with rfl | hf
    · exact h.1
    · exact ih h.2 hf

theorem Formula.same_of_mem (h : Element.sameFormula f.reread f = true) (he : e ∈ f.elements) :
    Element.same e.reread e = true := by
  cases f with
  | mk scope elements =>
    rw [Formula.reread, Element.sameFormula] at h
    exact same_reread_of_mem h he

theorem sameFormula_reread_within (h : Element.sameFormula f.reread f = true)
    (hg : g.Within f) : Element.sameFormula g.reread g = true := by
  induction hg with
  | refl => exact h
  | group hm _ ih =>
    have hgroup := Formula.same_of_mem h hm
    rw [Element.reread, Element.same] at hgroup
    exact ih hgroup
  | argument hm ha _ ih =>
    have hcall := Formula.same_of_mem h hm
    rw [Element.reread, Element.same, Bool.and_eq_true] at hcall
    exact ih (sameFormula_reread_of_mem hcall.2 ha)

/-- A formula that is the same as its rereading has no infinite number. -/
theorem isFinite_of_same_reread (h : Element.sameFormula f.reread f = true) : f.IsFinite := by
  intro g hg x hx
  have hsame := Formula.same_of_mem (sameFormula_reread_within h hg) hx
  rw [Element.reread] at hsame
  split at hsame
  · simp [Element.same] at hsame
  · next hfin => exact Bool.eq_false_iff.2 hfin

theorem sameAll_self (h : ∀ e ∈ elements, Element.same e e = true) :
    Element.sameAll elements elements = true := by
  induction elements with
  | nil => rw [Element.sameAll]
  | cons e rest ih =>
    rw [Element.sameAll, h e List.mem_cons_self, Bool.true_and]
    exact ih fun e' he => h e' (List.mem_cons_of_mem e he)

theorem sameFormula_self (h : ∀ e ∈ f.elements, Element.same e e = true) :
    Element.sameFormula f f = true := by
  cases f with
  | mk scope elements =>
    rw [Element.sameFormula]
    exact sameAll_self h

theorem sameFormulas_self (h : ∀ f ∈ fs, Element.sameFormula f f = true) :
    Element.sameFormulas fs fs = true := by
  induction fs with
  | nil => rw [Element.sameFormulas]
  | cons f rest ih =>
    rw [Element.sameFormulas, h f List.mem_cons_self, Bool.true_and]
    exact ih fun f' hf => h f' (List.mem_cons_of_mem f hf)

/-- No number of a parsed formula is a nan, so each is the same as itself. -/
theorem Element.Parsed.same_self (h : e.Parsed scope) : Element.same e e = true := by
  induction h with
  | number hx =>
    obtain ⟨r, hr, rfl⟩ := hx
    rw [Element.same]
    exact Double.beq_self hr
  | operator op =>
    rw [Element.same]
    exact beq_self_eq_true op
  | name hn =>
    rw [Element.same]
    exact beq_self_eq_true _
  | call hn hs hp he ih =>
    rw [Element.same, beq_self_eq_true, Bool.true_and]
    exact sameFormulas_self fun f hf => sameFormula_self (ih f hf)
  | group hs hp he ih =>
    rw [Element.same]
    exact sameFormula_self ih

end Same

section Finite

theorem rereadElements_eq (h : ∀ e ∈ elements, e.reread = e) : rereadElements elements = elements := by
  rw [rereadElements_eq_map, List.map_congr_left h, List.map_id']

theorem Formula.reread_eq (h : ∀ e ∈ f.elements, e.reread = e) : f.reread = f := by
  cases f with
  | mk scope elements => exact congrArg (Formula.mk scope) (rereadElements_eq h)

theorem rereadFormulas_eq (h : ∀ f ∈ fs, f.reread = f) : rereadFormulas fs = fs := by
  induction fs with
  | nil => rfl
  | cons f rest ih =>
    rw [rereadFormulas, h f List.mem_cons_self, ih fun f' hf => h f' (List.mem_cons_of_mem f hf)]

/-- What stands in a formula without infinite numbers stays as it is. -/
theorem Element.Parsed.reread_eq (h : e.Parsed scope) (hf : f.IsFinite) (hm : e ∈ f.elements) :
    e.reread = e := by
  induction h generalizing f with
  | @number x hx =>
    rw [Element.reread, hf f .refl x hm]
    rfl
  | operator op => rfl
  | name hn => rfl
  | call hn hs hp he ih =>
    rw [Element.reread, rereadFormulas_eq fun g hg => ?_]
    exact Formula.reread_eq fun e he => ih g hg e he (hf.within (.argument hm hg .refl)) he
  | group hs hp he ih =>
    rw [Element.reread, Formula.reread_eq fun e he => ih e he (hf.within (.group hm .refl)) he]

theorem Formula.reread_of_isFinite (h : ∀ e ∈ f.elements, e.Parsed scope) (hf : f.IsFinite) :
    f.reread = f :=
  Formula.reread_eq fun e he => (h e he).reread_eq hf he

theorem Formula.same_of_reread (h : ∀ e ∈ f.elements, e.Parsed scope) (he : f.reread = f) :
    Element.sameFormula f.reread f = true := by
  rw [he]
  exact sameFormula_self fun e he => (h e he).same_self

end Finite

end Calculator
