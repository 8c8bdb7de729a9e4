import Calculator.Log.Event
import Calculator.Proofs.Operands
import Mathlib.Data.List.Nodup
/-!
Traces. What an evaluation tells of is the calls that it makes, from left to right and each behind
those in its arguments; a failure cuts them off at the first name that has no value
(`parse_traced`).
-/
namespace Calculator

/-- A variable or a call, with the place that it stands at. -/
structure Site where
  place : List Nat
  element : Element

def Site.below (index : Nat) (s : Site) : Site := { s with place := index :: s.place }

mutual
/-- The variables and calls in an element from left to right, a call behind those in its
arguments. -/
def Element.sites : Element → List Site
  | .group inner => inner.sites
  | .call name arguments => sitesOfArguments 0 arguments ++ [⟨[], .call name arguments⟩]
  | .variable name => [⟨[], .variable name⟩]
  | _ => []

def Formula.sites : Formula → List Site
  | .mk _ elements => sitesOfElements 0 elements

def sitesOfArguments (index : Nat) : List Formula → List Site
  | [] => []
  | f :: rest => f.sites.map (Site.below index) ++ sitesOfArguments (index + 1) rest

def sitesOfElements (index : Nat) : List Element → List Site
  | [] => []
  | e :: rest => e.sites.map (Site.below index) ++ sitesOfElements (index + 1) rest
end

/-- The environment of what stands at a place. -/
def Environment.atPlace (env : Environment) (place : List Nat) : Environment :=
  env.withDraws fun more => env.draws (place ++ more)

def Site.evaluate (env : Environment) (scope : Scope) (s : Site) : Run Float :=
  s.element.evaluate (env.atPlace s.place) scope

structure Log.Record.TellsParsed (text : String) (count : Nat) (r : Log.Record) : Prop where
  level : r.level = 10
  message : r.message = "Parsed expression"
  extras : r.extras = [("text", .text text), ("elements", .int count)]

structure Log.Record.TellsCall (name : String) (values : List Float) (r : Log.Record) : Prop where
  level : r.level = 10
  message : r.message = "Calling function"
  extras : r.extras = [("function", .text name), ("arguments", .list (values.map .number))]

/-- The formulas have these values, the first one at the index and each other one behind it. -/
def Formula.HaveValues (env : Environment) (index : Nat) (fs : List Formula)
    (values : List Float) : Prop :=
  List.Forall₂ (fun (f, i) x => (f.evaluate (env.inside i)).result = .ok x) (fs.zipIdx index) values

/-- The record tells of the call, with the values of its arguments in turn. -/
def Site.RecordedBy (env : Environment) (s : Site) (r : Log.Record) : Prop :=
  ∃ name arguments values, s.element = .call name arguments ∧
    Formula.HaveValues (env.atPlace s.place) 0 arguments values ∧ r.TellsCall name values

/-- The names all have values, and the events are those of the calls among them, one for each. -/
structure Told (env : Environment) (scope : Scope) (sites : List Site) (events : List Event) :
    Prop where
  valued : ∀ s ∈ sites, ∃ x, (s.evaluate env scope).result = .ok x
  recorded : List.Forall₂ (Site.RecordedBy env) (sites.filter (·.element.kind = .call))
    (events.map Event.record)

/-- A run with a result tells of all the calls; one that fails does so with the first name that has
no value, and tells of the calls in front of it. -/
def Traces {α : Type} (env : Environment) (scope : Scope) (sites : List Site) (r : Run α) :
    Prop :=
  match r.result with
  | .ok _ => Told env scope sites r.events
  | .error failure => ∃ before s behind, sites = before ++ s :: behind ∧
      (s.evaluate env scope).result = .error failure ∧ Told env scope before r.events

variable {env : Environment} {scope : Scope} {e : Element} {f g : Formula} {fs : List Formula}
  {elements : List Element} {sites more : List Site} {s : Site} {events later : List Event}
  {text : String} {index i : Nat}

section Sites

/-- What stands at some place among the sites. -/
def Site.Has (sites : List Site) (e : Element) : Prop := ∃ s ∈ sites, s.element = e

theorem Site.has_append : Site.Has (sites ++ more) e ↔ Site.Has sites e ∨ Site.Has more e := by
  simp only [Site.Has, List.mem_append, or_and_right, exists_or]

theorem Site.has_map_below : Site.Has (sites.map (Site.below index)) e ↔ Site.Has sites e := by
  simp [Site.Has, Site.below]

theorem Site.has_of_mem (he : e ∈ elements) {site : Element} (hs : Site.Has e.sites site) :
    Site.Has (sitesOfElements index elements) site := by
  induction elements generalizing index with
  | nil => cases he
  | cons e' rest ih =>
    rw [sitesOfElements, Site.has_append]
    rcases List.mem_cons.1 he with rfl | he
    · exact .inl (Site.has_map_below.2 hs)
    · exact .inr (ih he)

theorem Site.has_of_argument (hf : f ∈ fs) {site : Element} (hs : Site.Has f.sites site) :
    Site.Has (sitesOfArguments index fs) site := by
  induction fs generalizing index with
  | nil => cases hf
  | cons f' rest ih =>
    rw [sitesOfArguments, Site.has_append]
    rcases List.mem_cons.1 hf with rfl | hf
    · exact .inl (Site.has_map_below.2 hs)
    · exact .inr (ih hf)

theorem Formula.has_of_mem (he : e ∈ f.elements) {site : Element} (hs : Site.Has e.sites site) :
    Site.Has f.sites site := by
  obtain ⟨scope, elements⟩ := f
  rw [Formula.sites]
  exact Site.has_of_mem he hs

theorem Formula.Within.has_sites (h : g.Within f) {site : Element} (hs : Site.Has g.sites site) :
    Site.Has f.sites site := by
  induction h with
  | refl => exact hs
  | group hm hg ih =>
    apply Formula.has_of_mem hm
    rw [Element.sites]
    exact ih
  | argument hm ha hg ih =>
    apply Formula.has_of_mem hm
    rw [Element.sites, Site.has_append]
    exact .inl (Site.has_of_argument ha ih)

/-- No call is missing, at whatever depth. -/
theorem Formula.Within.has_call (h : g.Within f) (he : e ∈ g.elements) (hk : e.kind = .call) :
    Site.Has f.sites e := by
  apply h.has_sites
  apply Formula.has_of_mem he
  cases e with
  | call name arguments =>
    rw [Element.sites, Site.has_append]
    exact .inr ⟨_, List.mem_singleton_self _, rfl⟩
  | _ => cases hk

/-- No two sites have the same place. -/
def Site.Separate (sites : List Site) : Prop := (sites.map Site.place).Nodup

/-- The sites stand below indices that are not smaller than this one. -/
def Site.From (index : Nat) (sites : List Site) : Prop :=
  ∀ s ∈ sites, ∃ i more, s.place = i :: more ∧ index ≤ i

theorem Site.From.append (hm : Site.From (index + 1) more) :
    Site.From index (sites.map (Site.below index) ++ more) := by
  intro s hs
  rcases List.mem_append.1 hs with hs | hs
  · obtain ⟨s, _, rfl⟩ := List.mem_map.1 hs
    exact ⟨index, s.place, rfl, le_rfl⟩
  · obtain ⟨i, place, hp, hi⟩ := hm s hs
    exact ⟨i, place, hp, Nat.le_of_succ_le hi⟩

theorem Site.Separate.append (hs : Site.Separate sites) (hm : Site.Separate more)
    (hf : Site.From (index + 1) more) :
    Site.Separate (sites.map (Site.below index) ++ more) := by
  have hbelow : (sites.map (Site.below index)).map Site.place =
      (sites.map Site.place).map (index :: ·) := by
    rw [List.map_map, List.map_map]
    rfl
  rw [Site.Separate, List.map_append, hbelow]
  refine List.Nodup.append (hs.map (List.cons_injective)) hm ?_
  intro place hl hr
  obtain ⟨_, _, rfl⟩ := List.mem_map.1 hl
  obtain ⟨s, hsm, hs⟩ := List.mem_map.1 hr
  obtain ⟨i, _, hp, hi⟩ := hf s hsm
  rw [hp] at hs
  cases hs
  omega

mutual
/-- An evaluation comes to no place twice, so that every call has a random number of its own. -/
theorem Element.separate_sites : (e : Element) → Site.Separate e.sites
  | .group inner => by
    rw [Element.sites]
    exact inner.separate_sites
  | .call name arguments => by
    obtain ⟨hs, hf⟩ := separate_sitesOfArguments 0 arguments
    rw [Element.sites, Site.Separate, List.map_append]
    refine List.Nodup.append hs (List.nodup_singleton _) ?_
    intro place hl hr
    obtain ⟨s, hm, rfl⟩ := List.mem_map.1 hl
    obtain ⟨i, more, hp, _⟩ := hf s hm
    rw [hp] at hr
    cases List.mem_singleton.1 hr
  | .variable name => by
    rw [Element.sites]
    exact List.nodup_singleton _
  | .number _ | .operator _ | .comma => List.nodup_nil

theorem Formula.separate_sites : (f : Formula) → Site.Separate f.sites
  | .mk _ elements => (separate_sitesOfElements 0 elements).1

theorem separate_sitesOfArguments (index : Nat) : (fs : List Formula) →
    Site.Separate (sitesOfArguments index fs) ∧ Site.From index (sitesOfArguments index fs)
  | [] => ⟨List.nodup_nil, List.forall_mem_nil _⟩
  | f :: rest => by
    obtain ⟨hs, hf⟩ := separate_sitesOfArguments (index + 1) rest
    rw [sitesOfArguments]
    exact ⟨f.separate_sites.append hs hf, hf.append⟩

theorem separate_sitesOfElements (index : Nat) : (elements : List Element) →
    Site.Separate (sitesOfElements index elements) ∧
      Site.From index (sitesOfElements index elements)
  | [] => ⟨List.nodup_nil, List.forall_mem_nil _⟩
  | e :: rest => by
    obtain ⟨hs, hf⟩ := separate_sitesOfElements (index + 1) rest
    rw [sitesOfElements]
    exact ⟨e.separate_sites.append hs hf, hf.append⟩
end

end Sites

section Traces

variable {α β : Type} {r : Run α} {next : α → Run β}

theorem Told.nil : Told env scope [] [] := ⟨List.forall_mem_nil _, .nil⟩

theorem Told.append (h : Told env scope sites events) (hl : Told env scope more later) :
    Told env scope (sites ++ more) (events ++ later) where
  valued e he := (List.mem_append.1 he).elim (h.valued e) (hl.valued e)
  recorded := by
    rw [List.filter_append, List.map_append]
    exact List.rel_append h.recorded hl.recorded

theorem Told.below (h : Told (env.inside i) scope sites events) :
    Told env scope (sites.map (Site.below i)) events where
  valued := List.forall_mem_map.2 h.valued
  recorded := by
    rw [List.filter_map]
    exact List.forall₂_map_left_iff.2 h.recorded

/-- What is told inside of an index is told of the places below it. -/
theorem Traces.below (h : Traces (env.inside i) scope sites r) :
    Traces env scope (sites.map (Site.below i)) r := by
  rw [Traces] at h ⊢
  cases hr : r.result with
  | ok a =>
    rw [hr] at h
    exact Told.below h
  | error failure =>
    rw [hr] at h
    obtain ⟨before, s, behind, rfl, hs, hb⟩ := h
    exact ⟨before.map (Site.below i), s.below i, behind.map (Site.below i), List.map_append, hs,
      Told.below hb⟩

theorem Traces.pure {a : α} : Traces env scope [] (Pure.pure a) := Told.nil

/-- What is evaluated first tells first, and if it fails nothing is told behind it. -/
theorem Traces.bind (h : Traces env scope sites r)
    (hn : ∀ a, r.result = .ok a → Traces env scope more (next a)) :
    Traces env scope (sites ++ more) (r >>= next) := by
  obtain ⟨events, result⟩ := r
  cases result with
  | error failure =>
    obtain ⟨before, s, behind, rfl, hs, hb⟩ := h
    have hsplit : before ++ s :: behind ++ more = before ++ s :: (behind ++ more) := by simp
    exact ⟨before, s, behind ++ more, hsplit, hs, hb⟩
  | ok a =>
    have hnext := hn a rfl
    change Traces env scope _ (⟨events ++ (next a).events, (next a).result⟩ : Run β)
    rw [Traces] at hnext ⊢
    simp only
    cases hr : (next a).result with
    | ok b =>
      rw [hr] at hnext
      exact Told.append h hnext
    | error failure =>
      rw [hr] at hnext
      obtain ⟨before, s, behind, rfl, hs, hb⟩ := hnext
      exact ⟨sites ++ before, s, behind, (List.append_assoc _ _ _).symm, hs, Told.append h hb⟩

theorem Traces.map {convert : α → β} (h : Traces env scope sites r) :
    Traces env scope sites (r >>= fun a => Pure.pure (convert a)) := by
  have hb : Traces env scope (sites ++ []) (r >>= fun a => Pure.pure (convert a)) :=
    h.bind fun a _ => .pure
  rwa [List.append_nil] at hb

theorem traces_variable (env : Environment) (scope : Scope) (name : String) :
    Traces env scope [⟨[], .variable name⟩] ((Element.variable name).evaluate env scope) := by
  rw [Traces]
  cases hr : ((Element.variable name).evaluate env scope).result with
  | ok x => exact ⟨List.forall_mem_singleton.2 ⟨x, hr⟩, .nil⟩
  | error failure => exact ⟨[], _, [], rfl, hr, Told.nil⟩

/-- A call whose arguments have values is told of if there is such a function, and fails without a
trace if there is none. -/
theorem traces_call {name : String} {values : List Float}
    (ht : (env.context scope.context).functions.Total)
    (hargs : (evaluateAll env 0 fs).result = .ok values)
    (hvalues : Formula.HaveValues env 0 fs values) :
    Traces env scope [⟨[], .call name fs⟩] (env.call scope name values) := by
  have heval : ((Element.call name fs).evaluate env scope).result =
      (env.call scope name values).result := by
    rw [Element.evaluate, Run.bind_ok hargs]
  cases hf : (env.context scope.context).functions.lookup name values.length with
  | none =>
    have hcall : env.call scope name values =
        .fail (.unknownFunction name values.length values) := by
      simp only [Environment.call, hf]
    rw [hcall] at heval ⊢
    exact ⟨[], _, [], rfl, heval, Told.nil⟩
  | some function =>
    obtain ⟨x, hx⟩ := ht name values.length function hf (env.draws []) values rfl
    have hcall : env.call scope name values = ⟨[.calling name values], .ok x⟩ := by
      simp only [Environment.call, hf, hx]
      rfl
    rw [hcall] at heval ⊢
    exact ⟨List.forall_mem_singleton.2 ⟨x, heval⟩,
      .cons ⟨name, fs, values, rfl, hvalues, ⟨rfl, rfl, rfl⟩⟩ .nil⟩

end Traces

section Sequences

theorem haveValues_of_evaluateAll {values : List Float}
    (h : (evaluateAll env index fs).result = .ok values) :
    Formula.HaveValues env index fs values := by
  induction fs generalizing index values with
  | nil =>
    rw [evaluateAll] at h
    cases h
    exact .nil
  | cons f fs ih =>
    rw [evaluateAll] at h
    obtain ⟨x, hx, h⟩ := Run.bind_eq_ok.1 h
    obtain ⟨tail, ht, h⟩ := Run.bind_eq_ok.1 h
    cases h
    exact .cons hx (ih ht)

theorem traces_evaluateAll
    (h : ∀ f ∈ fs, ∀ i, Traces (env.inside i) scope f.sites (f.evaluate (env.inside i)))
    (index : Nat) :
    Traces env scope (sitesOfArguments index fs) (evaluateAll env index fs) := by
  induction fs generalizing index with
  | nil => exact .pure
  | cons f fs ih =>
    rw [evaluateAll, sitesOfArguments]
    apply (h f List.mem_cons_self index).below.bind
    intro value _
    exact (ih (fun g hg => h g (List.mem_cons_of_mem f hg)) (index + 1)).map

theorem Element.sites_of_not_isOperand (he : e.isOperand = false) : e.sites = [] := by
  cases e with
  | operator op => simp only [Element.sites]
  | comma => simp only [Element.sites]
  | _ => cases he

theorem traces_evaluateOperands
    (h : ∀ e ∈ elements, e.isOperand = true → ∀ i,
      Traces (env.inside i) scope e.sites (e.evaluate (env.inside i) scope)) (index : Nat) :
    Traces env scope (sitesOfElements index elements)
      (evaluateOperands env scope index elements) := by
  induction elements generalizing index with
  | nil => exact .pure
  | cons e rest ih =>
    have hrest := ih (fun e' he => h e' (List.mem_cons_of_mem e he)) (index + 1)
    cases he : e.isOperand with
    | true =>
      rw [evaluateOperands_operand he, sitesOfElements]
      apply (h e List.mem_cons_self he index).below.bind
      intro x _
      exact hrest.map
    | false =>
      rw [sitesOfElements, Element.sites_of_not_isOperand he, List.map_nil, List.nil_append,
        evaluateOperands, if_neg (by simp [he])]
      exact hrest

theorem Formula.Parsed.traces_of (h : f.Parsed scope)
    (he : ∀ e ∈ f.elements, e.isOperand = true → ∀ i,
      Traces (env.inside i) scope e.sites (e.evaluate (env.inside i) scope)) :
    Traces env scope f.sites (f.evaluate env) := by
  obtain ⟨scope', elements⟩ := f
  cases h.scope_eq
  obtain ⟨reading, hreading⟩ := h.plain.exists_reading
  rw [hreading elements h.plain.parallel_self, Formula.sites]
  exact (traces_evaluateOperands he 0).map

theorem Element.Parsed.traces (ht : (env.context scope.context).functions.Total)
    (h : e.Parsed scope) (ho : e.isOperand = true) :
    Traces env scope e.sites (e.evaluate env scope) := by
  induction h generalizing env with
  | number hx =>
    rw [Element.evaluate]
    exact .pure
  | operator op => cases ho
  | @name name hn =>
    rw [Element.sites]
    exact traces_variable env scope name
  | @call name fs hn hs hp he ih =>
    have hargs : Traces env scope (sitesOfArguments 0 fs) (evaluateAll env 0 fs) :=
      traces_evaluateAll (fun f hf i => Formula.Parsed.traces_of ⟨hs f hf, hp f hf, he f hf⟩
        fun e hm ho j => ih f hf e hm ht ho) 0
    rw [Element.sites, Element.evaluate]
    -- The call is the last of its sites: it is reached only once all its arguments have values.
    apply hargs.bind
    intro values hvalues
    exact traces_call ht hvalues (haveValues_of_evaluateAll hvalues)
  | @group inner hs hp he ih =>
    rw [Element.sites, Element.evaluate]
    exact Formula.Parsed.traces_of ⟨hs, hp, he⟩ fun e hm ho i => ih e hm ht ho

theorem Formula.Parsed.traces (ht : (env.context scope.context).functions.Total)
    (h : f.Parsed scope) : Traces env scope f.sites (f.evaluate env) :=
  h.traces_of fun e he ho _ => (h.elements e he).traces ht ho

end Sequences

section Outcome

/-- What is told of reading a text and evaluating it: nothing if it is blank or no formula, else the
formula and then its calls, none of which is left out at any depth. -/
structure Traced (env : Environment) (scope : Scope) (text : String) (run : Run Float) : Prop where
  blank (hb : text.toList.all Text.isBlank = true) : run.events = []
  rejected (failure : Failure) (hp : (Formula.parse scope text).result = .error failure) :
    run.events = []
  formula (f : Formula) (hb : text.toList.all Text.isBlank = false)
    (hp : (Formula.parse scope text).result = .ok f) :
    ∃ first calls, run.events = first :: calls ∧
      first.record.TellsParsed text f.elements.length ∧
      Traces env scope f.sites (⟨calls, run.result⟩ : Run Float) ∧
      ∀ g : Formula, g.Within f → ∀ e ∈ g.elements, e.kind = .call → Site.Has f.sites e

theorem parse_eq_fail {failure : Failure} (hp : (Formula.parse scope text).result = .error failure) :
    Formula.parse scope text = .fail failure := by
  rw [Formula.parse_result] at hp
  rw [Formula.parse, hp]

theorem parse_eq_pure (hp : (Formula.parse scope text).result = .ok f) (he : f.elements = []) :
    Formula.parse scope text = pure f := by
  rw [Formula.parse_result] at hp
  rw [Formula.parse, hp]
  simp [Formula.isEmpty, he]

theorem parse_eq_tell (hp : (Formula.parse scope text).result = .ok f) (he : f.elements ≠ []) :
    Formula.parse scope text = ⟨[.parsed text f.elements.length], .ok f⟩ := by
  rw [Formula.parse_result] at hp
  rw [Formula.parse, hp]
  simp only [Formula.isEmpty, List.isEmpty_iff, he, ↓reduceIte]
  rfl

/-- Whatever the text and the mapping, the calls are told of in the order in which they are written,
each behind those in its arguments, up to the first name that has no value. -/
theorem parse_traced (scope : Scope) (ht : (env.context scope.context).functions.Total)
    (text : String) :
    Traced env scope text (Formula.parse scope text >>= fun f => f.evaluate env) where
  blank hb := by
    rw [parse_eq_pure (parse_blank hb) rfl]
    rfl
  rejected failure hp := by
    rw [parse_eq_fail hp]
    rfl
  formula f hb hp := by
    have hf : f.Parsed scope := parsed_of_parse hb hp
    rw [parse_eq_tell hp hf.plain.ne_nil]
    have hsites : ∀ g : Formula, g.Within f → ∀ e ∈ g.elements, e.kind = .call →
        Site.Has f.sites e := by
      intro g hg e he hk
      exact hg.has_call he hk
    exact ⟨_, (f.evaluate env).events, rfl, ⟨rfl, rfl, rfl⟩, hf.traces ht, hsites⟩

def callThenUnknown : List Token :=
  [⟨.identifier, ['g'], 0⟩, ⟨.opening, ['('], 1⟩, ⟨.identifier, ['x'], 2⟩, ⟨.closing, [')'], 3⟩,
    ⟨.operator, ['+'], 4⟩, ⟨.identifier, ['y'], 5⟩]

/-- In `g(x)+y` the call stands in front of the unknown name. -/
theorem parse_traced_unknown :
    (onlyX.context 0).functions.Total ∧
    ∃ first calls result, Formula.parse ⟨0, 0⟩ "g(x)+y" >>= (fun f => f.evaluate onlyX) =
        ⟨first :: calls, result⟩ ∧ first.record.TellsParsed "g(x)+y" 3 ∧
      Traces onlyX ⟨0, 0⟩ [⟨[0, 0, 0], .variable "x"⟩,
          ⟨[0], .call "g" [.mk ⟨0, 0⟩ [.variable "x"]]⟩, ⟨[2], .variable "y"⟩]
        (⟨calls, result⟩ : Run Float) := by
  have hb : "g(x)+y".toList.all Text.isBlank = false := by decide
  have hs : scan "g(x)+y".toList = .ok (callThenUnknown ++ [.atEnd 6]) := by decide +kernel
  have hx : IsFormula ⟨0, 0⟩ false [⟨.identifier, ['x'], 2⟩] [.variable "x"] :=
    .start .nil (.variable rfl)
  have hg : IsFormula ⟨0, 0⟩ false
      [⟨.identifier, ['g'], 0⟩, ⟨.opening, ['('], 1⟩, ⟨.identifier, ['x'], 2⟩,
        ⟨.closing, [')'], 3⟩] [.call "g" [.mk ⟨0, 0⟩ [.variable "x"]]] :=
    .start .nil (.call rfl rfl (.one hx) rfl)
  have hf : IsFormula ⟨0, 0⟩ false callThenUnknown
      [.call "g" [.mk ⟨0, 0⟩ [.variable "x"]], .operator .add, .variable "y"] :=
    .term hg ⟨rfl, rfl⟩ .nil (.variable rfl)
  obtain ⟨first, calls, hevents, hfirst, hcalls, _⟩ :=
    (parse_traced ⟨0, 0⟩ (total_onlyX 0) "g(x)+y").formula _ hb (hf.parse hb hs)
  exact ⟨total_onlyX 0, first, calls, _, by rw [← hevents], hfirst, hcalls⟩

end Outcome

end Calculator
