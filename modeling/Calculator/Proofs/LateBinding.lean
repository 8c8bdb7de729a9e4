import Calculator.Proofs.Store
/-!
Late binding. After any run of requests a parsed formula is evaluated with the elements it was
parsed with, under what its mapping and its context hold then (`parse_lateBound`).
-/
namespace Calculator

/-- The value of the formula at a path with all names looked up in one mapping and one context. -/
def Formula.valueAt (f : Formula) (path : List Nat) (m : VariableMap) (c : Context)
    (draws : Draws) : Except Failure Session.Answer :=
  match f.descend? path with
  | some g => (g.evaluate ⟨fun _ => m, fun _ => c, draws⟩).result.map .value
  | none => .error .noSuchPart

theorem Formula.descend?_within {f g : Formula} {path : List Nat} (h : f.descend? path = some g) :
    g.Within f := by
  induction f, path using Formula.descend?.induct with
  | case1 f =>
    rw [descend?] at h
    cases h
    exact .refl
  | case2 f index inner path hi ih =>
    rw [descend?.eq_def] at h
    simp only [hi] at h
    exact .group (List.mem_of_getElem? hi) (ih h)
  | case3 f index name arguments argument path hi inner ha ih =>
    rw [descend?.eq_def] at h
    simp only [hi, ha] at h
    exact .argument (List.mem_of_getElem? hi) (List.mem_of_getElem? ha) (ih h)
  | case4 f index name arguments argument path hi ha =>
    rw [descend?.eq_def] at h
    simp only [hi, ha] at h
    cases h
  | case5 f index path hgroup hcall =>
    rw [descend?.eq_def] at h
    simp only at h
    cases h

namespace Session

variable {s s' : Session} {r : Request} {requests others : List Request} {f g : Formula}
  {id text name : String} {map : Option String} {path : List Nat}

/-- Each request of the run meets the condition in the session that it comes to. -/
def Along (p : Session → Request → Prop) : Session → List Request → Prop
  | _, [] => True
  | s, r :: rest => p s r ∧ Along p (s.step r).1 rest

/-- The request stores another formula under the name. -/
def Rebinds (s : Session) (id : String) (r : Request) : Prop :=
  ∃ text map context f, r = .command (.parse id text map context) ∧
    (s.step r).2 = .ok (.rendered f)

/-- The request is made on the mapping or on the context of the scope. -/
def IsOn (s : Session) (scope : Scope) (r : Request) : Prop :=
  s.mapOf r = some scope.mapping ∨ s.contextOf r = some scope.context

/-- What the name stands for in a session: the elements of the formula, with all names in them bound
to one mapping and one context, whose present contents decide its value, together with what is drawn
if there are functions that heed it. -/
structure LateBound (s : Session) (id : String) (f : Formula) : Prop where
  shared : ∀ g : Formula, g.Within f → g.scope = f.scope
  evaluate : ∀ path draws, s.step (.command (.evaluate id path draws)) =
    (s, f.valueAt path (s.mapping f.scope.mapping) (s.context f.scope.context) draws)
  pure : (s.context f.scope.context).functions.Pure → ∀ path draws draws',
    s.step (.command (.evaluate id path draws)) = s.step (.command (.evaluate id path draws'))
  parse : ∀ id' text map context,
    s.maps <+: (s.step (.command (.parse id' text map context))).1.maps ∧
      (s.step (.command (.parse id' text map context))).1.contexts = s.contexts
  assigned : ∀ path g, f.descend? path = some g → ∀ name value,
    s.mapOf (.command (.setVariable id path name value)) = some f.scope.mapping ∧
      s.mapOf (.command (.removeVariable id path name)) = some f.scope.mapping
  onMapping : ∀ r, (s.step r).1.mapping f.scope.mapping =
    if s.mapOf r = some f.scope.mapping then r.onMapping (s.mapping f.scope.mapping)
    else s.mapping f.scope.mapping
  onContext : ∀ r, (s.step r).1.context f.scope.context =
    if s.contextOf r = some f.scope.context then r.onContext (s.context f.scope.context)
    else s.context f.scope.context
  copied : ∀ source target, (s.step (.command (.copyContext source target))).2 = .ok .done →
    Entries.get? (s.step (.command (.copyContext source target))).1.contextNames target ≠
      some f.scope.context
  untouched : ∀ others, s.Along (fun s r => ¬ s.Rebinds id r ∧ ¬ s.IsOn f.scope r) others →
    ∀ path draws, ((s.run others).step (.command (.evaluate id path draws))).2 =
      (s.step (.command (.evaluate id path draws))).2

section Runs

theorem formulaAt_eq (h : Entries.get? s.formulas id = some f) (path : List Nat) :
    s.formulaAt id path =
      match f.descend? path with
      | some g => .ok g
      | none => .error .noSuchPart := by
  rw [formulaAt, named_of_get? h]
  rfl

/-- A request that stores nothing else under a name leaves the formula there. -/
theorem Moves.formula (h : s.Moves r s') (hk : ¬ s.Rebinds id r) :
    Entries.get? s'.formulas id = Entries.get? s.formulas id := by
  cases h with
  | stay _ _ | writeMap _ _ | writeContext _ _ | addMap _ _ | addContext _ _ => rfl
  | @parse id' _ _ _ _ _ f hr _ _ ha =>
    have hne : id' ≠ id := by
      rintro rfl
      exact hk ⟨_, _, _, f, hr, ha⟩
    rw [Entries.get?_put, if_neg hne]

theorem formula_run (h : s.Along (fun s r => ¬ s.Rebinds id r) requests) :
    Entries.get? (s.run requests).formulas id = Entries.get? s.formulas id := by
  induction requests generalizing s with
  | nil => rfl
  | cons r rest ih => exact (ih h.2).trans ((s.step_moves r).formula h.1)

/-- Requests that are made on neither the mapping nor the context of a formula change neither. -/
theorem contents_run (hs : s.Sound) (hf : Entries.get? s.formulas id = some f)
    (h : s.Along (fun s r => ¬ s.Rebinds id r ∧ ¬ s.IsOn f.scope r) requests) :
    Entries.get? (s.run requests).formulas id = some f ∧
      (s.run requests).mapping f.scope.mapping = s.mapping f.scope.mapping ∧
      (s.run requests).context f.scope.context = s.context f.scope.context := by
  -- Soundness is carried along: it says that the references stay within what is there, so that a new
  -- mapping or context is never one of these.
  induction requests generalizing s with
  | nil => exact ⟨hf, rfl, rfl⟩
  | cons r rest ih =>
    obtain ⟨⟨hk, hon⟩, hrest⟩ := h
    obtain ⟨hm, hc⟩ := not_or.1 hon
    have hmoves := s.step_moves r
    have hholds := hs.formulas id f hf
    obtain ⟨hformula, hmap, hcontext⟩ :=
      ih (hmoves.sound hs) ((hmoves.formula hk).trans hf) hrest
    rw [hmoves.mapping hholds.mapping, if_neg hm] at hmap
    rw [hmoves.context hholds.context, if_neg hc] at hcontext
    exact ⟨hformula, hmap, hcontext⟩

end Runs

section Bound

theorem step_evaluate (h : s.formulaAt id path = .ok g) (draws : Draws) :
    s.step (.command (.evaluate id path draws)) =
      (s, (g.evaluate (s.environment draws)).result.map .value) := by
  have hanswer : s.answer (.evaluate id path draws) = (do
      let x ← (g.evaluate (s.environment draws)).result
      .ok (s, .value x)) := by
    rw [answer, h]
    rfl
  rw [step, hanswer]
  cases (g.evaluate (s.environment draws)).result <;> rfl

theorem Holds.step_evaluate (h : s.Holds f) (hf : Entries.get? s.formulas id = some f)
    (path : List Nat) (draws : Draws) : s.step (.command (.evaluate id path draws)) =
      (s, f.valueAt path (s.mapping f.scope.mapping) (s.context f.scope.context) draws) := by
  have hat := formulaAt_eq hf path
  rw [Formula.valueAt]
  cases hd : f.descend? path with
  | none =>
    rw [hd] at hat
    rw [step, answer, hat]
    rfl
  | some g =>
    rw [hd] at hat
    -- All that the formula reads in the environment is at its one scope.
    have hshared := h.shared.within (Formula.descend?_within hd)
    have hagree : Environment.Agree f.scope (s.environment draws)
        ⟨fun _ => s.mapping f.scope.mapping, fun _ => s.context f.scope.context, draws⟩ :=
      ⟨rfl, rfl, .inr rfl⟩
    rw [Session.step_evaluate hat, hshared.evaluate_congr hagree]

theorem Holds.step_pure (h : s.Holds f) (hf : Entries.get? s.formulas id = some f)
    (hp : (s.context f.scope.context).functions.Pure) (path : List Nat) (draws draws' : Draws) :
    s.step (.command (.evaluate id path draws)) = s.step (.command (.evaluate id path draws')) := by
  rw [h.step_evaluate hf, h.step_evaluate hf, Formula.valueAt, Formula.valueAt]
  cases hd : f.descend? path with
  | none => rfl
  | some g =>
    have hshared := h.shared.within (Formula.descend?_within hd)
    have hagree : Environment.Agree f.scope
        ⟨fun _ => s.mapping f.scope.mapping, fun _ => s.context f.scope.context, draws⟩
        ⟨fun _ => s.mapping f.scope.mapping, fun _ => s.context f.scope.context, draws'⟩ :=
      ⟨rfl, rfl, .inl hp⟩
    simp only [hshared.evaluate_congr hagree]

theorem step_parse (s : Session) (id text : String) (map : Option String) (name : String) :
    s.maps <+: (s.step (.command (.parse id text map name))).1.maps ∧
      (s.step (.command (.parse id text map name))).1.contexts = s.contexts := by
  rcases s.answer_parse id text map name with ⟨failure, ha⟩ | ⟨scope, opened, f, ho, hf, ha⟩
  · rw [step, ha]
    exact ⟨List.prefix_rfl, rfl⟩
  · rw [step, ha]
    exact ⟨ho.isPrefix_maps, ho.contexts⟩

/-- A copy of a context is another context. -/
theorem Holds.copied (h : s.Holds f) {source target : String}
    (ha : (s.step (.command (.copyContext source target))).2 = .ok .done) :
    Entries.get? (s.step (.command (.copyContext source target))).1.contextNames target ≠
      some f.scope.context := by
  cases hn : Entries.get? s.contextNames source with
  | none =>
    rw [step, answer, named, hn] at ha
    cases ha
  | some c =>
    rw [step, answer, named_of_get? hn]
    change Entries.get? (Entries.put s.contextNames target s.contexts.length) target ≠ _
    rw [Entries.get?_put, if_pos rfl]
    intro he
    exact h.context.ne (Option.some.inj he).symm

theorem Sound.lateBound (hs : s.Sound) (hf : Entries.get? s.formulas id = some f) :
    s.LateBound id f where
  shared g hg := ((hs.formulas id f hf).shared.within hg).scope_eq
  evaluate := (hs.formulas id f hf).step_evaluate hf
  pure := (hs.formulas id f hf).step_pure hf
  parse := s.step_parse
  assigned path g hg name value := by
    have hscope := ((hs.formulas id f hf).shared.within (Formula.descend?_within hg)).scope_eq
    have hat : s.formulaAt id path = .ok g := by rw [formulaAt_eq hf, hg]
    rw [mapOf, mapOf, hat, ← hscope]
    exact ⟨rfl, rfl⟩
  onMapping r := (s.step_moves r).mapping (hs.formulas id f hf).mapping
  onContext r := (s.step_moves r).context (hs.formulas id f hf).context
  copied _ _ ha := (hs.formulas id f hf).copied ha
  untouched others h path draws := by
    obtain ⟨hformula, hm, hc⟩ := contents_run hs hf h
    have hsound := hs.run others
    rw [(hs.formulas id f hf).step_evaluate hf,
      (hsound.formulas id f hformula).step_evaluate hformula, hm, hc]

/-- Whatever is requested before and after, a text that is parsed is from then on the formula it was
read as, as long as no other is parsed under its name. At every depth this has the mapping and the
context that the text was parsed with, and nothing else is ever looked up. -/
theorem parse_lateBound (before later : List Request)
    (hparse : (start.run before).step (.command (.parse id text map name)) =
      (s', .ok (.rendered f)))
    (hkept : s'.Along (fun s r => ¬ s.Rebinds id r) later) :
    (∃ opened, (start.run before).Opens map name f.scope opened ∧
      Formula.ofText f.scope text = .ok f ∧
      s' = { opened with formulas := Entries.put (start.run before).formulas id f }) ∧
    (s'.run later).LateBound id f := by
  have hsound : (start.run before).Sound := Sound.start.run before
  have hmoves := step_moves (start.run before) (.command (.parse id text map name))
  rw [hparse] at hmoves
  rcases answer_parse (start.run before) id text map name with
    ⟨failure, ha⟩ | ⟨scope, opened, g, ho, hg, ha⟩
  · rw [step, ha] at hparse
    cases hparse
  · rw [step, ha] at hparse
    cases hparse
    obtain rfl := (shared_of_ofText hg).scope_eq
    refine ⟨⟨opened, ho, hg, rfl⟩, ?_⟩
    have hformula := formula_run hkept
    rw [Entries.get?_put, if_pos rfl] at hformula
    exact ((hmoves.sound hsound).run later).lateBound hformula

def nestedName : Formula := .mk ⟨0, 1⟩ [.group (.mk ⟨0, 1⟩ [.variable "x"])]

theorem ofText_nestedName : Formula.ofText ⟨0, 1⟩ "(x)" = .ok nestedName := by
  have hb : "(x)".toList.all Text.isBlank = false := by decide
  have hs : scan "(x)".toList = .ok ([⟨.opening, ['('], 0⟩, ⟨.identifier, ['x'], 1⟩,
      ⟨.closing, [')'], 2⟩] ++ [.atEnd 3]) := by decide +kernel
  have hx : IsFormula ⟨0, 1⟩ false [⟨.identifier, ['x'], 1⟩] [.variable "x"] :=
    .start .nil (.variable rfl)
  have hgroup : IsFormula ⟨0, 1⟩ true [⟨.opening, ['('], 0⟩, ⟨.identifier, ['x'], 1⟩,
      ⟨.closing, [')'], 2⟩] nestedName.elements := .start .nil (IsOperand.group rfl hx rfl)
  rw [← Formula.parse_result]
  exact hgroup.parse hb hs

/-- A mapping and a context are made. -/
def labRequests : List Request :=
  [.command (.createMap "map" []), .command (.createEmpty "lab" "lab")]

/-- A context is copied, and a constant is stored in the copy. -/
def copyRequests : List Request :=
  [.command (.copyContext "lab" "copy"), .addConstants "copy" [("x", .number 2.0)]]

def lab : Session where
  maps := [.empty]
  contexts := [Standard.context, ⟨"lab", {}, {}⟩]
  mapNames := [("map", 0)]
  contextNames := [("main", 0), ("lab", 1)]

def nestedLab : Session := { lab with formulas := [("e", nestedName)] }

def assignedLab : Session := nestedLab.setMap 0 ⟨[("x", .number 1.0)]⟩

theorem run_labRequests : start.run labRequests = lab := by
  have hmain : ¬ "main" = "lab" := by decide
  simp only [run, labRequests, List.foldl_cons, List.foldl_nil, step, answer, start, addMap,
    addContext, Entries.put, hmain, ↓reduceIte]
  rfl

theorem step_parse_lab : lab.step (.command (.parse "e" "(x)" (some "map") "lab")) =
    (nestedLab, .ok (.rendered nestedName)) := by
  have hm : Entries.get? lab.mapNames "map" = some 0 := by decide
  have hc : Entries.get? lab.contextNames "lab" = some 1 := by decide
  rw [step, (Opens.named hm hc).answer, parseIn_ok ofText_nestedName]
  rfl

/-- A variable is set through the formula in the formula. -/
def assignRequests : List Request := [.command (.setVariable "e" [0] "x" (.number 1.0))]

theorem run_assignRequests : nestedLab.run assignRequests = assignedLab := by
  have hf : Entries.get? nestedLab.formulas "e" = some nestedName := if_pos rfl
  have hanswer : nestedLab.answer (.setVariable "e" [0] "x" (.number 1.0)) =
      .ok (assignedLab, .agreed) := by
    rw [answer, formulaAt_eq hf]
    rfl
  change (nestedLab.step (.command (.setVariable "e" [0] "x" (.number 1.0)))).1 = assignedLab
  rw [step, hanswer]

theorem not_rebinds_of_ne {command : Command}
    (h : ∀ text map context, command ≠ .parse id text map context) :
    ¬ s.Rebinds id (.command command) := by
  rintro ⟨text, map, context, f, hr, _⟩
  exact h text map context (Request.command.inj hr)

theorem along_copyRequests : assignedLab.Along
    (fun s r => ¬ s.Rebinds "e" r ∧ ¬ s.IsOn nestedName.scope r) copyRequests := by
  have hlab : Entries.get? assignedLab.contextNames "lab" = some 1 := by decide
  have hcopy : (assignedLab.step (.command (.copyContext "lab" "copy"))).1 =
      assignedLab.addContext "copy" ⟨"lab", {}, {}⟩ := by
    rw [step, answer, named_of_get? hlab]
    rfl
  have hnew : Entries.get? (Entries.put assignedLab.contextNames "copy" 2) "copy" = some 2 := by
    rw [Entries.get?_put, if_pos rfl]
  refine ⟨⟨not_rebinds_of_ne (fun _ _ _ h => by cases h), ?_⟩, ⟨?_, ?_⟩, trivial⟩
  · rintro (h | h) <;> cases h
  · rintro ⟨_, _, _, _, h, _⟩
    cases h
  · rw [hcopy]
    rintro (h | h)
    · cases h
    · cases hnew.symm.trans h

/-- The variable that is set through the formula in the formula is its value, also when the name is
a constant of a copy of its context. -/
theorem parse_lateBound_nested :
    (start.run labRequests).step (.command (.parse "e" "(x)" (some "map") "lab")) =
        (nestedLab, .ok (.rendered nestedName)) ∧
      (((nestedLab.run assignRequests).run copyRequests).step
        (.command (.evaluate "e" [] fun _ => 0))).2 = .ok (.value 1.0) := by
  have hparse : (start.run labRequests).step
      (.command (.parse "e" "(x)" (some "map") "lab")) =
        (nestedLab, .ok (.rendered nestedName)) := by
    rw [run_labRequests]
    exact step_parse_lab
  have hkept : nestedLab.Along (fun s r => ¬ s.Rebinds "e" r) assignRequests :=
    ⟨not_rebinds_of_ne (fun _ _ _ h => by cases h), trivial⟩
  have hbound := (parse_lateBound labRequests assignRequests hparse hkept).2
  rw [run_assignRequests] at hbound ⊢
  refine ⟨hparse, ?_⟩
  rw [hbound.untouched copyRequests along_copyRequests, hbound.evaluate []]
  exact congrArg Except.ok rfl

end Bound

end Session

end Calculator
