import Calculator.Proofs.Sharing
import Calculator.Session
/-!
Stores of a session. `Session.Moves` says what a request can do to a session; so a mapping and a
context change by the requests that are made on them alone (`Moves.mapping`, `Moves.context`), and
in every session that is reached the references are to something (`Sound.run`).
-/
namespace Calculator

namespace Session

variable {s s' opened : Session} {r : Request} {requests : List Request} {f g : Formula}
  {scope : Scope} {id text name : String} {map : Option String} {m c : Nat}

/-- The session after the requests. -/
def run (s : Session) (requests : List Request) : Session :=
  requests.foldl (fun s r => (s.step r).1) s

/-- The mapping that a request is made on, by its name or through a formula that refers to it. -/
def mapOf (s : Session) : Request → Option Nat
  | .command (.setEntry map _ _) => Entries.get? s.mapNames map
  | .command (.deleteEntry map _) => Entries.get? s.mapNames map
  | .command (.setVariable id path _ _) =>
    (s.formulaAt id path).toOption.map fun f => f.scope.mapping
  | .command (.removeVariable id path _) =>
    (s.formulaAt id path).toOption.map fun f => f.scope.mapping
  | .changeMap map _ => Entries.get? s.mapNames map
  | _ => none

/-- The context that a request is made on. -/
def contextOf (s : Session) : Request → Option Nat
  | .command (.addFunction context _ _ _) => Entries.get? s.contextNames context
  | .command (.aliasFunction context _ _) => Entries.get? s.contextNames context
  | .command (.removeFunction context _ _) => Entries.get? s.contextNames context
  | .command (.removeConstant context _) => Entries.get? s.contextNames context
  | .addConstants context _ => Entries.get? s.contextNames context
  | _ => none

/-- What a request does to the mapping that it is made on. -/
def Request.onMapping : Request → VariableMap → VariableMap
  | .command (.setEntry _ name value), m => m.set name value
  | .command (.deleteEntry _ name), m => m.erase name
  | .command (.setVariable _ _ name value), m =>
    match value.toDouble with
    | .ok x => m.set name (.number x)
    | .error _ => m
  | .command (.removeVariable _ _ name), m => m.erase name
  | .changeMap _ request, m => (m.answer request).map
  | _, m => m

/-- The context with changed functions, or as it was if they cannot be changed so. -/
def withFunctions (c : Context) : Except Failure FunctionTable → Context
  | .ok functions => { c with functions := functions }
  | .error _ => c

/-- What a request does to the context that it is made on. -/
def Request.onContext : Request → Context → Context
  | .command (.addFunction _ name function arity), c =>
    withFunctions c (c.functions.add name function arity)
  | .command (.aliasFunction _ newName name), c =>
    withFunctions c (c.functions.addAlias newName name)
  | .command (.removeFunction _ name arity), c =>
    withFunctions c (.ok (c.functions.remove name arity))
  | .command (.removeConstant _ name), c => { c with constants := c.constants.remove name }
  | .addConstants _ entries, c => { c with constants := (c.constants.addAll entries).1 }
  | _, c => c

/-- A text is read with a mapping and a context that have names, or with a new mapping. -/
inductive Opens (s : Session) : Option String → String → Scope → Session → Prop
  | named {map context : String} {m c : Nat} (hm : Entries.get? s.mapNames map = some m)
      (hc : Entries.get? s.contextNames context = some c) : Opens s (some map) context ⟨m, c⟩ s
  | new {context : String} {c : Nat} (hc : Entries.get? s.contextNames context = some c) :
      Opens s none context ⟨s.maps.length, c⟩ (s.addMap .empty)

/-- All that a request can do to a session. -/
inductive Moves (s : Session) (r : Request) : Session → Prop
  | stay (hm : ∀ m, s.mapOf r = some m → r.onMapping (s.mapping m) = s.mapping m)
      (hc : ∀ c, s.contextOf r = some c → r.onContext (s.context c) = s.context c) : Moves s r s
  | writeMap {m : Nat} (hm : s.mapOf r = some m) (hc : s.contextOf r = none) :
      Moves s r (s.setMap m (r.onMapping (s.mapping m)))
  | writeContext {c : Nat} (hm : s.mapOf r = none) (hc : s.contextOf r = some c) :
      Moves s r (s.setContext c (r.onContext (s.context c)))
  | addMap {id : String} {m : VariableMap} (hm : s.mapOf r = none) (hc : s.contextOf r = none) :
      Moves s r { s.addMap m with mapNames := Entries.put s.mapNames id s.maps.length }
  | addContext {name : String} {c : Context} (hm : s.mapOf r = none) (hc : s.contextOf r = none) :
      Moves s r (s.addContext name c)
  | parse {id text context : String} {map : Option String} {scope : Scope} {opened : Session}
      {f : Formula} (hr : r = .command (.parse id text map context))
      (ho : s.Opens map context scope opened) (hf : Formula.ofText scope text = .ok f)
      (ha : (s.step r).2 = .ok (.rendered f)) :
      Moves s r { opened with formulas := Entries.put s.formulas id f }

section Steps

variable {command : Command}

theorem named_of_get? {α : Type} {entries : Entries String α} {name : String} {a : α}
    (h : Entries.get? entries name = some a) : named entries name = .ok a := by
  rw [named, h]

theorem Moves.idle (hm : s.mapOf r = none) (hc : s.contextOf r = none) : s.Moves r s := by
  refine .stay (fun m h => ?_) fun c h => ?_
  · rw [hm] at h
    cases h
  · rw [hc] at h
    cases h

theorem Moves.query {α : Type} {x : Except Failure α} {g : α → Answer}
    (h : s.answer command = (x >>= fun a => .ok (s, g a)))
    (hm : s.mapOf (.command command) = none) (hc : s.contextOf (.command command) = none) :
    s.Moves (.command command) (s.step (.command command)).1 := by
  have hstep : (s.step (.command command)).1 = s := by
    rw [step, h]
    cases x <;> rfl
  rw [hstep]
  exact .idle hm hc

theorem Moves.changeFunctions (make : FunctionTable → Except Failure FunctionTable)
    (ha : s.answer command = s.changeFunctions name make)
    (hm : s.mapOf (.command command) = none)
    (hc : s.contextOf (.command command) = Entries.get? s.contextNames name)
    (ho : ∀ c, Request.onContext (.command command) c = withFunctions c (make c.functions)) :
    s.Moves (.command command) (s.step (.command command)).1 := by
  cases hn : Entries.get? s.contextNames name with
  | none =>
    rw [step, ha, Session.changeFunctions, named, hn]
    exact .idle hm (hc.trans hn)
  | some c =>
    have hon := ho (s.context c)
    have hmake : s.changeFunctions name make = (do
        let functions ← make (s.context c).functions
        .ok (s.setContext c { s.context c with functions := functions }, .done)) := by
      rw [Session.changeFunctions, named_of_get? hn]
      rfl
    cases hf : make (s.context c).functions with
    | ok functions =>
      have hwrite := Moves.writeContext hm (hc.trans hn)
      rw [hon, hf] at hwrite
      rw [step, ha, hmake, hf]
      exact hwrite
    | error failure =>
      rw [step, ha, hmake, hf]
      refine .stay (fun m h => ?_) fun c' h => ?_
      · rw [hm] at h
        cases h
      · rw [hc, hn] at h
        cases h
        rw [hon, hf]
        rfl

theorem parseIn_ok (h : Formula.ofText scope text = .ok f) :
    s.parseIn scope id text =
      .ok ({ s with formulas := Entries.put s.formulas id f }, .rendered f) := by
  rw [parseIn, h]
  rfl

theorem parseIn_error {failure : Failure} (h : Formula.ofText scope text = .error failure) :
    s.parseIn scope id text = .error failure := by
  rw [parseIn, h]
  rfl

theorem Opens.formulas (h : s.Opens map name scope opened) : opened.formulas = s.formulas := by
  cases h <;> rfl

theorem Opens.answer (h : s.Opens map name scope opened) (id text : String) :
    s.answer (.parse id text map name) = opened.parseIn scope id text := by
  cases h with
  | @named map _ m c hm hc =>
    rw [Session.answer, named_of_get? hc]
    change (Session.named s.mapNames map >>= _) = _
    rw [named_of_get? hm]
    rfl
  | new hc =>
    rw [Session.answer, named_of_get? hc]
    rfl

/-- A text is parsed with what the names refer to, and else nothing is done. -/
theorem answer_parse (s : Session) (id text : String) (map : Option String) (name : String) :
    (∃ failure, s.answer (.parse id text map name) = .error failure) ∨
      ∃ scope opened f, s.Opens map name scope opened ∧ Formula.ofText scope text = .ok f ∧
        s.answer (.parse id text map name) =
          .ok ({ opened with formulas := Entries.put s.formulas id f }, .rendered f) := by
  by_cases ho : ∃ scope opened, s.Opens map name scope opened
  · obtain ⟨scope, opened, ho⟩ := ho
    have ha := ho.answer id text
    cases hf : Formula.ofText scope text with
    | error failure => exact .inl ⟨failure, ha.trans (parseIn_error hf)⟩
    | ok f =>
      refine .inr ⟨scope, opened, f, ho, hf, ?_⟩
      rw [ha, parseIn_ok hf, ho.formulas]
  · refine .inl ?_
    cases hc : Entries.get? s.contextNames name with
    | none => exact ⟨.missingKey (some name), by rw [answer, named, hc]; rfl⟩
    | some c =>
      cases map with
      | none => exact absurd ⟨_, _, .new hc⟩ ho
      | some map =>
        cases hm : Entries.get? s.mapNames map with
        | none =>
          refine ⟨.missingKey (some map), ?_⟩
          rw [answer, named_of_get? hc]
          change (named s.mapNames map >>= _) = _
          rw [named, hm]
          rfl
        | some m => exact absurd ⟨_, _, .named hm hc⟩ ho

theorem command_moves (s : Session) (command : Command) :
    s.Moves (.command command) (s.step (.command command)).1 := by
  cases command with
  | createMap id entries => exact .addMap rfl rfl
  | setEntry map name value =>
    cases hn : Entries.get? s.mapNames map with
    | none =>
      rw [step, answer, named, hn]
      exact .idle hn rfl
    | some m =>
      rw [step, answer, named_of_get? hn]
      exact .writeMap hn rfl
  | deleteEntry map name =>
    cases hn : Entries.get? s.mapNames map with
    | none =>
      rw [step, answer, named, hn]
      exact .idle hn rfl
    | some m =>
      rw [step, answer, named_of_get? hn]
      exact .writeMap hn rfl
  | showMap map => exact .query rfl rfl rfl
  | parse id text map context =>
    rcases s.answer_parse id text map context with ⟨failure, ha⟩ | ⟨scope, opened, f, ho, hf, ha⟩
    · rw [step, ha]
      exact .idle rfl rfl
    · have hanswer : (s.step (.command (.parse id text map context))).2 = .ok (.rendered f) := by
        rw [step, ha]
      have hparse := Moves.parse rfl ho hf hanswer
      rw [step, ha]
      exact hparse
  | evaluate id path draws => exact .query (bind_assoc _ _ _).symm rfl rfl
  | setVariable id path name value =>
    cases hf : s.formulaAt id path with
    | error failure =>
      rw [step, answer, hf]
      exact .idle (by rw [mapOf, hf]; rfl) rfl
    | ok f =>
      have hm : s.mapOf (.command (.setVariable id path name value)) = some f.scope.mapping := by
        rw [mapOf, hf]
        rfl
      have hanswer : s.answer (.setVariable id path name value) = (do
          let m ← (s.mapping f.scope.mapping).setNumber name value
          .ok (s.setMap f.scope.mapping m, .agreed)) := by
        rw [answer, hf]
        rfl
      rw [step, hanswer, VariableMap.setNumber]
      cases hx : value.toDouble with
      | ok x =>
        have hwrite := Moves.writeMap hm rfl
        rw [Request.onMapping, hx] at hwrite
        exact hwrite
      | error e =>
        refine .stay (fun m _ => ?_) nofun
        rw [Request.onMapping, hx]
  | removeVariable id path name =>
    cases hf : s.formulaAt id path with
    | error failure =>
      rw [step, answer, hf]
      exact .idle (by rw [mapOf, hf]; rfl) rfl
    | ok f =>
      have hm : s.mapOf (.command (.removeVariable id path name)) = some f.scope.mapping := by
        rw [mapOf, hf]
        rfl
      rw [step, answer, hf]
      exact .writeMap hm rfl
  | showVariables id path => exact .query rfl rfl rfl
  | showFormula id path => exact .query rfl rfl rfl
  | sharesScope id path =>
    cases hf : s.formulaAt id path with
    | error failure =>
      rw [step, answer, hf]
      exact .idle rfl rfl
    | ok f =>
      have hanswer : s.answer (.sharesScope id path) = (do
          let top ← s.formulaAt id []
          .ok (s, .flags (f.scope.mapping = top.scope.mapping)
            (f.scope.context = top.scope.context))) := by
        rw [answer, hf]
        rfl
      exact .query hanswer rfl rfl
  | copyContext source target =>
    cases hn : Entries.get? s.contextNames source with
    | none =>
      rw [step, answer, named, hn]
      exact .idle rfl rfl
    | some c =>
      rw [step, answer, named_of_get? hn]
      exact .addContext rfl rfl
  | createStandard target => exact .addContext rfl rfl
  | createEmpty target name => exact .addContext rfl rfl
  | contextName context => exact .query rfl rfl rfl
  | addFunction context name function arity =>
    exact .changeFunctions (fun t => t.add name function arity) rfl rfl rfl fun _ => rfl
  | aliasFunction context newName name =>
    exact .changeFunctions (fun t => t.addAlias newName name) rfl rfl rfl fun _ => rfl
  | removeFunction context name arity =>
    exact .changeFunctions (fun t => .ok (t.remove name arity)) rfl rfl rfl fun _ => rfl
  | hasFunction context name arity => exact .query rfl rfl rfl
  | functionArities context name => exact .query rfl rfl rfl
  | functionNames context => exact .query rfl rfl rfl
  | lookupConstant context name => exact .query rfl rfl rfl
  | removeConstant context name =>
    cases hn : Entries.get? s.contextNames context with
    | none =>
      rw [step, answer, named, hn]
      exact .idle rfl hn
    | some c =>
      rw [step, answer, named_of_get? hn]
      exact .writeContext rfl hn
  | constantNames context => exact .query rfl rfl rfl

theorem step_moves (s : Session) (r : Request) : s.Moves r (s.step r).1 := by
  cases r with
  | command command => exact s.command_moves command
  | addConstants context entries =>
    cases hn : Entries.get? s.contextNames context with
    | none =>
      rw [step, addConstants, named, hn]
      exact .idle rfl hn
    | some c =>
      rw [step, addConstants, named_of_get? hn]
      exact .writeContext rfl hn
  | changeMap map request =>
    cases hn : Entries.get? s.mapNames map with
    | none =>
      rw [step, changeMap, named, hn]
      exact .idle hn rfl
    | some m =>
      rw [step, changeMap, named_of_get? hn]
      exact .writeMap hn rfl

end Steps

section Contents

theorem mapping_setMap (hm : m < s.maps.length) (ref : Nat) (v : VariableMap) :
    (s.setMap ref v).mapping m = if ref = m then v else s.mapping m := by
  rw [mapping, mapping, setMap, List.getD_eq_getElem?_getD, List.getElem?_set]
  split
  · next he => rw [he, if_pos hm, Option.getD_some]
  · rw [List.getD_eq_getElem?_getD]

theorem context_setContext (hc : c < s.contexts.length) (ref : Nat) (v : Context) :
    (s.setContext ref v).context c = if ref = c then v else s.context c := by
  rw [Session.context, Session.context, setContext, List.getD_eq_getElem?_getD, List.getElem?_set]
  split
  · next he => rw [he, if_pos hc, Option.getD_some]
  · rw [List.getD_eq_getElem?_getD]

theorem mapping_addMap (hm : m < s.maps.length) (v : VariableMap) :
    (s.addMap v).mapping m = s.mapping m := by
  rw [mapping, mapping, addMap, List.getD_eq_getElem?_getD, List.getElem?_append_left hm,
    List.getD_eq_getElem?_getD]

theorem context_addContext (hc : c < s.contexts.length) (name : String) (v : Context) :
    (s.addContext name v).context c = s.context c := by
  rw [Session.context, Session.context, addContext, List.getD_eq_getElem?_getD,
    List.getElem?_append_left hc, List.getD_eq_getElem?_getD]

theorem length_addMap (s : Session) (v : VariableMap) :
    s.maps.length < (s.addMap v).maps.length := by
  rw [addMap, List.length_append]
  exact Nat.lt_succ_self _

theorem length_addContext (s : Session) (name : String) (v : Context) :
    s.contexts.length < (s.addContext name v).contexts.length := by
  rw [addContext, List.length_append]
  exact Nat.lt_succ_self _

theorem Opens.mapping (h : s.Opens map name scope opened) (hm : m < s.maps.length) :
    opened.mapping m = s.mapping m := by
  cases h with
  | named hm' hc => rfl
  | new hc => exact mapping_addMap hm .empty

theorem Opens.contexts (h : s.Opens map name scope opened) : opened.contexts = s.contexts := by
  cases h <;> rfl

theorem Opens.isPrefix_maps (h : s.Opens map name scope opened) : s.maps <+: opened.maps := by
  cases h with
  | named hm hc => exact List.prefix_rfl
  | new hc => exact List.prefix_append s.maps [.empty]

/-- A mapping changes by the requests that are made on it alone. -/
theorem Moves.mapping (h : s.Moves r s') (hm : m < s.maps.length) :
    s'.mapping m = if s.mapOf r = some m then r.onMapping (s.mapping m) else s.mapping m := by
  cases h with
  | stay hstay _ =>
    split
    · next he => exact (hstay m he).symm
    · rfl
  | @writeMap ref href hc =>
    rw [mapping_setMap hm, href]
    by_cases he : ref = m
    · rw [if_pos he, if_pos (congrArg some he), he]
    · rw [if_neg he, if_neg fun h => he (Option.some.inj h)]
  | writeContext hnone hc =>
    rw [hnone, if_neg nofun]
    rfl
  | addMap hnone hc =>
    rw [hnone, if_neg nofun]
    exact mapping_addMap hm _
  | addContext hnone hc =>
    rw [hnone, if_neg nofun]
    rfl
  | parse hr ho hf ha =>
    have hnone : s.mapOf r = none := hr ▸ rfl
    rw [hnone, if_neg nofun]
    exact ho.mapping hm

/-- A context changes by the requests that are made on it alone. -/
theorem Moves.context (h : s.Moves r s') (hc : c < s.contexts.length) :
    s'.context c = if s.contextOf r = some c then r.onContext (s.context c) else s.context c := by
  cases h with
  | stay _ hstay =>
    split
    · next he => exact (hstay c he).symm
    · rfl
  | writeMap hm hnone =>
    rw [hnone, if_neg nofun]
    rfl
  | @writeContext ref hm href =>
    rw [context_setContext hc, href]
    by_cases he : ref = c
    · rw [if_pos he, if_pos (congrArg some he), he]
    · rw [if_neg he, if_neg fun h => he (Option.some.inj h)]
  | addMap hm hnone =>
    rw [hnone, if_neg nofun]
    rfl
  | addContext hm hnone =>
    rw [hnone, if_neg nofun]
    exact context_addContext hc _ _
  | @parse _ _ _ _ _ opened _ hr ho hf ha =>
    have hnone : s.contextOf r = none := hr ▸ rfl
    rw [hnone, if_neg nofun]
    change opened.contexts.getD c _ = s.contexts.getD c _
    rw [ho.contexts]

end Contents

section Soundness

/-- The formula refers to a mapping and a context that are there, at every depth to the same. -/
structure Holds (s : Session) (f : Formula) : Prop where
  mapping : f.scope.mapping < s.maps.length
  context : f.scope.context < s.contexts.length
  shared : f.Shared f.scope

/-- All that has a name is there. -/
structure Sound (s : Session) : Prop where
  maps : ∀ name m, Entries.get? s.mapNames name = some m → m < s.maps.length
  contexts : ∀ name c, Entries.get? s.contextNames name = some c → c < s.contexts.length
  formulas : ∀ id f, Entries.get? s.formulas id = some f → s.Holds f

theorem Holds.grow (h : s.Holds f) (hm : s.maps.length ≤ s'.maps.length)
    (hc : s.contexts.length ≤ s'.contexts.length) : s'.Holds f :=
  ⟨h.mapping.trans_le hm, h.context.trans_le hc, h.shared⟩

theorem Sound.start : start.Sound where
  maps := nofun
  contexts name c h := by
    have hname : (if "main" = name then some 0 else none) = some c := h
    split at hname
    · cases hname
      exact Nat.zero_lt_one
    · cases hname
  formulas := nofun

theorem Sound.opens (h : s.Sound) (ho : s.Opens map name scope opened) :
    opened.Sound ∧ scope.mapping < opened.maps.length ∧ scope.context < opened.contexts.length := by
  cases ho with
  | named hm hc => exact ⟨h, h.maps _ _ hm, h.contexts _ _ hc⟩
  | new hc =>
    have hlength : s.maps.length < (s.addMap .empty).maps.length := s.length_addMap _
    refine ⟨⟨fun name m hm => ?_, h.contexts, fun id f hf => ?_⟩, hlength, h.contexts _ _ hc⟩
    · exact (h.maps name m hm).trans hlength
    · exact (h.formulas id f hf).grow hlength.le le_rfl

theorem Moves.sound (hm : s.Moves r s') (h : s.Sound) : s'.Sound := by
  cases hm with
  | stay _ _ => exact h
  | @writeMap m _ _ =>
    have hlength : s.maps.length = (s.setMap m (r.onMapping (s.mapping m))).maps.length :=
      List.length_set.symm
    refine ⟨fun name m hm => ?_, h.contexts, fun id f hf => ?_⟩
    · exact hlength ▸ h.maps name m hm
    · exact (h.formulas id f hf).grow hlength.le le_rfl
  | @writeContext c _ _ =>
    have hlength : s.contexts.length =
        (s.setContext c (r.onContext (s.context c))).contexts.length := List.length_set.symm
    refine ⟨h.maps, fun name c hc => ?_, fun id f hf => ?_⟩
    · exact hlength ▸ h.contexts name c hc
    · exact (h.formulas id f hf).grow le_rfl hlength.le
  | @addMap id m _ _ =>
    have hlength : s.maps.length < (s.addMap m).maps.length := s.length_addMap m
    refine ⟨fun name m' hm => ?_, h.contexts, fun id f hf => ?_⟩
    · rw [Entries.get?_put] at hm
      split at hm
      · cases hm
        exact hlength
      · exact (h.maps name m' hm).trans hlength
    · exact (h.formulas id f hf).grow hlength.le le_rfl
  | @addContext name c _ _ =>
    have hlength : s.contexts.length < (s.addContext name c).contexts.length :=
      s.length_addContext name c
    refine ⟨h.maps, fun name' c' hc => ?_, fun id f hf => ?_⟩
    · change Entries.get? (Entries.put s.contextNames name s.contexts.length) name' = _ at hc
      rw [Entries.get?_put] at hc
      split at hc
      · cases hc
        exact hlength
      · exact (h.contexts name' c' hc).trans hlength
    · exact (h.formulas id f hf).grow le_rfl hlength.le
  | @parse id text context map scope opened f _ ho hf _ =>
    obtain ⟨hopened, hm, hc⟩ := h.opens ho
    have hshared := shared_of_ofText hf
    refine ⟨hopened.maps, hopened.contexts, fun id' g hg => ?_⟩
    rw [Entries.get?_put] at hg
    split at hg
    · cases hg
      obtain rfl := hshared.scope_eq
      exact ⟨hm, hc, hshared⟩
    · exact (h.formulas id' g hg).grow ho.isPrefix_maps.length_le (congrArg _ ho.contexts).ge

theorem Sound.run (h : s.Sound) (requests : List Request) : (s.run requests).Sound := by
  induction requests generalizing s with
  | nil => exact h
  | cons r rest ih => exact ih ((s.step_moves r).sound h)

end Soundness

end Session

end Calculator
