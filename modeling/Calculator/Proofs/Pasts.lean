import Calculator.Proofs.Changes
import Calculator.Proofs.LateBinding
import Calculator.Proofs.Loading
/-!
Pasts of function tables. In every session each context has the functions that follow from its past:
what it was made with, and the changes asked of it since, to which a copy of it adds its own
(`Session.run_keeps`).
-/
namespace Calculator

namespace Session

/-- The functions of a context. -/
def functions (s : Session) (c : Nat) : FunctionTable := (s.context c).functions

/-- The functions that a context was made with, and the changes asked of them since then. -/
structure Past where
  base : FunctionTable
  changes : List FunctionTable.Change := []

def Past.table (p : Past) : FunctionTable := p.base.run p.changes

/-- The change that a request asks of the functions of the context it is made on. -/
def Request.change? : Request → Option FunctionTable.Change
  | .command (.addFunction _ name f arity) => some (.add name f arity)
  | .command (.aliasFunction _ newName name) => some (.addAlias newName name)
  | .command (.removeFunction _ name arity) => some (.remove name arity)
  | _ => none

/-- The past of the context that a request makes; a copy takes over that of its original. -/
def madeBy (s : Session) (known : List Past) : Request → Option Past
  | .command (.copyContext source _) => (Entries.get? s.contextNames source).bind (known[·]?)
  | .command (.createStandard _) => some ⟨Standard.functions, []⟩
  | .command (.createEmpty _ _) => some ⟨{}, []⟩
  | _ => none

/-- The pasts of all contexts after a request. -/
def pastsAfter (s : Session) (known : List Past) (r : Request) : List Past :=
  match s.contextOf r, r.change? with
  | some c, some change => known.modify c fun p => { p with changes := p.changes ++ [change] }
  | _, _ => known ++ (s.madeBy known r).toList

def pasts (s : Session) (known : List Past) : List Request → List Past
  | [] => known
  | r :: rest => pasts (s.step r).1 (s.pastsAfter known r) rest

/-- Every context has the functions of its past. -/
structure Tracked (s : Session) (known : List Past) : Prop where
  length : known.length = s.contexts.length
  made : ∀ p ∈ known, p.base = {} ∨ p.base = Standard.functions
  functions : ∀ c p, known[c]? = some p → s.functions c = p.table

/-- What a session with functions of the given past in a context answers to requests on these. -/
structure Keeps (s : Session) (c : Nat) (past : Past) : Prop where
  made : past.base = {} ∨ past.base = Standard.functions
  latest : ∀ name arity, past.base.Latest past.changes name arity ((s.functions c).lookup name arity)
  refusesArity : ∀ context name f, Entries.get? s.contextNames context = some c →
    ∀ n < 0, s.step (.command (.addFunction context name f n)) = (s, .error (.negativeArity n))
  adds : ∀ context name f (arity : Nat), Entries.get? s.contextNames context = some c →
    ∃ s', s.step (.command (.addFunction context name f arity)) = (s', .ok .done) ∧
      ∀ n k, (s'.functions c).lookup n k =
        if n = name ∧ k = arity then some f else (s.functions c).lookup n k
  refusesAlias : ∀ context newName name, Entries.get? s.contextNames context = some c →
    (∀ k, (s.functions c).lookup name k = none) →
    s.step (.command (.aliasFunction context newName name)) = (s, .error (.missingKey (some name)))
  addsAlias : ∀ context newName name k, Entries.get? s.contextNames context = some c →
    ((s.functions c).lookup name k).isSome = true →
    ∃ s', s.step (.command (.aliasFunction context newName name)) = (s', .ok .done) ∧
      ∀ n k, (s'.functions c).lookup n k =
        if n = newName ∧ ((s.functions c).lookup name k).isSome = true
        then (s.functions c).lookup name k else (s.functions c).lookup n k
  removes : ∀ context name removed, Entries.get? s.contextNames context = some c →
    ∃ s', s.step (.command (.removeFunction context name removed)) = (s', .ok .done) ∧
      ∀ n k, (s'.functions c).lookup n k =
        if n = name ∧ (removed = none ∨ removed = some (k : Int)) then none
        else (s.functions c).lookup n k
  arities : ∀ name, ((s.functions c).arities name).Pairwise (· < ·) ∧
    ∀ k, k ∈ (s.functions c).arities name ↔ ((s.functions c).lookup name k).isSome = true
  names : (s.functions c).names.Pairwise (· < ·) ∧
    ∀ name, name ∈ (s.functions c).names ↔ (s.functions c).contains name = true
  contains : ∀ name, (s.functions c).contains name = true ↔ (s.functions c).arities name ≠ []
  copied : ∀ source target, Entries.get? s.contextNames source = some c →
    ∃ s' copy, s.step (.command (.copyContext source target)) = (s', .ok .done) ∧
      Entries.get? s'.contextNames target = some copy ∧ copy ≠ c ∧
      s'.functions copy = s.functions c ∧ s'.functions c = s.functions c
  untouched : ∀ others, s.Along (fun s r => s.contextOf r ≠ some c) others →
    (s.run others).functions c = s.functions c

variable {s s' : Session} {r : Request} {known : List Past} {command : Command} {c : Nat} {p : Past}

section Contexts

/-- The context that a request makes. -/
def Request.made? (s : Session) : Request → Option Context
  | .command (.copyContext source _) => (Entries.get? s.contextNames source).map s.context
  | .command (.createStandard _) => some Standard.context
  | .command (.createEmpty _ name) => some ⟨name, {}, {}⟩
  | _ => none

theorem length_contexts_command
    (h : ∀ s' a, s.answer command = .ok (s', a) → s'.contexts.length = s.contexts.length) :
    (s.step (.command command)).1.contexts.length = s.contexts.length := by
  rw [step]
  cases ha : s.answer command with
  | ok result => exact h _ _ ha
  | error failure => rfl

theorem length_contexts_changeFunctions {name : String}
    {change : FunctionTable → Except Failure FunctionTable}
    {a : Answer} (h : s.changeFunctions name change = .ok (s', a)) :
    s'.contexts.length = s.contexts.length := by
  obtain ⟨_, _, h⟩ := exists_of_bind_ok h
  obtain ⟨_, _, h⟩ := exists_of_bind_ok h
  cases h
  exact List.length_set

theorem length_contexts_step (h : r.made? s = none) :
    (s.step r).1.contexts.length = s.contexts.length := by
  rcases r with command | ⟨context, entries⟩ | ⟨map, request⟩
  · apply length_contexts_command
    intro s' a ha
    cases command with
    | createStandard target => cases h
    | createEmpty target name => cases h
    | copyContext source target =>
      obtain ⟨c, hc, _⟩ := exists_of_bind_ok ha
      rw [Request.made?, Option.map_eq_none_iff] at h
      rw [named, h] at hc
      cases hc
    | createMap id entries =>
      cases ha
      rfl
    | parse id text map context =>
      rcases s.answer_parse id text map context with ⟨failure, he⟩ | ⟨_, _, f, ho, _, he⟩
      · rw [he] at ha
        cases ha
      · rw [he] at ha
        cases ha
        rw [ho.contexts]
    | evaluate id path draws | setVariable id path name value | sharesScope id path =>
      obtain ⟨_, _, ha⟩ := exists_of_bind_ok ha
      obtain ⟨_, _, ha⟩ := exists_of_bind_ok ha
      cases ha
      rfl
    | addFunction context name f arity =>
      rw [answer] at ha
      exact length_contexts_changeFunctions ha
    | aliasFunction context newName name =>
      rw [answer] at ha
      exact length_contexts_changeFunctions ha
    | removeFunction context name arity =>
      rw [answer] at ha
      exact length_contexts_changeFunctions ha
    | removeConstant context name =>
      obtain ⟨_, _, ha⟩ := exists_of_bind_ok ha
      cases ha
      exact List.length_set
    | _ =>
      obtain ⟨_, _, ha⟩ := exists_of_bind_ok ha
      cases ha
      rfl
  · rw [step, addConstants]
    cases named s.contextNames context with
    | ok c => exact List.length_set
    | error failure => rfl
  · rw [step, changeMap]
    cases named s.mapNames map with
    | ok m => rfl
    | error failure => rfl

/-- A request that makes a context adds it behind all others. -/
theorem step_made {v : Context} (h : r.made? s = some v) :
    (∃ name, (s.step r).1 = s.addContext name v) ∧ s.contextOf r = none := by
  rcases r with command | ⟨context, entries⟩ | ⟨map, request⟩
  · cases command with
    | copyContext source target =>
      obtain ⟨c, hc, rfl⟩ := Option.map_eq_some_iff.1 h
      refine ⟨⟨target, ?_⟩, rfl⟩
      rw [step, answer, named_of_get? hc]
      rfl
    | createStandard target =>
      cases h
      exact ⟨⟨target, rfl⟩, rfl⟩
    | createEmpty target name =>
      cases h
      exact ⟨⟨target, rfl⟩, rfl⟩
    | _ => cases h
  · cases h
  · cases h

theorem context_length (s : Session) (name : String) (v : Context) :
    (s.addContext name v).context s.contexts.length = v := by
  rw [Session.context, addContext, List.getD_eq_getElem?_getD, List.getElem?_concat_length,
    Option.getD_some]

/-- What a request does to the functions of the context that it is made on. -/
theorem functions_onContext (v : Context) : (r.onContext v).functions =
    match r.change? with
    | some change => v.functions.after change
    | none => v.functions := by
  rcases r with command | ⟨context, entries⟩ | ⟨map, request⟩
  · cases command with
    | addFunction context name f arity =>
      rw [Request.onContext, Request.change?]
      simp only [FunctionTable.after, FunctionTable.change]
      cases v.functions.add name f arity <;> rfl
    | aliasFunction context newName name =>
      rw [Request.onContext, Request.change?]
      simp only [FunctionTable.after, FunctionTable.change]
      cases v.functions.addAlias newName name <;> rfl
    | _ => rfl
  · rfl
  · rfl

theorem Moves.functions (h : s.Moves r s') (hc : c < s.contexts.length) : s'.functions c =
    match s.contextOf r, r.change? with
    | some c', some change => if c' = c then (s.functions c).after change else s.functions c
    | _, _ => s.functions c := by
  rw [Session.functions, h.context hc]
  cases hr : s.contextOf r with
  | none => rfl
  | some c' =>
    by_cases he : c' = c
    · subst he
      rw [if_pos rfl, functions_onContext]
      cases r.change? with
      | none => rfl
      | some change => exact (if_pos rfl).symm
    · rw [if_neg fun h => he (Option.some.inj h)]
      cases r.change? with
      | none => rfl
      | some change => exact (if_neg he).symm

end Contexts

section Runs

theorem Tracked.start : Session.start.Tracked [⟨Standard.functions, []⟩] where
  length := rfl
  made p hp := .inr (congrArg Past.base (List.mem_singleton.1 hp))
  functions c p hp := by
    cases c with
    | zero =>
      cases hp
      rfl
    | succ c => cases hp

theorem Past.table_concat (p : Past) (change : FunctionTable.Change) :
    Past.table { p with changes := p.changes ++ [change] } = p.table.after change :=
  List.foldl_concat ..

/-- A change of the functions of a context adds to its past. -/
theorem Tracked.change (h : s.Tracked known) {c : Nat} {change : FunctionTable.Change}
    (hlength : s'.contexts.length = s.contexts.length)
    (hf : ∀ c' < s.contexts.length, s'.functions c' =
      if c = c' then (s.functions c').after change else s.functions c') :
    s'.Tracked (known.modify c fun p => { p with changes := p.changes ++ [change] }) where
  length := by rw [List.length_modify, h.length, hlength]
  made p hp := by
    obtain ⟨i, hi⟩ := List.mem_iff_getElem?.1 hp
    rw [List.getElem?_modify] at hi
    obtain ⟨q, hq, rfl⟩ := Option.map_eq_some_iff.1 hi
    have hmade := h.made q (List.mem_of_getElem? hq)
    split
    · exact hmade
    · exact hmade
  functions c' p hp := by
    rw [List.getElem?_modify] at hp
    obtain ⟨q, hq, rfl⟩ := Option.map_eq_some_iff.1 hp
    have hlt : c' < s.contexts.length := h.length ▸ (List.getElem?_eq_some_iff.1 hq).1
    rw [hf c' hlt, h.functions c' q hq]
    split
    · exact (q.table_concat change).symm
    · rfl

/-- The functions that a new context is made with are those of its past. -/
theorem Tracked.madeBy (h : s.Tracked known) (hs : s.Sound) {v : Context}
    (hv : r.made? s = some v) : ∃ p, s.madeBy known r = some p ∧ v.functions = p.table ∧
      (p.base = {} ∨ p.base = Standard.functions) := by
  rcases r with command | ⟨context, entries⟩ | ⟨map, request⟩
  · cases command with
    | copyContext source target =>
      obtain ⟨c, hc, rfl⟩ := Option.map_eq_some_iff.1 hv
      have hlt : c < known.length := h.length ▸ hs.contexts source c hc
      have hp : known[c]? = some known[c] := List.getElem?_eq_getElem hlt
      refine ⟨known[c], ?_, h.functions c _ hp, h.made _ (List.getElem_mem hlt)⟩
      rw [Session.madeBy, hc, Option.bind_some, hp]
    | createStandard target =>
      cases hv
      exact ⟨_, rfl, rfl, .inr rfl⟩
    | createEmpty target name =>
      cases hv
      exact ⟨_, rfl, rfl, .inl rfl⟩
    | _ => cases hv
  · cases hv
  · cases hv

theorem madeBy_eq_none (h : r.made? s = none) : s.madeBy known r = none := by
  rcases r with command | ⟨context, entries⟩ | ⟨map, request⟩
  · cases command with
    | copyContext source target =>
      rw [Request.made?, Option.map_eq_none_iff] at h
      rw [madeBy, h, Option.bind_none]
    | createStandard target => cases h
    | createEmpty target name => cases h
    | _ => rfl
  · rfl
  · rfl

theorem Tracked.step (h : s.Tracked known) (hs : s.Sound) (r : Request) :
    (s.step r).1.Tracked (s.pastsAfter known r) := by
  have hmoves := s.step_moves r
  cases hv : r.made? s with
  | none =>
    have hlength := length_contexts_step hv
    rw [pastsAfter]
    split
    · next c change hc hchange =>
      refine h.change hlength fun c' hc' => ?_
      rw [hmoves.functions hc', hc, hchange]
    · next hnone =>
      rw [madeBy_eq_none hv, Option.toList_none, List.append_nil]
      refine ⟨h.length.trans hlength.symm, h.made, fun c p hp => ?_⟩
      have hlt : c < s.contexts.length := h.length ▸ (List.getElem?_eq_some_iff.1 hp).1
      rw [hmoves.functions hlt, ← h.functions c p hp]
      split
      · next c' change hc hchange => exact absurd hchange (hnone c' change hc)
      · rfl
  | some v =>
    obtain ⟨⟨name, hstep⟩, hc⟩ := step_made hv
    obtain ⟨p, hp, hf, hbase⟩ := h.madeBy hs hv
    have hafter : s.pastsAfter known r = known ++ [p] := by
      rw [pastsAfter, hc]
      change known ++ (s.madeBy known r).toList = _
      rw [hp, Option.toList_some]
    rw [hafter, hstep]
    refine ⟨?_, fun q hq => ?_, fun c q hq => ?_⟩
    · rw [addContext, List.length_append, List.length_append, h.length]
      rfl
    · rcases List.mem_append.1 hq with hq | hq
      · exact h.made q hq
      · rw [List.mem_singleton.1 hq]
        exact hbase
    · rcases Nat.lt_trichotomy c known.length with hlt | rfl | hgt
      · rw [List.getElem?_append_left hlt] at hq
        rw [Session.functions, context_addContext (h.length ▸ hlt)]
        exact h.functions c q hq
      · rw [List.getElem?_concat_length] at hq
        cases hq
        rw [Session.functions, h.length, context_length]
        exact hf
      · rw [List.getElem?_eq_none (by rw [List.length_append]; exact hgt)] at hq
        cases hq

theorem Tracked.run (h : s.Tracked known) (hs : s.Sound) (requests : List Request) :
    (s.run requests).Tracked (s.pasts known requests) := by
  induction requests generalizing s known with
  | nil => exact h
  | cons r rest ih => exact ih (h.step hs r) ((s.step_moves r).sound hs)

theorem length_contexts_le (s : Session) (r : Request) :
    s.contexts.length ≤ (s.step r).1.contexts.length := by
  cases hv : r.made? s with
  | none => exact (length_contexts_step hv).ge
  | some v =>
    obtain ⟨⟨name, hstep⟩, _⟩ := step_made hv
    rw [hstep]
    exact (s.length_addContext name v).le

/-- Requests that are made on other contexts leave the functions of a context. -/
theorem functions_run {others : List Request} (hc : c < s.contexts.length)
    (h : s.Along (fun s r => s.contextOf r ≠ some c) others) :
    (s.run others).functions c = s.functions c := by
  induction others generalizing s with
  | nil => rfl
  | cons r rest ih =>
    have hstep : (s.step r).1.functions c = s.functions c := by
      rw [Session.functions, (s.step_moves r).context hc, if_neg h.1]
      rfl
    rw [← hstep]
    exact ih (hc.trans_le (s.length_contexts_le r)) h.2

end Runs

section Requests

variable {context name newName : String} {table : FunctionTable} {failure : Failure}

theorem functions_setContext (hc : c < s.contexts.length) (v : Context) :
    (s.setContext c v).functions c = v.functions := by
  rw [Session.functions, context_setContext hc, if_pos rfl]

/-- A change that is not refused leaves the context with the changed functions. -/
theorem step_changed (change : FunctionTable → Except Failure FunctionTable)
    (ha : s.answer command = s.changeFunctions context change)
    (hn : Entries.get? s.contextNames context = some c) (hc : c < s.contexts.length)
    (h : change (s.functions c) = .ok table) :
    ∃ s', s.step (.command command) = (s', .ok .done) ∧ s'.functions c = table := by
  have hanswer : s.changeFunctions context change =
      .ok (s.setContext c { s.context c with functions := table }, .done) := by
    rw [changeFunctions, named_of_get? hn]
    change (change (s.functions c) >>= _) = _
    rw [h]
    rfl
  refine ⟨s.setContext c { s.context c with functions := table }, ?_, ?_⟩
  · rw [step, ha, hanswer]
  · exact functions_setContext hc _

theorem step_refused (change : FunctionTable → Except Failure FunctionTable)
    (ha : s.answer command = s.changeFunctions context change)
    (hn : Entries.get? s.contextNames context = some c)
    (h : change (s.functions c) = .error failure) :
    s.step (.command command) = (s, .error failure) := by
  have hanswer : s.changeFunctions context change = .error failure := by
    rw [changeFunctions, named_of_get? hn]
    change (change (s.functions c) >>= _) = _
    rw [h]
    rfl
  rw [step, ha, hanswer]

theorem step_addFunction (hn : Entries.get? s.contextNames context = some c)
    (hc : c < s.contexts.length) (name : String) (f : Function) (arity : Nat) :
    ∃ s', s.step (.command (.addFunction context name f arity)) = (s', .ok .done) ∧
      ∀ n k, (s'.functions c).lookup n k =
        if n = name ∧ k = arity then some f else (s.functions c).lookup n k := by
  have ha : s.answer (.addFunction context name f arity) =
      s.changeFunctions context fun t => t.add name f arity := by rw [answer]
  obtain ⟨s', hstep, ht⟩ :=
    step_changed _ ha hn hc (FunctionTable.add_natural (s.functions c) name f arity)
  refine ⟨s', hstep, fun n k => ?_⟩
  rw [ht, FunctionTable.lookup_put]
  simp only [Prod.mk.injEq, eq_comm]

/-- An alias is refused if there is nothing under the other name. -/
theorem step_aliasFunction_error (hn : Entries.get? s.contextNames context = some c)
    (h : ∀ k, (s.functions c).lookup name k = none) (newName : String) :
    s.step (.command (.aliasFunction context newName name)) =
      (s, .error (.missingKey (some name))) := by
  have hempty : (s.functions c).contains name = false := by
    rw [← Bool.not_eq_true, FunctionTable.contains_iff]
    rintro ⟨k, hk⟩
    rw [h k] at hk
    cases hk
  have he : (s.functions c).addAlias newName name = .error (.missingKey (some name)) := by
    rw [FunctionTable.addAlias_eq, hempty]
    rfl
  exact step_refused (fun t => t.addAlias newName name) (by rw [answer]) hn he

theorem step_aliasFunction (hn : Entries.get? s.contextNames context = some c)
    (hc : c < s.contexts.length) (hd : (s.functions c).Distinct) {k : Nat}
    (h : ((s.functions c).lookup name k).isSome = true) (newName : String) :
    ∃ s', s.step (.command (.aliasFunction context newName name)) = (s', .ok .done) ∧
      ∀ n k, (s'.functions c).lookup n k =
        if n = newName ∧ ((s.functions c).lookup name k).isSome = true
        then (s.functions c).lookup name k else (s.functions c).lookup n k := by
  cases he : (s.functions c).addAlias newName name with
  | error failure =>
    have hempty := FunctionTable.contains_of_addAlias_error he
    rw [FunctionTable.contains_iff.2 ⟨k, h⟩] at hempty
    cases hempty
  | ok table =>
    have ha : s.answer (.aliasFunction context newName name) =
        s.changeFunctions context fun t => t.addAlias newName name := by rw [answer]
    obtain ⟨s', hstep, ht⟩ := step_changed _ ha hn hc he
    refine ⟨s', hstep, fun n k => ?_⟩
    rw [ht, FunctionTable.lookup_addAlias hd he]
    cases (s.functions c).lookup name k <;> simp

theorem step_removeFunction (hn : Entries.get? s.contextNames context = some c)
    (hc : c < s.contexts.length) (name : String) (removed : Option Int) :
    ∃ s', s.step (.command (.removeFunction context name removed)) = (s', .ok .done) ∧
      ∀ n k, (s'.functions c).lookup n k =
        if n = name ∧ (removed = none ∨ removed = some (k : Int)) then none
        else (s.functions c).lookup n k := by
  have ha : s.answer (.removeFunction context name removed) =
      s.changeFunctions context fun t => .ok (t.remove name removed) := by rw [answer]
  obtain ⟨s', hstep, ht⟩ := step_changed _ ha hn hc rfl
  refine ⟨s', hstep, fun n k => ?_⟩
  rw [ht, FunctionTable.lookup_remove]

/-- A copy is a context of its own, with the same functions. -/
theorem step_copyContext {source : String} (hn : Entries.get? s.contextNames source = some c)
    (hc : c < s.contexts.length) (target : String) :
    ∃ s' copy, s.step (.command (.copyContext source target)) = (s', .ok .done) ∧
      Entries.get? s'.contextNames target = some copy ∧ copy ≠ c ∧
      s'.functions copy = s.functions c ∧ s'.functions c = s.functions c := by
  have hstep : s.step (.command (.copyContext source target)) =
      (s.addContext target (s.context c), .ok .done) := by
    rw [step, answer, named_of_get? hn]
    rfl
  refine ⟨_, s.contexts.length, hstep, ?_, hc.ne', ?_, ?_⟩
  · rw [addContext, Entries.get?_put, if_pos rfl]
  · rw [functions, context_length, functions]
  · rw [functions, context_addContext hc, functions]

end Requests

theorem Tracked.keeps (h : s.Tracked known) (hp : known[c]? = some p) :
    s.Keeps c p := by
  have hc : c < s.contexts.length := h.length ▸ (List.getElem?_eq_some_iff.1 hp).1
  have hf : s.functions c = p.table := h.functions c p hp
  have hmade := h.made p (List.mem_of_getElem? hp)
  have hbase : p.base.Distinct := by
    rcases hmade with he | he
    · rw [he]
      exact List.nodup_nil
    · rw [he]
      exact distinct_standard
  have hd : (s.functions c).Distinct := by
    rw [hf]
    exact hbase.run p.changes
  exact {
    made := hmade
    latest := fun name arity => hf ▸ FunctionTable.latest_run hbase p.changes name arity
    refusesArity := fun context name f hn n hneg =>
      step_refused (fun t => t.add name f n) (by rw [answer]) hn
        (FunctionTable.add_negative hneg _ name f)
    adds := fun context name f arity hn => step_addFunction hn hc name f arity
    refusesAlias := fun context newName name hn h => step_aliasFunction_error hn h newName
    addsAlias := fun context newName name k hn h => step_aliasFunction hn hc hd h newName
    removes := fun context name removed hn => step_removeFunction hn hc name removed
    arities := fun name => ⟨hd.arities_pairwise name, fun k => FunctionTable.mem_arities⟩
    names := ⟨FunctionTable.names_pairwise _, fun name => FunctionTable.mem_names⟩
    contains := fun name => FunctionTable.contains_iff_arities
    copied := fun source target hn => step_copyContext hn hc target
    untouched := fun others h => functions_run hc h }

/-- After any requests every context has a past, and its functions are those that were stored under
each name most recently: requests on them are answered and change them as they say, a refused one
changes nothing, and what is done to a copy or to any other context leaves them. -/
theorem run_keeps (requests : List Request) {c : Nat}
    (hc : c < (start.run requests).contexts.length) :
    ∃ past, (start.pasts [⟨Standard.functions, []⟩] requests)[c]? = some past ∧
      (start.run requests).Keeps c past := by
  have htracked := Tracked.start.run Sound.start requests
  have hp := List.getElem?_eq_getElem (htracked.length ▸ hc)
  exact ⟨_, hp, htracked.keeps hp⟩

/-- A function is stored in a context that is then copied; in the copy it gets an alias, and in the
original it is removed. -/
def forkRequests : List Request := [
  .command (.createEmpty "a" "a"),
  .command (.addFunction "a" "f" (Standard.binary Standard.maximum) 2),
  .command (.addFunction "a" "f" (Standard.unary Standard.signum) 1),
  .command (.copyContext "a" "b"), .command (.aliasFunction "b" "g" "f"),
  .command (.removeFunction "a" "f" none)]

theorem run_keeps_fork :
    2 < (start.run forkRequests).contexts.length ∧
      FunctionTable.Latest {} [.add "f" (Standard.binary Standard.maximum) 2,
          .add "f" (Standard.unary Standard.signum) 1, .addAlias "g" "f"]
        "g" 1 (some (Standard.unary Standard.signum)) ∧
      2 ∈ ((start.run forkRequests).functions 2).arities "f" ∧
      "f" ∉ ((start.run forkRequests).functions 1).names := by
  have hlength : (start.run forkRequests).contexts.length = 3 := rfl
  obtain ⟨original, _, hkept⟩ := run_keeps forkRequests (hlength ▸ by decide : 1 < _)
  obtain ⟨copy, hpast, hcopied⟩ := run_keeps forkRequests (hlength ▸ by decide : 2 < _)
  cases hpast
  refine ⟨hlength ▸ by decide, hcopied.latest "g" 1, ?_, fun hf => ?_⟩
  · exact ((hcopied.arities "f").2 2).2 rfl
  · have hnone := (hkept.contains "f").1 ((hkept.names.2 "f").1 hf)
    obtain ⟨k, hk⟩ := List.exists_mem_of_ne_nil _ hnone
    cases ((hkept.arities "f").2 k).1 hk

end Session

end Calculator
