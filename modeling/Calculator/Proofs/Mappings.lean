import Calculator.Proofs.Insertion
import Calculator.Proofs.LateBinding
/-!
Variable mappings over all runs. After any requests a mapping is what the writes they make leave, in
insertion order, and each request answers by what the mapping holds then; a number that a formula
assigns to a new name is taken back by removing the name (`VariableMap.run_follows`).
-/
namespace Calculator

namespace VariableMap

/-- The writes that a request makes; one that fails makes none. -/
def writes (m : VariableMap) : Request → List Write
  | .set name value => [.put name value]
  | .delete name => if name ∈ m.keys then [.drop name] else []
  | .pop name _ => if name ∈ m.keys then [.drop name] else []
  | .popFirst => m.keys.head?.toList.map .drop
  | .setDefault name value => if name ∈ m.keys then [] else [.put name value]
  | .update entries => entries.map fun entry => .put entry.1 entry.2
  | .clear => m.keys.map .drop
  | _ => []

def history (m : VariableMap) : List Request → List Write
  | [] => []
  | request :: rest => m.writes request ++ (m.answer request).map.history rest

/-- All writes to a mapping that begins with some entries. -/
def historyFrom (entries : Entries String Datum) (requests : List Request) : List Write :=
  entries.map (fun entry => .put entry.1 entry.2) ++ (ofEntries entries).history requests

theorem size_popFirst {m : VariableMap} {taken : Datum}
    (h : (m.answer .popFirst).answer = .ok taken) : (m.answer .popFirst).map.size < m.size := by
  obtain ⟨entries⟩ := m
  cases entries with
  | nil => cases h
  | cons entry rest =>
    have hrest : Entries.erase (entry :: rest) entry.1 = Entries.erase rest entry.1 :=
      List.filter_cons_of_neg (by simp)
    change (Entries.erase (entry :: rest) entry.1).length < rest.length + 1
    rw [hrest]
    exact Nat.lt_succ_of_le (List.length_filter_le _ rest)

/-- Takes the oldest name out of the map as long as there is one. -/
def takeAll (m : VariableMap) : VariableMap :=
  match _h : (m.answer .popFirst).answer with
  | .ok _ => takeAll (m.answer .popFirst).map
  | .error _ => m
termination_by m.size
decreasing_by exact size_popFirst _h

/-- What a map answers to requests, by what it holds. -/
structure Answers (m : VariableMap) : Prop where
  set : ∀ name value, (m.answer (.set name value)).answer = .ok .null ∧
    (m.answer (.set name value)).map.keys = if name ∈ m.keys then m.keys else m.keys ++ [name]
  present : ∀ name value, m.get? name = some value →
    m.answer (.item name) = ⟨m, .ok value⟩ ∧ m.answer (.contains name) = ⟨m, .ok (.bool true)⟩ ∧
    m.answer (.delete name) = ⟨m.erase name, .ok .null⟩ ∧
    (∀ otherwise, m.answer (.pop name otherwise) = ⟨m.erase name, .ok value⟩) ∧
    ∀ other, m.answer (.get name other) = ⟨m, .ok value⟩ ∧
      m.answer (.setDefault name other) = ⟨m, .ok value⟩
  absent : ∀ name, name ∉ m.keys →
    m.answer (.item name) = ⟨m, .error (.missingKey (some name))⟩ ∧
    m.answer (.contains name) = ⟨m, .ok (.bool false)⟩ ∧
    m.answer (.delete name) = ⟨m, .error (.missingKey (some name))⟩ ∧
    m.answer (.pop name none) = ⟨m, .error (.missingKey (some name))⟩ ∧
    ∀ other, m.answer (.pop name (some other)) = ⟨m, .ok other⟩ ∧
      m.answer (.get name other) = ⟨m, .ok other⟩ ∧
      m.answer (.setDefault name other) = ⟨m.set name other, .ok other⟩
  first : ∀ name rest, m.keys = name :: rest → ∃ value, m.get? name = some value ∧
    m.answer .popFirst = ⟨m.erase name, .ok (.list [.text name, value])⟩ ∧
    (m.erase name).keys = rest
  exhausted : m.keys = [] → m.answer .popFirst = ⟨m, .error (.missingKey none)⟩
  erased : ∀ name, (m.erase name).keys = m.keys.filter (fun other => other ≠ name) ∧
    ∀ other, (m.erase name).get? other = if other = name then none else m.get? other
  update : ∀ entries, m.answer (.update entries) =
    ⟨m.run (entries.map fun entry => .set entry.1 entry.2), .ok .null⟩
  clear : m.answer .clear = ⟨m.takeAll, .ok .null⟩ ∧ m.takeAll.keys = []
  size : m.answer .size = ⟨m, .ok (.int m.keys.length)⟩

variable {m : VariableMap} {name : String} {value : Datum} {requests : List Request}

section Contents

theorem mem_keys : name ∈ m.keys ↔ (m.get? name).isSome = true := Entries.mem_keys

theorem mem_keys_of_get? (h : m.get? name = some value) : name ∈ m.keys :=
  mem_keys.2 (h ▸ rfl)

theorem get?_of_not_mem (h : name ∉ m.keys) : m.get? name = none := Entries.get?_eq_none_iff.2 h

theorem contains_eq (m : VariableMap) (name : String) :
    m.contains name = decide (name ∈ m.keys) := by
  rw [Bool.eq_iff_iff, decide_eq_true_eq, contains, mem_keys]

theorem eq_empty_of_keys (h : m.keys = []) : m = empty := by
  obtain ⟨entries⟩ := m
  obtain rfl : entries = [] := List.map_eq_nil_iff.1 h
  rfl

theorem erase_of_not_mem (h : name ∉ m.keys) : m.erase name = m := by
  have hentries : Entries.erase m.entries name = m.entries := by
    rw [Entries.erase, List.filter_eq_self]
    intro entry hm
    apply decide_eq_true
    rintro rfl
    exact h (List.mem_map_of_mem hm)
  rw [erase, hentries]

/-- To store under a new name and to remove the name leaves all as it was. -/
theorem erase_set (h : name ∉ m.keys) (value : Datum) : (m.set name value).erase name = m := by
  have hput : Entries.put m.entries name value = m.entries ++ [(name, value)] :=
    Entries.put_of_not_mem h
  have herased : Entries.erase (m.entries ++ [(name, value)]) name = Entries.erase m.entries name := by
    rw [Entries.erase, List.filter_append, Entries.erase]
    simp
  rw [erase, set, hput, herased]
  exact erase_of_not_mem h

/-- The oldest name goes, and the others stay in their order. -/
theorem keys_erase_first {rest : List String} (hd : m.keys.Nodup) (h : m.keys = name :: rest) :
    (m.erase name).keys = rest := by
  rw [h, List.nodup_cons] at hd
  rw [keys_erased, h, List.filter_cons_of_neg (by simp), List.filter_eq_self]
  intro other hm
  apply decide_eq_true
  rintro rfl
  exact hd.1 hm

end Contents

section Runs

theorem written_append (m : VariableMap) (writes writes' : List Write) :
    m.written (writes ++ writes') = (m.written writes).written writes' := List.foldl_append

theorem written_puts (m : VariableMap) (entries : Entries String Datum) :
    m.written (entries.map fun entry => .put entry.1 entry.2) = m.update entries := List.foldl_map

theorem written_drops (m : VariableMap) (names : List String) :
    (m.written (names.map .drop)).keys = m.keys.filter fun k => k ∉ names := by
  induction names generalizing m with
  | nil => simp [written]
  | cons name names ih =>
    change ((m.erase name).written (names.map .drop)).keys = _
    rw [ih, keys_erased, List.filter_filter]
    apply List.filter_congr
    intro k _
    simp [Bool.and_comm]

/-- A request leaves what its writes leave. -/
theorem written_writes (m : VariableMap) (request : Request) :
    m.written (m.writes request) = (m.answer request).map := by
  cases request with
  | set name value => rfl
  | delete name =>
    rw [writes, answer, contains_eq]
    by_cases hm : name ∈ m.keys
    · rw [if_pos hm, if_pos (decide_eq_true hm)]
      rfl
    · rw [if_neg hm, if_neg (by simpa using hm)]
      rfl
  | pop name otherwise =>
    rw [writes]
    cases hg : m.get? name with
    | some value =>
      simp only [answer, hg, if_pos (mem_keys_of_get? hg)]
      rfl
    | none =>
      rw [if_neg fun hm => by simp [mem_keys, hg] at hm]
      cases otherwise <;> simp only [answer, hg] <;> rfl
  | popFirst =>
    rw [writes, answer]
    split
    · next name value rest he =>
      have hk : m.keys.head? = some name := by rw [keys, he]; rfl
      rw [hk]
      rfl
    · next he =>
      have hk : m.keys.head? = none := by rw [keys, he]; rfl
      rw [hk]
      rfl
  | setDefault name value =>
    rw [writes, answer]
    cases hg : m.get? name with
    | some present =>
      rw [if_pos (mem_keys_of_get? hg)]
      rfl
    | none =>
      rw [if_neg fun hm => by simp [mem_keys, hg] at hm]
      rfl
  | update entries => exact m.written_puts entries
  | clear =>
    apply eq_empty_of_keys
    rw [writes, written_drops, List.filter_eq_nil_iff]
    simp
  | item name =>
    rw [answer]
    cases m.get? name <;> rfl
  | get name otherwise | contains name | sameAs entries | size => rfl

theorem written_history (m : VariableMap) (requests : List Request) :
    m.written (m.history requests) = m.run requests := by
  induction requests generalizing m with
  | nil => rfl
  | cons request rest ih =>
    rw [history, written_append, written_writes, ih]
    rfl

theorem written_historyFrom (entries : Entries String Datum) (requests : List Request) :
    empty.written (historyFrom entries requests) = (ofEntries entries).run requests := by
  rw [historyFrom, written_append, written_puts, ← written_history]
  rfl

end Runs

section Replies

theorem takeAll_eq (m : VariableMap) : m.takeAll = empty := by
  induction m using takeAll.induct with
  | case1 m taken h ih =>
    rw [takeAll]
    split
    · exact ih
    · next h' =>
      rw [h] at h'
      cases h'
  | case2 m failure h =>
    rw [takeAll]
    split
    · next h' =>
      rw [h] at h'
      cases h'
    · obtain ⟨entries⟩ := m
      cases entries with
      | nil => rfl
      | cons entry rest => cases h

theorem answer_present (h : m.get? name = some value) :
    m.answer (.item name) = ⟨m, .ok value⟩ ∧ m.answer (.contains name) = ⟨m, .ok (.bool true)⟩ ∧
      m.answer (.delete name) = ⟨m.erase name, .ok .null⟩ ∧
      (∀ otherwise, m.answer (.pop name otherwise) = ⟨m.erase name, .ok value⟩) ∧
      ∀ other, m.answer (.get name other) = ⟨m, .ok value⟩ ∧
        m.answer (.setDefault name other) = ⟨m, .ok value⟩ := by
  simp [answer, contains, h]

theorem answer_absent (h : name ∉ m.keys) :
    m.answer (.item name) = ⟨m, .error (.missingKey (some name))⟩ ∧
      m.answer (.contains name) = ⟨m, .ok (.bool false)⟩ ∧
      m.answer (.delete name) = ⟨m, .error (.missingKey (some name))⟩ ∧
      m.answer (.pop name none) = ⟨m, .error (.missingKey (some name))⟩ ∧
      ∀ other, m.answer (.pop name (some other)) = ⟨m, .ok other⟩ ∧
        m.answer (.get name other) = ⟨m, .ok other⟩ ∧
        m.answer (.setDefault name other) = ⟨m.set name other, .ok other⟩ := by
  simp [answer, contains, Reply.missing, get?_of_not_mem h]

theorem answer_popFirst {rest : List String} (hd : m.keys.Nodup) (h : m.keys = name :: rest) :
    ∃ value, m.get? name = some value ∧
      m.answer .popFirst = ⟨m.erase name, .ok (.list [.text name, value])⟩ ∧
      (m.erase name).keys = rest := by
  obtain ⟨⟨first, value⟩, entries, he, rfl, _⟩ := List.map_eq_cons_iff.1 h
  refine ⟨value, ?_, ?_, keys_erase_first hd h⟩
  · rw [get?, he, Entries.get?, if_pos rfl]
  · rw [answer, he]

theorem answers (hd : m.keys.Nodup) : m.Answers where
  set name value := ⟨rfl, keys_set m name value⟩
  present name value h := answer_present h
  absent name h := answer_absent h
  first name rest h := answer_popFirst hd h
  exhausted h := by
    rw [eq_empty_of_keys h]
    rfl
  erased name := ⟨keys_erased m name, fun other => Entries.get?_erase⟩
  update entries := by
    rw [answer, run, List.foldl_map]
    rfl
  clear := by
    rw [takeAll_eq]
    exact ⟨rfl, rfl⟩
  size := by
    rw [answer, VariableMap.size, keys, Entries.keys, List.length_map]

end Replies

end VariableMap

namespace Session

/-- What the formulas of a session do to their mappings: they assign numbers, and nothing if the
value is none; removing a name that was new takes the number back. -/
structure Assigns (s : Session) : Prop where
  assigned : ∀ id path f name value x, s.formulaAt id path = .ok f → value.toDouble = .ok x →
    ∃ s', s.step (.command (.setVariable id path name value)) = (s', .ok .agreed) ∧
      s'.mapping f.scope.mapping = (s.mapping f.scope.mapping).set name (.number x) ∧
      ∀ m, m ≠ f.scope.mapping → s'.mapping m = s.mapping m
  refused : ∀ id path f name value e, s.formulaAt id path = .ok f → value.toDouble = .error e →
    s.step (.command (.setVariable id path name value)) = (s, .error (.conversion e))
  restored : ∀ id path f name value x, s.formulaAt id path = .ok f → value.toDouble = .ok x →
    name ∉ (s.mapping f.scope.mapping).keys →
    (s.step (.command (.setVariable id path name value))).1.step
      (.command (.removeVariable id path name)) = (s, .ok (.datum (.number x)))

variable {s : Session} {id name : String} {path : List Nat} {f : Formula} {value : Datum} {x : Float}
  {m : Nat}

theorem answer_setVariable (hf : s.formulaAt id path = .ok f) (name : String) (value : Datum) :
    s.answer (.setVariable id path name value) =
      ((s.mapping f.scope.mapping).setNumber name value >>= fun m =>
        .ok (s.setMap f.scope.mapping m, .agreed)) := by
  rw [answer, hf]
  rfl

theorem step_setVariable (hf : s.formulaAt id path = .ok f) (hx : value.toDouble = .ok x)
    (name : String) : s.step (.command (.setVariable id path name value)) =
      (s.setMap f.scope.mapping ((s.mapping f.scope.mapping).set name (.number x)), .ok .agreed) := by
  rw [step, answer_setVariable hf, VariableMap.setNumber, hx]
  rfl

theorem step_setVariable_error {e : ConversionError} (hf : s.formulaAt id path = .ok f)
    (he : value.toDouble = .error e) (name : String) :
    s.step (.command (.setVariable id path name value)) = (s, .error (.conversion e)) := by
  rw [step, answer_setVariable hf, VariableMap.setNumber, he]
  rfl

theorem step_removeVariable (hf : s.formulaAt id path = .ok f) (name : String) :
    s.step (.command (.removeVariable id path name)) =
      (s.setMap f.scope.mapping ((s.mapping f.scope.mapping).erase name),
        .ok (.datum (((s.mapping f.scope.mapping).get? name).getD .null))) := by
  rw [step, answer, hf]
  rfl

/-- The mapping that a formula refers to is there. -/
theorem Sound.mapping_lt (hs : s.Sound) (hf : s.formulaAt id path = .ok f) :
    f.scope.mapping < s.maps.length := by
  cases htop : Entries.get? s.formulas id with
  | none =>
    rw [formulaAt, named, htop] at hf
    cases hf
  | some top =>
    have hholds := hs.formulas id top htop
    rw [formulaAt_eq htop] at hf
    cases hd : top.descend? path with
    | none =>
      rw [hd] at hf
      cases hf
    | some inner =>
      rw [hd] at hf
      cases hf
      rw [(hholds.shared.within (Formula.descend?_within hd)).scope_eq]
      exact hholds.shared.scope_eq ▸ hholds.mapping

theorem setMap_mapping (hm : m < s.maps.length) (v : VariableMap) :
    (s.setMap m v).setMap m (s.mapping m) = s := by
  have hback : (s.maps.set m v).set m (s.mapping m) = s.maps := by
    have hget : s.mapping m = s.maps[m] := by
      rw [mapping, List.getD_eq_getElem?_getD, List.getElem?_eq_getElem hm, Option.getD_some]
    rw [List.set_set, hget, List.set_getElem_self]
  rw [setMap, setMap, hback]

theorem Sound.assigns (hs : s.Sound) : s.Assigns where
  assigned id path f name value x hf hx := by
    refine ⟨_, step_setVariable hf hx name, ?_, fun m hm => ?_⟩
    · rw [mapping_setMap (hs.mapping_lt hf), if_pos rfl]
    · rw [mapping, setMap, List.getD_eq_getElem?_getD, List.getElem?_set_ne hm.symm]
      exact List.getD_eq_getElem?_getD.symm
  refused id path f name value e hf he := step_setVariable_error hf he name
  restored id path f name value x hf hx hn := by
    have hm := hs.mapping_lt hf
    have hafter : (s.setMap f.scope.mapping
        ((s.mapping f.scope.mapping).set name (.number x))).formulaAt id path = .ok f := hf
    have hfound : ((s.mapping f.scope.mapping).set name (.number x)).get? name =
        some (.number x) := by
      rw [VariableMap.get?, VariableMap.set, Entries.get?_put, if_pos rfl]
    rw [step_setVariable hf hx, step_removeVariable hafter, mapping_setMap hm, if_pos rfl, hfound,
      VariableMap.erase_set hn, setMap_mapping hm]
    rfl

end Session

/-- Whatever is requested of a mapping that begins with some entries, its names stand in the order in
which they were first stored since they were last removed, each with the value that was stored last,
and it answers every request by what it holds. In any session a formula assigns numbers to its
mapping, a value that is no number changes nothing, and to remove a name that was new restores the
session. -/
theorem VariableMap.run_follows (entries : Entries String Datum) (requests : List Request)
    (before : List Session.Request) :
    ((ofEntries entries).run requests).Follows (historyFrom entries requests) ∧
      ((ofEntries entries).run requests).Answers ∧
      (Session.start.run before).Assigns := by
  have hfollows := follows_written (historyFrom entries requests)
  rw [written_historyFrom] at hfollows
  exact ⟨hfollows, answers hfollows.names.nodup, (Session.Sound.start.run before).assigns⟩

end Calculator
