import Calculator.ContextFile
import Calculator.Proofs.Tables
import Calculator.Standard
import Mathlib.Order.Lattice.Nat
/-!
Loading of context files. The aliases of a file are followed one after the other, and the file is
refused as a whole at the first one whose target is not known by then; of the constants the last one
of a name counts (`Context.ofFile_follows`).
-/
namespace Calculator

/-- What each name stands for with each number of arguments. -/
abbrev Meaning := String → Nat → Option Function

namespace Meaning

/-- An alias stands for all that its target stands for, and for what else it has stood for. -/
def withAlias (m : Meaning) (entry : String × String) : Meaning := fun name arity =>
  if name = entry.1 then (m entry.2 arity).or (m name arity) else m name arity

def following (m : Meaning) (aliases : Entries String String) : Meaning :=
  aliases.foldl withAlias m

/-- The alias in a place has the name, and its target stood for the function by then. -/
def Brings (m : Meaning) (aliases : Entries String String) (name : String) (arity i : Nat)
    (f : Function) : Prop :=
  ∃ target, aliases[i]? = some (name, target) ∧ m.following (aliases.take i) target arity = some f

/-- The last alias that brings a name a function decides what it stands for, and where there is none
it keeps its meaning. -/
def LastBrings (m : Meaning) (aliases : Entries String String) (name : String) (arity : Nat)
    (found : Option Function) : Prop :=
  (∃ i f, m.Brings aliases name arity i f ∧ (∀ j g, i < j → ¬ m.Brings aliases name arity j g) ∧
      found = some f) ∨
    (∀ j g, ¬ m.Brings aliases name arity j g) ∧ found = m name arity

end Meaning

/-- The target of the alias in a place is neither in the table nor the name of an earlier alias. -/
def FunctionTable.Unknown (table : FunctionTable) (aliases : Entries String String) (i : Nat) :
    Prop :=
  ∃ name target, aliases[i]? = some (name, target) ∧ table.contains target = false ∧
    target ∉ Entries.keys (aliases.take i)

/-- The file can be read, and its text defines this. -/
def FileReader.Holds (read : FileReader) (define : DefinitionReader) (path : String)
    (d : Definition) : Prop :=
  ∃ text, read path = .ok text ∧ define path text = .ok d

variable {m : Meaning} {aliases : Entries String String} {entry : String × String}
  {table table' : FunctionTable} {base : Context} {d : Definition} {name target : String}
  {arity i n : Nat} {failure : Failure} {define : DefinitionReader} {read : FileReader}
  {path : String}

section Following

theorem Meaning.following_take_succ (h : aliases[n]? = some entry) :
    m.following (aliases.take (n + 1)) = (m.following (aliases.take n)).withAlias entry := by
  rw [List.take_add_one, h, following, List.foldl_append]
  rfl

theorem Meaning.following_brings {f : Function} (h : m.Brings aliases name arity n f) :
    m.following (aliases.take (n + 1)) name arity = some f := by
  obtain ⟨target, ht, hf⟩ := h
  rw [following_take_succ ht, withAlias, if_pos rfl, hf]
  rfl

theorem Meaning.following_not_brings (h : ∀ f, ¬ m.Brings aliases name arity n f) :
    m.following (aliases.take (n + 1)) name arity = m.following (aliases.take n) name arity := by
  cases hn : aliases[n]? with
  | none => rw [List.take_add_one, hn, Option.toList_none, List.append_nil]
  | some entry =>
    obtain ⟨newName, target⟩ := entry
    rw [following_take_succ hn, withAlias]
    split
    · next he =>
      cases hf : m.following (aliases.take n) target arity with
      | none => rfl
      | some f => exact absurd ⟨target, he ▸ hn, hf⟩ (h f)
    · rfl

theorem Meaning.Brings.lt_length {f : Function} (h : m.Brings aliases name arity i f) :
    i < aliases.length := by
  obtain ⟨target, ht, _⟩ := h
  exact (List.getElem?_eq_some_iff.1 ht).1

/-- After the first aliases the last one of them that brings a name a function has decided. -/
theorem Meaning.following_take (m : Meaning) (aliases : Entries String String) (name : String)
    (arity n : Nat) :
    (∃ i f, m.Brings aliases name arity i f ∧
        (∀ j g, i < j → j < n → ¬ m.Brings aliases name arity j g) ∧
        m.following (aliases.take n) name arity = some f) ∨
      (∀ j g, j < n → ¬ m.Brings aliases name arity j g) ∧
        m.following (aliases.take n) name arity = m name arity := by
  induction n with
  | zero => exact .inr ⟨fun j g hj => absurd hj (Nat.not_lt_zero j), rfl⟩
  | succ n ih =>
    by_cases hb : ∃ f, m.Brings aliases name arity n f
    · obtain ⟨f, hf⟩ := hb
      refine .inl ⟨n, f, hf, fun j g hn hj => ?_, following_brings hf⟩
      omega
    · rw [not_exists] at hb
      rw [following_not_brings hb]
      have hlast {j : Nat} (hj : j < n + 1) (hne : j ≠ n) : j < n := by omega
      rcases ih with ⟨i, f, hf, hlater, he⟩ | ⟨hnone, he⟩
      · refine .inl ⟨i, f, hf, fun j g hi hj => ?_, he⟩
        by_cases hjn : j = n
        · exact hjn ▸ hb g
        · exact hlater j g hi (hlast hj hjn)
      · refine .inr ⟨fun j g hj => ?_, he⟩
        by_cases hjn : j = n
        · exact hjn ▸ hb g
        · exact hnone j g (hlast hj hjn)

theorem Meaning.following_lastBrings (m : Meaning) (aliases : Entries String String)
    (name : String) (arity : Nat) :
    m.LastBrings aliases name arity (m.following aliases name arity) := by
  have htake := m.following_take aliases name arity aliases.length
  rw [List.take_length] at htake
  rcases htake with ⟨i, f, hf, hlater, he⟩ | ⟨hnone, he⟩
  · exact .inl ⟨i, f, hf, fun j g hi hg => hlater j g hi hg.lt_length hg, he⟩
  · exact .inr ⟨fun j g hg => hnone j g hg.lt_length hg, he⟩

end Following

section Aliases

theorem lookup_eq_withAlias {newName : String} (hd : table.Distinct)
    (h : table.addAlias newName target = .ok table') :
    table'.lookup = Meaning.withAlias table.lookup (newName, target) := by
  funext name arity
  exact FunctionTable.lookup_addAlias hd h name arity

theorem addAliases_ok (hd : table.Distinct)
    (h : Definition.addAliases table aliases = .ok table') :
    table'.lookup = Meaning.following table.lookup aliases := by
  induction aliases generalizing table with
  | nil =>
    cases h
    rfl
  | cons entry rest ih =>
    obtain ⟨newName, target⟩ := entry
    rw [Definition.addAliases] at h
    split at h
    · next next hn =>
      rw [ih (hd.addAlias hn) h, lookup_eq_withAlias hd hn]
      rfl
    · cases h

theorem unknown_zero {newName : String} {rest : Entries String String} :
    table.Unknown ((newName, target) :: rest) 0 ↔ table.contains target = false := by
  constructor
  · rintro ⟨name, target', he, hc, _⟩
    cases he
    exact hc
  · intro hc
    exact ⟨newName, target, rfl, hc, List.not_mem_nil⟩

/-- Behind an alias that can be followed the unknown targets are those of the rest. -/
theorem unknown_succ {newName : String} {rest : Entries String String} (hd : table.Distinct)
    (h : table.addAlias newName target = .ok table') :
    table.Unknown ((newName, target) :: rest) (i + 1) ↔ table'.Unknown rest i := by
  have hcontains (n : String) : table'.contains n = false ↔ n ≠ newName ∧
      table.contains n = false := by
    rw [← Bool.not_eq_true, FunctionTable.contains_addAlias hd h, not_or, Bool.not_eq_true]
  simp only [FunctionTable.Unknown, List.getElem?_cons_succ, List.take_succ_cons, Entries.keys,
    List.map_cons, List.mem_cons, not_or, hcontains]
  refine exists₂_congr fun name target' => and_congr_right fun _ => ?_
  tauto

theorem isLeast_unknown_succ {newName : String} {rest : Entries String String}
    (hd : table.Distinct) (h : table.addAlias newName target = .ok table') :
    IsLeast {i | table.Unknown ((newName, target) :: rest) i} (i + 1) ↔
      IsLeast {i | table'.Unknown rest i} i := by
  have hsucc {j : Nat} : table.Unknown ((newName, target) :: rest) (j + 1) ↔
      table'.Unknown rest j := unknown_succ hd h
  constructor
  · rintro ⟨hm, hl⟩
    exact ⟨hsucc.1 hm, fun j hj => Nat.le_of_succ_le_succ (hl (hsucc.2 hj))⟩
  · rintro ⟨hm, hl⟩
    refine ⟨hsucc.2 hm, ?_⟩
    intro j hj
    cases j with
    | zero =>
      have hc := unknown_zero.1 hj
      rw [FunctionTable.contains_of_addAlias h] at hc
      cases hc
    | succ j => exact Nat.succ_le_succ (hl (hsucc.1 hj))

/-- The aliases are refused at the first one whose target is unknown. -/
theorem addAliases_error (hd : table.Distinct) :
    Definition.addAliases table aliases = .error failure ↔
      ∃ i name target, IsLeast {i | table.Unknown aliases i} i ∧
        aliases[i]? = some (name, target) ∧ failure = .context (.unknownAlias name target) := by
  induction aliases generalizing table with
  | nil =>
    constructor
    · intro h
      cases h
    · rintro ⟨i, name, target, _, he, _⟩
      cases he
  | cons entry rest ih =>
    obtain ⟨newName, target⟩ := entry
    cases hn : table.addAlias newName target with
    | error _ =>
      have hc : table.contains target = false := FunctionTable.contains_of_addAlias_error hn
      rw [Definition.addAliases, hn]
      constructor
      · intro h
        cases h
        exact ⟨0, newName, target, ⟨unknown_zero.2 hc, fun j _ => Nat.zero_le j⟩, rfl, rfl⟩
      · rintro ⟨i, name, target', hl, he, rfl⟩
        obtain rfl : i = 0 := Nat.le_zero.1 (hl.2 (unknown_zero.2 hc))
        cases he
        rfl
    | ok next =>
      rw [Definition.addAliases, hn]
      change Definition.addAliases next rest = .error failure ↔ _
      rw [ih (hd.addAlias hn)]
      constructor
      · rintro ⟨i, name, target', hl, he⟩
        exact ⟨i + 1, name, target', (isLeast_unknown_succ hd hn).2 hl, he⟩
      · rintro ⟨i, name, target', hl, he⟩
        cases i with
        | zero =>
          have hc := unknown_zero.1 hl.1
          rw [FunctionTable.contains_of_addAlias hn] at hc
          cases hc
        | succ i => exact ⟨i, name, target', (isLeast_unknown_succ hd hn).1 hl, he⟩

end Aliases

section Files

theorem lookup_constants (constants : Entries String Float) (t : ConstantTable) (name : String) :
    (constants.foldl (fun t (name, value) => t.put name value) t).lookup name =
      ((constants.filter fun entry => Text.lower entry.1 = Text.lower name).getLast?.map
        Prod.snd).or (t.lookup name) := by
  have hentries : (constants.foldl (fun t (name, value) => t.put name value) t).entries =
      constants.foldl (fun m entry => Entries.put m (Text.lower entry.1) entry.2) t.entries :=
    (List.foldl_hom ConstantTable.entries fun t entry => rfl).symm
  rw [ConstantTable.lookup, hentries]
  exact Entries.get?_foldl_put ..

theorem distinct_standard : Standard.functions.Distinct := by
  rw [FunctionTable.Distinct]
  decide +kernel

theorem extend_ok (hd : base.functions.Distinct) {c : Context} (h : d.extend base = .ok c) :
    c.name = d.name ∧ c.functions.lookup = Meaning.following base.functions.lookup d.aliases ∧
      c.constants = d.constants.foldl (fun t (name, value) => t.put name value) base.constants := by
  rw [Definition.extend] at h
  cases ha : Definition.addAliases base.functions d.aliases with
  | error failure =>
    rw [ha] at h
    cases h
  | ok functions =>
    rw [ha] at h
    cases h
    exact ⟨rfl, addAliases_ok hd ha, rfl⟩

theorem extend_error : d.extend base = .error failure ↔
    Definition.addAliases base.functions d.aliases = .error failure := by
  rw [Definition.extend]
  cases Definition.addAliases base.functions d.aliases with
  | error failure' =>
    constructor
    · intro h
      cases h
      rfl
    · intro h
      cases h
      rfl
  | ok functions => exact ⟨(nomatch ·), (nomatch ·)⟩

/-- A file that holds a definition extends the context by it. -/
theorem Context.ofFile_eq (h : read.Holds define path d) :
    Context.ofFile base define read path = d.extend base := by
  obtain ⟨text, ht, hd⟩ := h
  rw [Context.ofFile, ht]
  simp only [hd]
  rfl

end Files

/-- A file that holds a definition is refused if and only if the target of some alias is neither a
standard function nor an earlier alias, and the failure names the first such alias and its target.
Otherwise each name has the functions that follow from the aliases one after the other, where the
last alias that brings a function decides, and the value of its last constant in the file, or else
its standard ones. -/
theorem Context.ofFile_follows (h : read.Holds define path d) :
    ((∃ failure, Context.ofFile Standard.context define read path = .error failure) ↔
        ∃ i, Standard.functions.Unknown d.aliases i) ∧
      (∀ failure, Context.ofFile Standard.context define read path = .error failure →
        ∃ i name target, IsLeast {i | Standard.functions.Unknown d.aliases i} i ∧
          d.aliases[i]? = some (name, target) ∧ failure = .context (.unknownAlias name target)) ∧
      ∀ c, Context.ofFile Standard.context define read path = .ok c →
        c.name = d.name ∧
        (∀ name arity, c.functions.lookup name arity =
            Meaning.following Standard.functions.lookup d.aliases name arity ∧
          Meaning.LastBrings Standard.functions.lookup d.aliases name arity
            (c.functions.lookup name arity)) ∧
        ∀ name, c.constants.lookup name =
          ((d.constants.filter fun entry => Text.lower entry.1 = Text.lower name).getLast?.map
            Prod.snd).or (Standard.constants.lookup name) := by
  have hd : Standard.context.functions.Distinct := distinct_standard
  rw [Context.ofFile_eq h]
  have herror (failure : Failure) : d.extend Standard.context = .error failure ↔ _ :=
    extend_error.trans (addAliases_error hd)
  refine ⟨?_, fun failure hf => (herror failure).1 hf, ?_⟩
  · simp only [herror]
    constructor
    · rintro ⟨_, i, _, _, hl, _⟩
      exact ⟨i, hl.1⟩
    · intro hex
      obtain ⟨name, target, he, _⟩ := Nat.sInf_mem hex
      exact ⟨_, _, name, target, ⟨Nat.sInf_mem hex, fun j hj => Nat.sInf_le hj⟩, he, rfl⟩
  · intro c hc
    obtain ⟨hname, hfunctions, hconstants⟩ := extend_ok hd hc
    refine ⟨hname, fun name arity => ?_, fun name => ?_⟩
    · rw [hfunctions]
      exact ⟨rfl, Meaning.following_lastBrings _ d.aliases name arity⟩
    · rw [hconstants]
      exact lookup_constants d.constants _ name

/-- The name `log` is overlaid by `max`, behind an alias of it and in front of another one. -/
def overlaid : String :=
  "name: p\nconstants:\n  G: 1\n  g: 2\naliases:\n  ln: log\n  log: max\n  lg: log\n"

/-- The target of `b` is unknown, that of `c` is an earlier alias. -/
def unknownTarget : String :=
  "name: p\naliases:\n  a: log\n  b: zz\n  c: a\n  d: yy\n"

theorem exists_of_toOption {ε α β : Type} {x : Except ε α} {view : α → β} {b : β}
    (h : x.toOption.map view = some b) : ∃ a, x = .ok a ∧ view a = b := by
  cases x with
  | ok a => exact ⟨a, rfl, Option.some.inj h⟩
  | error e => cases h

theorem holds_overlaid : ∃ d two, FileReader.Holds (fun _ => .ok overlaid) Definition.ofYaml "p" d ∧
    d.aliases = [("ln", "log"), ("log", "max"), ("lg", "log")] ∧
    (d.constants.filter fun entry => Text.lower entry.1 = Text.lower "G").getLast? =
      some ("g", two) ∧ Double.rank two = Double.rank 2 := by
  have htext : (Definition.ofYaml "p" overlaid).toOption.map (fun d =>
      (d.aliases, d.constants.map fun entry => (entry.1, Double.rank entry.2))) =
      some ([("ln", "log"), ("log", "max"), ("lg", "log")],
        [("G", Double.rank 1), ("g", Double.rank 2)]) := by decide +kernel
  have hlower : Text.lower "g" = Text.lower "G" := by decide +kernel
  obtain ⟨d, hd, he⟩ := exists_of_toOption htext
  obtain ⟨ha, hconstants⟩ := Prod.mk.inj he
  obtain ⟨⟨_, one⟩, _, hcons, hone, hrest⟩ := List.map_eq_cons_iff.1 hconstants
  obtain ⟨⟨_, two⟩, hlast, htwo⟩ := List.map_eq_singleton_iff.1 hrest
  obtain ⟨rfl, _⟩ := Prod.mk.inj hone
  obtain ⟨rfl, htwo⟩ := Prod.mk.inj htwo
  refine ⟨d, two, ⟨_, rfl, hd⟩, ha, ?_, htwo⟩
  rw [hcons, hlast]
  simp [hlower]

theorem holds_unknownTarget : ∃ d,
    FileReader.Holds (fun _ => .ok unknownTarget) Definition.ofYaml "p" d ∧
    d.aliases = [("a", "log"), ("b", "zz"), ("c", "a"), ("d", "yy")] := by
  have htext : (Definition.ofYaml "p" unknownTarget).toOption.map (·.aliases) =
      some [("a", "log"), ("b", "zz"), ("c", "a"), ("d", "yy")] := by decide +kernel
  obtain ⟨d, hd, ha⟩ := exists_of_toOption htext
  exact ⟨d, ⟨_, rfl, hd⟩, ha⟩

theorem Context.ofFile_follows_overlaid :
    (∃ c, Standard.context.ofFile Definition.ofYaml (fun _ => .ok overlaid) "p" = .ok c ∧
      c.functions.lookup "lg" 2 = Standard.functions.lookup "max" 2 ∧
      c.functions.lookup "lg" 1 = Standard.functions.lookup "log" 1 ∧
      c.functions.lookup "ln" 2 = none ∧
      (c.constants.lookup "G").map Double.rank = some (Double.rank 2)) ∧
    Standard.context.ofFile Definition.ofYaml (fun _ => .ok unknownTarget) "p" =
      .error (.context (.unknownAlias "b" "zz")) := by
  constructor
  · obtain ⟨d, two, hholds, ha, hlast, htwo⟩ := holds_overlaid
    obtain ⟨hrefused, _, hloaded⟩ := Context.ofFile_follows hholds
    rw [ha] at hrefused hloaded
    cases hc : Standard.context.ofFile Definition.ofYaml (fun _ => .ok overlaid) "p" with
    | error failure =>
      have hknown : ∀ entry ∈ [("ln", "log"), ("log", "max"), ("lg", "log")],
          Standard.functions.contains entry.2 = true := by decide +kernel
      obtain ⟨i, name, target, he, hunknown, _⟩ := hrefused.1 ⟨failure, hc⟩
      rw [hknown _ (List.mem_of_getElem? he)] at hunknown
      cases hunknown
    | ok c =>
      obtain ⟨_, hfunctions, hvalues⟩ := hloaded c hc
      refine ⟨c, rfl, (hfunctions _ _).1, (hfunctions _ _).1, (hfunctions _ _).1, ?_⟩
      rw [hvalues, hlast, ← htwo]
      rfl
  · obtain ⟨d, hholds, ha⟩ := holds_unknownTarget
    obtain ⟨hrefused, hfirst, _⟩ := Context.ofFile_follows hholds
    have hunknown : Standard.functions.Unknown d.aliases 1 := by
      rw [ha]
      exact ⟨"b", "zz", rfl, by decide +kernel, by decide⟩
    obtain ⟨failure, hf⟩ := hrefused.2 ⟨1, hunknown⟩
    obtain ⟨i, name, target, hl, he, rfl⟩ := hfirst failure hf
    have hi : i ≤ 1 := hl.2 hunknown
    rw [ha] at he
    rw [hf]
    cases i with
    | zero =>
      obtain ⟨_, _, hzero, hc, _⟩ := hl.1
      rw [ha] at hzero
      cases hzero
      have hlog : Standard.functions.contains "log" = true := by decide +kernel
      rw [hlog] at hc
      cases hc
    | succ i =>
      obtain rfl : i = 0 := by omega
      cases he
      rfl

end Calculator
