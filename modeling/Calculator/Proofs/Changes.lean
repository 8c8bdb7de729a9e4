import Calculator.Proofs.Recent
import Calculator.Proofs.Tables
import Mathlib.Data.String.Basic
/-!
Changes of function tables. After any changes a table holds under a name and a number of arguments
the function that was stored there most recently (`FunctionTable.latest_run`), and what it lists is
what it holds, in order.
-/
namespace Calculator

section Sorting

theorem nodup_eraseDups {α : Type} [DecidableEq α] (l : List α) : l.eraseDups.Nodup := by
  -- Dropping the repetitions of a first element leaves no tail of the list, but a shorter list.
  induction hn : l.length using Nat.strong_induction_on generalizing l with
  | _ n ih =>
    cases l with
    | nil => exact .nil
    | cons a rest =>
      rw [List.eraseDups_cons, List.nodup_cons]
      refine ⟨fun hm => ?_, ih _ ?_ _ rfl⟩
      · simpa using List.mem_eraseDups.1 hm
      · rw [← hn, List.length_cons]
        exact Nat.lt_succ_of_le (List.length_filter_le _ rest)

/-- Sorting a list without repetitions gives it in strict order. -/
theorem pairwise_lt_mergeSort {α : Type} [LinearOrder α] {l : List α} (h : l.Nodup) :
    (l.mergeSort fun a b => decide (a ≤ b)).Pairwise (· < ·) := by
  have hsorted : (l.mergeSort fun a b => decide (a ≤ b)).Pairwise fun a b => decide (a ≤ b) := by
    apply List.pairwise_mergeSort
    · intro a b c hab hbc
      exact decide_eq_true ((of_decide_eq_true hab).trans (of_decide_eq_true hbc))
    · intro a b
      simpa using le_total a b
  have hnodup : (l.mergeSort fun a b => decide (a ≤ b)).Nodup := (List.mergeSort_perm ..).nodup_iff.2 h
  refine (hsorted.and hnodup).imp fun hab => ?_
  exact lt_of_le_of_ne (of_decide_eq_true hab.1) hab.2

end Sorting

namespace FunctionTable

/-- A change that is asked of a table. -/
inductive Change where
  | add (name : String) (f : Function) (arity : Int)
  | addAlias (newName name : String)
  | remove (name : String) (arity : Option Int)

/-- The function that a change stores; an alias stores what its target has by then. -/
inductive Change.Stores (t : FunctionTable) (name : String) (arity : Nat) (f : Function) :
    Change → Prop
  | add : Stores t name arity f (.add name f arity)
  | addAlias {target : String} (h : t.lookup target arity = some f) :
      Stores t name arity f (.addAlias name target)

inductive Change.Removes (name : String) (arity : Nat) : Change → Prop
  | one : Removes name arity (.remove name (some arity))
  | all : Removes name arity (.remove name none)

def change (t : FunctionTable) : Change → Except Failure FunctionTable
  | .add name f arity => t.add name f arity
  | .addAlias newName name => t.addAlias newName name
  | .remove name arity => .ok (t.remove name arity)

/-- A change that is refused leaves the table as it is. -/
def after (t : FunctionTable) (c : Change) : FunctionTable :=
  match t.change c with
  | .ok t' => t'
  | .error _ => t

def run (t : FunctionTable) (changes : List Change) : FunctionTable := changes.foldl after t

/-- What a table that was made as `base` should hold after the changes: the function that was stored
under the name most recently, unless it was removed since. -/
def Latest (base : FunctionTable) (changes : List Change) (name : String) (arity : Nat) :
    Option Function → Prop :=
  Recent (fun f before c => c.Stores (base.run before) name arity f) (fun _ c => c.Removes name arity)
    (base.lookup name arity) changes

variable {t t' base : FunctionTable} {c : Change} {changes : List Change} {name newName : String}
  {arity : Nat} {f : Function} {failure : Failure}

section Steps

theorem add_negative {n : Int} (h : n < 0) (t : FunctionTable) (name : String) (f : Function) :
    t.add name f n = .error (.negativeArity n) := if_pos h

theorem add_natural (t : FunctionTable) (name : String) (f : Function) (arity : Nat) :
    t.add name f arity = .ok (t.put name arity f) := by
  rw [add, if_neg (Int.not_lt.2 (Int.natCast_nonneg arity)), Int.toNat_natCast]

theorem lookup_remove (t : FunctionTable) (name : String) (removed : Option Int) (n : String)
    (k : Nat) : (t.remove name removed).lookup n k =
      if n = name ∧ (removed = none ∨ removed = some (k : Int)) then none else t.lookup n k := by
  split
  · next h =>
    obtain ⟨rfl, h⟩ := h
    apply Entries.get?_filter_none
    intro f
    rcases h with rfl | rfl <;> simp
  · next h =>
    apply Entries.get?_filter
    intro f
    cases removed with
    | none => simpa using h
    | some m =>
      simp only [reduceCtorEq, Option.some.injEq, false_or, not_and] at h
      simp only [Bool.not_eq_true', Bool.and_eq_false_iff, decide_eq_false_iff_not]
      by_cases hn : n = name
      · exact .inr fun he => h hn he.symm
      · exact .inl hn

theorem Distinct.remove (h : t.Distinct) (name : String) (arity : Option Int) :
    (t.remove name arity).Distinct := h.sublist (List.filter_sublist.map _)

theorem Distinct.after (h : t.Distinct) (c : Change) : (t.after c).Distinct := by
  rw [FunctionTable.after]
  cases c with
  | add name f arity =>
    rw [change, add]
    split
    · next he =>
      split at he
      · cases he
      · cases he
        exact h.put
    · exact h
  | addAlias newName name =>
    rw [change]
    split
    · next he => exact h.addAlias he
    · exact h
  | remove name arity => exact h.remove name arity

theorem Distinct.run (h : t.Distinct) (changes : List Change) : (t.run changes).Distinct := by
  induction changes generalizing t with
  | nil => exact h
  | cons c rest ih => exact ih (h.after c)

/-- What an alias leaves under a name, whether it is refused or not. -/
theorem lookup_after_addAlias (hd : t.Distinct) (newName target n : String) (k : Nat) :
    (t.after (.addAlias newName target)).lookup n k =
      if n = newName then (t.lookup target k).or (t.lookup n k) else t.lookup n k := by
  rw [after, change]
  cases he : t.addAlias newName target with
  | ok t' => exact lookup_addAlias hd he n k
  | error failure =>
    have hnone : t.lookup target k = none := by
      rw [← Option.not_isSome_iff_eq_none]
      intro hk
      have hc := contains_of_addAlias_error he
      rw [contains_iff.2 ⟨k, hk⟩] at hc
      cases hc
    rw [hnone, Option.none_or, ite_self]

theorem lookup_after_stores (hd : t.Distinct) (h : c.Stores t name arity f) :
    (t.after c).lookup name arity = some f := by
  cases h with
  | add => rw [after, change, add_natural, lookup_put, if_pos rfl]
  | addAlias h => rw [lookup_after_addAlias hd, if_pos rfl, h, Option.some_or]

theorem lookup_after_removes (h : c.Removes name arity) : (t.after c).lookup name arity = none := by
  cases h with
  | one => exact (t.lookup_remove ..).trans (if_pos ⟨rfl, .inr rfl⟩)
  | all => exact (t.lookup_remove ..).trans (if_pos ⟨rfl, .inl rfl⟩)

/-- A change that neither stores under a name nor removes it leaves what the name has. -/
theorem lookup_after_other (hd : t.Distinct) (hs : ∀ f, ¬ c.Stores t name arity f)
    (hr : ¬ c.Removes name arity) : (t.after c).lookup name arity = t.lookup name arity := by
  cases c with
  | add n g k =>
    by_cases hk : k < 0
    · rw [after, change, add_negative hk]
    · obtain ⟨k, rfl⟩ := Int.eq_ofNat_of_zero_le (Int.not_lt.1 hk)
      rw [after, change, add_natural, lookup_put, if_neg]
      intro he
      cases he
      exact hs g .add
  | addAlias newName target =>
    rw [lookup_after_addAlias hd]
    split
    · next he =>
      subst he
      cases hf : t.lookup target arity with
      | none => rfl
      | some f => exact absurd (.addAlias hf) (hs f)
    · rfl
  | remove n removed =>
    refine (t.lookup_remove ..).trans (if_neg ?_)
    rintro ⟨rfl, rfl | rfl⟩
    · exact hr .all
    · exact hr .one

end Steps

theorem latest_run (hd : base.Distinct) (changes : List Change) (name : String) (arity : Nat) :
    base.Latest changes name arity ((base.run changes).lookup name arity) := by
  have hconcat (before : List Change) (c : Change) :
      base.run (before ++ [c]) = (base.run before).after c := List.foldl_concat ..
  refine recent_of_steps (fun changes => (base.run changes).lookup name arity) rfl
    (fun before c f hs => ?_) (fun before c hr => ?_) (fun before c hs hr => ?_) changes
  · simp only [hconcat]
    exact lookup_after_stores (hd.run before) hs
  · simp only [hconcat]
    exact lookup_after_removes hr
  · simp only [hconcat]
    exact lookup_after_other (hd.run before) hs hr

section Listings

theorem mem_arities : arity ∈ t.arities name ↔ (t.lookup name arity).isSome = true := by
  rw [lookup, ← Entries.mem_keys, arities, List.mem_mergeSort]
  simp only [named, Entries.keys, List.mem_map, List.mem_filter, decide_eq_true_eq]
  constructor
  · rintro ⟨entry, ⟨hm, rfl⟩, rfl⟩
    exact ⟨entry, hm, rfl⟩
  · rintro ⟨entry, hm, he⟩
    exact ⟨entry, ⟨hm, congrArg Prod.fst he⟩, congrArg Prod.snd he⟩

theorem contains_iff_arities : t.contains name = true ↔ t.arities name ≠ [] := by
  rw [contains_iff, ne_eq, List.eq_nil_iff_forall_not_mem, not_forall]
  refine exists_congr fun arity => ?_
  rw [not_not, mem_arities]

theorem mem_names : name ∈ t.names ↔ t.contains name = true := by
  simp [names, contains]

theorem Distinct.arities_pairwise (h : t.Distinct) (name : String) :
    (t.arities name).Pairwise (· < ·) := by
  apply pairwise_lt_mergeSort
  have hnamed : (Entries.keys (t.named name)).Nodup := h.sublist (List.filter_sublist.map _)
  have harities : (t.named name).map (fun entry => entry.1.2) =
      (Entries.keys (t.named name)).map Prod.snd := by
    rw [Entries.keys, List.map_map]
    rfl
  rw [harities]
  refine hnamed.map_on fun key hk key' hk' he => ?_
  have hname {key : String × Nat} (hk : key ∈ Entries.keys (t.named name)) : key.1 = name := by
    obtain ⟨entry, hm, rfl⟩ := List.mem_map.1 hk
    exact of_decide_eq_true (List.mem_filter.1 hm).2
  exact Prod.ext ((hname hk).trans (hname hk').symm) he

theorem names_pairwise (t : FunctionTable) : t.names.Pairwise (· < ·) :=
  pairwise_lt_mergeSort (nodup_eraseDups _)

end Listings

end FunctionTable

end Calculator
