import Calculator.Context
import Mathlib.Data.List.Nodup
/-!
Tables as finite maps. In a table of functions no name has two entries for one number of arguments,
and then an alias gives a name all that another one has in the table, and keeps what else the name
has (`FunctionTable.lookup_addAlias`).
-/
namespace Calculator

namespace Entries

variable {κ ν : Type} [DecidableEq κ] {m : Entries κ ν} {k k' : κ} {v : ν}

theorem get?_eq_none_iff : get? m k = none ↔ k ∉ keys m := by
  induction m with
  | nil => simp [get?, keys]
  | cons entry m ih =>
    obtain ⟨k₀, v₀⟩ := entry
    rw [get?]
    split
    · next he => simp [keys, he]
    · next hne =>
      rw [ih]
      simp [keys, Ne.symm hne]

theorem mem_keys : k ∈ keys m ↔ (get? m k).isSome = true := by
  rw [Option.isSome_iff_ne_none, ne_eq, get?_eq_none_iff, not_not]

theorem mem_of_get? (h : get? m k = some v) : (k, v) ∈ m := by
  induction m with
  | nil => cases h
  | cons entry m ih =>
    obtain ⟨k₀, v₀⟩ := entry
    rw [get?] at h
    split at h
    · next he =>
      cases h
      exact he ▸ List.mem_cons_self
    · exact List.mem_cons_of_mem _ (ih h)

theorem keys_put : keys (put m k v) = if k ∈ keys m then keys m else keys m ++ [k] := by
  induction m with
  | nil => rfl
  | cons entry m ih =>
    obtain ⟨k₀, v₀⟩ := entry
    rw [put]
    split
    · next he => simp [keys, he]
    · next hne =>
      have hcons (m : Entries κ ν) (v : ν) : keys ((k₀, v) :: m) = k₀ :: keys m := rfl
      rw [hcons, hcons, ih]
      split
      · next hk => rw [if_pos (List.mem_cons_of_mem k₀ hk)]
      · next hk => rw [if_neg (by simpa [Ne.symm hne] using hk), List.cons_append]

theorem put_of_not_mem (h : k ∉ keys m) : put m k v = m ++ [(k, v)] := by
  induction m with
  | nil => rfl
  | cons entry m ih =>
    obtain ⟨hne, hm⟩ := not_or.1 (List.mem_cons.not.1 h)
    rw [put, if_neg (Ne.symm hne), ih hm]
    rfl

/-- Storing under a key does not store the key twice. -/
theorem nodup_keys_put (h : (keys m).Nodup) : (keys (put m k v)).Nodup := by
  rw [keys_put]
  split
  · exact h
  · next hk =>
    rw [← List.concat_eq_append]
    exact h.concat hk

theorem get?_filter {p : κ × ν → Bool} (hp : ∀ v, p (k, v) = true) :
    get? (m.filter p) k = get? m k := by
  induction m with
  | nil => rfl
  | cons entry m ih =>
    obtain ⟨k₀, v₀⟩ := entry
    by_cases he : k₀ = k
    · subst he
      rw [List.filter_cons_of_pos (hp v₀), get?, get?, if_pos rfl, if_pos rfl]
    · rw [List.filter_cons, get?, if_neg he]
      split
      · rw [get?, if_neg he, ih]
      · exact ih

theorem get?_filter_none {p : κ × ν → Bool} (hp : ∀ v, p (k, v) = false) :
    get? (m.filter p) k = none := by
  rw [get?_eq_none_iff]
  intro hk
  obtain ⟨⟨k', v⟩, hm, rfl⟩ := List.mem_map.1 hk
  have htrue := (List.mem_filter.1 hm).2
  rw [hp v] at htrue
  cases htrue

theorem get?_erase : get? (erase m k) k' = if k' = k then none else get? m k' := by
  split
  · next he => exact get?_filter_none fun _ => by simp [he]
  · next hne => exact get?_filter fun _ => by simp [hne]

/-- Of several entries that are stored under a key the last one counts. -/
theorem get?_foldl_put {α : Type} (key : α → κ) (value : α → ν) (entries : List α)
    (m : Entries κ ν) (k : κ) :
    get? (entries.foldl (fun m entry => put m (key entry) (value entry)) m) k =
      ((entries.filter fun entry => key entry = k).getLast?.map value).or (get? m k) := by
  induction entries generalizing m with
  | nil => rfl
  | cons entry rest ih =>
    rw [List.foldl_cons, ih, get?_put, List.filter_cons]
    by_cases he : key entry = k
    · rw [if_pos he, if_pos (decide_eq_true he), List.getLast?_cons]
      cases (rest.filter fun entry => key entry = k).getLast? <;> rfl
    · rw [if_neg he, if_neg (by simpa using he)]

theorem keys_erase : keys (erase m k) = (keys m).filter fun k' => k' ≠ k := by
  rw [keys, keys, List.filter_map]
  rfl

end Entries

namespace FunctionTable

variable {t t' : FunctionTable} {name newName : String} {arity : Nat} {f : Function}
  {failure : Failure}

/-- No name has two entries for one number of arguments. -/
def Distinct (t : FunctionTable) : Prop := (Entries.keys t.entries).Nodup

theorem Distinct.put (h : t.Distinct) : (t.put name arity f).Distinct := Entries.nodup_keys_put h

theorem lookup_put (n : String) (k : Nat) : (t.put name arity f).lookup n k =
    if (name, arity) = (n, k) then some f else t.lookup n k := Entries.get?_put ..

theorem contains_iff : t.contains name = true ↔ ∃ arity, (t.lookup name arity).isSome = true := by
  simp only [contains, lookup, ← Entries.mem_keys]
  simp [Entries.keys]

/-- What the entries of a name become when they are stored under another one. -/
theorem lookup_renamed {found : Entries (String × Nat) Function}
    (hd : (Entries.keys found).Nodup) (hn : ∀ entry ∈ found, entry.1.1 = name) (t : FunctionTable)
    (n : String) (k : Nat) :
    (found.foldl (fun t entry => t.put newName entry.1.2 entry.2) t).lookup n k =
      if n = newName then (Entries.get? found (name, k)).or (t.lookup n k) else t.lookup n k := by
  induction found generalizing t with
  | nil => simp [Entries.get?]
  | cons entry found ih =>
    obtain ⟨⟨name', arity⟩, f⟩ := entry
    obtain rfl : name' = name := hn _ List.mem_cons_self
    obtain ⟨hnew, hd⟩ := List.nodup_cons.1 hd
    rw [List.foldl_cons, ih hd (fun entry hm => hn entry (List.mem_cons_of_mem _ hm)), lookup_put]
    by_cases he : n = newName
    · subst he
      rw [if_pos rfl, if_pos rfl, Entries.get?]
      by_cases hk : arity = k
      · subst hk
        rw [if_pos rfl, if_pos rfl, Entries.get?_eq_none_iff.2 hnew]
        rfl
      · rw [if_neg (by simpa using hk), if_neg (by simpa using hk)]
    · rw [if_neg he, if_neg he, if_neg]
      intro hk
      exact he (Prod.mk.inj hk).1.symm

theorem addAlias_eq : t.addAlias newName name =
    if t.contains name then
      .ok ((t.named name).foldl (fun t entry => t.put newName entry.1.2 entry.2) t)
    else .error (.missingKey (some name)) := by
  have hempty : (t.named name).isEmpty = !t.contains name := by
    rw [Bool.eq_iff_iff]
    simp [named, contains]
  rw [addAlias, hempty]
  cases t.contains name <;> rfl

/-- An alias has all that the other name has, and keeps what else it has itself. -/
theorem lookup_addAlias (hd : t.Distinct) (h : t.addAlias newName name = .ok t') (n : String)
    (k : Nat) : t'.lookup n k =
      if n = newName then (t.lookup name k).or (t.lookup n k) else t.lookup n k := by
  rw [addAlias_eq] at h
  split at h
  · cases h
    have hsub : (Entries.keys (t.named name)).Nodup := hd.sublist (List.filter_sublist.map _)
    have hnamed : ∀ entry ∈ t.named name, entry.1.1 = name := by
      intro entry hm
      exact of_decide_eq_true (List.mem_filter.1 hm).2
    have hget : Entries.get? (t.named name) (name, k) = t.lookup name k :=
      Entries.get?_filter fun f => decide_eq_true rfl
    rw [lookup_renamed hsub hnamed, hget]
  · cases h

theorem Distinct.renamed {found : Entries (String × Nat) Function} (h : t.Distinct) :
    (found.foldl (fun t entry => t.put newName entry.1.2 entry.2) t).Distinct := by
  induction found generalizing t with
  | nil => exact h
  | cons entry found ih => exact ih h.put

theorem Distinct.addAlias (hd : t.Distinct) (h : t.addAlias newName name = .ok t') :
    t'.Distinct := by
  rw [addAlias_eq] at h
  split at h
  · cases h
    exact hd.renamed
  · cases h

theorem contains_of_addAlias (h : t.addAlias newName name = .ok t') : t.contains name = true := by
  rw [addAlias_eq] at h
  split at h
  · assumption
  · cases h

theorem contains_of_addAlias_error (h : t.addAlias newName name = .error failure) :
    t.contains name = false := by
  rw [addAlias_eq] at h
  split at h
  · cases h
  · next hc => exact Bool.eq_false_iff.2 hc

theorem contains_addAlias (hd : t.Distinct) (h : t.addAlias newName name = .ok t') (n : String) :
    t'.contains n = true ↔ n = newName ∨ t.contains n = true := by
  simp only [contains_iff, lookup_addAlias hd h]
  split
  · next he =>
    obtain ⟨k, hk⟩ := contains_iff.1 (contains_of_addAlias h)
    refine iff_of_true ⟨k, ?_⟩ (.inl he)
    rw [Option.isSome_or, hk, Bool.true_or]
  · next he => simp [he]

end FunctionTable

end Calculator
