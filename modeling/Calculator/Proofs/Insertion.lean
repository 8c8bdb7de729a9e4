import Calculator.Proofs.Recent
import Calculator.Proofs.Tables
import Calculator.VariableMap
/-!
Insertion order. After any writes to an empty map its names stand in the order in which each was
first stored since it was dropped last, and each has the value that was stored last
(`VariableMap.follows_written`).
-/
namespace Calculator

namespace VariableMap

/-- A change of a single entry. -/
inductive Write where
  | put (name : String) (value : Datum)
  | drop (name : String)

def write (m : VariableMap) : Write → VariableMap
  | .put name value => m.set name value
  | .drop name => m.erase name

def written (m : VariableMap) (writes : List Write) : VariableMap := writes.foldl write m

def PutAt (writes : List Write) (name : String) (i : Nat) : Prop :=
  Occurs (fun _ w => ∃ value, w = .put name value) writes i

def DropAt (writes : List Write) (name : String) (i : Nat) : Prop :=
  Occurs (fun _ w => w = .drop name) writes i

/-- The name is in the map from this place on: it is stored here and never dropped afterwards, and
between any earlier place that stores it and this one it was dropped. -/
structure FirstStored (writes : List Write) (name : String) (i : Nat) : Prop where
  put : PutAt writes name i
  kept : ∀ j, i < j → ¬ DropAt writes name j
  first : ∀ j < i, PutAt writes name j → ∃ l, j < l ∧ l < i ∧ DropAt writes name l

/-- These are the names that the writes leave, in the order in which they were first stored. -/
structure InOrder (names : List String) (writes : List Write) : Prop where
  nodup : names.Nodup
  mem : ∀ name, name ∈ names ↔ ∃ i, FirstStored writes name i
  ordered : names.Pairwise fun name other =>
    ∀ i j, FirstStored writes name i → FirstStored writes other j → i < j

/-- The map is what the writes leave: the names in their order, each with its last value. -/
structure Follows (m : VariableMap) (writes : List Write) : Prop where
  names : InOrder m.keys writes
  latest : ∀ name, Recent (fun value _ w => w = .put name value) (fun _ w => w = .drop name) none
    writes (m.get? name)
  size : m.size = m.keys.length

variable {m : VariableMap} {writes writes' : List Write} {w : Write} {name other : String}
  {value : Datum} {i : Nat}

section Places

theorem putAt_concat : PutAt (writes ++ [w]) name i ↔
    PutAt writes name i ∨ i = writes.length ∧ ∃ value, w = .put name value := occurs_concat

theorem dropAt_concat : DropAt (writes ++ [w]) name i ↔
    DropAt writes name i ∨ i = writes.length ∧ w = .drop name := occurs_concat

theorem FirstStored.congr (hp : ∀ j ≤ i, PutAt writes name j ↔ PutAt writes' name j)
    (hd : ∀ j, DropAt writes name j ↔ DropAt writes' name j) :
    FirstStored writes name i ↔ FirstStored writes' name i := by
  constructor
  · rintro ⟨hput, hkept, hfirst⟩
    refine ⟨(hp i le_rfl).1 hput, fun j hj => (hd j).not.1 (hkept j hj), fun j hj h => ?_⟩
    simpa only [hd] using hfirst j hj ((hp j hj.le).2 h)
  · rintro ⟨hput, hkept, hfirst⟩
    refine ⟨(hp i le_rfl).2 hput, fun j hj => (hd j).not.2 (hkept j hj), fun j hj h => ?_⟩
    simpa only [hd] using hfirst j hj ((hp j hj.le).1 h)

/-- A name is first stored in some place if it is stored anywhere and not dropped afterwards. -/
theorem exists_firstStored (hput : PutAt writes name i)
    (hkept : ∀ j, i < j → ¬ DropAt writes name j) : ∃ i, FirstStored writes name i := by
  classical
  have hex : ∃ i, PutAt writes name i ∧ ∀ j, i < j → ¬ DropAt writes name j := ⟨i, hput, hkept⟩
  obtain ⟨hfound, hafter⟩ := Nat.find_spec hex
  refine ⟨Nat.find hex, hfound, hafter, fun j hj hstored => ?_⟩
  -- An earlier place that stores the name is none from which on it is kept.
  have hnot := Nat.find_min hex hj
  simp only [not_and, not_forall, not_not] at hnot
  obtain ⟨l, hl, hdrop⟩ := hnot hstored
  refine ⟨l, hl, ?_, hdrop⟩
  rcases Nat.lt_trichotomy l (Nat.find hex) with hlt | rfl | hgt
  · exact hlt
  · obtain ⟨w, hw, value, hvalue⟩ := hfound
    obtain ⟨w', hw', hdrop⟩ := hdrop
    rw [hw, Option.some.injEq] at hw'
    rw [← hw', hvalue] at hdrop
    cases hdrop
  · exact absurd hdrop (hafter l hgt)

theorem not_firstStored_nil : ¬ FirstStored [] name i := fun h => not_occurs_nil h.put

/-- A write of another name does not matter to a name. -/
theorem firstStored_concat_other (hp : ∀ value, w ≠ .put name value) (hd : w ≠ .drop name) :
    FirstStored (writes ++ [w]) name i ↔ FirstStored writes name i := by
  apply FirstStored.congr
  · intro j _
    rw [putAt_concat, or_iff_left]
    rintro ⟨_, value, hw⟩
    exact hp value hw
  · intro j
    rw [dropAt_concat, or_iff_left]
    rintro ⟨_, hw⟩
    exact hd hw

/-- Storing a name does not matter to the places before. -/
theorem firstStored_concat_put (hi : i < writes.length) :
    FirstStored (writes ++ [.put name value]) name i ↔ FirstStored writes name i := by
  apply FirstStored.congr
  · intro j hj
    rw [putAt_concat, or_iff_left]
    rintro ⟨he, _⟩
    omega
  · intro j
    rw [dropAt_concat, or_iff_left]
    rintro ⟨_, hw⟩
    cases hw

theorem FirstStored.lt_length (h : FirstStored writes name i) : i < writes.length := h.put.lt_length

/-- Storing a name that is there leaves its place. -/
theorem firstStored_put_present {k : Nat} (h : FirstStored writes name k) :
    FirstStored (writes ++ [.put name value]) name i ↔ FirstStored writes name i := by
  refine ⟨fun hi => ?_, fun hi => (firstStored_concat_put hi.lt_length).2 hi⟩
  rcases putAt_concat.1 hi.put with hput | ⟨rfl, _⟩
  · exact (firstStored_concat_put hput.lt_length).1 hi
  · obtain ⟨l, hl, _, hdrop⟩ := hi.first k h.lt_length (putAt_concat.2 (.inl h.put))
    rcases dropAt_concat.1 hdrop with hdrop | ⟨_, hw⟩
    · exact absurd hdrop (h.kept l hl)
    · cases hw

/-- Storing a name that is not there gives it the last place. -/
theorem firstStored_put_absent (h : ∀ k, ¬ FirstStored writes name k) :
    FirstStored (writes ++ [.put name value]) name i ↔ i = writes.length := by
  constructor
  · intro hi
    rcases putAt_concat.1 hi.put with hput | ⟨he, _⟩
    · exact absurd ((firstStored_concat_put hput.lt_length).1 hi) (h i)
    · exact he
  · rintro rfl
    refine ⟨putAt_concat.2 (.inr ⟨rfl, value, rfl⟩), fun j hj hdrop => ?_, fun j hj hput => ?_⟩
    · have hlt := Occurs.lt_length hdrop
      rw [List.length_append, List.length_singleton] at hlt
      omega
    · by_contra hnone
      have hput : PutAt writes name j := (putAt_concat.1 hput).resolve_right fun he => by omega
      obtain ⟨k, hk⟩ := exists_firstStored hput fun l hl hdrop =>
        hnone ⟨l, hl, hdrop.lt_length, dropAt_concat.2 (.inl hdrop)⟩
      exact h k hk

/-- A name that is dropped is not there. -/
theorem not_firstStored_drop : ¬ FirstStored (writes ++ [.drop name]) name i := by
  intro hi
  rcases putAt_concat.1 hi.put with hput | ⟨_, value, hw⟩
  · exact hi.kept writes.length hput.lt_length (dropAt_concat.2 (.inr ⟨rfl, rfl⟩))
  · cases hw

end Places

section Orders

theorem keys_set (m : VariableMap) (name : String) (value : Datum) : (m.set name value).keys =
    if name ∈ m.keys then m.keys else m.keys ++ [name] := Entries.keys_put

theorem keys_erased (m : VariableMap) (name : String) :
    (m.erase name).keys = m.keys.filter fun k => k ≠ name := Entries.keys_erase

theorem InOrder.put (h : InOrder m.keys writes) (name : String) (value : Datum) :
    InOrder (m.set name value).keys (writes ++ [.put name value]) := by
  have hother {k : String} (hk : k ≠ name) (i : Nat) :
      FirstStored (writes ++ [.put name value]) k i ↔ FirstStored writes k i :=
    firstStored_concat_other (fun v he => hk (Write.put.inj he).1.symm) nofun
  rw [keys_set]
  by_cases hm : name ∈ m.keys
  · obtain ⟨place, hplace⟩ := (h.mem name).1 hm
    have hsame (k : String) (i : Nat) :
        FirstStored (writes ++ [.put name value]) k i ↔ FirstStored writes k i := by
      by_cases hk : k = name
      · subst hk
        exact firstStored_put_present hplace
      · exact hother hk i
    rw [if_pos hm]
    refine ⟨h.nodup, ?_, ?_⟩
    · simpa only [hsame] using h.mem
    · simpa only [hsame] using h.ordered
  · have habsent (i : Nat) :
        FirstStored (writes ++ [.put name value]) name i ↔ i = writes.length :=
      firstStored_put_absent fun k hk => hm ((h.mem name).2 ⟨k, hk⟩)
    have hne {k : String} (hk : k ∈ m.keys) : k ≠ name := by
      rintro rfl
      exact hm hk
    rw [if_neg hm]
    refine ⟨?_, fun k => ?_, ?_⟩
    · rw [← List.concat_eq_append]
      exact h.nodup.concat hm
    · rw [List.mem_append, List.mem_singleton]
      by_cases hk : k = name
      · subst hk
        exact iff_of_true (.inr rfl) ⟨_, (habsent _).2 rfl⟩
      · simp only [hother hk, h.mem k, or_iff_left hk]
    · rw [List.pairwise_append]
      refine ⟨h.ordered.imp_of_mem fun hk hl hlt i j hi hj => ?_, List.pairwise_singleton _ _, ?_⟩
      · exact hlt i j ((hother (hne hk) i).1 hi) ((hother (hne hl) j).1 hj)
      · intro k hk l hl i j hi hj
        rw [List.mem_singleton] at hl
        subst hl
        rw [(habsent j).1 hj]
        exact ((hother (hne hk) i).1 hi).lt_length

theorem InOrder.drop (h : InOrder m.keys writes) (name : String) :
    InOrder (m.erase name).keys (writes ++ [.drop name]) := by
  have hother {k : String} (hk : k ≠ name) (i : Nat) :
      FirstStored (writes ++ [.drop name]) k i ↔ FirstStored writes k i :=
    firstStored_concat_other nofun fun he => hk (Write.drop.inj he).symm
  rw [keys_erased]
  refine ⟨h.nodup.filter _, fun k => ?_, ?_⟩
  · rw [List.mem_filter, decide_eq_true_eq]
    by_cases hk : k = name
    · subst hk
      exact iff_of_false (fun hm => hm.2 rfl) fun ⟨i, hi⟩ => not_firstStored_drop hi
    · simp only [hother hk, h.mem k, and_iff_left hk]
  · refine (h.ordered.filter _).imp_of_mem fun hk hl hlt i j hi hj => ?_
    rw [List.mem_filter, decide_eq_true_eq] at hk hl
    exact hlt i j ((hother hk.2 i).1 hi) ((hother hl.2 j).1 hj)

/-- The value of a name is the one that was stored last. -/
theorem latest_written (writes : List Write) (name : String) :
    Recent (fun value _ w => w = .put name value) (fun _ w => w = .drop name) none writes
      ((empty.written writes).get? name) := by
  have hconcat (writes : List Write) (w : Write) :
      empty.written (writes ++ [w]) = (empty.written writes).write w := List.foldl_concat ..
  refine recent_of_steps (fun writes => (empty.written writes).get? name) rfl
    (fun writes w value hw => ?_) (fun writes w hw => ?_) (fun writes w hp hd => ?_) writes
  · subst hw
    simp only [hconcat, write, get?, set, Entries.get?_put, if_pos]
  · subst hw
    simp only [hconcat, write, get?, erase, Entries.get?_erase, if_pos]
  · simp only [hconcat]
    cases w with
    | put k v =>
      have hk : k ≠ name := by
        rintro rfl
        exact hp v rfl
      rw [write, get?, set, Entries.get?_put, if_neg hk]
      rfl
    | drop k =>
      have hk : name ≠ k := by
        rintro rfl
        exact hd rfl
      rw [write, get?, erase, Entries.get?_erase, if_neg hk]
      rfl

theorem inOrder_written (writes : List Write) : InOrder (empty.written writes).keys writes := by
  induction writes using List.reverseRecOn with
  | nil =>
    refine ⟨List.nodup_nil, fun name => ?_, List.Pairwise.nil⟩
    exact iff_of_false List.not_mem_nil fun ⟨i, hi⟩ => not_firstStored_nil hi
  | append_singleton writes w ih =>
    have hconcat : empty.written (writes ++ [w]) = (empty.written writes).write w :=
      List.foldl_concat ..
    rw [hconcat]
    cases w with
    | put name value => exact ih.put name value
    | drop name => exact ih.drop name

theorem follows_written (writes : List Write) : (empty.written writes).Follows writes :=
  ⟨inOrder_written writes, latest_written writes, (List.length_map _).symm⟩

end Orders

end VariableMap

end Calculator
