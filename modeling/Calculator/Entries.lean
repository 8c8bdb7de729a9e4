/-!
Finite maps as lists of entries in the order in which their keys were first stored. Storing under a
present key keeps its place.
-/
namespace Calculator

abbrev Entries (κ ν : Type) := List (κ × ν)

namespace Entries

variable {κ ν : Type} [DecidableEq κ]

def get? : Entries κ ν → κ → Option ν
  | [], _ => none
  | (k', v) :: rest, k => if k' = k then some v else get? rest k

def put : Entries κ ν → κ → ν → Entries κ ν
  | [], k, v => [(k, v)]
  | (k', v') :: rest, k, v => if k' = k then (k', v) :: rest else (k', v') :: put rest k v

theorem get?_put (m : Entries κ ν) (k : κ) (v : ν) (k' : κ) :
    get? (put m k v) k' = if k = k' then some v else get? m k' := by
  induction m with
  | nil => rfl
  | cons entry rest ih =>
    obtain ⟨k₀, v₀⟩ := entry
    rw [put]
    split
    · next he =>
      rw [get?, get?, he]
      split <;> rfl
    · next hne =>
      rw [get?, get?, ih]
      split
      · next hk => rw [if_neg fun he => hne (hk.trans he.symm)]
      · rfl

def erase (m : Entries κ ν) (k : κ) : Entries κ ν := m.filter fun entry => entry.1 ≠ k

def keys (m : Entries κ ν) : List κ := m.map Prod.fst

def putAll (m entries : Entries κ ν) : Entries κ ν :=
  entries.foldl (fun m entry => put m entry.1 entry.2) m

end Entries

end Calculator
