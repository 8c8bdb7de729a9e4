import Calculator.CommandLine.Item
import Mathlib.Data.List.Forall2
/-!
Items of the command line. What an argument is read as has its texts from the end of the argument
(`itemsOf_isFrom`). An argument that spells out a switch is that switch, and one that does not begin
with a minus sign stands for itself; in front of any separator each argument is one item
(`itemsOf_infix`).
-/
namespace Calculator.CommandLine

/-- The texts that an item may give to a switch. -/
def Item.values : Item → List (List Char)
  | .argument text => [text.toList]
  | .switches (.ok ⟨_, .valued _ value⟩) => [value]
  | _ => []

/-- The item is what the argument may be: it stands for itself, or else all that it gives to a
switch stands at its end. -/
structure Item.IsFrom (argument : String) (item : Item) : Prop where
  loose : ∀ text, item = .argument text → text = argument
  given : ∀ value ∈ item.values, value <:+ argument.toList

variable {arguments together : List String} {argument text : String} {s : Switch}
  {cs name value : List Char} {c : Cluster} {item : Item} {items : List Item}

theorem splitAtSign_some (h : splitAtSign cs = (name, some value)) :
    cs = name ++ '=' :: value ∧ '=' ∉ name := by
  induction cs using splitAtSign.induct generalizing name with
  | case1 => cases h
  | case2 rest =>
    cases h
    exact ⟨rfl, List.not_mem_nil⟩
  | case3 c rest hc name' value' hr ih =>
    rw [splitAtSign, hr] at h
    · cases h
      obtain ⟨hrest, hsign⟩ := ih hr
      exact ⟨congrArg (c :: ·) hrest, fun hm => (List.mem_cons.1 hm).elim (hc ·.symm) hsign⟩
    · exact hc

section Sources

/-- The value of a cluster, if it has one, stands at the end of the text. -/
def Cluster.EndsIn (text : List Char) (c : Cluster) : Prop :=
  ∀ s value, c.last = .valued s value → value <:+ text

theorem shortCluster_endsIn (h : shortCluster s cs = .ok c) : c.EndsIn cs := by
  induction s, cs using shortCluster.induct generalizing c with
  | case1 s hs =>
    rw [shortCluster.eq_def] at h
    simp only [hs] at h
    cases h
    rintro _ _ ⟨⟩
    exact List.suffix_rfl
  | case2 s hs =>
    rw [shortCluster.eq_def] at h
    simp only [hs] at h
    cases h
  | case3 s letter rest hs =>
    rw [shortCluster.eq_def] at h
    simp only [hs] at h
    cases h
    rintro _ _ ⟨⟩
    exact List.suffix_rfl
  | case4 s letter rest hs hn =>
    rw [shortCluster.eq_def] at h
    simp only [hs, hn] at h
    cases h
  | case5 s letter hs next hn =>
    rw [shortCluster.eq_def] at h
    simp only [hs, hn] at h
    cases h
    rintro _ _ ⟨⟩
  | case6 s letter hs next more rest hn ih =>
    rw [shortCluster.eq_def] at h
    simp only [hs, hn] at h
    cases hc : shortCluster next (more :: rest) with
    | error m =>
      rw [hc] at h
      cases h
    | ok inner =>
      rw [hc] at h
      cases h
      intro s' value hv
      exact (ih hc s' value hv).trans (List.suffix_cons letter _)

theorem longCluster_endsIn (h : longCluster s cs = .ok c) : c.EndsIn cs := by
  rw [longCluster] at h
  split at h
  · cases h
    rintro _ _ ⟨⟩
    exact List.suffix_rfl
  · cases h

theorem Cluster.EndsIn.isFrom (h : c.EndsIn cs) (hs : cs <:+ argument.toList) :
    Item.IsFrom argument (.switches (.ok c)) := by
  obtain ⟨before, last⟩ := c
  refine ⟨fun text ht => (by cases ht), fun value hm => ?_⟩
  cases last with
  | plain s => cases hm
  | valued s value' =>
    obtain rfl := List.mem_singleton.1 hm
    exact (h s value rfl).trans hs

theorem isFrom_hollow (hl : ∀ text, item ≠ .argument text) (hv : item.values = []) :
    item.IsFrom argument :=
  ⟨fun text ht => absurd ht (hl text), by rw [hv]; exact List.forall_mem_nil _⟩

theorem isFrom_argument (argument : String) : Item.IsFrom argument (.argument argument) := by
  refine ⟨fun text ht => (by cases ht; rfl), fun value hm => ?_⟩
  obtain rfl := List.mem_singleton.1 hm
  exact List.suffix_rfl

theorem unswitched_isFrom (argument : String) : (unswitched argument).IsFrom argument := by
  rw [unswitched]
  split
  · exact isFrom_argument argument
  · exact isFrom_hollow (by simp) rfl

theorem shortCluster_isFrom (s : Switch) (hs : cs <:+ argument.toList) :
    Item.IsFrom argument (.switches (shortCluster s cs)) := by
  cases hc : shortCluster s cs with
  | ok c => exact (shortCluster_endsIn hc).isFrom hs
  | error m => exact isFrom_hollow (by simp) rfl

theorem longCluster_isFrom (s : Switch) (hs : cs <:+ argument.toList) :
    Item.IsFrom argument (.switches (longCluster s cs)) := by
  cases hc : longCluster s cs with
  | ok c => exact (longCluster_endsIn hc).isFrom hs
  | error m => exact isFrom_hollow (by simp) rfl

theorem spelledOut_isFrom {value : Option (List Char)}
    (h : ∀ cs, value = some cs → cs <:+ argument.toList) (s : Switch) (isLong : Bool) :
    (spelledOut s isLong value).IsFrom argument := by
  cases value with
  | none => exact isFrom_hollow (by simp [spelledOut]) rfl
  | some cs =>
    rw [spelledOut]
    split
    · exact longCluster_isFrom s (h cs rfl)
    · exact shortCluster_isFrom s (h cs rfl)

theorem itemOf_isFrom (h : itemOf argument = .ok item) : item.IsFrom argument := by
  have hvalue (cs : List Char) (hv : (splitAtSign argument.toList).2 = some cs) :
      cs <:+ argument.toList := by
    obtain ⟨hsplit, _⟩ := splitAtSign_some (Prod.ext rfl hv)
    exact ⟨_ ++ ['='], by rw [List.append_assoc]; exact hsplit.symm⟩
  simp only [itemOf] at h
  split at h
  · cases h
    exact spelledOut_isFrom hvalue _ _
  · split at h
    · rw [abbreviation] at h
      split at h
      · cases h
        exact unswitched_isFrom argument
      · cases h
        exact spelledOut_isFrom hvalue _ _
      · cases h
    · split at h
      · next letter rest ht =>
        have hrest : rest <:+ argument.toList := by
          rw [ht]
          exact ⟨['-', letter], rfl⟩
        split at h
        · cases h
          exact shortCluster_isFrom _ hrest
        · cases h
          exact unswitched_isFrom argument
      · cases h
        exact isFrom_argument argument

theorem itemsOf_isFrom (h : itemsOf arguments = .ok items) :
    List.Forall₂ Item.IsFrom arguments items := by
  induction arguments generalizing items with
  | nil =>
    cases h
    exact .nil
  | cons argument rest ih =>
    rw [itemsOf] at h
    split at h
    · cases h
      refine .cons (isFrom_hollow (by simp) rfl) ?_
      rw [List.forall₂_map_right_iff, List.forall₂_same]
      exact fun argument _ => isFrom_argument argument
    · split at h
      · cases h
      · next item hitem =>
        cases hr : itemsOf rest with
        | error m =>
          rw [hr] at h
          cases h
        | ok items =>
          rw [hr] at h
          cases h
          exact .cons (itemOf_isFrom hitem) (ih hr)

end Sources

section Spelling

theorem splitAtSign_head (h : cs.head? ≠ some '-') : (splitAtSign cs).1.head? ≠ some '-' := by
  cases cs with
  | nil => exact h
  | cons c rest =>
    by_cases hc : c = '='
    · subst hc
      simp [splitAtSign]
    · rw [splitAtSign]
      exact h
      exact hc

theorem ofSpelling?_eq_none (h : cs.head? ≠ some '-') :
    Switch.ofSpelling? (String.ofList cs) = none := by
  have hspelled : ∀ entry ∈ Switch.spelled, entry.1.toList.head? = some '-' := by decide
  rw [Switch.ofSpelling?, Option.map_eq_none_iff, List.find?_eq_none]
  intro entry hm he
  rw [← String.toList_ofList (l := cs), ← of_decide_eq_true he] at h
  exact h (hspelled entry hm)

/-- What does not begin with a minus sign stands for itself. -/
theorem itemOf_loose (h : text.toList.head? ≠ some '-') : itemOf text = .ok (.argument text) := by
  have hlong : startsLong text.toList = false := by
    rw [startsLong.eq_def]
    split
    · next ht =>
      rw [ht] at h
      exact absurd rfl h
    · rfl
  simp only [itemOf, ofSpelling?_eq_none (splitAtSign_head h), hlong]
  rw [if_neg Bool.false_ne_true]
  split
  · next ht =>
    rw [ht] at h
    exact absurd rfl h
  · rfl

theorem itemOf_joined (hs : (text, s) ∈ [("--var=", .variable), ("--context=", .context)])
    (value : String) :
    itemOf (text ++ value) = .ok (.switches (.ok ⟨[], .valued s value.toList⟩)) := by
  simp only [List.mem_cons, Prod.mk.injEq, List.not_mem_nil, or_false] at hs
  obtain ⟨rfl, rfl⟩ | ⟨rfl, rfl⟩ := hs
  · rw [itemOf, String.toList_append]
    rfl
  · rw [itemOf, String.toList_append]
    rfl

theorem itemOf_spelled (hs : (text, s) ∈ Switch.spelled) :
    itemOf text = .ok (.switches (.ok ⟨[], .plain s⟩)) := by
  have hall : ∀ entry ∈ Switch.spelled, splitAtSign entry.1.toList = (entry.1.toList, none) ∧
      Switch.ofSpelling? entry.1 = some entry.2 := by decide
  obtain ⟨hsplit, hswitch⟩ := hall _ hs
  simp only [itemOf, hsplit, String.ofList_toList, hswitch]
  rfl

end Spelling

section Places

/-- The arguments in front of any separator are items one by one. -/
theorem itemsOf_front (h : itemsOf arguments = .ok items) :
    ∃ front, front <+: items ∧ List.Forall₂ (fun item text => itemOf text = .ok item) front
      (arguments.takeWhile (· ≠ "--")) := by
  induction arguments generalizing items with
  | nil => exact ⟨[], List.nil_prefix, .nil⟩
  | cons argument rest ih =>
    rw [itemsOf] at h
    split at h
    · next hs =>
      rw [List.takeWhile_cons_of_neg (by simp [hs])]
      exact ⟨[], List.nil_prefix, .nil⟩
    · next hs =>
      split at h
      · cases h
      · next item hitem =>
        cases hr : itemsOf rest with
        | error m =>
          rw [hr] at h
          cases h
        | ok more =>
          rw [hr] at h
          cases h
          obtain ⟨front, hprefix, hfront⟩ := ih hr
          rw [List.takeWhile_cons_of_pos (by simpa using hs)]
          exact ⟨item :: front, List.cons_prefix_cons.2 ⟨rfl, hprefix⟩, .cons hitem hfront⟩

/-- Arguments that stand together in front of any separator are items that stand together. -/
theorem itemsOf_infix (h : itemsOf arguments = .ok items)
    (hm : together <:+: arguments.takeWhile (· ≠ "--")) :
    ∃ block, block <:+: items ∧
      List.Forall₂ (fun item text => itemOf text = .ok item) block together := by
  obtain ⟨front, hprefix, hfront⟩ := itemsOf_front h
  obtain ⟨before, behind, hm⟩ := hm
  rw [← hm] at hfront
  have hleft := List.forall₂_take_append front (before ++ together) behind hfront
  have htaken := List.take_prefix (before ++ together).length front
  exact ⟨_, (List.drop_suffix _ _).isInfix.trans (htaken.trans hprefix).isInfix,
    List.forall₂_drop_append _ before together hleft⟩

/-- An argument in front of any separator is an item in its place. -/
theorem itemsOf_mem (h : itemsOf arguments = .ok items)
    (hm : text ∈ arguments.takeWhile (· ≠ "--")) (ht : itemOf text = .ok item) :
    ∃ before behind, items = before ++ item :: behind := by
  obtain ⟨front, rest, hl⟩ := List.append_of_mem hm
  have hinfix : [text] <:+: arguments.takeWhile (· ≠ "--") := by
    rw [hl]
    exact ⟨front, rest, List.append_assoc _ _ _⟩
  obtain ⟨block, ⟨before, behind, rfl⟩, hblock⟩ := itemsOf_infix h hinfix
  obtain _ | ⟨hitem, _ | _⟩ := hblock
  cases ht.symm.trans hitem
  exact ⟨before, behind, List.append_assoc _ _ _⟩

end Places

end Calculator.CommandLine
