import Calculator.CommandLine.Outcome
import Calculator.Proofs.Items
import Calculator.Proofs.Scanning
import Calculator.Proofs.Tables
/-!
Arguments of the command line. A request is what its arguments do, one after the other
(`Request.ofArguments_asked`): its assignments are read, in their order, from the ends of the
arguments, and of several to one name the last counts (`Request.mapping_get?`).
-/
namespace Calculator.CommandLine

/-- A name and its value, as they stand around the first equals sign of a text. -/
structure Assigns (text : List Char) (entry : String × Float) : Prop where
  split : ∃ before behind, text = before ++ '=' :: behind ∧ '=' ∉ before ∧
    entry.1 = String.ofList (Text.trimBy Text.isBlank before) ∧
    Decimal.readChars? behind = some entry.2
  named : entry.1 ≠ ""

/-- The separator as the value of a switch. -/
def separatorText : List Char := ['-', '-']

/-- What arguments do: they raise a switch, give a value to one, or stand for themselves. -/
inductive Deed where
  | raised (s : Switch)
  | given (s : Switch) (value : List Char)
  | loose (text : String)
  deriving DecidableEq

/-- The value of a switch stands in the same argument or else is the argument behind it. -/
def deeds : List Item → List Deed
  | [] => []
  | .argument text :: rest => .loose text :: deeds rest
  | .switches (.ok ⟨before, .valued s value⟩) :: rest =>
    before.map .raised ++ .given s value :: deeds rest
  | .switches (.ok ⟨before, .plain .variable⟩) :: .argument text :: rest =>
    before.map .raised ++ .given .variable text.toList :: deeds rest
  | .switches (.ok ⟨before, .plain .context⟩) :: .argument text :: rest =>
    before.map .raised ++ .given .context text.toList :: deeds rest
  | .switches (.ok ⟨before, .plain s⟩) :: rest => before.map .raised ++ .raised s :: deeds rest
  | _ :: rest => deeds rest

/-- What is spelled out in front of any separator: a switch without a value, or one with a value in
the argument behind it or, for a long switch, behind an equals sign. -/
inductive Spelled (arguments : List String) : Deed → Prop
  | raised {text : String} {s : Switch}
      (hs : (text, s) ∈ [("--show-tree", .tree), ("-q", .quiet), ("--quiet", .quiet)])
      (hm : text ∈ arguments.takeWhile (· ≠ "--")) : Spelled arguments (.raised s)
  | behind {text value : String} {s : Switch}
      (hs : (text, s) ∈ [("-v", .variable), ("--var", .variable), ("--context", .context)])
      (hv : value.toList.head? ≠ some '-')
      (hm : [text, value] <:+: arguments.takeWhile (· ≠ "--")) :
      Spelled arguments (.given s value.toList)
  | joined {text value : String} {s : Switch}
      (hs : (text, s) ∈ [("--var=", .variable), ("--context=", .context)])
      (hm : text ++ value ∈ arguments.takeWhile (· ≠ "--")) :
      Spelled arguments (.given s value.toList)

def givenTo (s : Switch) (ds : List Deed) : List (List Char) :=
  ds.filterMap fun
    | .given s' value => if s' = s then some value else none
    | _ => none

def looseTexts (ds : List Deed) : List String :=
  ds.filterMap fun
    | .loose text => some text
    | _ => none

/-- The last of the values counts, and a separator is none. -/
def lastGiven (values : List (List Char)) : Option String :=
  (values.getLast?.filter fun value => value ≠ separatorText).map String.ofList

/-- Between two drafts the texts have been assigned; a separator among them makes the draft hollow
instead. -/
def Draft.Takes (texts : List (List Char)) (d d' : Draft) : Prop :=
  ∃ entries, List.Forall₂ Assigns (texts.filter fun text => text ≠ separatorText) entries ∧
    d'.assignments = d.assignments ++ entries ∧
    d'.hollow = (d.hollow || decide (separatorText ∈ texts))

variable {d d' d'' : Draft} {arguments : List String} {argument : String} {s : Switch}
  {texts more : List (List Char)} {cs name value : List Char} {entry : String × Float}
  {c : Cluster} {item : Item} {items : List Item} {deed : Deed} {ds ds' : List Deed} {r : Request}

theorem assigns_of_assignment (h : assignment cs = .ok entry) : Assigns cs entry := by
  rw [assignment] at h
  split at h
  · cases h
  · next before behind hs =>
    simp only at h
    split at h
    · cases h
    · next hne =>
      split at h
      · next x hx =>
        cases h
        obtain ⟨htext, hsign⟩ := splitAtSign_some hs
        refine ⟨⟨before, behind, htext, hsign, rfl, hx⟩, ?_⟩
        simpa using hne
      · cases h

section Drafts

theorem givenTo_append (s : Switch) (ds ds' : List Deed) :
    givenTo s (ds ++ ds') = givenTo s ds ++ givenTo s ds' := List.filterMap_append

theorem looseTexts_append (ds ds' : List Deed) :
    looseTexts (ds ++ ds') = looseTexts ds ++ looseTexts ds' := List.filterMap_append

theorem lastGiven_append (hm : more ≠ []) : lastGiven (texts ++ more) = lastGiven more := by
  rw [lastGiven, List.getLast?_append_of_ne_nil _ hm, lastGiven]

/-- What a cluster does by itself. -/
def Cluster.deeds (c : Cluster) : List Deed :=
  c.before.map .raised ++ match c.last with
    | .plain s => [.raised s]
    | .valued s value => [.given s value]

theorem deeds_cluster (hw : c.waiting? = none) (items : List Item) :
    deeds (.switches (.ok c) :: items) = c.deeds ++ deeds items := by
  obtain ⟨before, s | ⟨s, value⟩⟩ := c
  · cases s <;> first | (cases hw; done) | simp [deeds, Cluster.deeds]
  · simp [deeds, Cluster.deeds]

theorem deeds_waiting (hw : c.waiting? = some s) (text : String) (items : List Item) :
    deeds (.switches (.ok c) :: .argument text :: items) =
      Cluster.deeds ⟨c.before, .valued s text.toList⟩ ++ deeds items := by
  obtain ⟨before, s' | ⟨s', value⟩⟩ := c
  · cases s' <;> cases hw <;> simp [deeds, Cluster.deeds]
  · cases hw

/-- Between two drafts all this has been done. -/
structure Draft.Does (ds : List Deed) (d d' : Draft) : Prop where
  takes : d.Takes (givenTo .variable ds) d'
  context : d'.context =
    if givenTo .context ds = [] then d.context else lastGiven (givenTo .context ds)
  tree : d'.tree = (d.tree || decide (.raised .tree ∈ ds))
  quiet : d'.quiet = (d.quiet || decide (.raised .quiet ∈ ds))
  loose : d'.leftOver = [] →
    d.leftOver = [] ∧ d'.expression.toList = d.expression.toList ++ looseTexts ds

theorem Draft.takes_nil (ha : d'.assignments = d.assignments) (hh : d'.hollow = d.hollow) :
    d.Takes [] d' :=
  ⟨[], .nil, by rw [ha, List.append_nil], by simp [hh]⟩

theorem Draft.Takes.trans (h : Takes texts d d') (h' : Takes more d' d'') :
    Takes (texts ++ more) d d'' := by
  obtain ⟨entries, he, ha, hh⟩ := h
  obtain ⟨entries', he', ha', hh'⟩ := h'
  refine ⟨entries ++ entries', ?_, ?_, ?_⟩
  · rw [List.filter_append]
    exact List.rel_append he he'
  · rw [ha', ha, List.append_assoc]
  · simp [hh', hh, Bool.or_assoc]

theorem Draft.Does.nil (d : Draft) : Does [] d d where
  takes := takes_nil rfl rfl
  context := rfl
  tree := by simp
  quiet := by simp
  loose h := ⟨h, (List.append_nil _).symm⟩

theorem Draft.Does.trans (h : Does ds d d') (h' : Does ds' d' d'') : Does (ds ++ ds') d d'' where
  takes := by
    rw [givenTo_append]
    exact h.takes.trans h'.takes
  context := by
    rw [h'.context, h.context, givenTo_append]
    by_cases hg : givenTo .context ds' = []
    · simp only [hg, if_true, List.append_nil]
    · rw [if_neg hg, if_neg (List.append_ne_nil_of_right_ne_nil _ hg), lastGiven_append hg]
  tree := by simp [h'.tree, h.tree, Bool.or_assoc]
  quiet := by simp [h'.quiet, h.quiet, Bool.or_assoc]
  loose hl := by
    obtain ⟨hl', he'⟩ := h'.loose hl
    obtain ⟨hl, he⟩ := h.loose hl'
    exact ⟨hl, by rw [he', he, looseTexts_append, List.append_assoc]⟩

/-- A text that is left over is never the expression. -/
theorem Draft.leave_does (d : Draft) (text : String) (hg : ∀ s, givenTo s ds = [])
    (hr : ∀ s, .raised s ∉ ds) : d.Does ds (d.leave text) where
  takes := by
    rw [hg]
    exact takes_nil rfl rfl
  context := by rw [if_pos (hg _)]; rfl
  tree := by simp [leave, hr]
  quiet := by simp [leave, hr]
  loose h := nomatch h

theorem Draft.expression_does (hd : d.expression = none) (text : String) :
    d.Does [.loose text] { d with expression := some text } where
  takes := takes_nil rfl rfl
  context := rfl
  tree := by simp
  quiet := by simp
  loose h := ⟨h, by rw [hd]; rfl⟩

theorem Draft.raise_does (h : d.raise s = .ok d') : d.Does [.raised s] d' := by
  cases s <;> cases h <;>
    exact ⟨takes_nil rfl rfl, rfl, by simp, by simp, fun h => ⟨h, (List.append_nil _).symm⟩⟩

theorem Draft.raiseAll_does {switches : List Switch} (h : d.raiseAll switches = .ok d') :
    d.Does (switches.map .raised) d' := by
  induction switches generalizing d with
  | nil =>
    cases h
    exact .nil _
  | cons s switches ih =>
    obtain ⟨between, hs, hrest⟩ := exists_of_bind_ok h
    exact (raise_does hs).trans (ih hrest)

theorem Draft.assign_variable (h : d.assign .variable value = .ok d') : d.Takes [value] d' := by
  simp only [assign] at h
  split at h
  · next hs =>
    cases h
    refine ⟨[], ?_, (List.append_nil _).symm, ?_⟩ <;> simp [hs, separatorText]
  · next hs =>
    split at h
    · next entry hentry =>
      cases h
      have hkept : [value].filter (fun text => text ≠ separatorText) = [value] := by
        simp [separatorText, hs]
      refine ⟨[entry], ?_, rfl, ?_⟩
      · rw [hkept]
        exact .cons (assigns_of_assignment hentry) .nil
      · simp [separatorText, Ne.symm hs]
    · cases h

theorem Draft.assign_does (h : d.assign s value = .ok d') : d.Does [.given s value] d' := by
  cases s with
  | «variable» =>
    have htakes := assign_variable h
    simp only [assign] at h
    split at h
    · cases h
      exact ⟨htakes, rfl, by simp, by simp, fun h => ⟨h, (List.append_nil _).symm⟩⟩
    · split at h
      · cases h
        exact ⟨htakes, rfl, by simp, by simp, fun h => ⟨h, (List.append_nil _).symm⟩⟩
      · cases h
  | context =>
    cases h
    refine ⟨takes_nil rfl rfl, ?_, by simp, by simp, fun h => ⟨h, (List.append_nil _).symm⟩⟩
    by_cases hs : value = ['-', '-'] <;>
      simp [givenTo, lastGiven, separatorText, Option.filter, hs]
  | _ => cases h

theorem Draft.act_does (h : d.act c = .ok d') : d.Does c.deeds d' := by
  obtain ⟨before, last⟩ := c
  obtain ⟨raised, hr, hlast⟩ := exists_of_bind_ok h
  cases last with
  | plain s => exact (raiseAll_does hr).trans (raise_does hlast)
  | valued s value => exact (raiseAll_does hr).trans (assign_does hlast)

/-- Reading items does what they do. -/
theorem Draft.readItems_does (h : d.readItems items = .ok d') : d.Does (deeds items) d' := by
  induction d, items using readItems.induct with
  | case1 d =>
    cases h
    exact .nil _
  | case2 d text rest hn ih | case3 d text rest hs hn ih =>
    simp only [readItems.eq_def d, hn] at h
    exact (expression_does hn text).trans (ih h)
  | case4 d text val rest hn ih =>
    simp only [readItems.eq_def d, hn] at h
    have hleft : d.Does [.loose text] (d.leave text) :=
      d.leave_does text (fun _ => rfl) (by simp)
    exact hleft.trans (ih h)
  | case5 d rest hs ih =>
    rw [readItems, if_pos hs] at h
    exact ih h
  | case6 d rest hs ih =>
    rw [readItems, if_neg hs] at h
    have hleft : d.Does [] (d.leave "--") := d.leave_does "--" (fun _ => rfl) (by simp)
    exact hleft.trans (ih h)
  | case7 d text rest ih =>
    rw [readItems] at h
    have hleft : d.Does [] (d.leave text) := d.leave_does text (fun _ => rfl) (by simp)
    exact hleft.trans (ih h)
  | case8 d m tail =>
    rw [readItems] at h
    cases h
  | case9 d c s text rest hw ih =>
    simp only [readItems.eq_def d, hw] at h
    obtain ⟨between, ha, hr⟩ := exists_of_bind_ok h
    rw [deeds_waiting hw]
    exact (act_does ha).trans (ih between hr)
  | case10 d c rest s hw hrest =>
    simp only [readItems.eq_def d, hw] at h
    cases h
  | case11 d c rest hw ih =>
    simp only [readItems.eq_def d, hw] at h
    obtain ⟨between, ha, hr⟩ := exists_of_bind_ok h
    rw [deeds_cluster hw]
    exact (act_does ha).trans (ih between hr)

end Drafts

section Sources

/-- The texts stand at the ends of some of the arguments, in their order. -/
def EndsOf (arguments : List String) (texts : List (List Char)) : Prop :=
  ∃ sources, sources.Sublist arguments ∧
    List.Forall₂ (fun text source => text <:+ source.toList) texts sources

theorem EndsOf.nil (arguments : List String) : EndsOf arguments [] :=
  ⟨[], List.nil_sublist _, .nil⟩

theorem EndsOf.skip (h : EndsOf arguments texts) (argument : String) :
    EndsOf (argument :: arguments) texts := by
  obtain ⟨sources, hs, ht⟩ := h
  exact ⟨sources, hs.cons argument, ht⟩

theorem EndsOf.cons (h : EndsOf arguments texts) (hc : cs <:+ argument.toList) :
    EndsOf (argument :: arguments) (cs :: texts) := by
  obtain ⟨sources, hs, ht⟩ := h
  exact ⟨argument :: sources, hs.cons_cons argument, .cons hc ht⟩

theorem givenTo_raised (s : Switch) (before : List Switch) (ds : List Deed) :
    givenTo s (before.map .raised ++ ds) = givenTo s ds := by
  simp [givenTo, List.filterMap_append, List.filterMap_map]

theorem looseTexts_raised (before : List Switch) (ds : List Deed) :
    looseTexts (before.map .raised ++ ds) = looseTexts ds := by
  simp [looseTexts, List.filterMap_append, List.filterMap_map]

theorem EndsOf.given {s' : Switch} (h : EndsOf arguments (givenTo s ds))
    (hv : value <:+ argument.toList) :
    EndsOf (argument :: arguments) (givenTo s (.given s' value :: ds)) := by
  by_cases hs : s' = s
  · simpa [givenTo, hs] using h.cons hv
  · simpa [givenTo, hs] using h.skip argument

theorem givenTo_endsOf (h : List.Forall₂ Item.IsFrom arguments items) (s : Switch) :
    EndsOf arguments (givenTo s (deeds items)) := by
  induction items using deeds.induct generalizing arguments with
  | case1 =>
    cases h
    exact .nil []
  | case2 text rest ih =>
    obtain _ | ⟨_, hrest⟩ := h
    exact (ih hrest).skip _
  | case3 before s' value rest ih =>
    obtain _ | ⟨hvalue, hrest⟩ := h
    rw [deeds, givenTo_raised]
    exact (ih hrest).given (hvalue.given value (List.mem_singleton_self value))
  | case4 before text rest ih | case5 before text rest ih =>
    obtain _ | ⟨_, _ | ⟨htext, hrest⟩⟩ := h
    rw [deeds, givenTo_raised]
    exact ((ih hrest).given (htext.given _ (List.mem_singleton_self _))).skip _
  | case6 before s' rest hvariable hcontext ih =>
    obtain _ | ⟨_, hrest⟩ := h
    rw [deeds.eq_6 _ _ _ hvariable hcontext, givenTo_raised]
    exact (ih hrest).skip _
  | case7 item rest hargument hvalued hvariable hcontext hplain ih =>
    obtain _ | ⟨_, hrest⟩ := h
    rw [deeds.eq_7 _ _ hargument hvalued hvariable hcontext hplain]
    exact (ih hrest).skip _

/-- What is loose is an argument, and none is loose twice. -/
theorem looseTexts_sublist (h : List.Forall₂ Item.IsFrom arguments items) :
    (looseTexts (deeds items)).Sublist arguments := by
  induction items using deeds.induct generalizing arguments with
  | case1 => exact List.nil_sublist _
  | case2 text rest ih =>
    obtain _ | ⟨htext, hrest⟩ := h
    rw [← htext.loose text rfl]
    exact (ih hrest).cons_cons text
  | case3 before s' value rest ih =>
    obtain _ | ⟨_, hrest⟩ := h
    rw [deeds, looseTexts_raised]
    exact (ih hrest).cons _
  | case4 before text rest ih | case5 before text rest ih =>
    obtain _ | ⟨_, _ | ⟨_, hrest⟩⟩ := h
    rw [deeds, looseTexts_raised]
    exact ((ih hrest).cons _).cons _
  | case6 before s' rest hvariable hcontext ih =>
    obtain _ | ⟨_, hrest⟩ := h
    rw [deeds.eq_6 _ _ _ hvariable hcontext, looseTexts_raised]
    exact (ih hrest).cons _
  | case7 item rest hargument hvalued hvariable hcontext hplain ih =>
    obtain _ | ⟨_, hrest⟩ := h
    rw [deeds.eq_7 _ _ hargument hvalued hvariable hcontext hplain]
    exact (ih hrest).cons _

end Sources

section Spelling

/-- What is not waited for begins deeds of its own. -/
theorem deeds_append (hi : ∀ text, item ≠ .argument text) (front behind : List Item) :
    deeds (front ++ item :: behind) = deeds front ++ deeds (item :: behind) := by
  induction front using deeds.induct with
  | case1 => rfl
  | case2 text rest ih => simp only [List.cons_append, deeds, ih]
  | case3 before s value rest ih => simp only [List.cons_append, deeds, ih, List.append_assoc]
  | case4 before text rest ih | case5 before text rest ih =>
    simp only [List.cons_append, deeds, ih, List.append_assoc]
  | case6 before s rest hvariable hcontext ih =>
    have hwaits {text : String} {more : List Item}
        (h : rest ++ item :: behind = .argument text :: more) :
        ∃ tail, rest = .argument text :: tail := by
      cases rest with
      | nil => exact absurd (List.cons.inj h).1 (hi text)
      | cons first tail =>
        cases (List.cons.inj h).1
        exact ⟨tail, rfl⟩
    rw [List.cons_append, deeds.eq_6 _ _ _ hvariable hcontext, deeds.eq_6, ih, List.append_assoc]
    · rfl
    · intro text more h hs
      obtain ⟨tail, ht⟩ := hwaits h
      exact hvariable text tail ht hs
    · intro text more h hs
      obtain ⟨tail, ht⟩ := hwaits h
      exact hcontext text tail ht hs
  | case7 first rest hargument hvalued hvariable hcontext hplain ih =>
    rw [List.cons_append, deeds.eq_7 _ _ hargument hvalued hvariable hcontext hplain,
      deeds.eq_7 _ _ hargument hvalued (fun before _ _ h _ => hplain before _ h)
        (fun before _ _ h _ => hplain before _ h) hplain, ih]

/-- What has been spelled out has been done. -/
theorem Spelled.mem_deeds (hd : Spelled arguments deed) (h : itemsOf arguments = .ok items) :
    deed ∈ deeds items := by
  have hswitches {cluster : Except Misuse Cluster} (text : String) :
      Item.switches cluster ≠ .argument text := by
    intro he
    cases he
  cases hd with
  | @raised text s hs hm =>
    have hknown : ∀ entry ∈ [("--show-tree", .tree), ("-q", .quiet), ("--quiet", .quiet)],
        entry ∈ Switch.spelled ∧ Switch.takesValue entry.2 = false := by decide
    obtain ⟨hspelled, hvalue⟩ := hknown _ hs
    obtain ⟨before, behind, hitems⟩ := itemsOf_mem h hm (itemOf_spelled hspelled)
    have hw : Cluster.waiting? ⟨[], .plain s⟩ = none := by simp [Cluster.waiting?, hvalue]
    rw [hitems, deeds_append hswitches, deeds_cluster hw]
    exact List.mem_append_right _ List.mem_cons_self
  | @behind text value s hs hv hm =>
    have hknown : ∀ entry ∈ [("-v", .variable), ("--var", .variable), ("--context", .context)],
        entry ∈ Switch.spelled ∧ Switch.takesValue entry.2 = true := by decide
    obtain ⟨hspelled, hvalue⟩ := hknown _ hs
    obtain ⟨block, ⟨before, behind, rfl⟩, hblock⟩ := itemsOf_infix h hm
    obtain _ | ⟨hswitch, _ | ⟨hloose, _ | _⟩⟩ := hblock
    cases (itemOf_spelled hspelled).symm.trans hswitch
    cases (itemOf_loose hv).symm.trans hloose
    have hw : Cluster.waiting? ⟨[], .plain s⟩ = some s := by simp [Cluster.waiting?, hvalue]
    rw [List.append_assoc]
    change _ ∈ deeds (before ++ .switches (.ok ⟨[], .plain s⟩) :: .argument value :: behind)
    rw [deeds_append hswitches, deeds_waiting hw]
    exact List.mem_append_right _ List.mem_cons_self
  | @joined text value s hs hm =>
    obtain ⟨before, behind, hitems⟩ := itemsOf_mem h hm (itemOf_joined hs value)
    rw [hitems, deeds_append hswitches, deeds_cluster rfl]
    exact List.mem_append_right _ List.mem_cons_self

end Spelling

namespace Request

/-- The request is what has been done: its expression is the only argument that stands for itself,
its assignments are those of the texts given to be assigned, and it is hollow if there is a
separator among these. -/
structure DoneBy (r : Request) (arguments : List String) (ds : List Deed) : Prop where
  expression : looseTexts ds = [r.expression]
  named : r.expression ∈ arguments
  ends : ∀ s, EndsOf arguments (givenTo s ds)
  assignments : List.Forall₂ Assigns
    ((givenTo .variable ds).filter fun text => text ≠ separatorText) r.assignments
  hollow : r.hollow = true ↔ separatorText ∈ givenTo .variable ds
  context : r.context = lastGiven (givenTo .context ds)
  tree : r.tree = true ↔ .raised .tree ∈ ds
  quiet : r.quiet = true ↔ .raised .quiet ∈ ds
  spelled : ∀ d, Spelled arguments d → d ∈ ds

def AskedBy (r : Request) (arguments : List String) : Prop :=
  ∃ items, itemsOf arguments = .ok items ∧ r.DoneBy arguments (deeds items)

theorem ofArguments_asked (h : ofArguments arguments = .ok r) : r.AskedBy arguments := by
  rw [ofArguments] at h
  split at h
  · cases h
  · next items hitems =>
    obtain ⟨d, hread, hfinish⟩ := exists_of_bind_ok h
    have hfrom := itemsOf_isFrom hitems
    have hdoes := Draft.readItems_does hread
    obtain ⟨entries, he, ha, hh⟩ := hdoes.takes
    rw [Draft.finish] at hfinish
    split at hfinish
    · cases hfinish
    · next expression hexpression hleft =>
      cases hfinish
      have hloose : looseTexts (deeds items) = [expression] := by
        have hl := (hdoes.loose hleft).2
        rw [hexpression] at hl
        exact hl.symm
      refine ⟨items, hitems, hloose, ?_, givenTo_endsOf hfrom, ?_, ?_, ?_, ?_, ?_,
        fun d hd => hd.mem_deeds hitems⟩
      · exact (looseTexts_sublist hfrom).subset (hloose ▸ List.mem_singleton_self _)
      · rw [ha]
        exact he
      · simp [hh]
      · rw [hdoes.context]
        split
        · next hg => rw [hg]; rfl
        · rfl
      · simp [hdoes.tree]
      · simp [hdoes.quiet]
    · cases hfinish

/-- Of several assignments to a name the last one counts. -/
theorem mapping_get? (r : Request) (name : String) : r.mapping.get? name =
    (r.assignments.filter fun entry => entry.1 = name).getLast?.map fun entry =>
      .number entry.2 := by
  have hentries : r.mapping.entries = r.assignments.foldl
      (fun m entry => Entries.put m entry.1 (.number entry.2)) [] :=
    (List.foldl_hom VariableMap.entries fun m entry => rfl).symm
  rw [VariableMap.get?, hentries, Entries.get?_foldl_put, Entries.get?, Option.or_none]

end Request

end Calculator.CommandLine
