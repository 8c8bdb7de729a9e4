import Calculator.Log.Logger
import Calculator.Proofs.Tables
/-!
Fields of log records. The fields of a record, of its logger and of its message are merged: each key
stands once and in the place where it stood first, with the value that was given last. A message
changes no mapping but the one that it is given as its extra option, which may be that of its logger
(`Log.Logger.options_merge`).
-/
namespace Calculator

namespace Entries

variable {κ ν : Type} [DecidableEq κ] {m entries : Entries κ ν}

theorem nodup_keys_putAll (hm : (keys m).Nodup) (entries : Entries κ ν) :
    (keys (putAll m entries)).Nodup := by
  induction entries generalizing m with
  | nil => exact hm
  | cons entry rest ih => exact ih (nodup_keys_put hm)

/-- A key that is given takes the value given, and any other keeps its own. -/
theorem get?_putAll (h : (keys entries).Nodup) (m : Entries κ ν) (k : κ) :
    get? (putAll m entries) k = (get? entries k).or (get? m k) := by
  induction entries generalizing m with
  | nil => rfl
  | cons entry rest ih =>
    obtain ⟨k₀, v₀⟩ := entry
    obtain ⟨hnew, hrest⟩ := List.nodup_cons.1 h
    change get? (putAll (put m k₀ v₀) rest) k = _
    rw [ih hrest, get?_put, get?]
    split
    · next he =>
      subst he
      rw [get?_eq_none_iff.2 hnew, Option.none_or, Option.some_or]
    · rfl

/-- The keys given follow those that are there, as far as they are new. -/
theorem keys_putAll (h : (keys entries).Nodup) (m : Entries κ ν) :
    keys (putAll m entries) = keys m ++ (keys entries).filter fun k => k ∉ keys m := by
  induction entries generalizing m with
  | nil => simp [putAll, keys]
  | cons entry rest ih =>
    obtain ⟨k₀, v₀⟩ := entry
    obtain ⟨hnew, hrest⟩ := List.nodup_cons.1 h
    change keys (putAll (put m k₀ v₀) rest) = keys m ++ (k₀ :: keys rest).filter _
    rw [ih hrest, keys_put]
    by_cases hk : k₀ ∈ keys m
    · rw [if_pos hk, List.filter_cons_of_neg (by simpa using hk)]
    · have hsame : (keys rest).filter (fun k => k ∉ keys m ++ [k₀]) =
          (keys rest).filter fun k => k ∉ keys m := by
        apply List.filter_congr
        intro k hm
        have hne : k ≠ k₀ := by
          rintro rfl
          exact hnew hm
        simp [hne]
      rw [if_neg hk, hsame, List.filter_cons_of_pos (by simpa using hk), List.append_assoc]
      rfl

theorem mem_put {entry : κ × ν} {k : κ} {v : ν} (h : entry ∈ put m k v) :
    entry = (k, v) ∨ entry ∈ m := by
  induction m with
  | nil => exact .inl (List.mem_singleton.1 h)
  | cons first m ih =>
    obtain ⟨k₀, v₀⟩ := first
    rw [put] at h
    split at h
    · next he =>
      subst he
      rcases List.mem_cons.1 h with h | h
      · exact .inl h
      · exact .inr (List.mem_cons_of_mem _ h)
    · rcases List.mem_cons.1 h with h | h
      · exact .inr (h ▸ List.mem_cons_self)
      · exact (ih h).imp_right (List.mem_cons_of_mem _)

theorem mem_putAll {entry : κ × ν} (h : entry ∈ putAll m entries) : entry ∈ m ++ entries := by
  induction entries generalizing m with
  | nil => rwa [List.append_nil]
  | cons first entries ih =>
    rcases List.mem_append.1 (ih h) with h | h
    · rcases mem_put h with rfl | h
      · exact List.mem_append_right _ List.mem_cons_self
      · exact List.mem_append_left _ h
    · exact List.mem_append_right _ (List.mem_cons_of_mem _ h)

end Entries

namespace Log

/-- Three layers of fields merged into one: each key stands once, with the value of the last layer
that has it, and behind the keys of the first layer stand those that each later one adds. -/
structure Layered (own context given written : Entries String Datum) : Prop where
  once : (Entries.keys written).Nodup
  value : ∀ key, Entries.get? written key =
    (Entries.get? given key).or ((Entries.get? context key).or (Entries.get? own key))
  order : Entries.keys written = Entries.keys own ++
    ((Entries.keys context).filter fun key => key ∉ Entries.keys own) ++
    (Entries.keys given).filter fun key => key ∉ Entries.keys own ∧ key ∉ Entries.keys context

variable {own context given : Entries String Datum}

/-- To merge two layers first and then both into a third one comes to the same. -/
theorem layered_putAll (ho : (Entries.keys own).Nodup) (hc : (Entries.keys context).Nodup)
    (hg : (Entries.keys given).Nodup) :
    Layered own context given (Entries.putAll own (Entries.putAll context given)) := by
  have hmerged := Entries.nodup_keys_putAll hc given
  refine ⟨Entries.nodup_keys_putAll ho _, fun key => ?_, ?_⟩
  · rw [Entries.get?_putAll hmerged, Entries.get?_putAll hg, Option.or_assoc]
  · rw [Entries.keys_putAll hmerged, Entries.keys_putAll hg, List.filter_append, List.filter_filter,
      List.append_assoc]
    congr 2
    apply List.filter_congr
    intro key _
    simp

theorem keys_ownFields (r : Record) (timestamp : String) :
    Entries.keys (r.ownFields timestamp) =
      ["timestamp", "level", "logger", "message", "module", "function", "line"] ++
        r.exception.toList.map fun _ => "exception" := by
  rw [Record.ownFields]
  cases r.exception <;> rfl

theorem nodup_ownFields (r : Record) (timestamp : String) :
    (Entries.keys (r.ownFields timestamp)).Nodup := by
  rw [keys_ownFields]
  cases r.exception <;> simp

/-- The fields of a record are written in their order. -/
theorem jsonFields_eq_map (fields : Entries String Datum) : Datum.jsonFields fields =
    fields.map fun entry => Datum.jsonString entry.1 ++ ": " ++ entry.2.json := by
  induction fields with
  | nil => rw [Datum.jsonFields]; rfl
  | cons entry rest ih =>
    obtain ⟨key, value⟩ := entry
    rw [Datum.jsonFields, ih]
    rfl

namespace Mappings

variable {m m' : Mappings} {fields rest : Fields} {v : Value} {key : String} {ref other depth : Nat}
  {read more : Entries String Datum}

theorem fields_add_of_lt (h : ref < m.length) (fields : Fields) :
    (m.add fields).1.fields ref = m.fields ref := by
  simp [Mappings.fields, add, List.getElem?_append_left h]

theorem fields_add_new (m : Mappings) (fields : Fields) :
    (m.add fields).1.fields (m.add fields).2 = fields := by
  simp [Mappings.fields, add]

theorem length_add (m : Mappings) (fields : Fields) : (m.add fields).1.length = m.length + 1 := by
  simp [add]

theorem fields_put_self (h : ref < m.length) (key : String) (v : Value) :
    (m.put ref key v).fields ref = Entries.put (m.fields ref) key v := by
  simp [Mappings.fields, put, h]

theorem fields_put_of_ne (h : ref ≠ other) (key : String) (v : Value) :
    (m.put ref key v).fields other = m.fields other := by
  simp [Mappings.fields, put, h]

theorem length_put (m : Mappings) (ref : Nat) (key : String) (v : Value) :
    (m.put ref key v).length = m.length := List.length_set

/-- The mappings that a value is made of. -/
inductive Reaches (m : Mappings) : Value → Nat → Prop
  | here {ref : Nat} : Reaches m (.mapping ref) ref
  | item {items : List Value} {v : Value} {ref : Nat} (hv : v ∈ items) (h : Reaches m v ref) :
      Reaches m (.list items) ref
  | field {holder ref : Nat} {entry : String × Value} (hv : entry ∈ m.fields holder)
      (h : Reaches m entry.2 ref) : Reaches m (.mapping holder) ref

def Holds (m : Mappings) (fields : Fields) (ref : Nat) : Prop :=
  ∃ entry ∈ fields, m.Reaches entry.2 ref

theorem mapM_congr {α β : Type} {f g : α → Option β} {items : List α}
    (h : ∀ a ∈ items, f a = g a) : items.mapM f = items.mapM g := by
  induction items with
  | nil => rfl
  | cons a items ih =>
    rw [List.mapM_cons, List.mapM_cons, h a List.mem_cons_self,
      ih fun b hb => h b (List.mem_cons_of_mem _ hb)]

/-- A value reads as before if the mappings that it is made of are as before. -/
theorem read?_congr (h : ∀ ref, m.Reaches v ref → m'.fields ref = m.fields ref) :
    m'.read? depth v = m.read? depth v := by
  induction depth generalizing v with
  | zero => cases v <;> rfl
  | succ depth ih =>
    cases v with
    | plain d => rfl
    | list items =>
      rw [read?, read?, mapM_congr fun v hv => ih fun ref hr => h ref (.item hv hr)]
    | mapping ref =>
      rw [read?, read?, h ref .here, mapM_congr fun entry hv => by
        rw [ih fun ref' hr => h ref' (.field hv hr)]]

theorem readFields?_congr (h : ∀ ref, m.Holds fields ref → m'.fields ref = m.fields ref) :
    m'.readFields? depth fields = m.readFields? depth fields := by
  rw [readFields?, readFields?, mapM_congr fun entry hv => by
    rw [read?_congr fun ref hr => h ref ⟨entry, hv, hr⟩]]

theorem readFields?_cons {entry : String × Value} :
    m.readFields? depth (entry :: rest) = some read ↔
      ∃ d more, m.read? depth entry.2 = some d ∧ m.readFields? depth rest = some more ∧
        read = (entry.1, d) :: more := by
  rw [readFields?, List.mapM_cons, Option.bind_eq_bind, Option.bind_eq_some_iff]
  constructor
  · rintro ⟨_, he, h⟩
    obtain ⟨d, hd, rfl⟩ := Option.map_eq_some_iff.1 he
    obtain ⟨more, hm, h⟩ := Option.bind_eq_some_iff.1 h
    exact ⟨d, more, hd, hm, (Option.some.inj h).symm⟩
  · rintro ⟨d, more, hd, hm, rfl⟩
    rw [readFields?] at hm
    exact ⟨_, Option.map_eq_some_iff.2 ⟨d, hd, rfl⟩, Option.bind_eq_some_iff.2 ⟨more, hm, rfl⟩⟩

theorem readFields?_put {d : Datum} (h : m.readFields? depth fields = some read)
    (hv : m.read? depth v = some d) :
    m.readFields? depth (Entries.put fields key v) = some (Entries.put read key d) := by
  induction fields generalizing read with
  | nil =>
    cases h
    exact readFields?_cons.2 ⟨d, [], hv, rfl, rfl⟩
  | cons entry rest ih =>
    obtain ⟨d', more, hd, hm, rfl⟩ := readFields?_cons.1 h
    rw [Entries.put, Entries.put]
    split
    · exact readFields?_cons.2 ⟨d, more, hv, hm, rfl⟩
    · exact readFields?_cons.2 ⟨d', _, hd, ih hm, rfl⟩

/-- Merged fields read as what they read as, merged. -/
theorem readFields?_putAll (h : m.readFields? depth fields = some read)
    (hr : m.readFields? depth rest = some more) :
    m.readFields? depth (Entries.putAll fields rest) = some (Entries.putAll read more) := by
  induction rest generalizing fields read more with
  | nil =>
    cases hr
    exact h
  | cons entry rest ih =>
    obtain ⟨d, more', hd, hm, rfl⟩ := readFields?_cons.1 hr
    change m.readFields? depth (Entries.putAll (Entries.put fields entry.1 entry.2) rest) =
      some (Entries.putAll (Entries.put read entry.1 d) more')
    exact ih (readFields?_put h hd) hm

/-- What a message may be given for an option that is to be a mapping, and the fields of that. -/
inductive Supplied (m : Mappings) : Option Value → Fields → Prop
  | absent : Supplied m none []
  | record {fields : Entries String Datum} :
      Supplied m (some (.plain (.record fields))) (.plain fields)
  | mapping {ref : Nat} (h : ref < m.length) : Supplied m (some (.mapping ref)) (m.fields ref)

/-- The fields are to be written into, in the place of the mapping that was given, or else in a new
one. -/
structure Opens (m : Mappings) (given : Option Value) (fields : Fields) (opened : Mappings)
    (extra : Nat) : Prop where
  holds : opened.fields extra = fields
  known : extra < opened.length
  grown : m.length ≤ opened.length
  kept : ∀ ref, ref < m.length → opened.fields ref = m.fields ref
  place : ∀ ref, given = some (.mapping ref) → extra = ref
  fresh : (∀ ref, given ≠ some (.mapping ref)) → m.length ≤ extra

theorem opens_add {given : Option Value} (hg : ∀ ref, given ≠ some (.mapping ref))
    (fields : Fields) : m.Opens given fields (m.add fields).1 (m.add fields).2 where
  holds := fields_add_new m fields
  known := by
    rw [length_add]
    exact Nat.lt_succ_self _
  grown := by
    rw [length_add]
    exact Nat.le_succ _
  kept ref hr := fields_add_of_lt hr fields
  place ref h := absurd h (hg ref)
  fresh _ := Nat.le_refl _

/-- To be written into is the mapping that was given or a new one. -/
theorem receiver_keeps {given : Option Value} {opened : Mappings} {extra : Nat}
    (h : m.receiver given = .ok (opened, extra)) (hr : ref < m.length)
    (hg : given ≠ some (.mapping ref)) :
    m.length ≤ opened.length ∧ opened.fields ref = m.fields ref ∧ extra ≠ ref := by
  have hadd {fields : Fields} (he : m.add fields = (opened, extra)) :
      m.length ≤ opened.length ∧ opened.fields ref = m.fields ref ∧ extra ≠ ref := by
    cases he
    exact ⟨by rw [List.length_append]; omega, fields_add_of_lt hr fields, (Nat.ne_of_lt hr).symm⟩
  unfold receiver at h
  split at h
  · exact hadd (Except.ok.inj h)
  · next ref' =>
    cases h
    exact ⟨Nat.le_refl _, rfl, fun he => hg (by rw [he])⟩
  · exact hadd (Except.ok.inj h)
  · cases h

theorem receiver_supplied {given : Option Value} (h : m.Supplied given fields) :
    ∃ opened extra, m.receiver given = .ok (opened, extra) ∧
      m.Opens given fields opened extra := by
  cases h with
  | absent => exact ⟨_, _, rfl, opens_add (by simp) []⟩
  | @record fields => exact ⟨_, _, rfl, opens_add (by simp) (.plain fields)⟩
  | @mapping ref hr =>
    refine ⟨m, ref, rfl, rfl, hr, Nat.le_refl _, fun _ _ => rfl, fun ref' h => ?_, fun h => ?_⟩
    · cases h
      rfl
    · exact absurd rfl (h ref)

end Mappings

/-- In the object of any record the three layers are merged, and it is written in one line. -/
structure Presents (context given extras : Entries String Datum) : Prop where
  own : ∀ (r : Record) timestamp, Entries.keys (r.ownFields timestamp) =
    ["timestamp", "level", "logger", "message", "module", "function", "line"] ++
      r.exception.toList.map fun _ => "exception"
  layered : ∀ (r : Record) timestamp, Layered (r.ownFields timestamp) context given
    (Record.fields { r with extras := extras } timestamp)
  line : ∀ (r : Record) timestamp, Record.structured { r with extras := extras } timestamp =
    "\x7b" ++ String.intercalate ", "
      ((Record.fields { r with extras := extras } timestamp).map fun entry =>
        Datum.jsonString entry.1 ++ ": " ++ entry.2.json) ++ "\x7d"

theorem presents_putAll (hc : (Entries.keys context).Nodup) (hg : (Entries.keys given).Nodup) :
    Presents context given (Entries.putAll context given) where
  own := keys_ownFields
  layered r timestamp := layered_putAll (nodup_ownFields r timestamp) hc hg
  line r timestamp := by rw [Record.structured, Datum.json, jsonFields_eq_map]

/-- Some of the messages are given the mapping as their extra option. -/
def WrittenBy (messages : List Fields) (ref : Nat) : Prop :=
  ∃ given ∈ messages, Entries.get? given "extra" = some (.mapping ref)

namespace Logger

/-- The options of a message whose extra data, merged with the fields of the logger, have moved into
the mapping of its extra option, where all else stays. No other mapping is written into. -/
structure Moved (m : Mappings) (given others : Fields) (next : Mappings) (options : Fields)
    (extra merged : Nat) : Prop where
  taken : Entries.get? options "extra_data" = none
  kept : ∀ key, key ≠ "extra_data" → key ≠ "extra" →
    Entries.get? options key = Entries.get? given key
  receiver : Entries.get? options "extra" = some (.mapping extra)
  place : ∀ ref, Entries.get? given "extra" = some (.mapping ref) → extra = ref
  fresh : (∀ ref, Entries.get? given "extra" ≠ some (.mapping ref)) → m.length ≤ extra
  moved : Entries.get? (next.fields extra) "extra_data" = some (.mapping merged)
  rest : ∀ key, key ≠ "extra_data" →
    Entries.get? (next.fields extra) key = Entries.get? others key
  untouched : ∀ ref, ref < m.length → ref ≠ extra → next.fields ref = m.fields ref

theorem Moved.extras?_eq {m next : Mappings} {given others options : Fields} {extra merged : Nat}
    (h : Moved m given others next options extra merged) (depth : Nat) :
    next.extras? depth options = next.readFields? depth (next.fields merged) := by
  simp only [Mappings.extras?, Mappings.carried?, h.receiver, h.moved, Option.bind_some]

/-- What a message is made from is in the store; the earlier messages write into none of it, and the
message itself into no mapping that the fields of its logger or its extra data hold. -/
structure Undisturbed (l : Logger) (m : Mappings) (earlier : List Fields) (given data : Fields) :
    Prop where
  known : l.fields < m.length
  kept : ¬ WrittenBy earlier l.fields
  spared : ∀ ref, Entries.get? given "extra_data" = some (.mapping ref) → ¬ WrittenBy earlier ref
  held : ∀ ref, m.Holds (m.fields l.fields ++ data) ref →
    ref < m.length ∧ ¬ WrittenBy (earlier ++ [given]) ref

variable {l : Logger} {m opened : Mappings} {given data others : Fields} {earlier : List Fields}
  {ref extra depth : Nat} {context read : Entries String Datum}

theorem fieldsOf_supplied (h : m.Supplied (Entries.get? given "extra_data") data) :
    m.fieldsOf (dataOf given) = .ok data := by
  rw [dataOf]
  generalize Entries.get? given "extra_data" = value at h
  cases h <;> rfl

theorem options_eq (hdata : m.Supplied (Entries.get? given "extra_data") data)
    (hopen : m.receiver (Entries.get? given "extra") = .ok (opened, extra)) :
    l.options m given =
      ((opened.add (l.merge m data)).1.put extra "extra_data"
          (.mapping (opened.add (l.merge m data)).2),
        .ok (Entries.put (Entries.erase given "extra_data") "extra" (.mapping extra))) := by
  rw [options, fieldsOf_supplied hdata]
  simp only [hopen]

theorem moved_of_opens (ho : m.Opens (Entries.get? given "extra") others opened extra)
    (merged : Fields) :
    Moved m given others
      ((opened.add merged).1.put extra "extra_data" (.mapping (opened.add merged).2))
      (Entries.put (Entries.erase given "extra_data") "extra" (.mapping extra)) extra
      (opened.add merged).2 := by
  have hgrown : extra < (opened.add merged).1.length := by
    rw [Mappings.length_add]
    exact Nat.lt_succ_of_lt ho.known
  refine ⟨?_, fun key hdata hextra => ?_, ?_, ho.place, ho.fresh, ?_, fun key hk => ?_,
    fun ref hr hne => ?_⟩
  · rw [Entries.get?_put, if_neg (by decide), Entries.get?_erase, if_pos rfl]
  · rw [Entries.get?_put, if_neg hextra.symm, Entries.get?_erase, if_neg hdata]
  · rw [Entries.get?_put, if_pos rfl]
  · rw [Mappings.fields_put_self hgrown, Entries.get?_put, if_pos rfl]
  · rw [Mappings.fields_put_self hgrown, Entries.get?_put, if_neg hk.symm,
      Mappings.fields_add_of_lt ho.known, ho.holds]
  · rw [Mappings.fields_put_of_ne hne.symm,
      Mappings.fields_add_of_lt (Nat.lt_of_lt_of_le hr ho.grown), ho.kept ref hr]

/-- What a message is given may be held by anyone, by its logger as well. -/
theorem options_supplied (l : Logger) (hdata : m.Supplied (Entries.get? given "extra_data") data)
    (hothers : m.Supplied (Entries.get? given "extra") others) :
    ∃ next options extra merged, l.options m given = (next, .ok options) ∧
      Moved m given others next options extra merged ∧
      next.fields merged = Entries.putAll (m.fields l.fields) data := by
  obtain ⟨opened, extra, hopen, ho⟩ := Mappings.receiver_supplied hothers
  have hmerged : extra ≠ (opened.add (l.merge m data)).2 := Nat.ne_of_lt ho.known
  refine ⟨_, _, _, _, options_eq hdata hopen, moved_of_opens ho _, ?_⟩
  rw [Mappings.fields_put_of_ne hmerged, Mappings.fields_add_new, merge]

/-- A message changes no mapping but the one that it is given as its extra option. -/
theorem options_keeps (l : Logger) (hr : ref < m.length)
    (hg : Entries.get? given "extra" ≠ some (.mapping ref)) :
    m.length ≤ (l.options m given).1.length ∧
      (l.options m given).1.fields ref = m.fields ref := by
  rw [options]
  split
  · exact ⟨Nat.le_refl _, rfl⟩
  · next data hdata =>
    split
    · exact ⟨Nat.le_refl _, rfl⟩
    · next opened extra hopen =>
      obtain ⟨hgrown, hkept, hne⟩ := Mappings.receiver_keeps hopen hr hg
      simp only [Mappings.length_put, Mappings.length_add]
      refine ⟨by omega, ?_⟩
      rw [Mappings.fields_put_of_ne hne, Mappings.fields_add_of_lt (by omega), hkept]

theorem run_keeps_untouched (l : Logger) (hr : ref < m.length) (hw : ¬ WrittenBy earlier ref) :
    m.length ≤ (l.run m earlier).length ∧ (l.run m earlier).fields ref = m.fields ref := by
  induction earlier generalizing m with
  | nil => exact ⟨Nat.le_refl _, rfl⟩
  | cons given earlier ih =>
    obtain ⟨hgrown, hkept⟩ := l.options_keeps hr fun hg => hw ⟨given, List.mem_cons_self, hg⟩
    obtain ⟨hlength, hfields⟩ := ih (Nat.lt_of_lt_of_le hr hgrown)
      fun ⟨later, hm, hg⟩ => hw ⟨later, List.mem_cons_of_mem _ hm, hg⟩
    exact ⟨Nat.le_trans hgrown hlength, hfields.trans hkept⟩

theorem Undisturbed.supplied (h : l.Undisturbed m earlier given data)
    (hdata : m.Supplied (Entries.get? given "extra_data") data) :
    (l.run m earlier).Supplied (Entries.get? given "extra_data") data := by
  have hspared := h.spared
  generalize Entries.get? given "extra_data" = value at hdata hspared
  cases hdata with
  | absent => exact .absent
  | record => exact .record
  | @mapping ref hr =>
    obtain ⟨hlength, hfields⟩ := l.run_keeps_untouched hr (hspared ref rfl)
    rw [← hfields]
    exact .mapping (Nat.lt_of_lt_of_le hr hlength)

/-- The message leaves what its merged fields hold as it was before all messages. -/
theorem Undisturbed.untouched {next : Mappings} {options : Fields} {merged : Nat}
    (h : l.Undisturbed m earlier given data)
    (hm : Moved (l.run m earlier) given others next options extra merged)
    (hr : m.Holds (Entries.putAll (m.fields l.fields) data) ref) :
    next.fields ref = m.fields ref := by
  obtain ⟨entry, hentry, hreach⟩ := hr
  obtain ⟨hknown, hw⟩ := h.held ref ⟨entry, Entries.mem_putAll hentry, hreach⟩
  obtain ⟨hlength, hfields⟩ := l.run_keeps_untouched hknown fun ⟨before, hb, hg⟩ =>
    hw ⟨before, List.mem_append_left _ hb, hg⟩
  have hne : ref ≠ extra := by
    rintro rfl
    by_cases hg : ∃ ref', Entries.get? given "extra" = some (.mapping ref')
    · obtain ⟨ref', hg⟩ := hg
      rw [← hm.place ref' hg] at hg
      exact hw ⟨given, List.mem_append_right _ List.mem_cons_self, hg⟩
    · have hfresh := hm.fresh fun ref' hg' => hg ⟨ref', hg'⟩
      omega
  rw [hm.untouched ref (Nat.lt_of_lt_of_le hknown hlength) hne, hfields]

/-- The fields of the logger hold extra data, and every later message that has no such field of its
own takes them on. -/
def Carries (l : Logger) (m : Mappings) (merged : Nat) : Prop :=
  Entries.get? (m.fields l.fields) "extra_data" = some (.mapping merged) ∧
    ∀ later data others, m.Supplied (Entries.get? later "extra_data") data →
      "extra_data" ∉ Entries.keys data → (Entries.keys data).Nodup →
      m.Supplied (Entries.get? later "extra") others →
      ∃ next options extra merged', l.options m later = (next, .ok options) ∧
        Moved m later others next options extra merged' ∧
        Entries.get? (next.fields merged') "extra_data" = some (.mapping merged)

theorem carries_of_get? {merged : Nat}
    (h : Entries.get? (m.fields l.fields) "extra_data" = some (.mapping merged)) :
    l.Carries m merged := by
  refine ⟨h, fun later data others hdata hnew hd hothers => ?_⟩
  obtain ⟨next, options, extra, merged', hok, hm, hfields⟩ := l.options_supplied hdata hothers
  refine ⟨next, options, extra, merged', hok, hm, ?_⟩
  rw [hfields, Entries.get?_putAll hd, Entries.get?_eq_none_iff.2 hnew, Option.none_or, h]

/-- Nothing is written into what is no mapping. -/
theorem options_refused {v : Value} (hdata : m.Supplied (Entries.get? given "extra_data") data)
    (hm : ∀ ref, v ≠ .mapping ref) (hr : ∀ fields, v ≠ .plain (.record fields)) :
    l.options m (Entries.put given "extra" v) = (m, .error (.noAssignment v.kindName)) := by
  have hextra : Entries.get? (Entries.put given "extra" v) "extra" = some v := by
    rw [Entries.get?_put, if_pos rfl]
  have hput : Entries.get? (Entries.put given "extra" v) "extra_data" =
      Entries.get? given "extra_data" := by
    rw [Entries.get?_put, if_neg (by decide)]
  rw [← hput] at hdata
  rw [options, fieldsOf_supplied hdata, hextra]
  have hrefused : m.receiver (some v) = .error (.noAssignment v.kindName) := by
    cases v with
    | mapping ref => exact absurd rfl (hm ref)
    | list items => rfl
    | plain d => cases d with
      | record fields => exact absurd rfl (hr fields)
      | _ => rfl
  simp only [hrefused]

/-- The extra data of a message are merged with the fields of the logger and move into the extra
option, where all else stays; in the object that is written of any record with them each key stands
once, an earlier place goes with the value that is given last, and the order is that of the own
fields, of the new ones of the logger and of the new ones of the message. Earlier messages do not
matter, unless they wrote into what the message is made from. The fields of the logger stay, unless
they are themselves the extra option: then the extra data stay among them and go on to later
messages. An extra option that is no mapping is refused, also when it is null. -/
theorem options_merge (hu : l.Undisturbed m earlier given data)
    (hcontext : m.readFields? depth (m.fields l.fields) = some context)
    (hread : m.readFields? depth data = some read) (hl : (Entries.keys context).Nodup)
    (hd : (Entries.keys read).Nodup)
    (hdata : m.Supplied (Entries.get? given "extra_data") data)
    (hothers : (l.run m earlier).Supplied (Entries.get? given "extra") others) :
    (∃ next options extra merged, l.options (l.run m earlier) given = (next, .ok options) ∧
      Moved (l.run m earlier) given others next options extra merged ∧
      next.extras? depth options = some (Entries.putAll context read) ∧
      Presents context read (Entries.putAll context read) ∧
      (extra ≠ l.fields → next.fields l.fields = m.fields l.fields) ∧
      (extra = l.fields → l.Carries next merged)) ∧
    ∀ v, (∀ ref, v ≠ .mapping ref) → (∀ fields, v ≠ .plain (.record fields)) →
      l.options (l.run m earlier) (Entries.put given "extra" v) =
        (l.run m earlier, .error (.noAssignment v.kindName)) := by
  have hdata' := hu.supplied hdata
  obtain ⟨hlength, hfields⟩ := l.run_keeps_untouched hu.known hu.kept
  refine ⟨?_, fun v => options_refused hdata'⟩
  obtain ⟨next, options, extra, merged, hok, hm, hmerged⟩ := l.options_supplied hdata' hothers
  rw [hfields] at hmerged
  refine ⟨next, options, extra, merged, hok, hm, ?_, presents_putAll hl hd, fun hne => ?_, ?_⟩
  · rw [hm.extras?_eq, hmerged, Mappings.readFields?_congr fun ref hr => hu.untouched hm hr]
    exact Mappings.readFields?_putAll hcontext hread
  · rw [hm.untouched _ (Nat.lt_of_lt_of_le hu.known hlength) hne.symm, hfields]
  · rintro rfl
    exact carries_of_get? hm.moved

def parserLogger : Logger := ⟨"mathexpr.parser", 0⟩

/-- The fields of the logger, and a mapping that its callers share. -/
def sharedMappings : Mappings := [
  .plain [("component", .text "parser"), ("level", .int 3)], .plain [("user", .text "u")]]

def overlappingData : Entries String Datum :=
  [("line", .int 7), ("component", .text "cli"), ("step", .int 1)]

def overlappingOptions : Fields := [
  ("stacklevel", .plain (.int 2)), ("extra_data", .plain (.record overlappingData)),
  ("extra", .mapping 1)]

theorem not_holds_plain (fields : Entries String Datum) : ¬ m.Holds (.plain fields) ref := by
  rintro ⟨entry, hentry, hreach⟩
  obtain ⟨field, _, rfl⟩ := List.mem_map.1 hentry
  cases hreach

/-- The component is given twice; the level and the line replace fields of the record. The fields of
the logger do not stay when they are given to be written into, and null is refused. -/
theorem options_merge_overlapping :
    (∃ next options extras, parserLogger.options
        (parserLogger.run sharedMappings [[("extra", .mapping 1)]]) overlappingOptions =
          (next, .ok options) ∧
      Entries.get? options "stacklevel" = some (.plain (.int 2)) ∧
      Entries.get? options "extra_data" = none ∧
      next.fields 0 = sharedMappings.fields 0 ∧
      next.extras? 0 options = some extras ∧
      ∃ r : Record, Entries.keys (Record.fields { r with extras := extras } "now") =
          ["timestamp", "level", "logger", "message", "module", "function", "line", "component",
            "step"] ∧
        Entries.get? (Record.fields { r with extras := extras } "now") "level" = some (.int 3) ∧
        Entries.get? (Record.fields { r with extras := extras } "now") "line" = some (.int 7) ∧
        Entries.get? (Record.fields { r with extras := extras } "now") "component" =
          some (.text "cli")) ∧
    (∃ next options merged, parserLogger.options sharedMappings [("extra", .mapping 0)] =
      (next, .ok options) ∧ parserLogger.Carries next merged) ∧
    parserLogger.options sharedMappings [("extra", .plain .null)] =
      (sharedMappings, .error (.noAssignment "NoneType")) := by
  have hcontext : sharedMappings.readFields? 0 (sharedMappings.fields 0) =
      some [("component", .text "parser"), ("level", .int 3)] := rfl
  have hl : (Entries.keys [("component", Datum.text "parser"), ("level", .int 3)]).Nodup := by
    decide
  constructor
  · have hu : parserLogger.Undisturbed sharedMappings [[("extra", .mapping 1)]] overlappingOptions
        (.plain overlappingData) := by
      refine ⟨by decide, ?_, fun ref h => ?_, fun ref h => absurd h (not_holds_plain
        ([("component", .text "parser"), ("level", .int 3)] ++ overlappingData))⟩
      · simp [WrittenBy, Entries.get?, parserLogger]
      · simp [overlappingOptions, Entries.get?] at h
    have hothers : (parserLogger.run sharedMappings [[("extra", .mapping 1)]]).Supplied
        (Entries.get? overlappingOptions "extra") _ := .mapping (by decide)
    obtain ⟨⟨next, options, extra, merged, hok, hmoved, hextras, hpresents, hkeeps, _⟩, _⟩ :=
      options_merge hu hcontext rfl hl (by decide) .record hothers
    have hextra : extra = 1 := hmoved.place 1 rfl
    let r : Record := parserLogger.record 20 "Parsed" "parser" "parse" []
    refine ⟨next, options, _, hok, hmoved.kept "stacklevel" (by decide) (by decide), hmoved.taken,
      hkeeps (hextra ▸ by decide), hextras, r, ?_, ?_, ?_, ?_⟩
    · rw [(hpresents.layered r "now").order]
      rfl
    · rw [(hpresents.layered r "now").value]
      rfl
    · rw [(hpresents.layered r "now").value]
      rfl
    · rw [(hpresents.layered r "now").value]
      rfl
  · have hu : parserLogger.Undisturbed sharedMappings [] [("extra", .mapping 0)] [] := by
      refine ⟨by decide, ?_, fun ref h => ?_, fun ref h => absurd h (not_holds_plain
        [("component", .text "parser"), ("level", .int 3)])⟩
      · simp [WrittenBy]
      · simp [Entries.get?] at h
    have hothers : (parserLogger.run sharedMappings []).Supplied
        (Entries.get? [("extra", Value.mapping 0)] "extra") _ := .mapping (by decide)
    obtain ⟨⟨next, options, extra, merged, hok, hmoved, _, _, _, hcarries⟩, hrefused⟩ :=
      options_merge hu hcontext rfl hl List.nodup_nil .absent hothers
    exact ⟨⟨next, options, merged, hok, hcarries (hmoved.place 0 rfl)⟩,
      hrefused (.plain .null) (by simp) (by simp)⟩

end Logger

end Log

end Calculator
