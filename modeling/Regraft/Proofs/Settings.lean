import Regraft.Settings

/-!
# Regraft.Proofs.Settings -- which source an option is taken from

Every option has a place (`Key.place`): an environment variable, the names under which it may be
configured, and what it is where nothing is set (`Settings.standard`).  The rule is that the first
source counts that holds anything but null (`chosen`).  Text options and the switch keep to it
(`textOption_eq`, `switchOption_eq`).  The marker literals do not: they take the first source that is
there, whatever it holds, but for a variable that is set to nothing (`markerOption_eq`); so one of
them keeps to the rule exactly if it is not null, and with a variable set to nothing only if it is
configured as nothing as well (`markerSources_eq_iff`).  `resolve_priority` says this of all options at
once, and that the literals of the rules are the texts of the options, null included.
-/

namespace Regraft

set_option autoImplicit false

namespace Value

def isNull : Value → Bool
  | null => true
  | _ => false

/-- The first value that is not null. -/
def firstSet (sources : List Value) (default : Value) : Value :=
  (sources.find? fun v => !v.isNull).getD default

theorem firstSet_text (s : String) (sources : List Value) (default : Value) :
    firstSet (.text s :: sources) default = .text s := rfl

theorem firstSet_null (sources : List Value) (default : Value) :
    firstSet (.null :: sources) default = firstSet sources default := rfl

theorem firstSet_of_ne {v : Value} (h : v ≠ .null) (sources : List Value) (default : Value) :
    firstSet (v :: sources) default = v := by
  have set : v.isNull = false := by
    cases v <;> first | rfl | exact absurd rfl h
  simp [firstSet, set]

theorem firstSet_ne_null {sources : List Value} {default : Value} (h : default ≠ .null) :
    firstSet sources default ≠ .null := by
  induction sources with
  | nil => exact h
  | cons v sources ih =>
      by_cases none_ : v = .null
      · rw [none_, firstSet_null]
        exact ih
      · rw [firstSet_of_ne none_]
        exact none_

/-- The first value that is there is the first that is not null, unless it is null. -/
theorem headD_eq_firstSet {sources : List Value} {default : Value}
    (set : sources.headD default ≠ .null) : sources.headD default = firstSet sources default := by
  cases sources with
  | nil => rfl
  | cons v sources => exact (firstSet_of_ne set sources default).symm

end Value

namespace Settings

open Value (firstSet firstSet_text firstSet_ne_null headD_eq_firstSet)

/-! ## The places of the options -/

inductive Key where
  | method
  | builder
  | forward
  | contextFile
  | encoding
  | logDirectory
  | strict
  | markerOpening
  | markerClosing
  | markerLead

inductive Kind where
  | text
  | switch
  | marker
  deriving DecidableEq

/-- Where an option is looked for. -/
structure Place where
  kind : Kind
  /-- Its environment variable. -/
  variable_ : String
  /-- Its name in the `markers` section, if it has one there. -/
  nested : Option String
  /-- Its name in the configured mapping. -/
  name : String

def Key.place : Key → Place
  | method => ⟨.text, "SCAFFOLD_MERGE_METHOD", none, "method_name"⟩
  | builder => ⟨.text, "SCAFFOLD_MERGE_BUILDER_TYPE", none, "builder_type"⟩
  | forward => ⟨.text, "SCAFFOLD_MERGE_PARTIAL_METHOD", none, "partial_method"⟩
  | contextFile => ⟨.text, "SCAFFOLD_MERGE_CONTEXT_FILE", none, "context_file"⟩
  | encoding => ⟨.text, "SCAFFOLD_MERGE_ENCODING", none, "encoding"⟩
  | logDirectory => ⟨.text, "SCAFFOLD_MERGE_LOG_DIR", none, "log_dir"⟩
  | strict => ⟨.switch, "SCAFFOLD_MERGE_STRICT", none, "strict_single_method"⟩
  | markerOpening => ⟨.marker, "SCAFFOLD_MERGE_MARKER_BEGIN", some "begin", "marker_begin"⟩
  | markerClosing => ⟨.marker, "SCAFFOLD_MERGE_MARKER_END", some "end", "marker_end"⟩
  | markerLead => ⟨.marker, "SCAFFOLD_MERGE_MARKER_PREFIX", some "prefix", "marker_prefix"⟩

def value (s : Settings) : Key → Value
  | .method => .text s.method
  | .builder => .text s.builder
  | .forward => .text s.forward
  | .contextFile => .text s.contextFile
  | .encoding => .text s.encoding
  | .logDirectory => .text s.logDirectory
  | .strict => .bool s.strict
  | .markerOpening => s.markerOpening
  | .markerClosing => s.markerClosing
  | .markerLead => s.markerLead

/-- The literal of the rules that an option gives. -/
def Key.literal (r : Rules) : Key → Option Text
  | method => some r.signature.method
  | builder => some r.signature.builder
  | forward => some r.forward
  | markerOpening => some r.markers.opening
  | markerClosing => some r.markers.closing
  | markerLead => some r.markers.lead
  | _ => none

/-- What is configured for an option, the `markers` section first. -/
def configured (data : Entries) (p : Place) : List Value :=
  (p.nested.bind (Value.field? ((Value.field? data "markers").getD .null).entries)).toList ++
    (Value.field? data p.name).toList

/-- What is set for an option, the environment variable first. -/
def sources (env : Environment) (data : Entries) (p : Place) : List Value :=
  ((env p.variable_).map Value.text).toList ++ configured data p

/-- What is set for a marker, a variable that is set to nothing being passed over. -/
def markerSources (env : Environment) (data : Entries) (p : Place) : List Value :=
  (((env p.variable_).filter fun s => s != "").map Value.text).toList ++ configured data p

/-- What an option is by the order of its sources: the first that is not null. -/
def chosen (env : Environment) (data : Entries) (k : Key) : Value :=
  firstSet (sources env data k.place) (standard.value k)

/-- An option that is taken from a value: a text is shown, and a switch is on by a word in a variable
and by truth in a configuration. -/
def Place.made (p : Place) (env : Environment) (v : Value) : Value :=
  match p.kind with
  | .text => .text v.display
  | .switch => .bool (if (env p.variable_).isSome then isWordFolded "true" v.display else v.truth)
  | .marker => v

theorem standard_ne_null (k : Key) : standard.value k ≠ .null := by
  cases k <;> exact nofun

theorem chosen_ne_null (env : Environment) (data : Entries) (k : Key) :
    chosen env data k ≠ .null :=
  firstSet_ne_null (standard_ne_null k)

/-! ## The options one by one -/

variable {env : Environment} {data : Entries} {variable_ nested name default : String}

theorem textOption_eq :
    textOption env data variable_ name default =
      shown (firstSet (sources env data ⟨.text, variable_, none, name⟩) (.text default)) := by
  unfold textOption
  show _ = shown (firstSet (((env variable_).map Value.text).toList ++ (Value.field? data name).toList) _)
  cases env variable_ with
  | some s => rfl
  | none =>
      cases Value.field? data name with
      | none => rfl
      | some v => cases v <;> rfl

theorem switchOption_eq :
    Value.bool (switchOption env data variable_ name) =
      (Place.mk .switch variable_ none name).made env
        (firstSet (sources env data ⟨.switch, variable_, none, name⟩) (.bool false)) := by
  show _ = Value.bool (if (env variable_).isSome then
    isWordFolded "true" (firstSet (((env variable_).map Value.text).toList ++
      (Value.field? data name).toList) (.bool false)).display
    else (firstSet (((env variable_).map Value.text).toList ++
      (Value.field? data name).toList) (.bool false)).truth)
  unfold switchOption
  cases env variable_ with
  | some s => rfl
  | none =>
      cases Value.field? data name with
      | none => rfl
      | some v => cases v <;> rfl

/-- A variable that is set to nothing is no source of a marker. -/
theorem markerSources_of_empty {p : Place} (empty : env p.variable_ = some "") :
    markerSources env data p = configured data p := by
  rw [markerSources, empty]
  rfl

/-- Otherwise a marker has the sources of any option. -/
theorem markerSources_of_ne {p : Place} (some_ : env p.variable_ ≠ some "") :
    markerSources env data p = sources env data p := by
  rw [markerSources, sources]
  cases set : env p.variable_ with
  | none => rfl
  | some s =>
      have kept : (s != "") = true := bne_iff_ne.2 fun e => some_ (by rw [set, e])
      rw [Option.filter_some, if_pos kept]

theorem getD_or {a b : Option Value} {default : Value} :
    (a.or b).getD default = (a.toList ++ b.toList).headD default := by
  cases a <;> cases b <;> rfl

theorem markerOption_eq :
    markerOption env data variable_ nested name default =
      (markerSources env data ⟨.marker, variable_, some nested, name⟩).headD (.text default) := by
  unfold markerOption
  split
  · rename_i empty
    rw [markerSources_of_empty empty]
    exact getD_or
  · rename_i unset
    rw [markerSources_of_ne (by rw [unset]; exact nofun), sources, unset]
    exact getD_or
  · rename_i s some_ set
    rw [markerSources_of_ne (by rw [set]; exact fun e => some_ (Option.some.inj e)), sources, set]
    rfl

/-- A marker keeps to the order of the sources exactly if it is not null; where its variable is set to
nothing, exactly if it is configured as nothing. -/
theorem markerSources_eq_iff {p : Place} {v : Value} (set : v ≠ .null) :
    (markerSources env data p).headD v = firstSet (sources env data p) v ↔
      if env p.variable_ = some "" then (markerSources env data p).headD v = .text ""
      else (markerSources env data p).headD v ≠ .null := by
  by_cases empty : env p.variable_ = some ""
  · have first : firstSet (sources env data p) v = .text "" := by
      rw [sources, empty]
      exact firstSet_text _ _ _
    rw [if_pos empty, first]
  · rw [if_neg empty, markerSources_of_ne empty]
    constructor
    · intro same
      rw [same]
      exact firstSet_ne_null set
    · exact headD_eq_firstSet

/-! ## All options -/

def Key.option (env : Environment) (data : Entries) (k : Key) : Except Error Value :=
  let p := k.place
  let default := (standard.value k).display
  match p.kind with
  | .text => (textOption env data p.variable_ p.name default).map .text
  | .switch => .ok (.bool (switchOption env data p.variable_ p.name))
  | .marker => .ok (markerOption env data p.variable_ (p.nested.getD "") p.name default)

theorem bind_eq_ok {α β : Type} {x : Except Error α} {f : α → Except Error β} {b : β} :
    x >>= f = .ok b ↔ ∃ a, x = .ok a ∧ f a = .ok b := by
  cases x with
  | error e => simp [bind, Except.bind]
  | ok a => simp [bind, Except.bind]

theorem map_text_eq_ok {x : Except Error String} {t : String} :
    x.map Value.text = .ok (.text t) ↔ x = .ok t := by
  cases x with
  | error e => simp [Except.map]
  | ok s => simp [Except.map]

/-- Options are resolved to what each of them is read as. -/
theorem resolve_eq_ok {s : Settings} :
    resolve env data = .ok s ↔ ∀ k : Key, k.option env data = .ok (s.value k) := by
  unfold resolve
  simp only [bind_eq_ok]
  constructor
  · rintro ⟨_, method, _, builder, _, forward, _, contextFile, _, encoding, _, logDirectory, done⟩ k
    obtain rfl := Except.ok.inj done
    cases k with
    | method => exact congrArg (Except.map Value.text) method
    | builder => exact congrArg (Except.map Value.text) builder
    | forward => exact congrArg (Except.map Value.text) forward
    | contextFile => exact congrArg (Except.map Value.text) contextFile
    | encoding => exact congrArg (Except.map Value.text) encoding
    | logDirectory => exact congrArg (Except.map Value.text) logDirectory
    | strict => rfl
    | markerOpening => rfl
    | markerClosing => rfl
    | markerLead => rfl
  · intro read
    obtain ⟨method, builder, forward, strict, opening, closing, lead, contextFile, encoding,
      logDirectory⟩ := s
    obtain rfl := Value.bool.inj (Except.ok.inj (read .strict))
    obtain rfl := Except.ok.inj (read .markerOpening)
    obtain rfl := Except.ok.inj (read .markerClosing)
    obtain rfl := Except.ok.inj (read .markerLead)
    exact ⟨method, map_text_eq_ok.1 (read .method), builder, map_text_eq_ok.1 (read .builder), forward,
      map_text_eq_ok.1 (read .forward), contextFile, map_text_eq_ok.1 (read .contextFile), encoding,
      map_text_eq_ok.1 (read .encoding), logDirectory, map_text_eq_ok.1 (read .logDirectory), rfl⟩

/-- Text options and the switch are made of what is chosen, a marker is the first of its sources. -/
theorem option_eq (k : Key) : k.option env data =
    match k.place.kind with
    | .text => (shown (chosen env data k)).map .text
    | .switch => .ok (k.place.made env (chosen env data k))
    | .marker => .ok ((markerSources env data k.place).headD (standard.value k)) := by
  -- the kind of the place says which of the three lemmas applies
  cases k <;> first
    | exact congrArg (Except.map Value.text) textOption_eq
    | exact congrArg Except.ok switchOption_eq
    | exact congrArg Except.ok markerOption_eq

theorem shown_eq_ok {v : Value} {t : String} :
    shown v = .ok t ↔ v.isShowable = true ∧ t = v.display := by
  unfold shown
  by_cases showable : v.isShowable = true
  · rw [if_pos showable, Except.ok.injEq]
    exact ⟨fun same => ⟨showable, same.symm⟩, fun h => h.2.symm⟩
  · rw [if_neg showable]
    exact ⟨nofun, fun h => absurd h.1 showable⟩

theorem shown_eq_error {v : Value} {e : Error} (h : shown v = .error e) : e = .longNumber := by
  unfold shown at h
  split at h
  · cases h
  · exact (Except.error.inj h).symm

theorem bind_error {α β : Type} {x : Except Error α} {f : α → Except Error β}
    (first : ∀ e, x = .error e → e = .longNumber)
    (later : ∀ a e, f a = .error e → e = .longNumber) (e : Error) (h : x >>= f = .error e) :
    e = .longNumber := by
  cases x with
  | error e' => exact first e (by simpa [bind, Except.bind] using h)
  | ok a => exact later a e h

theorem textOption_error (e : Error) (h : textOption env data variable_ name default = .error e) :
    e = .longNumber := by
  rw [textOption_eq] at h
  exact shown_eq_error h

/-- Options cannot be resolved for one reason only. -/
theorem resolve_error : ∀ e, resolve env data = .error e → e = .longNumber :=
  bind_error textOption_error fun _ => bind_error textOption_error fun _ =>
    bind_error textOption_error fun _ => bind_error textOption_error fun _ =>
      bind_error textOption_error fun _ => bind_error textOption_error fun _ _ h => nomatch h

/-- The options where every chosen text can be shown. -/
def settled (env : Environment) (data : Entries) : Settings :=
  let text (k : Key) := (chosen env data k).display
  let marker (k : Key) := (markerSources env data k.place).headD (standard.value k)
  { method := text .method
    builder := text .builder
    forward := text .forward
    strict := switchOption env data "SCAFFOLD_MERGE_STRICT" "strict_single_method"
    markerOpening := marker .markerOpening
    markerClosing := marker .markerClosing
    markerLead := marker .markerLead
    contextFile := text .contextFile
    encoding := text .encoding
    logDirectory := text .logDirectory }

theorem resolve_settled
    (showable : ∀ k : Key, k.place.kind = .text → (chosen env data k).isShowable = true) :
    resolve env data = .ok (settled env data) := by
  have text (k : Key) (kind : k.place.kind = .text) :
      (shown (chosen env data k)).map Value.text = .ok (.text (chosen env data k).display) :=
    map_text_eq_ok.2 (shown_eq_ok.2 ⟨showable k kind, rfl⟩)
  refine resolve_eq_ok.2 fun k => ?_
  rw [option_eq]
  cases k <;> first | exact text _ rfl | exact congrArg Except.ok switchOption_eq.symm | rfl

variable {s : Settings}

theorem value_of_text (resolved : resolve env data = .ok s) {k : Key} (kind : k.place.kind = .text) :
    (chosen env data k).isShowable = true ∧ s.value k = k.place.made env (chosen env data k) := by
  have read := resolve_eq_ok.1 resolved k
  rw [option_eq, kind] at read
  have made : k.place.made env (chosen env data k) = .text (chosen env data k).display := by
    rw [Place.made, kind]
  cases showing : shown (chosen env data k) with
  | error e =>
      rw [showing] at read
      cases read
  | ok t =>
      obtain ⟨showable, rfl⟩ := shown_eq_ok.1 showing
      rw [showing] at read
      rw [made]
      exact ⟨showable, (Except.ok.inj read).symm⟩

theorem value_of_switch (resolved : resolve env data = .ok s) {k : Key}
    (kind : k.place.kind = .switch) : s.value k = k.place.made env (chosen env data k) := by
  have read := resolve_eq_ok.1 resolved k
  rw [option_eq, kind] at read
  exact (Except.ok.inj read).symm

theorem value_of_marker (resolved : resolve env data = .ok s) {k : Key}
    (kind : k.place.kind = .marker) :
    s.value k = (markerSources env data k.place).headD (standard.value k) := by
  have read := resolve_eq_ok.1 resolved k
  rw [option_eq, kind] at read
  exact (Except.ok.inj read).symm

/-- The literals of the rules are the texts of the options. -/
theorem literal_of_rules {r : Rules} (made : s.rules = .ok r) {k : Key} {t : Text}
    (literal : k.literal r = some t) : t = (s.value k).display.toList := by
  unfold rules at made
  simp only [bind_eq_ok] at made
  obtain ⟨opening, shownOpening, closing, shownClosing, lead, shownLead, markers, pair, done⟩ := made
  obtain ⟨-, rfl⟩ := shown_eq_ok.1 shownOpening
  obtain ⟨-, rfl⟩ := shown_eq_ok.1 shownClosing
  obtain ⟨-, rfl⟩ := shown_eq_ok.1 shownLead
  obtain rfl := Except.ok.inj done
  unfold MarkerPair.ofTexts at pair
  split at pair
  · obtain rfl := Except.ok.inj pair
    cases k <;> cases literal <;> rfl
  · cases pair

/-- Where nothing but null is set, an option is what is built in. -/
theorem chosen_of_null {k : Key} (unset : env k.place.variable_ = none)
    (null : ∀ v ∈ configured data k.place, v = .null) : chosen env data k = standard.value k := by
  have none_ : (configured data k.place).find? (fun v => !v.isNull) = none := by
    rw [List.find?_eq_none]
    intro v m
    rw [null v m]
    exact nofun
  rw [chosen, sources, unset]
  show firstSet (configured data k.place) _ = _
  rw [firstSet, none_]
  rfl

theorem made_standard {k : Key} (unset : env k.place.variable_ = none) :
    k.place.made env (standard.value k) = standard.value k := by
  rw [Place.made, unset]
  cases k <;> rfl

/-- A null leaves an option as it is built in, but for a marker. -/
theorem value_of_null (resolved : resolve env data = .ok s) {k : Key}
    (unset : env k.place.variable_ = none) (null : ∀ v ∈ configured data k.place, v = .null) :
    s.value k = standard.value k ↔ (k.place.kind = .marker → configured data k.place = []) := by
  cases is : k.place.kind with
  | text =>
      rw [(value_of_text resolved is).2, chosen_of_null unset null, made_standard unset]
      exact iff_of_true rfl nofun
  | switch =>
      rw [value_of_switch resolved is, chosen_of_null unset null, made_standard unset]
      exact iff_of_true rfl nofun
  | marker =>
      have some_ : env k.place.variable_ ≠ some "" := by
        rw [unset]
        exact nofun
      rw [value_of_marker resolved is, markerSources_of_ne some_, sources, unset]
      show (configured data k.place).headD _ = _ ↔ _
      cases found : configured data k.place with
      | nil => exact iff_of_true rfl fun _ => rfl
      | cons v more =>
          obtain rfl := null v (found ▸ List.mem_cons_self)
          exact iff_of_false (standard_ne_null k).symm fun h => nomatch h rfl

/-- The text options and the switch are made of the first of their sources that is not null: variable,
configuration, what is built in.  They are all there exactly if the chosen texts can be shown.  A marker
is the first of its sources that is there, a variable set to nothing being none; so it keeps to the order
exactly if it is not null, or, with its variable set to nothing, exactly if it is configured so.  A null
leaves any option but a marker as it is built in, and the rules have the texts of the options for
literals. -/
theorem resolve_priority (env : Environment) (data : Entries) :
    ((∃ s, resolve env data = .ok s) ↔
        ∀ k : Key, k.place.kind = .text → (chosen env data k).isShowable = true) ∧
      (∀ e, resolve env data = .error e → e = .longNumber) ∧
      ∀ s, resolve env data = .ok s →
        (∀ k : Key, k.place.kind ≠ .marker →
          s.value k = k.place.made env (chosen env data k)) ∧
        (∀ k : Key, k.place.kind = .marker →
          s.value k = (markerSources env data k.place).headD (standard.value k) ∧
          (s.value k = chosen env data k ↔
            if env k.place.variable_ = some "" then s.value k = .text "" else s.value k ≠ .null)) ∧
        (∀ k : Key, env k.place.variable_ = none → (∀ v ∈ configured data k.place, v = .null) →
          (s.value k = standard.value k ↔ (k.place.kind = .marker → configured data k.place = []))) ∧
        ∀ r, s.rules = .ok r → ∀ (k : Key) (t : Text), k.literal r = some t →
          t = (s.value k).display.toList := by
  refine ⟨⟨?_, fun showable => ⟨_, resolve_settled showable⟩⟩, resolve_error, fun s resolved => ?_⟩
  · rintro ⟨s, resolved⟩ k kind
    exact (value_of_text resolved kind).1
  · refine ⟨fun k kind => ?_, fun k kind => ?_, fun k => value_of_null resolved,
      fun r made k t => literal_of_rules made⟩
    · cases is : k.place.kind with
      | text => exact (value_of_text resolved is).2
      | switch => exact value_of_switch resolved is
      | marker => exact absurd is kind
    · rw [value_of_marker resolved kind]
      exact ⟨rfl, markerSources_eq_iff (standard_ne_null k)⟩

def mixedEnvironment : Environment := fun name =>
  if name = "SCAFFOLD_MERGE_METHOD" then some ""
  else if name = "SCAFFOLD_MERGE_STRICT" then some "TRUE" else none

/-- A mapping with nulls, a value that is off, and markers under both names. -/
def mixedData : Entries :=
  [(.text "method_name", .text "Configure"), (.text "builder_type", .null),
    (.text "context_file", .bool false),
    (.text "markers", .map [(.text "end", .text "// </keep>"), (.text "prefix", .null)]),
    (.text "marker_prefix", .text "// keep:")]

theorem resolve_priority_mixed :
    ∃ s, resolve mixedEnvironment mixedData = .ok s ∧ s.method = "" ∧ s.builder = "ModelBuilder" ∧
      s.contextFile = "False" ∧ s.strict = true ∧ s.markerClosing = .text "// </keep>" ∧
      s.markerLead ≠ chosen mixedEnvironment mixedData .markerLead ∧
      ∀ r, s.rules = .ok r → r.markers.lead = "None".toList := by
  obtain ⟨total, -, all⟩ := resolve_priority mixedEnvironment mixedData
  obtain ⟨s, resolved⟩ := total.2 fun k _ => by cases k <;> rfl
  obtain ⟨made, marker, null, literal⟩ := all s resolved
  have lead : s.markerLead = .null := (marker .markerLead rfl).1
  refine ⟨s, resolved, Value.text.inj (made .method nofun), ?_, Value.text.inj (made .contextFile nofun),
    Value.bool.inj (made .strict nofun), (marker .markerClosing rfl).1, ?_, fun r rules => ?_⟩
  · have nothing : configured mixedData Key.builder.place = [.null] := rfl
    have builder := null .builder rfl (by rw [nothing]; exact List.forall_mem_singleton.2 rfl)
    exact Value.text.inj (builder.2 nofun)
  · rw [lead]
    exact (chosen_ne_null _ _ _).symm
  · have text := literal r rules .markerLead _ rfl
    rw [text]
    show s.markerLead.display.toList = _
    rw [lead]
    rfl

/-- A null under a name of the `markers` section. -/
def nullMarker : Entries :=
  [(.text "markers", .map [(.text "begin", .null)])]

/-- A null in the `markers` section is a marker of its own, with a text, and a variable set to nothing
does not count for a marker. -/
theorem resolve_null_marker :
    (∃ s r, resolve (fun _ => none) nullMarker = .ok s ∧ s.rules = .ok r ∧
      chosen (fun _ => none) nullMarker .markerOpening = standard.markerOpening ∧
      s.value .markerOpening ≠ standard.markerOpening ∧ r.markers.opening = "None".toList) ∧
    ∃ s, resolve (fun name => if name = "SCAFFOLD_MERGE_MARKER_BEGIN" then some "" else none) [] = .ok s ∧
      chosen (fun name => if name = "SCAFFOLD_MERGE_MARKER_BEGIN" then some "" else none) []
        .markerOpening = .text "" ∧
      s.value .markerOpening ≠ .text "" := by
  refine ⟨⟨{ standard with markerOpening := .null }, _, rfl, rfl, rfl, nofun, rfl⟩, standard, rfl, rfl, ?_⟩
  intro same
  have literal := Value.text.inj same
  revert literal
  decide

end Settings

end Regraft
