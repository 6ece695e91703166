import Regraft.Files.Workspace
import Regraft.Proofs.Comparison
import Regraft.Proofs.Files.Effect
import Regraft.Proofs.Files.Place

/-!
# Regraft.Proofs.Files.Comparing -- the report on two model directories

A directory gives each of its model files, by entity, the table of the properties declared in it
(`Disk.model?`); a directory that is not there has none.  A comparison ends in a report, without
touching the disk, wherever the rules can be built and the source files are texts, and the report says
neither more nor less than what these tables say.
-/

namespace Regraft.Files

set_option autoImplicit false

/-! ## Model files -/

/-- The properties of an entity in a directory: those declared in the file of its name, where that is a
file of the directory, is not the configured context, and declares no context. -/
def Disk.model? (d : Disk) (library : Library) (s : Settings) (directory : String) (entity : Text) : Option (Table Text) :=
  let name := String.ofList (entity ++ sourceEnding)
  if d.kind? directory = some .directory ∧ name ∈ d.list directory ∧ name ≠ s.contextFile ∧
      d.kind? (Path.join directory name) = some .file then
    match d.source library (Path.join directory name) s.encoding with
    | .ok t =>
        if (s.signature.occurrences t).isEmpty then some (Property.table (Text.lines t)) else none
    | .error _ => none
  else none

/-- Every source file of a directory is a text. -/
def Disk.Decodes (d : Disk) (library : Library) (s : Settings) (directory : String) : Prop :=
  d.kind? directory = some .directory → ∀ name ∈ d.list directory, sourceEnding <:+ name.toList →
    d.kind? (Path.join directory name) = some .file →
    ∃ t, d.source library (Path.join directory name) s.encoding = .ok t

/-- The entity of a file in a directory with the path of the file, where it is a model file. -/
def Disk.entry? (d : Disk) (library : Library) (s : Settings) (directory : String) (file : Text) : Option (Text × String) :=
  match entityName? file with
  | none => none
  | some entity =>
      let path := Path.join directory (String.ofList file)
      if String.ofList file == s.contextFile || d.kind? path ≠ some .file then none
      else
        match d.source library path s.encoding with
        | .error _ => none
        | .ok t => if (s.signature.occurrences t).isEmpty then some (entity, path) else none

theorem entityName?_eq_some {file entity : Text} :
    entityName? file = some entity ↔ file = entity ++ sourceEnding := by
  unfold entityName?
  constructor
  · intro named
    split at named
    · rename_i suffix
      obtain ⟨front, rfl⟩ := List.isSuffixOf_iff_suffix.1 suffix
      rw [List.length_append, Nat.add_sub_cancel, List.take_left] at named
      rw [Option.some.inj named]
    · cases named
  · rintro rfl
    rw [if_pos (List.isSuffixOf_iff_suffix.2 (List.suffix_append entity sourceEnding)),
      List.length_append, Nat.add_sub_cancel, List.take_left]

theorem not_passed {name context : String} {kind : Option Kind} :
    ¬(name == context || decide (kind ≠ some .file)) = true ↔ name ≠ context ∧ kind = some .file := by
  simp

section Entries

variable (library : Library) (d : Disk) (s : Settings) (directory : String)

theorem effect_modelFiles {files : List Text}
    (decodes : ∀ file ∈ files, sourceEnding <:+ file →
      d.kind? (Path.join directory (String.ofList file)) = some .file →
      ∃ t, d.source library (Path.join directory (String.ofList file)) s.encoding = .ok t) :
    (modelFiles s directory files : Job (OnDisk library) (Table String)).effect d =
      (.ok (files.filterMap (d.entry? library s directory)), d) := by
  induction files with
  | nil => rfl
  | cons file more ih =>
      rw [List.forall_mem_cons] at decodes
      have ih := ih decodes.2
      rw [List.filterMap_cons]
      unfold modelFiles Disk.entry?
      dsimp only
      cases named : entityName? file with
      | none => exact ih
      | some entity =>
          dsimp only
          rw [Job.effect_bind_ok (Job.effect_ask d _), OnDisk.run_kind?]
          dsimp only
          by_cases passed : (String.ofList file == s.contextFile ||
              decide (d.kind? (Path.join directory (String.ofList file)) ≠ some .file)) = true
          · rw [if_pos passed, if_pos passed]
            exact ih
          rw [if_neg passed, if_neg passed]
          obtain ⟨t, read⟩ := decodes.1 ⟨entity, (entityName?_eq_some.1 named).symm⟩
            (not_passed.1 passed).2
          rw [Job.effect_bind_ok (by rw [effect_readSource, read]), read]
          dsimp only
          by_cases free : (s.signature.occurrences t).isEmpty = true
          · rw [if_pos free, if_pos free, Job.effect_bind_ok ih]
            rfl
          · rw [if_neg free, if_neg free, Job.effect_bind_ok (Job.effect_noteAll d _)]
            exact ih

theorem entry?_named {library : Library} {d : Disk} {s : Settings} {directory : String} {file entity : Text} {path : String}
    (found : d.entry? library s directory file = some (entity, path)) :
    file = entity ++ sourceEnding ∧ ∃ t, d.source library path s.encoding = .ok t := by
  unfold Disk.entry? at found
  split at found
  · cases found
  rename_i entity' named
  dsimp only at found
  split at found
  · cases found
  split at found
  · cases found
  rename_i t read
  split at found
  · cases found
    exact ⟨entityName?_eq_some.1 named, t, read⟩
  · cases found

/-- The files of the entities among files: each is the one that is named like its entity. -/
theorem get?_entries (files : List Text) (entity : Text) :
    Table.get? (files.filterMap (d.entry? library s directory)) entity =
      if entity ++ sourceEnding ∈ files then
        (d.entry? library s directory (entity ++ sourceEnding)).map Prod.snd
      else none := by
  induction files with
  | nil => rfl
  | cons file more ih =>
      rw [List.filterMap_cons]
      cases entry : d.entry? library s directory file with
      | none =>
          dsimp only
          rw [ih]
          by_cases same : entity ++ sourceEnding = file
          · rw [same, entry]
            simp
          · simp [same]
      | some e =>
          obtain ⟨entity', path⟩ := e
          have named := (entry?_named entry).1
          dsimp only
          unfold Table.get?
          by_cases same : entity' = entity
          · subst same
            rw [if_pos rfl, ← named, if_pos List.mem_cons_self, entry]
            rfl
          · have other : entity ++ sourceEnding ≠ file := fun e =>
              same (List.append_cancel_right (named.symm.trans e.symm))
            rw [if_neg same, ih]
            simp [other]

def Disk.entries (d : Disk) (library : Library) (s : Settings) (directory : String) : Table String :=
  if d.kind? directory = some .directory then
    (Text.sortedSet ((d.list directory).map String.toList)).filterMap (d.entry? library s directory)
  else []

theorem mem_listed {names : List String} {file : Text} :
    file ∈ Text.sortedSet (names.map String.toList) ↔ String.ofList file ∈ names := by
  rw [Text.mem_sortedSet, List.mem_map]
  constructor
  · rintro ⟨name, member, rfl⟩
    rwa [String.ofList_toList]
  · intro member
    exact ⟨_, member, String.toList_ofList⟩

theorem effect_entityFiles {rules : Rules} (built : s.rules = .ok rules)
    (decodes : d.Decodes library s directory) :
    (entityFiles s directory : Job (OnDisk library) (Table String)).effect d =
      (.ok (d.entries library s directory), d) := by
  unfold entityFiles rulesOf Disk.entries
  rw [built, Job.effect_bind_ok (Job.effect_ofExcept d Fault.settings _),
    Job.effect_bind_ok (Job.effect_ask d _), OnDisk.run_kind?]
  dsimp only
  have missing : (do
      Job.noteAll [.missingDirectory directory]
      return [] : Job (OnDisk library) (Table String)).effect d = (.ok [], d) := rfl
  cases kind : d.kind? directory with
  | none => exact missing
  | some k =>
      cases k with
      | file => exact missing
      | directory =>
          rw [if_pos rfl]
          dsimp only
          rw [Job.effect_bind_ok (Job.effect_ask d _), OnDisk.run_list]
          apply effect_modelFiles
          intro file member ending isFile
          apply decodes kind (String.ofList file) (mem_listed.1 member)
          · rwa [String.toList_ofList]
          · exact isFile

/-- The properties of an entity are those of its file among the model files. -/
theorem model?_eq (entity : Text) :
    d.model? library s directory entity =
      ((d.entries library s directory).get? entity).bind fun path =>
        (d.source library path s.encoding).toOption.map fun t => Property.table (Text.lines t) := by
  unfold Disk.model? Disk.entries
  dsimp only
  by_cases isDirectory : d.kind? directory = some .directory
  · rw [if_pos isDirectory, get?_entries]
    by_cases listed : String.ofList (entity ++ sourceEnding) ∈ d.list directory
    · rw [if_pos (mem_listed.2 listed)]
      unfold Disk.entry?
      rw [entityName?_eq_some.2 rfl]
      dsimp only
      by_cases passed : (String.ofList (entity ++ sourceEnding) == s.contextFile ||
          decide (d.kind? (Path.join directory (String.ofList (entity ++ sourceEnding))) ≠
            some .file)) = true
      · rw [if_pos passed, if_neg]
        · rfl
        · rintro ⟨-, -, usable⟩
          exact not_passed.2 usable passed
      · rw [if_neg passed, if_pos ⟨isDirectory, listed, not_passed.1 passed⟩]
        cases read : d.source library (Path.join directory (String.ofList (entity ++ sourceEnding)))
            s.encoding with
        | error e => rfl
        | ok t =>
            dsimp only
            split
            · rw [Option.map_some, Option.bind_some, read]
              rfl
            · rfl
    · rw [if_neg fun member => listed (mem_listed.1 member), if_neg fun all => listed all.2.1]
      rfl
  · rw [if_neg isDirectory, if_neg fun all => isDirectory all.1]
    rfl

/-- Model files are texts. -/
theorem source_of_entries {entity : Text} {path : String}
    (found : (d.entries library s directory).get? entity = some path) :
    ∃ t, d.source library path s.encoding = .ok t := by
  have member := Table.mem_of_get? found
  unfold Disk.entries at member
  split at member
  · obtain ⟨file, -, entry⟩ := List.mem_filterMap.1 member
    exact (entry?_named entry).2
  · cases member

theorem model?_isSome {entity : Text} :
    (d.model? library s directory entity).isSome ↔ entity ∈ (d.entries library s directory).names := by
  rw [← Table.get?_isSome, model?_eq]
  cases found : (d.entries library s directory).get? entity with
  | none => rfl
  | some path =>
      obtain ⟨t, read⟩ := source_of_entries library d s directory found
      simp [read, Except.toOption]

theorem effect_propertiesOf (entity : Text) :
    (propertiesOf s (d.entries library s directory) entity : Job (OnDisk library) (Table Text)).effect d =
      (.ok ((d.model? library s directory entity).getD []), d) := by
  unfold propertiesOf
  rw [model?_eq]
  cases found : (d.entries library s directory).get? entity with
  | none => rfl
  | some path =>
      obtain ⟨t, read⟩ := source_of_entries library d s directory found
      dsimp only
      rw [Job.effect_bind_ok (by rw [effect_readSource, read]), Option.bind_some, read]
      rfl

end Entries

/-! ## The report -/

section Report

variable (library : Library) (d : Disk) (s : Settings) (oldDirectory newDirectory : String)

def Disk.entityDiff (entity : Text) : PropertyDiff :=
  .between ((d.model? library s oldDirectory entity).getD []) ((d.model? library s newDirectory entity).getD [])

theorem effect_entityDiffs (names : List Text) :
    (entityDiffs s (d.entries library s oldDirectory) (d.entries library s newDirectory) names :
        Job (OnDisk library) (Table PropertyDiff)).effect d =
      (.ok (names.map fun entity => (entity, d.entityDiff library s oldDirectory newDirectory entity)), d) := by
  induction names with
  | nil => rfl
  | cons entity more ih =>
      unfold entityDiffs
      rw [Job.effect_bind_ok (effect_propertiesOf library d s oldDirectory entity),
        Job.effect_bind_ok (effect_propertiesOf library d s newDirectory entity), Job.effect_bind_ok ih]
      rfl

def Disk.report : ChangeSet :=
  let names := NameSplit.between (d.entries library s oldDirectory).names (d.entries library s newDirectory).names
  ⟨(Text.sortedSet (names.common ++ names.added)).map fun entity =>
      (entity, d.entityDiff library s oldDirectory newDirectory entity), names.added, names.removed⟩

theorem effect_compareDirectories {rules : Rules} (built : s.rules = .ok rules)
    (oldDecodes : d.Decodes library s oldDirectory) (newDecodes : d.Decodes library s newDirectory) :
    (compareDirectories s oldDirectory newDirectory : Job (OnDisk library) ChangeSet).effect d =
      (.ok (d.report library s oldDirectory newDirectory), d) := by
  unfold compareDirectories
  rw [Job.effect_bind_ok (effect_entityFiles library d s oldDirectory built oldDecodes),
    Job.effect_bind_ok (effect_entityFiles library d s newDirectory built newDecodes)]
  dsimp only
  rw [Job.effect_bind_ok (effect_entityDiffs library d s oldDirectory newDirectory _)]
  rfl

theorem nodup_model? {directory : String} {entity : Text} {props : Table Text}
    (found : d.model? library s directory entity = some props) : props.names.Nodup := by
  unfold Disk.model? at found
  dsimp only at found
  split at found
  · split at found
    · split at found
      · cases found
        exact Table.nodup_ofList _
      · cases found
    · cases found
  · cases found

variable {library d s oldDirectory newDirectory}

theorem mem_addedEntities {entity : Text} :
    entity ∈ (d.report library s oldDirectory newDirectory).addedEntities ↔
      (d.model? library s newDirectory entity).isSome ∧ ¬(d.model? library s oldDirectory entity).isSome := by
  rw [model?_isSome, model?_isSome]
  exact NameSplit.mem_added

theorem mem_removedEntities {entity : Text} :
    entity ∈ (d.report library s oldDirectory newDirectory).removedEntities ↔
      (d.model? library s oldDirectory entity).isSome ∧ ¬(d.model? library s newDirectory entity).isSome := by
  rw [model?_isSome, model?_isSome]
  exact NameSplit.mem_removed

theorem names_entities :
    (d.report library s oldDirectory newDirectory).entities.names =
      let names := NameSplit.between (d.entries library s oldDirectory).names (d.entries library s newDirectory).names
      Text.sortedSet (names.common ++ names.added) := by
  unfold Disk.report Table.names
  dsimp only
  rw [List.map_map]
  exact List.map_id _

theorem mem_entities {entity : Text} :
    entity ∈ (d.report library s oldDirectory newDirectory).entities.names ↔
      (d.model? library s newDirectory entity).isSome := by
  rw [names_entities, Text.mem_sortedSet, List.mem_append, NameSplit.mem_common, NameSplit.mem_added,
    model?_isSome]
  by_cases before : entity ∈ (d.entries library s oldDirectory).names <;> simp [before]

theorem get?_entities {entity : Text} (found : (d.model? library s newDirectory entity).isSome) :
    (d.report library s oldDirectory newDirectory).entities.get? entity =
      some (d.entityDiff library s oldDirectory newDirectory entity) := by
  obtain ⟨diff, entry⟩ := Option.isSome_iff_exists.1 (Table.get?_isSome.2 (mem_entities.2 found))
  have member := Table.mem_of_get? entry
  unfold Disk.report at member
  obtain ⟨entity', -, same⟩ := List.mem_map.1 member
  cases same
  exact entry

theorem entityDiff_eq {entity : Text} {before after : Table Text}
    (old : d.model? library s oldDirectory entity = some before)
    (new : d.model? library s newDirectory entity = some after) :
    d.entityDiff library s oldDirectory newDirectory entity = .between before after := by
  unfold Disk.entityDiff
  rw [old, new]
  rfl

theorem report_verdict :
    (d.report library s oldDirectory newDirectory).hasChanges = false ↔
      (∀ entity, (d.model? library s oldDirectory entity).isSome ↔ (d.model? library s newDirectory entity).isSome) ∧
      ∀ entity before after, d.model? library s oldDirectory entity = some before →
        d.model? library s newDirectory entity = some after → ∀ name, before.get? name = after.get? name := by
  rw [ChangeSet.hasChanges_eq_false, List.eq_nil_iff_forall_not_mem, List.eq_nil_iff_forall_not_mem]
  constructor
  · rintro ⟨noneAdded, noneRemoved, unchanged⟩
    refine ⟨fun entity => ⟨fun old => ?_, fun new => ?_⟩, fun entity before after old new => ?_⟩
    · exact Decidable.byContradiction fun gone => noneRemoved entity (mem_removedEntities.2 ⟨old, gone⟩)
    · exact Decidable.byContradiction fun none => noneAdded entity (mem_addedEntities.2 ⟨new, none⟩)
    · have found : (d.report library s oldDirectory newDirectory).entities.get? entity = _ :=
        get?_entities (Option.isSome_of_eq_some new)
      have empty := unchanged _ (Table.mem_of_get? found)
      rw [entityDiff_eq old new] at empty
      exact (PropertyDiff.between_isEmpty (nodup_model? library d s new)).1 empty
  · rintro ⟨sameNames, sameProperties⟩
    refine ⟨fun entity added => ?_, fun entity removed => ?_, fun entry member => ?_⟩
    · have added := mem_addedEntities.1 added
      exact added.2 ((sameNames entity).2 added.1)
    · have removed := mem_removedEntities.1 removed
      exact removed.2 ((sameNames entity).1 removed.1)
    · have named : entry.1 ∈ (d.report library s oldDirectory newDirectory).entities.names :=
        List.mem_map_of_mem member
      have new := mem_entities.1 named
      obtain ⟨after, new⟩ := Option.isSome_iff_exists.1 new
      obtain ⟨before, old⟩ := Option.isSome_iff_exists.1
        ((sameNames entry.1).2 (Option.isSome_of_eq_some new))
      unfold Disk.report at member
      obtain ⟨entity, -, rfl⟩ := List.mem_map.1 member
      show (d.entityDiff library s oldDirectory newDirectory entity).isEmpty = true
      rw [entityDiff_eq old new]
      exact (PropertyDiff.between_isEmpty (nodup_model? library d s new)).2
        (sameProperties entity before after old new)

/-- A comparison of two directories ends in a report and leaves the disk alone, wherever the rules can be
built and the source files of both directories are texts; the report tells in what the properties of
their model files differ.  A directory that is not there has no model files. -/
theorem compareDirectories_tells {rules : Rules} (built : s.rules = .ok rules)
    (oldDecodes : d.Decodes library s oldDirectory) (newDecodes : d.Decodes library s newDirectory) :
    ∃ report, (compareDirectories s oldDirectory newDirectory : Job (OnDisk library) ChangeSet).effect d =
        (.ok report, d) ∧
      report.Tells (d.model? library s oldDirectory) (d.model? library s newDirectory) := by
  refine ⟨_, effect_compareDirectories library d s oldDirectory newDirectory built oldDecodes newDecodes, ?_⟩
  exact {
    verdict := report_verdict
    addedInOrder := Text.increasing_sortedSet _
    added := fun _ => mem_addedEntities
    removedInOrder := Text.increasing_sortedSet _
    removed := fun _ => mem_removedEntities
    inOrder := by
      rw [names_entities]
      exact Text.increasing_sortedSet _
    entities := fun _ => mem_entities
    addedDiff := by
      intro entity after old new
      rw [get?_entities (Option.isSome_of_eq_some new)]
      unfold Disk.entityDiff
      rw [old, new]
      exact congrArg some (PropertyDiff.between_nil after)
    commonDiff := by
      intro entity before after old new
      rw [get?_entities (Option.isSome_of_eq_some new), entityDiff_eq old new]
    totalAdded := ChangeSet.total_eq_sum _ _
    totalRemoved := ChangeSet.total_eq_sum _ _
    totalChanged := ChangeSet.total_eq_sum _ _ }

end Report

/-! ## Two runs of a generator -/

/-- A disk with two model directories: in the new one a type is another and a file has come. -/
def blogDisk : Disk :=
  .ofTexts ["work"] [["work"], ["work", "old"], ["work", "new"]]
    [(["work", "old", "Blog.cs"], "public int Id \x7b get; set; \x7d\n".toList),
      (["work", "new", "Blog.cs"], "public long Id \x7b get; set; \x7d\n".toList),
      (["work", "new", "Post.cs"], "public int Id \x7b get; set; \x7d\n".toList)]

theorem decodes_of_all {library : Library} {d : Disk} {s : Settings} {directory : String}
    (all : ((d.list directory).all fun name =>
      (d.source library (Path.join directory name) s.encoding).isOk) = true) : d.Decodes library s directory := by
  intro _ name member _ _
  have ok := List.all_eq_true.1 all name member
  cases read : d.source library (Path.join directory name) s.encoding with
  | error e =>
      rw [read] at ok
      cases ok
  | ok t => exact ⟨t, rfl⟩

theorem compareDirectories_tells_blog :
    Settings.standard.rules = .ok .standard ∧ blogDisk.Decodes plainLibrary .standard "old" ∧
      blogDisk.Decodes plainLibrary .standard "new" ∧
      ∃ report, (compareDirectories .standard "old" "new" : Job (OnDisk plainLibrary) ChangeSet).effect blogDisk =
          (.ok report, blogDisk) ∧
        report.hasChanges = true ∧ "Post".toList ∈ report.addedEntities ∧
        report.entities.get? "Post".toList = some ⟨[⟨"Id".toList, "int".toList⟩], [], []⟩ ∧
        report.entities.get? "Blog".toList =
          some ⟨[], [], [⟨"Id".toList, "int".toList, "long".toList⟩]⟩ := by
  have built : Settings.standard.rules = .ok .standard := rfl
  have oldDecodes : blogDisk.Decodes plainLibrary .standard "old" := decodes_of_all (by decide +kernel)
  have newDecodes : blogDisk.Decodes plainLibrary .standard "new" := decodes_of_all (by decide +kernel)
  obtain ⟨report, ended, tells⟩ := compareDirectories_tells built oldDecodes newDecodes
  have noPost : blogDisk.model? plainLibrary .standard "old" "Post".toList = none := by decide +kernel
  have post : blogDisk.model? plainLibrary .standard "new" "Post".toList = some [("Id".toList, "int".toList)] := by
    decide +kernel
  have before : blogDisk.model? plainLibrary .standard "old" "Blog".toList = some [("Id".toList, "int".toList)] := by
    decide +kernel
  have after : blogDisk.model? plainLibrary .standard "new" "Blog".toList = some [("Id".toList, "long".toList)] := by
    decide +kernel
  have came : "Post".toList ∈ report.addedEntities :=
    (tells.added _).2 ⟨Option.isSome_of_eq_some post, by rw [noPost]; exact Bool.false_ne_true⟩
  refine ⟨built, oldDecodes, newDecodes, report, ended, ?_, came, ?_, ?_⟩
  · cases verdict : report.hasChanges with
    | true => rfl
    | false =>
        have same := (tells.verdict.1 verdict).1 "Post".toList
        rw [noPost, post] at same
        exact absurd (same.2 rfl) Bool.false_ne_true
  · exact tells.addedDiff _ _ noPost post
  · rw [tells.commonDiff _ _ _ before after]
    decide +kernel

/-- Settings with an empty marker have no rules, and without rules there is no report. -/
theorem compareDirectories_unmarked :
    blogDisk.Decodes plainLibrary { Settings.standard with markerOpening := .text "" } "old" ∧
      blogDisk.Decodes plainLibrary { Settings.standard with markerOpening := .text "" } "new" ∧
      ∀ report, ((compareDirectories { Settings.standard with markerOpening := .text "" } "old" "new" :
        Job (OnDisk plainLibrary) ChangeSet).effect blogDisk).1 ≠ .ok report := by
  refine ⟨decodes_of_all (by decide +kernel), decodes_of_all (by decide +kernel), fun report => ?_⟩
  have unmarked : ((compareDirectories { Settings.standard with markerOpening := .text "" } "old" "new" :
      Job (OnDisk plainLibrary) ChangeSet).effect blogDisk).1 = .error (.settings (.marker .emptyLiteral)) := rfl
  rw [unmarked]
  exact fun impossible => nomatch impossible

end Regraft.Files
