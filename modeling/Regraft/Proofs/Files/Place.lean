import Regraft.Files.Disk
import Regraft.Files.Encoding
import Regraft.Files.Source

/-!
# Regraft.Proofs.Files.Place -- where paths lead

An absolute path as `Path.absolute` makes it is a root and names, none of which is a step: it is
`Direct`.  So it is walked from the root name by name whatever the disk (`place_direct`), and the
temporary file of a target stands in the same directory under another name (`beside`).  A disk that
keeps the directories of another turns away no walk that ended there (`Keeps`).
-/

namespace Regraft.Files

set_option autoImplicit false

namespace Path

/-! ## Paths and their parts -/

theorem parts_eq_splitOn (t : List Char) : parts t = t.splitOn '/' := by
  induction t with
  | nil => rfl
  | cons c t ih =>
      unfold parts
      rw [ih, List.splitOn_cons_eq_if_modifyHead]
      cases split : t.splitOn '/' with
      | nil => exact absurd split (List.splitOn_ne_nil _ _)
      | cons part more => by_cases slash : c = '/' <;> simp [slash]

theorem slash_notMem_parts (t : List Char) : ∀ part ∈ parts t, '/' ∉ part := by
  induction t with
  | nil => simp [parts]
  | cons c t ih =>
      unfold parts
      cases split : parts t with
      | nil =>
          rw [parts_eq_splitOn] at split
          exact absurd split (List.splitOn_ne_nil _ _)
      | cons part more =>
          rw [split, List.forall_mem_cons] at ih
          by_cases slash : c = '/'
          · simpa [slash] using ih
          · simpa [slash, eq_comm] using ih

theorem slash_notMem_split {path name : String} (member : name ∈ split path) :
    '/' ∉ name.toList := by
  obtain ⟨part, known, rfl⟩ := List.mem_map.1 member
  rw [String.toList_ofList]
  exact slash_notMem_parts _ part known

theorem split_append_slash (a b : String) : split (a ++ "/" ++ b) = split a ++ split b := by
  unfold split
  rw [← List.map_append]
  simp only [parts_eq_splitOn, String.toList_append]
  congr 1
  show ((a.toList ++ ['/']) ++ b.toList).splitOn '/' = _
  rw [List.append_assoc, List.singleton_append, List.splitOn_append_cons_self]

theorem split_slash (path : String) : split ("/" ++ path) = "" :: split path := by
  have parts := split_append_slash "" path
  rwa [String.empty_append] at parts

theorem split_slashless {a : String} (h : '/' ∉ a.toList) : split a = [a] := by
  unfold split
  rw [parts_eq_splitOn, List.splitOn_eq_singleton h, List.map_singleton, String.ofList_toList]

theorem split_intercalate {names : List String} (some : names ≠ [])
    (slashless : ∀ n ∈ names, '/' ∉ n.toList) : split ("/".intercalate names) = names := by
  induction names with
  | nil => exact absurd rfl some
  | cons n more ih =>
      rw [List.forall_mem_cons] at slashless
      by_cases last : more = []
      · rw [last, String.intercalate_singleton, split_slashless slashless.1]
      · rw [String.intercalate_cons_of_ne_nil last, split_append_slash, split_slashless slashless.1,
          ih last slashless.2, List.singleton_append]

/-! ## Direct paths -/

/-- A name that leads from a directory to something in it. -/
structure IsName (name : String) : Prop where
  nonempty : name ≠ ""
  notHere : name ≠ "."
  notUp : name ≠ ".."
  slashless : '/' ∉ name.toList

/-- A path that leads from the root by names. -/
structure Direct (path : String) (names : List String) : Prop where
  valid : ∀ n ∈ names, IsName n
  written : path = "/" ++ "/".intercalate names ∨ path = "//" ++ "/".intercalate names

theorem isName_resolved {names steps : List String} (valid : ∀ n ∈ names, IsName n)
    (slashless : ∀ n ∈ steps, '/' ∉ n.toList) : ∀ n ∈ resolved names steps, IsName n := by
  induction steps generalizing names with
  | nil => exact valid
  | cons step more ih =>
      rw [List.forall_mem_cons] at slashless
      unfold resolved
      by_cases here : (step == "" || step == ".") = true
      · rw [if_pos here]
        exact ih valid slashless.2
      rw [if_neg here]
      by_cases up : (step == "..") = true
      · rw [if_pos up]
        exact ih (fun n member => valid n (List.dropLast_subset _ member)) slashless.2
      rw [if_neg up]
      simp only [Bool.or_eq_true, beq_iff_eq, not_or] at here up
      refine ih ?_ slashless.2
      rw [List.forall_mem_append]
      exact ⟨valid, List.forall_mem_singleton.2 ⟨here.1, here.2, up, slashless.1⟩⟩

theorem root_eq (path : String) : root path = "/" ∨ root path = "//" := by
  unfold root
  split
  · exact .inl rfl
  · exact .inr rfl
  · exact .inl rfl

theorem absolute_direct (working path : String) : ∃ names, Direct (absolute working path) names := by
  refine ⟨resolved [] (split (join working path)), ?_, ?_⟩
  · exact isName_resolved (fun _ none => absurd none List.not_mem_nil)
      fun _ member => slash_notMem_split member
  · unfold absolute
    dsimp only
    rcases root_eq (join working path) with root | root <;> rw [root]
    · exact .inl rfl
    · exact .inr rfl

theorem intercalate_append_last (front : List String) (last ending : String) :
    "/".intercalate (front ++ [last]) ++ ending = "/".intercalate (front ++ [last ++ ending]) := by
  cases front with
  | nil => simp only [List.nil_append, String.intercalate_singleton]
  | cons n more =>
      rw [String.intercalate_append_of_ne_nil (List.cons_ne_nil n more) (List.cons_ne_nil _ _),
        String.intercalate_append_of_ne_nil (List.cons_ne_nil n more) (List.cons_ne_nil _ _),
        String.intercalate_singleton, String.intercalate_singleton, String.append_assoc]

theorem utf8ByteSize_temporary (target : String) :
    (temporary target).utf8ByteSize = target.utf8ByteSize + 18 := by
  unfold temporary
  rw [String.utf8ByteSize_append]
  rfl

theorem IsName.temporary {name : String} (h : IsName name) : IsName (temporary name) := by
  have size := utf8ByteSize_temporary name
  refine ⟨?_, ?_, ?_, ?_⟩
  · intro e
    rw [e] at size
    exact absurd size (by simp)
  · intro e
    rw [e] at size
    have : ".".utf8ByteSize = 1 := rfl
    omega
  · intro e
    rw [e] at size
    have : "..".utf8ByteSize = 2 := rfl
    omega
  · unfold Files.temporary
    rw [String.toList_append, List.mem_append, not_or]
    exact ⟨h.slashless, by decide⟩

/-- The temporary file of a target has its own name in the directory of the target. -/
theorem Direct.temporary {target last : String} {front : List String}
    (direct : Direct target (front ++ [last])) :
    Direct (temporary target) (front ++ [temporary last]) := by
  obtain ⟨valid, written⟩ := direct
  rw [List.forall_mem_append, List.forall_mem_singleton] at valid
  refine ⟨?_, ?_⟩
  · rw [List.forall_mem_append, List.forall_mem_singleton]
    exact ⟨valid.1, valid.2.temporary⟩
  · unfold Files.temporary
    rw [← intercalate_append_last]
    rcases written with rfl | rfl
    · exact .inl (String.append_assoc ..)
    · exact .inr (String.append_assoc ..)

end Path

namespace Disk

/-- A disk with some directories and with text files in UTF-8, seen from a working directory that is the
home directory as well. -/
def ofTexts (working : Place) (directories : List Place) (files : List (Place × Text)) : Disk where
  nodes := directories.map (fun p => (p, .directory)) ++
    files.map fun f => (f.1, .file (f.2.flatMap Encoding.utf8Char))
  working := working
  home := working

/-! ## What stands where after a change -/

variable {d d' : Disk}

theorem find?_putIn (p : Place) (n : Node) (nodes : List (Place × Node)) (x : Place) :
    ((putIn p n nodes).find? fun e => e.1 = x).map Prod.snd =
      if x = p then some n else (nodes.find? fun e => e.1 = x).map Prod.snd := by
  induction nodes with
  | nil => by_cases same : x = p <;> simp [putIn, same, eq_comm]
  | cons e more ih =>
      obtain ⟨q, old⟩ := e
      unfold putIn
      by_cases here : q = p
      · subst here
        by_cases same : x = q
        · simp [same]
        · simp [same, Ne.symm same]
      · by_cases same : q = x
        · subst same
          simp [here]
        · simpa [here, same] using ih

theorem node?_put {p : Place} (below : p ≠ []) (d : Disk) (n : Node) (x : Place) :
    (d.put p n).node? x = if x = p then some n else d.node? x := by
  unfold node? put
  by_cases root : x = []
  · subst root
    simp [Ne.symm below]
  · rw [if_neg root, if_neg root, find?_putIn]

theorem node?_erase {p : Place} (below : p ≠ []) (d : Disk) (x : Place) :
    (d.erase p).node? x = if x = p then none else d.node? x := by
  unfold node? erase
  by_cases root : x = []
  · subst root
    simp [Ne.symm below]
  · rw [if_neg root, if_neg root, List.find?_filter]
    by_cases same : x = p
    · subst same
      rw [if_pos rfl, Option.map_eq_none_iff, List.find?_eq_none]
      intro e _
      simp
    · rw [if_neg same]
      congr 2
      funext e
      by_cases here : e.1 = x
      · simp [here, same]
      · simp [here]

/-! ## Walking -/

/-- The place that one part of a path leads to. -/
def step (d : Disk) (p : Place) (name : String) : Except Refusal Place :=
  match d.node? p with
  | none => .error .notFound
  | some (.file _) => .error .notDirectory
  | some .directory =>
      if name == "" || name == "." then .ok p
      else if name == ".." then .ok p.dropLast
      else if nameLimit < name.utf8ByteSize then .error .nameTooLong
      else .ok (p ++ [name])

theorem walk_cons (d : Disk) (p : Place) (name : String) (more : List String) :
    d.walk p (name :: more) = (d.step p name).bind fun q => d.walk q more := by
  unfold step
  rw [walk]
  cases d.node? p with
  | none => rfl
  | some node =>
      cases node with
      | file bytes => rfl
      | directory =>
          dsimp only
          split
          · rfl
          split
          · rfl
          split
          · rfl
          · rfl

theorem walk_append (d : Disk) (p : Place) (a b : List String) :
    d.walk p (a ++ b) = (d.walk p a).bind fun q => d.walk q b := by
  induction a generalizing p with
  | nil => rfl
  | cons name more ih =>
      rw [List.cons_append, walk_cons, walk_cons]
      cases d.step p name with
      | error e => rfl
      | ok q => exact ih q

theorem walk_singleton (d : Disk) (p : Place) (name : String) : d.walk p [name] = d.step p name := by
  rw [walk_cons]
  cases d.step p name <;> rfl

theorem step_eq_ok {name : String} (valid : Path.IsName name) {d : Disk} {p q : Place} :
    d.step p name = .ok q ↔
      d.node? p = some .directory ∧ name.utf8ByteSize ≤ nameLimit ∧ q = p ++ [name] := by
  have here : (name == "" || name == ".") = false := by
    simp [valid.nonempty, valid.notHere]
  have up : (name == "..") = false := by
    simp [valid.notUp]
  unfold step
  cases d.node? p with
  | none => simp
  | some node =>
      cases node with
      | file bytes => simp
      | directory =>
          by_cases long : nameLimit < name.utf8ByteSize
          · simp [here, up, long, Nat.not_le.2 long]
          · simp [here, up, long, eq_comm, Nat.le_of_not_lt long]

/-- Every directory of one disk is a directory of another, seen from the same one. -/
structure Keeps (d d' : Disk) : Prop where
  working : d'.working = d.working
  directories : ∀ p, d.node? p = some .directory → d'.node? p = some .directory

theorem Keeps.step (keeps : Keeps d d') {name : String} {p q : Place}
    (found : d.step p name = .ok q) : d'.step p name = .ok q := by
  unfold Disk.step at found ⊢
  cases node : d.node? p with
  | none =>
      rw [node] at found
      cases found
  | some node' =>
      cases node' with
      | file bytes =>
          rw [node] at found
          cases found
      | directory =>
          rw [keeps.directories p node]
          rwa [node] at found

theorem Keeps.walk (keeps : Keeps d d') {names : List String} {p q : Place}
    (found : d.walk p names = .ok q) : d'.walk p names = .ok q := by
  induction names generalizing p with
  | nil => exact found
  | cons name more ih =>
      rw [walk_cons] at found ⊢
      cases first : d.step p name with
      | error e =>
          rw [first] at found
          cases found
      | ok next =>
          rw [first] at found
          rw [keeps.step first]
          exact ih found

/-- What can be reached on a disk can be reached on one that keeps its directories. -/
theorem Keeps.place (keeps : Keeps d d') {path : String} {p : Place} (found : d.place path = .ok p) :
    d'.place path = .ok p := by
  unfold Disk.place at found ⊢
  rw [keeps.working]
  split at found <;> rename_i empty
  · cases found
  rw [if_neg empty]
  split at found <;> rename_i long
  · cases found
  rw [if_neg long]
  exact keeps.walk found

/-! ## Direct paths on a disk -/

theorem walk_root_split (d : Disk) {names : List String} (valid : ∀ n ∈ names, Path.IsName n) :
    d.walk [] (Path.split ("/".intercalate names)) = d.walk [] names := by
  by_cases none : names = []
  · subst none
    rfl
  · rw [Path.split_intercalate none fun n member => (valid n member).slashless]

/-- A direct path is walked from the root, name by name. -/
theorem place_direct (d : Disk) {path : String} {names : List String}
    (direct : Path.Direct path names) :
    d.place path =
      if pathLimit < path.utf8ByteSize then .error .nameTooLong else d.walk [] names := by
  obtain ⟨valid, written⟩ := direct
  have empty (more : List String) : d.walk [] ("" :: more) = d.walk [] more := rfl
  rw [← walk_root_split d valid]
  unfold place
  rcases written with rfl | rfl
  · have start : Path.isAbsolute ("/" ++ "/".intercalate names) = true := by
      simp [Path.isAbsolute]
    have some : ("/" ++ "/".intercalate names).isEmpty = false := by
      simp
    rw [start, some, Path.split_slash, if_pos rfl, empty, if_neg Bool.false_ne_true]
  · have double : "//" ++ "/".intercalate names = "/" ++ ("/" ++ "/".intercalate names) := by
      rw [← String.append_assoc]
      rfl
    have start : Path.isAbsolute ("//" ++ "/".intercalate names) = true := by
      simp [Path.isAbsolute]
    have some : ("//" ++ "/".intercalate names).isEmpty = false := by
      simp
    rw [start, some, if_pos rfl, if_neg Bool.false_ne_true, double, Path.split_slash,
      Path.split_slash, empty, empty]

/-- A target and its temporary file stand in one directory. -/
structure Beside (d : Disk) (target : String) (above : Place) (last : String) : Prop where
  isDirectory : d.node? above = some .directory
  targetAt : d.place target = .ok (above ++ [last])
  temporaryAt : d.place (temporary target) = .ok (above ++ [temporary last])

/-- Where the temporary file of an absolute path can be reached, so can the target, unless it is the
root. -/
theorem beside {working path : String} {p : Place}
    (below : d.place (Path.absolute working path) ≠ .ok [])
    (found : d.place (temporary (Path.absolute working path)) = .ok p) :
    ∃ above last, p = above ++ [temporary last] ∧
      Beside d (Path.absolute working path) above last := by
  obtain ⟨names, direct⟩ := Path.absolute_direct working path
  revert below found direct
  generalize Path.absolute working path = target
  intro below found direct
  rcases List.eq_nil_or_concat names with rfl | ⟨front, last, rfl⟩
  · rw [place_direct d direct, if_neg] at below
    · exact absurd rfl below
    · rcases direct.written with rfl | rfl <;> decide
  rw [List.concat_eq_append] at direct
  have names := direct.valid
  rw [List.forall_mem_append, List.forall_mem_singleton] at names
  have here := found
  rw [place_direct d direct.temporary, Path.utf8ByteSize_temporary, walk_append] at found
  split at found
  · cases found
  rename_i short
  cases reached : d.walk [] front with
  | error e =>
      rw [reached] at found
      cases found
  | ok above =>
      rw [reached] at found
      obtain ⟨isDirectory, fits, rfl⟩ :=
        (step_eq_ok names.2.temporary).1 ((walk_singleton d above _).symm.trans found)
      rw [Path.utf8ByteSize_temporary] at fits
      refine ⟨above, last, rfl, isDirectory, ?_, here⟩
      rw [place_direct d direct, if_neg (by omega), walk_append, reached]
      show d.walk above [last] = _
      rw [walk_singleton]
      exact (step_eq_ok names.2).2 ⟨isDirectory, by omega, rfl⟩

end Disk

end Regraft.Files
