/-!
# Regraft.Files.Path -- paths as written

A path is a text with slashes; one that starts with a slash is absolute.  `absolute` makes a path
absolute by its writing alone, without looking at any directory.
-/

namespace Regraft.Files.Path

set_option autoImplicit false

def parts : List Char → List (List Char)
  | [] => [[]]
  | c :: t =>
      match parts t with
      | [] => [[c]]
      | part :: more => if c = '/' then [] :: part :: more else (c :: part) :: more

/-- The parts of a path between slashes. -/
def split (path : String) : List String :=
  (parts path.toList).map String.ofList

def isAbsolute (path : String) : Bool :=
  path.toList.head? == some '/'

def join (directory path : String) : String :=
  if isAbsolute path then path
  else if directory.isEmpty || directory.toList.getLast? == some '/' then directory ++ path
  else directory ++ "/" ++ path

/-- The parts of an absolute path with every step up taken back. -/
def resolved (names : List String) : List String → List String
  | [] => names
  | name :: more =>
      if name == "" || name == "." then resolved names more
      else if name == ".." then resolved names.dropLast more
      else resolved (names ++ [name]) more

/-- The slashes in front of an absolute path: exactly two of them are kept, more count as one. -/
def root (path : String) : String :=
  match path.toList with
  | '/' :: '/' :: '/' :: _ => "/"
  | '/' :: '/' :: _ => "//"
  | _ => "/"

/-- The absolute form of a path, seen from a working directory. -/
def absolute (working path : String) : String :=
  let whole := join working path
  root whole ++ "/".intercalate (resolved [] (split whole))

def baseName (path : String) : String :=
  (split path).getLast?.getD ""

/-- A path without the slashes at its end; a path of slashes only is kept. -/
def dropSlashes (path : String) : String :=
  let stripped := (path.toList.reverse.dropWhile (· == '/')).reverse
  if stripped.isEmpty then path else String.ofList stripped

def splitLast (path : String) : String × String :=
  let cs := path.toList
  let name := (cs.reverse.takeWhile (· != '/')).reverse
  (dropSlashes (String.ofList (cs.take (cs.length - name.length))), String.ofList name)

end Regraft.Files.Path
