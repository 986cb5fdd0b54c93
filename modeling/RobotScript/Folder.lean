namespace RobotScript

/-- What a path leads to; a folder is there and has no text. -/
inductive Entry
  | missing
  | unreadable
  | file (text : String)

def Entry.text? : Entry → Option String
  | .file text => some text
  | _ => none

/-- The texts in a folder and below it, each under the names that lead to it. A name is a folder when a
text lies below it. -/
structure Folder where
  files : List (List String × String)

namespace Folder

/-- The names in a path, and the empty ones between slashes. -/
def names (path : String) : List String := (path.toList.splitOn '/').map String.ofList

/-- The folder that holds a text at every one of some paths. -/
def ofList (files : List (String × String)) : Folder :=
  ⟨files.map fun (path, text) => (names path, text)⟩

def isFolder (f : Folder) (place : List String) : Bool :=
  place.isEmpty || f.files.any fun file => place.isPrefixOf file.1 && place.length < file.1.length

/-- Follows names from a folder. All but the last have to be folders; nothing lies outside. -/
def follow? (f : Folder) (place : List String) : List String → Option (List String)
  | [] => some place
  | name :: rest =>
    if f.isFolder place then
      if name = "" ∨ name = "." then f.follow? place rest
      else if name = ".." then
        if place.isEmpty then none else f.follow? place.dropLast rest
      else f.follow? (place ++ [name]) rest
    else none

/-- The length of the longest path, in bytes. -/
def maxPath : Nat := 4095

/-- The length of the longest name in a path, in bytes. -/
def maxName : Nat := 255

/-- A path that can lead to a place in the folder. It does not start outside, NUL stands nowhere in it,
and neither it nor a name in it is too long. -/
def isPath (path : String) : Bool :=
  !path.isEmpty && path.toList.head? != some '/' && !path.toList.contains '\x00' &&
    path.utf8ByteSize ≤ maxPath && (names path).all (·.utf8ByteSize ≤ maxName)

/-- The place that a path leads to. -/
def place? (f : Folder) (path : String) : Option (List String) :=
  if isPath path then f.follow? [] (names path) else none

/-- What lies at a path. -/
def entry (f : Folder) (path : String) : Entry :=
  match f.place? path with
  | none => .missing
  | some place =>
    if f.isFolder place then .unreadable
    else match f.files.lookup place with
      | some text => .file text
      | none => .missing

def put (f : Folder) (place : List String) (text : String) : Folder :=
  ⟨f.files.filter (·.1 != place) ++ [(place, text)]⟩

def remove (f : Folder) (place : List String) : Folder := ⟨f.files.filter (·.1 != place)⟩

/-- Slashes at the end of a path, and single points between them, do not count. -/
def trimPath : List Char → List Char
  | '/' :: rest => trimPath rest
  | '.' :: '/' :: rest => trimPath ('/' :: rest)
  | rest => rest

/-- The last name in a path, after what comes before it. -/
def splitName (path : List Char) : List Char × List Char :=
  let core := (trimPath path.reverse).reverse
  let name := (core.reverse.takeWhile (· != '/')).reverse
  (core.take (core.length - name.length), name)

/-- A name without its ending, which follows its last point. A point in front does not start one. -/
def stem (name : List Char) : List Char :=
  let before := (name.reverse.dropWhile (· != '.')).drop 1
  if before.isEmpty then name else before.reverse

/-- The path as far as the stem of its last name, and then an ending. A path without a last name stays
as it is. -/
def addEnding (path ending : List Char) : List Char :=
  let (front, name) := splitName path
  if name ∈ [[], ['.'], ['.', '.']] then path else front ++ stem name ++ '.' :: ending

/-- The path with the ending of its last name replaced. The path first loses as many characters as the
old ending has; what is left of `..a` is no name, so it gets no ending. -/
def withEnding (path ending : String) : String :=
  let name := (splitName path.toList).2
  let old := name.length - (stem name).length - 1
  String.ofList (addEnding (path.toList.take (path.length - old)) ending.toList)

/-- Why a file was not written. -/
inductive WriteError
  | create (temporary : String)
  | rename (temporary path : String)

/-- Writes a text to a file beside the path and then renames that. -/
def write (f : Folder) (path text : String) : Except WriteError Unit × Folder :=
  let temporary := withEnding path "tmp"
  match (f.place? temporary).filter fun place => !f.isFolder place with
  | none => (.error (.create temporary), f)
  | some source =>
    let f := f.put source text
    match (f.place? path).filter fun place => !f.isFolder place with
    | none => (.error (.rename temporary path), f)
    | some target => (.ok (), (f.remove source).put target text)

/-- The paths of all files, folder by folder with names in order. -/
def paths (f : Folder) : List String :=
  ((f.files.map (·.1)).mergeSort fun a b => !(b < a)).map ("/".intercalate ·)

end Folder

end RobotScript
