/-!
# Paths and folders

* `Path`: the way to a file, as a row of names. Written out it has no empty names and no names that
  stay where they are.
* `Entry`: what a path leads to.
* `Folder`: files below one place, held in memory. Programs that read and write files are functions
  of folders, and can be tried out without a disk.
-/

namespace Lox

/-- The way to a file. -/
structure Path where
  /-- The slashes that a path from the top starts with. -/
  root : String := ""
  /-- The names along the way. -/
  names : List String
  deriving DecidableEq, Repr

namespace Path

/-- The slashes that a path from the top is written with: one, unless it starts with exactly two. -/
def rootOf : List Char → String
  | '/' :: '/' :: '/' :: _ => "/"
  | '/' :: '/' :: _ => "//"
  | '/' :: _ => "/"
  | _ => ""

/-- The path that a text describes. -/
def ofText (s : String) : Path :=
  ⟨rootOf s.toList, (s.splitOn "/").filter fun name => name ≠ "" ∧ name ≠ "."⟩

/-- The path from the top along these names. -/
def fromTop (names : List String) : Path := ⟨"/", names⟩

/-- The path as text; the way to where one stands is a dot. -/
def text (p : Path) : String :=
  if p.root = "" ∧ p.names = [] then "." else p.root ++ String.intercalate "/" p.names

/-- The names without the steps back, each of which takes the name before it away. There is no step
back from the top. -/
def straighten (names : List String) : List String :=
  names.foldl (fun done name => if name = ".." then done.dropLast else done ++ [name]) []

/-- The path from the top and without steps back, for one who stands at `place`. -/
def resolve (p : Path) (place : List String) : Path :=
  fromTop (straighten (if p.root = "" then place ++ p.names else p.names))

/-- The path holds a null character, so that no file has it. -/
def holdsNull (p : Path) : Bool := p.names.any fun name => name.contains '\x00'

/-- The number of bytes that a name may have. -/
def nameLimit : Nat := 255

/-- The number of bytes that a path may have. -/
def textLimit : Nat := 4095

end Path

/-- What a path leads to. -/
inductive Entry where
  | file (bytes : List UInt8)
  | folder
  /-- Nothing is there. -/
  | absent
  /-- A file stands where the way goes on. -/
  | blocked
  /-- There is a file that may not be read. -/
  | locked
  /-- The path, or a name on the way, is too long to be looked for. -/
  | tooLong
  deriving DecidableEq, Repr

/-- A folder with files. All else that there is are the folders on the way to it and to the homes of
users. -/
structure Folder where
  /-- The names that lead to the folder from the top. -/
  place : List String := []
  /-- The files, each with the names that lead to it from the folder. -/
  files : List (List String × List UInt8) := []
  /-- Users, each with the names that lead to the home. The one who looks has no name. -/
  homes : List (String × List String) := []
  deriving DecidableEq, Repr

namespace Folder

/-- What stands in the folder at the end of a row of names without steps back. -/
def inside (f : Folder) (names : List String) : Entry :=
  match f.files.find? fun file => file.1 == names with
  | some file => .file file.2
  | none =>
    if names = [] ∨ f.files.any fun file => names.isPrefixOf file.1 then .folder else .absent

/-- What stands at the end of a row of names from the top, without steps back. -/
def at? (f : Folder) (names : List String) : Entry :=
  if f.place.isPrefixOf names then f.inside (names.drop f.place.length)
  else if (f.place :: f.homes.map Prod.snd).any fun way => names.isPrefixOf way then .folder
  else .absent

/-- Where names lead from a place. Every place on the way is a folder. -/
def walk (f : Folder) (here : List String) : List String → Entry
  | [] => f.at? here
  | name :: names =>
    match f.at? here with
    | .folder =>
      if name = ".." then f.walk here.dropLast names
      else if Path.nameLimit < name.utf8ByteSize then .tooLong
      else f.walk (here ++ [name]) names
    | .file _ => .blocked
    | entry => entry

/-- What a path leads to for one who stands in the folder. -/
def entry (f : Folder) (p : Path) : Entry :=
  if Path.textLimit < p.text.utf8ByteSize then .tooLong
  else f.walk (if p.root = "" then f.place else []) p.names

/-- The path in which a first name that starts with a tilde stands for the home of the user whom the
rest of the name names. There may be no such user. -/
def expandHome (f : Folder) (p : Path) : Option Path :=
  match p.root, p.names with
  | "", name :: names =>
    if name.startsWith "~" then
      (f.homes.lookup (String.ofList (name.toList.drop 1))).map fun home =>
        .fromTop (home ++ names)
    else some p
  | _, _ => some p

end Folder

end Lox
