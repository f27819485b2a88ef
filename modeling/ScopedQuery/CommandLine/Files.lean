import ScopedQuery.Text.Quoted

namespace ScopedQuery.CommandLine

/-!
# Files

* `FileFault` — why a file can be neither read nor written.
* `FileStore` — what the program asks of a file system.
* `Directory` — a directory in memory, which is a file store too.
-/

/-- Why a file can be neither read nor written. -/
inductive FileFault
  /-- The file system refuses, for a reason that has a number. -/
  | system (number : Nat) (reason : String)
  /-- The name holds a character that no name may hold. -/
  | nulInName
deriving DecidableEq

namespace FileFault

def notFound : FileFault := system 2 "No such file or directory"

def notADirectory : FileFault := system 20 "Not a directory"

def isADirectory : FileFault := system 21 "Is a directory"

def nameTooLong : FileFault := system 36 "File name too long"

/-- The wording of a fault of the file with a name. -/
def message (fault : FileFault) (name : String) : String :=
  match fault with
  | system number reason => s!"[Errno {number}] {reason}: {Text.quote name}"
  | nulInName => "embedded null byte"

end FileFault

/-- A file system, as far as the program needs it. -/
class FileStore (m : Type → Type) where
  /-- The content of the file with a name. -/
  read (name : String) : m (Except FileFault ByteArray)
  /-- Gives the file with a name a new content, and makes the file if it is missing. -/
  write (name : String) (content : ByteArray) : m (Except FileFault Unit)

/-! ### Directories in memory -/

/-- What stands under a name in a directory. -/
inductive Entry
  | file (content : ByteArray)
  | directory

/-- A directory with its files, each under its path from there.  Of the directories above it nothing
    is known but the files that were written to them from here. -/
structure Directory where
  entries : List (String × Entry) := []

namespace Directory

/-- What stands under a path, which leads straight down. -/
def find? (d : Directory) (path : String) : Option Entry := d.entries.lookup path

/-- Puts a file under a path, in the place of the one that is there. -/
def insert (d : Directory) (path : String) (content : ByteArray) : Directory :=
  if (d.find? path).isSome then
    ⟨d.entries.map fun entry => if entry.1 == path then (path, .file content) else entry⟩
  else ⟨d.entries ++ [(path, .file content)]⟩

/-- The names along a path, which slashes divide. -/
def nameParts (path : List Char) : List (List Char) := path.splitOn '/'

/-- A name that leads nowhere else. -/
def isIdle (name : List Char) : Bool := name == [] || name == ['.']

/-- A directory on the way along a path: the names that lead down to it, and where they start.  That
    is the directory itself, one of those above it, or the root of the file system. -/
structure Place where
  start : List Char := []
  names : List (List Char) := []

namespace Place

/-- The root of the file system. -/
def root : Place := { start := ['/'] }

/-- The directory above; the root has none but itself. -/
def up (place : Place) : Place :=
  if place.names.isEmpty then
    if place.start == ['/'] then place else { start := place.start ++ ['.', '.', '/'] }
  else { place with names := place.names.dropLast }

/-- The directory of a name in it. -/
def down (place : Place) (name : List Char) : Place :=
  { place with names := place.names ++ [name] }

/-- The path of a name in it. -/
def path (place : Place) (name : List Char) : String :=
  String.ofList (place.start ++ ['/'].intercalate (place.names ++ [name]))

end Place

/-- The length in bytes of the longest name. -/
def maxNameBytes : Nat := 255

/-- The length in bytes of the longest path. -/
def maxPathBytes : Nat := 4095

/-- What a path is followed for. -/
inductive Access
  | reading
  | writing
deriving DecidableEq

/-- Follows the names of a path from a place.  All but the last one have to be directories; the
    last one may be missing. -/
def follow (d : Directory) (access : Access) (place : Place) :
    List (List Char) → Except FileFault String
  | [] => .error .isADirectory
  | name :: rest =>
    if isIdle name then d.follow access place rest
    else if name = ['.', '.'] then d.follow access place.up rest
    -- a slash at the end asks for a directory, which cannot be made by writing
    else if access = .writing ∧ rest ≠ [] ∧ rest.all (· == []) then .error .isADirectory
    else if (String.ofList name).utf8ByteSize > maxNameBytes then .error .nameTooLong
    else
      match d.find? (place.path name), rest with
      | some .directory, rest => d.follow access (place.down name) rest
      | _, [] => .ok (place.path name)
      | some (.file _), _ :: _ => .error .notADirectory
      | none, _ :: _ => .error .notFound

/-- The path that a name stands for, which is no directory. -/
def locate (d : Directory) (access : Access) (name : String) : Except FileFault String :=
  let path := name.toList
  if path.contains '\x00' then .error .nulInName
  else if path.isEmpty then .error .notFound
  else if name.utf8ByteSize > maxPathBytes then .error .nameTooLong
  else d.follow access (if path.head? == some '/' then .root else {}) (nameParts path)

/-- The content of the file with a name. -/
def read (d : Directory) (name : String) : Except FileFault ByteArray :=
  match d.locate .reading name with
  | .error fault => .error fault
  | .ok path =>
    match d.find? path with
    | some (.file content) => .ok content
    | some .directory => .error .isADirectory
    | none => .error .notFound

/-- The directory in which the file with a name has a new content. -/
def write (d : Directory) (name : String) (content : ByteArray) : Except FileFault Directory :=
  match d.locate .writing name with
  | .error fault => .error fault
  | .ok path => .ok (d.insert path content)

end Directory

instance : FileStore (StateM Directory) where
  read name := fun d => (d.read name, d)
  write name content := fun d =>
    match d.write name content with
    | .ok d' => (.ok (), d')
    | .error fault => (.error fault, d)

end ScopedQuery.CommandLine
