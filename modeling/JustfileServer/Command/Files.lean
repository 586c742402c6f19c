import JustfileServer.Rpc.Fault

/-!
# Files

The part of a file system that a command can reach: the files and directories in the current
directory, and outside it the directories on the way up to the root and those that every system has.
A path is followed name by name.
-/

namespace JustfileServer

/-- Why a file cannot be opened. -/
inductive FileError
  | notFound
  | notDirectory
  | isDirectory
  | nameTooLong
  /-- Any other reason, by its number and wording. -/
  | other (number : Nat) (reason : Text)

namespace FileError

/-- The number of an error. -/
def number : FileError → Nat
  | .notFound => 2
  | .notDirectory => 20
  | .isDirectory => 21
  | .nameTooLong => 36
  | .other number _ => number

/-- The wording of an error. -/
def reason : FileError → Text
  | .notFound => "No such file or directory"
  | .notDirectory => "Not a directory"
  | .isDirectory => "Is a directory"
  | .nameTooLong => "File name too long"
  | .other _ reason => reason

/-- The error of a number; the wording matters for the less common ones only. -/
def ofNumber (number : Nat) (reason : Text) : FileError :=
  if number = notFound.number then .notFound
  else if number = notDirectory.number then .notDirectory
  else if number = isDirectory.number then .isDirectory
  else if number = nameTooLong.number then .nameTooLong
  else .other number reason

/-- Says why the file at a path cannot be opened. -/
def message (e : FileError) (path : Text) : Text :=
  Text.ofString "[Errno " ++ Numeral.decimal e.number ++ Text.ofString "] " ++ e.reason
    ++ Text.ofString ": " ++ Quoted.quote path

end FileError

/-- A surrogate that stands for a byte of a file name that is not UTF-8. -/
def CodePoint.isEscapedByte (c : CodePoint) : Bool := 0xDC80 ≤ c.val && c.val ≤ 0xDCFF

/-- What is wrong with a path itself: it has a surrogate that stands for no byte, or a NUL. -/
def pathFault? (path : Text) : Option Fault :=
  let before := path.takeWhile fun c => !c.isSurrogate || c.isEscapedByte
  let run := (path.drop before.length).takeWhile CodePoint.isSurrogate
  if !run.isEmpty then
    some (.unencodable ⟨path, before.length, before.length + run.length⟩)
  else if path.contains (.ofNat 0) then some (.invalid "embedded null byte")
  else none

/-! ## Names -/

/-- The bytes of a path; a surrogate that stands for a byte is that byte. -/
def pathBytes (path : Text) : Bytes :=
  path.flatMap fun c => if c.isEscapedByte then [UInt8.ofNat (c.val - 0xDC00)] else c.utf8

/-- The byte between the names in a path. -/
def Byte.slash : UInt8 := 0x2F

/-- The byte of the names that stand for a directory itself and for the one above. -/
def Byte.dot : UInt8 := 0x2E

/-- The names that lead from a directory to a file.  A name is a sequence of bytes, so two paths
that differ as texts may have the same names. -/
abbrev FilePath := List Bytes

/-- The parts of a path between its slashes. -/
def pathParts : Bytes → List Bytes
  | [] => [[]]
  | b :: rest =>
      if b = Byte.slash then [] :: pathParts rest
      else
        match pathParts rest with
        | [] => [[b]]
        | p :: ps => (b :: p) :: ps

/-! ## Trees -/

/-- A directory: the files in it with their contents, and the directories in it, by the names that
lead to them from there. -/
structure FileTree where
  files : List (FilePath × Bytes)
  directories : List FilePath
  /-- The names that lead from the root to the directory above. -/
  above : FilePath

/-- A spot inside the current directory, told by the names that lead there from it, or outside it,
told by the names that lead there from the root. -/
structure Spot where
  inside : Bool
  names : FilePath
  deriving DecidableEq

namespace Spot

/-- The spot of a name in a directory. -/
def child (s : Spot) (name : Bytes) : Spot := { s with names := s.names ++ [name] }

/-- The directory above, which for the current directory lies outside at the given names; above the
root is the root. -/
def parent (above : FilePath) (s : Spot) : Spot :=
  if s.inside && s.names.isEmpty then ⟨false, above⟩ else { s with names := s.names.dropLast }

end Spot

/-- What a path leads to. -/
inductive Place
  /-- A file with its contents. -/
  | file (spot : Spot) (contents : Bytes)
  /-- A directory. -/
  | directory
  /-- A name that a directory does not have. -/
  | vacant (spot : Spot)

namespace FileTree

/-- Is there a directory of these names? -/
def hasDirectory (tree : FileTree) (names : FilePath) : Bool :=
  names.isEmpty || tree.directories.any (names.isPrefixOf ·)
    || tree.files.any fun f => f.1 != names && names.isPrefixOf f.1

/-- The contents of the file of these names. -/
def contents? (tree : FileTree) (names : FilePath) : Option Bytes :=
  (tree.files.find? fun f => f.1 == names).map Prod.snd

/-- The null device, which is empty and keeps nothing. -/
def nullDevice : FilePath := [pathBytes "dev", pathBytes "null"]

/-- The full device, which has no room for anything. -/
def fullDevice : FilePath := [pathBytes "dev", pathBytes "full"]

/-- What is known of the root: the usual directories and two devices. -/
def standard : FileTree :=
  ⟨[(nullDevice, []), (fullDevice, [])],
    ["bin", "boot", "dev", "etc", "home", "lib", "media", "mnt", "opt", "proc", "root", "run",
      "sbin", "srv", "sys", "tmp", "usr", "var"].map fun name => [pathBytes (Text.ofString name)], []⟩

/-- Follows the parts of a path from a directory, in the tree and outside it. -/
def follow (tree : FileTree) : Spot → List Bytes → Except FileError Place
  | _, [] => .ok .directory
  | spot, part :: rest =>
      if part.isEmpty || part = [Byte.dot] then follow tree spot rest
      else if part = [Byte.dot, Byte.dot] then follow tree (spot.parent tree.above) rest
      else if 255 < part.length then .error .nameTooLong
      else
        let next := spot.child part
        let around := if spot.inside then tree else standard
        if around.hasDirectory next.names then follow tree next rest
        else
          match around.contents? next.names with
          | some contents =>
              if rest.isEmpty then .ok (.file next contents) else .error .notDirectory
          | none => if rest.isEmpty then .ok (.vacant next) else .error .notFound

/-- Follows some parts of a path, from the root if the path begins with a slash and from the current
directory otherwise; an empty path leads nowhere, and no path may be too long as a whole. -/
def locate (tree : FileTree) (path : Bytes) (parts : List Bytes) : Except FileError Place :=
  if path.isEmpty then .error .notFound
  else if 4096 ≤ path.length then .error .nameTooLong
  else follow tree ⟨path.head? != some Byte.slash, []⟩ parts

/-- The contents of the file at a path. -/
def read (tree : FileTree) (path : Text) : Except FileError Bytes := do
  let bytes := pathBytes path
  match ← tree.locate bytes (pathParts bytes) with
  | .file _ contents => return contents
  | .directory => throw .isDirectory
  | .vacant _ => throw .notFound

/-- The spot of the file that is made, or emptied, at a path.  With a slash at its end a path can
only mean a directory, whose name is not looked up any more. -/
def create (tree : FileTree) (path : Text) : Except FileError Spot := do
  let bytes := pathBytes path
  if bytes.getLast? = some Byte.slash then
    match ← tree.locate bytes ((pathParts bytes).filter fun part => !part.isEmpty).dropLast with
    | .file _ _ => throw .notDirectory
    | .directory => throw .isDirectory
    | .vacant _ => throw .notFound
  else
    match ← tree.locate bytes (pathParts bytes) with
    | .file spot _ => return spot
    | .directory => throw .isDirectory
    | .vacant spot => return spot

/-- Why nothing can be written at a spot. -/
def noRoom? (spot : Spot) : Option Text :=
  if spot = ⟨false, fullDevice⟩ then some "[Errno 28] No space left on device" else none

end FileTree

end JustfileServer
