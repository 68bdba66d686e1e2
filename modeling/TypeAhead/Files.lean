/-
  TypeAhead.Files — READING FILES.

  What a path leads to is a text, or a reason why nothing can be read there.  A
  working directory that is held in memory gives the answers that a file system
  would give: the parts of a path are followed one by one, and a path that ends
  in a slash has to lead to a directory.  Two dots lead up, as far up as one
  likes, but outside of the working directory no name is found.
-/
namespace TypeAhead

/-- The text that a path leads to, or why there is none. -/
abbrev Files := String → Except String String

/-! ## §1. Why nothing can be read. -/

/-- Why nothing can be read at a path. -/
inductive FileFault where
  | missing
  /-- The path goes on behind a file. -/
  | notADirectory
  | isADirectory
  | nameTooLong
  /-- A path cannot hold the character zero. -/
  | zeroInPath
  deriving Repr, DecidableEq, Inhabited

/-- The wording of a fault. -/
def FileFault.message : FileFault → String
  | missing => "No such file or directory (os error 2)"
  | notADirectory => "Not a directory (os error 20)"
  | isADirectory => "Is a directory (os error 21)"
  | nameTooLong => "File name too long (os error 36)"
  | zeroInPath => "file name contained an unexpected NUL byte"

/-! ## §2. Paths. -/

/-- The parts of a path; single dots lead nowhere. -/
def pathParts (path : String) : List String :=
  (path.splitOn "/").filter fun part => !part.isEmpty && part != "."

/-- Whether what a path leads to has to be a directory. -/
def wantsDirectory (path : String) : Bool :=
  match (path.splitOn "/").getLast? with
  | some last => last.isEmpty || last == "."
  | none => true

/-- The ending of the name of a file, without its dot. -/
def fileExtension? (path : String) : Option String :=
  match ((pathParts path).getLast?.getD "").splitOn "." with
  | [] | [_] | ["", _] => none
  | pieces => pieces.getLast?

/-! ## §3. Directories in memory. -/

/-- The files of a directory: the parts of their paths, and their texts. -/
abbrev Directory := List (List String × String)

namespace Directory

/-- The directory of files with relative paths. -/
def ofFiles (files : List (String × String)) : Directory :=
  files.map fun (path, text) => (pathParts path, text)

/-- Whether parts lead to a directory. -/
def holds (d : Directory) (parts : List String) : Bool :=
  parts.isEmpty || d.any fun (file, _) => parts.isPrefixOf file && parts != file

/-- The most bytes that the name of a file may have. -/
def nameLimit : Nat := 255

/-- Follows parts from a place outside of the directory on.  The places further up are there; no
name is. -/
def beyond : List String → Except FileFault (Option String)
  | [] => .ok none
  | part :: parts =>
    if part == ".." then beyond parts
    else .error (if part.utf8ByteSize > nameLimit then .nameTooLong else .missing)

/-- Follows parts from a place in the directory on. -/
def follow (d : Directory) (before : List String) : List String → Except FileFault (Option String)
  | [] => .ok none
  | part :: parts =>
    if part == ".." then
      if before.isEmpty then beyond parts else follow d before.dropLast parts
    else if part.utf8ByteSize > nameLimit then .error .nameTooLong
    else
      let here := before ++ [part]
      if d.holds here then follow d here parts
      else
        match d.lookup here with
        | none => .error .missing
        | some text => if parts.isEmpty then .ok (some text) else .error .notADirectory

/-- What a path leads to; one that starts with a slash starts outside of the directory. -/
def read (d : Directory) (path : String) : Except FileFault String :=
  if path.toList.contains (Char.ofNat 0) then .error .zeroInPath
  else if path.isEmpty then .error .missing
  else if path.utf8ByteSize > 4095 then .error .nameTooLong
  else
    let parts := pathParts path
    match if path.startsWith "/" then beyond parts else d.follow [] parts with
    | .error fault => .error fault
    | .ok none => .error .isADirectory
    | .ok (some text) => if wantsDirectory path then .error .notADirectory else .ok text

/-- The directory as a way to read files. -/
def files (d : Directory) : Files := fun path => (d.read path).mapError FileFault.message

end Directory

end TypeAhead
