import LineScript.Text.Basic

/-!
This module contains paths. A path is kept as its parts; parts that say nothing, which are empty or a
single dot, are dropped, and two dots are kept.
-/

namespace LineScript

/--
A path. It is relative if it starts with no slash.
-/
structure Path where
  /-- The number of slashes at the start: two are not the same as one, and more are. -/
  slashes : Nat := 0
  parts : List Text := []
  deriving DecidableEq, Repr, Inhabited

namespace Path

/--
The path that a text denotes.
-/
def ofText (t : Text) : Path where
  slashes := if (t.takeWhile (· = '/')).length = 2 then 2 else min (t.takeWhile (· = '/')).length 1
  parts := (Text.splitAt '/' t).filter fun part => part ≠ [] && part ≠ ['.']

/--
The text of a path. The path without parts is a single dot.
-/
def text (p : Path) : Text :=
  if p.slashes = 0 && p.parts.isEmpty then ['.']
  else List.replicate p.slashes '/' ++ Text.join ['/'] p.parts

/--
The path of something inside a directory.
-/
def child (p : Path) (name : Text) : Path := { p with parts := p.parts ++ [name] }

end Path

/--
What a path leads to.
-/
inductive Entry
  | absent
  /-- A file stands where the path needs a directory. -/
  | blocked
  /-- A name on the way, or the path itself, is longer than it can be. -/
  | tooLong
  /-- There can be no such path. -/
  | impossible
  | directory
  /-- A file with its text, or without one if its bytes are no text. -/
  | file (content : Option Text)
  deriving DecidableEq, Repr, Inhabited

/--
A directory with everything in it, by the parts of the relative paths.
-/
structure Folder where
  entries : List (List Text × Entry) := []
  /-- Is this the directory that all others are in? -/
  isRoot : Bool := false

namespace Folder

/--
The largest number of bytes of a name.
-/
def nameLimit : Nat := 255

/--
The largest number of bytes of a path.
-/
def pathLimit : Nat := 4095

/--
The number of bytes of a text.
-/
def byteSize (t : Text) : Nat := t.foldl (fun n c => n + c.utf8Size) 0

/--
The directory that all others are in, as far as it is the same everywhere. The null device can be
read, and holds nothing.
-/
def root : Folder where
  entries := [(["dev".toList, "null".toList], .file (some [])), (["tmp".toList], .directory)]
  isRoot := true

/--
What the given names lead to, one inside the other. Everything that something is in is a directory.
-/
def find (folder : Folder) (names : List Text) : Entry :=
  if names.isEmpty then .directory
  else
    match folder.entries.lookup names with
    | some entry => entry
    | none =>
      if folder.entries.any fun (path, _) => names.isPrefixOf path then .directory else .absent

/--
Follow the parts of a path, inside the directory with the given names, or `above` directories above
this one. Nothing is above the root.
-/
def follow (folder : Folder) (names : List Text) (above : Nat) : List Text → Entry
  | [] => if 0 < above then .directory else folder.find names
  | part :: parts =>
    match if 0 < above then .directory else folder.find names with
    | .directory =>
      if part = ['.', '.'] then
        if 0 < above then folder.follow [] (above + 1) parts
        else if !names.isEmpty then folder.follow names.dropLast 0 parts
        else folder.follow [] (if folder.isRoot then 0 else 1) parts
      else if nameLimit < byteSize part then .tooLong
      else if 0 < above then .absent
      else folder.follow (names ++ [part]) 0 parts
    | .file _ => .blocked
    | other => other

/--
What a path leads to that starts in the directory.
-/
def lookup (folder : Folder) (path : Path) : Entry :=
  if path.text.contains (Char.ofNat 0) then .impossible
  else if pathLimit < byteSize path.text then .tooLong
  else if path.slashes = 0 then folder.follow [] 0 path.parts
  else root.follow [] 0 path.parts

end Folder

end LineScript
