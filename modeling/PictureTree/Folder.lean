/-
# `Folder` — files under their names

A folder holds files and other folders.  A name leads through it part by part,
the parts set apart by slashes: `..` goes back to the folder around, `.` and the
empty part stay, and any other part must be a folder that exists, even if a `..`
follows it.  The last part names the file.
-/
import PictureTree.Text.Blank

namespace PictureTree

/-- Where something is in a folder: its name and those of the folders around it,
the innermost first. -/
abbrev Place := List (List Char)

/-- The places of the folders in a folder, and its files, the newest first. -/
structure Folder where
  folders : List Place
  files : List (Place × List UInt8)

namespace Folder

/-- The folder with nothing in it. -/
def empty : Folder := ⟨[], []⟩

/-- The parts of a name that lead to the folder of a file, and the name of the
file in it.  None, if the name starts with a slash or does not end in a file. -/
def parts? (name : List Char) : Option (List (List Char) × List Char) :=
  match Text.pieces (· == '/') name with
  | [] :: _ => none
  | parts =>
    match parts.getLast? with
    | none | some [] | some ['.'] | some ['.', '.'] => none
    | some file => some (parts.dropLast, file)

/-- The folder that one part of a name leads to. -/
def step? (f : Folder) (place : Place) : (part : List Char) → Option Place
  | [] | ['.'] => some place
  | ['.', '.'] =>
    match place with
    | [] => none
    | _ :: around => some around
  | part => if f.folders.contains (part :: place) then some (part :: place) else none

/-- As `step?`, but a folder that is not there is made, unless a file has its place. -/
def make? : Folder × Place → (part : List Char) → Option (Folder × Place)
  | (f, place), part =>
    match f.step? place part with
    | some next => some (f, next)
    | none =>
      if part = ['.', '.'] || f.files.any (·.1 = part :: place) then none
      else some (⟨(part :: place) :: f.folders, f.files⟩, part :: place)

/-- The folder after a file is written, with the folders on the way to it.  A
file that was there before has new content; a name that cannot be a file's
changes nothing. -/
def write (f : Folder) (name : List Char) (bytes : List UInt8) : Folder :=
  match parts? name with
  | none => f
  | some (way, file) =>
    match way.foldlM make? (f, []) with
    | none => f
    | some (made, place) =>
      if made.folders.contains (file :: place) then f
      else ⟨made.folders, (file :: place, bytes) :: made.files⟩

/-- The content of the file that a name leads to. -/
def read? (f : Folder) (name : List Char) : Option (List UInt8) := do
  let (way, file) ← parts? name
  let place ← way.foldlM f.step? []
  f.files.lookup (file :: place)

end Folder

end PictureTree
