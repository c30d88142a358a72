/-
# `PictureFile` — the sizes of picture files

The size of a picture is read from the head of its file.  The extension of the
file's name alone says which format the file must have; a file that does not
have it, or whose name has no extension of a known format, has no size.
-/
import PictureTree.Folder
import PictureTree.Raster.Bmp
import PictureTree.Raster.Gif
import PictureTree.Raster.Jpeg
import PictureTree.Raster.Png

namespace PictureTree

/-- The formats whose sizes can be read. -/
inductive PictureFormat where
  | png | jpeg | gif | bmp
deriving DecidableEq, Repr

namespace PictureFormat

/-- The format of an extension, in any letter case. -/
def ofExtension? (e : List Char) : Option PictureFormat :=
  [("png", PictureFormat.png), ("jpg", .jpeg), ("jpeg", .jpeg), ("gif", .gif), ("bmp", .bmp)].lookup
    (String.ofList (e.map Char.toLower))

/-- The size that a file of this format has. -/
def size? : PictureFormat → List UInt8 → Option (Nat × Nat)
  | .png => Raster.Png.size?
  | .jpeg => Raster.Jpeg.size?
  | .gif => Raster.Gif.size?
  | .bmp => Raster.Bmp.size?

end PictureFormat

/-- A file with its name, which may lead through folders. -/
structure PictureFile where
  name : String
  bytes : List UInt8

namespace PictureFile

/-- What follows the last point of a file name, unless the name starts with it. -/
def extension? (file : List Char) : Option (List Char) :=
  match (Text.pieces (· == '.') file).reverse with
  | [_, []] => none
  | e :: _ :: _ => some e
  | _ => none

/-- The folder in which some files are written one after another. -/
def folder (files : List PictureFile) : Folder :=
  files.foldl (fun f file => f.write file.name.toList file.bytes) Folder.empty

/-- The size of the picture that a name leads to among some files. -/
def size? (files : List PictureFile) (name : String) : Option (Nat × Nat) := do
  let (_, file) ← Folder.parts? name.toList
  let format ← PictureFormat.ofExtension? (← extension? file)
  format.size? (← (folder files).read? name.toList)

end PictureFile

end PictureTree
