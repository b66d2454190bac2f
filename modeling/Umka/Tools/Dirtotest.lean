import Mathlib.Data.Char
import Mathlib.Data.List.Lex
import Mathlib.Data.List.Sort
import Umka.Lib.Forest
import Umka.Lib.Replace

/-!
# `dirtotest.py`

Writes a test that lists every directory and reads every file of an image: it goes through the
folder the image was made of and prints one command for each item (`handle_dir`,
`handle_file`). The path of an item on the image is its path on the host with the folder's name
and a slash replaced by nothing.
-/

set_option autoImplicit false

namespace Umka.Dirtotest

open Umka.Lib

abbrev Text := List Char

/-- What `os.path.isdir` tells apart. -/
inductive Kind
  | directory
  | file
deriving DecidableEq, Repr

/-- What `os.listdir` finds in a directory and below, in the order it comes. -/
abbrev Listing := Forest Text Kind

/-- Only directories have something in them. -/
def FilesEmpty : Listing → Prop
  | .empty => True
  | .node _ .directory inner next => FilesEmpty inner ∧ FilesEmpty next
  | .node _ .file inner next => inner = .empty ∧ FilesEmpty next

/-- A folder on the host. -/
structure Folder where
  listing : Listing
  distinct : listing.Distinct
  filesEmpty : FilesEmpty listing

section

-- The globals of the script: the folder it was called with, and where its image is mounted.
variable (folder disk : Text)

def virtualPath (path : Text) : Text :=
  let pathWithoutRootFolderName := removeAll (folder ++ "/".toList) path
  disk ++ "/".toList ++ pathWithoutRootFolderName

/-- `handle_file`: the command it prints. -/
def handleFile (path : Text) : Text :=
  "read70 ".toList ++ virtualPath folder disk path ++ " 0 16388096 -h".toList

/-- The command `handle_dir` prints before it looks into the directory. -/
def dirCommand (path : Text) : Text :=
  if path = folder then "ls80 ".toList ++ disk ++ "/".toList
  else "ls80 ".toList ++ virtualPath folder disk path ++ "/".toList

/-- `items.sort()`, and the items one after the other. An item is its path and what it prints. -/
def inOrder (items : List (Text × List Text)) : List Text :=
  (items.insertionSort fun a b => a.1 ≤ b.1).flatMap Prod.snd

/-- The items of the directory `path`. -/
def items (path : Text) : Listing → List (Text × List Text)
  | .empty => []
  | .node f .directory inner next =>
    let item := path ++ "/".toList ++ f
    (item, dirCommand folder disk item :: inOrder (items item inner)) :: items path next
  | .node f .file _ next =>
    let item := path ++ "/".toList ++ f
    (item, [handleFile folder disk item]) :: items path next

/-- `handle_dir`: the commands it prints for a directory. -/
def handleDir (path : Text) (listing : Listing) : List Text :=
  dirCommand folder disk path :: inOrder (items folder disk path listing)

end

/-- The script: `name` is `sys.argv[0]`, and `listing` what is in the folder it is called with. -/
def main (name : Text) (argv : List Text) (listing : Listing) : List Text :=
  match argv with
  | [] =>
    ["Usage: ".toList ++ name ++ " <folder_name> [<img_name> [<virtual_disk_name>]]".toList]
  | folder :: rest =>
    let imgName := rest.getD 0 "fat32_test0.raw".toList
    let virtualDiskName := rest.getD 1 "hd0".toList
    let disk := "/".toList ++ virtualDiskName ++ "/1".toList
    ["umka_init".toList,
      "disk_add ../../img/".toList ++ imgName ++ " ".toList ++ virtualDiskName ++
        " -c 0".toList] ++
      handleDir folder disk folder listing ++ ["disk_del ".toList ++ virtualDiskName]

end Umka.Dirtotest
