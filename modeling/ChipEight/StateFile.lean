/-!
# The state file

A console keeps one file to save its machine in.  `StateFile.defaultPath` is its
place if none is asked for: beside the program, with another extension.

What becomes of a file is up to a file system, which is not part of the console
(`FileSystem`).  It may refuse to read a file or to write one, for reasons of its
own, and it alone knows what a write leaves behind.  That a text which was written
is read back is a law (`FileSystem.ReadsBack`), and whoever relies on it says so.
`Shelf` is a small file system that obeys it.
-/

namespace ChipEight

/-! ## File systems -/

/-- Why a file was not read or not written, in the words of the file system. -/
structure FileFault where
  message : String
deriving DecidableEq, Repr

/-- How files are read and written, where a `D` is all there is of them at a time. -/
class FileSystem (D : Type) where
  /-- The text of the file at a path. -/
  read (d : D) (path : String) : Except FileFault String
  /-- Put a text into the file at a path.  A write that fails may change files too. -/
  write (d : D) (path text : String) : Except FileFault Unit × D

/-- A text that was written to a path is read back from it. -/
def FileSystem.ReadsBack (D : Type) [FileSystem D] (path : String) : Prop :=
  ∀ (d d' : D) (text : String), write d path text = (.ok (), d') → read d' path = .ok text

/-- Files that are kept in memory, each with its path, the latest first.  Every path
leads to a file. -/
structure Shelf where
  files : List (String × String)
deriving DecidableEq, Repr

namespace Shelf

def empty : Shelf := ⟨[]⟩

def missing : FileFault := ⟨"No such file or directory (os error 2)"⟩

instance : FileSystem Shelf where
  read d path :=
    match d.files.lookup path with
    | some text => .ok text
    | none => .error missing
  write d path text := (.ok (), ⟨(path, text) :: d.files⟩)

theorem readsBack (path : String) : FileSystem.ReadsBack Shelf path := by
  intro d d' text h
  cases h
  simp only [FileSystem.read, List.lookup_cons_self]

end Shelf

/-! ## Paths -/

/-- The parts of a path between its slashes, at least one. -/
def segments : List Char → List (List Char)
  | [] => [[]]
  | c :: cs =>
      if c = '/' then [] :: segments cs
      else
        match segments cs with
        | [] => [[c]]
        | s :: rest => (c :: s) :: rest

def joinSegments (ss : List (List Char)) : List Char := ['/'].intercalate ss

/-- A file name without its last extension.  A dot at the start begins none. -/
def fileStem (name : List Char) : List Char :=
  match (name.reverse.dropWhile (· != '.')).drop 1 with
  | [] => name
  | stem => stem.reverse

/-- The path beside a program: the extension of its file name is replaced.  A
path without a file name is kept.

The old extension is taken away before the new one is added.  If that leaves two
dots, they are the directory above and no file name, so nothing is added. -/
def StateFile.defaultPath (programPath : String) : String :=
  let parts := (segments programPath.toList).reverse
  match parts.dropWhile fun s => s == [] || s == ['.'] with
  | [] => programPath
  | name :: rest =>
      if name = ['.', '.'] then programPath
      else
        let stem := fileStem name
        if stem = ['.'] ∧ parts = name :: rest then
          String.ofList (joinSegments (['.', '.'] :: rest).reverse)
        else String.ofList (joinSegments (stem :: rest).reverse) ++ ".state.json"

/-! ## Tests -/

example : StateFile.defaultPath "games/x.rom" = "games/x.state.json" := by decide +kernel
example : StateFile.defaultPath "x.ch8/" = "x.state.json" := by decide +kernel
example : StateFile.defaultPath ".hidden" = ".hidden.state.json" := by decide +kernel
example : StateFile.defaultPath "a/.." = "a/.." := by decide +kernel
example : StateFile.defaultPath "a/..x" = "a/.." := by decide +kernel
example : StateFile.defaultPath "..x/" = "..state.json" := by decide +kernel

end ChipEight
