import Mathlib.Data.List.Lex
import Mathlib.Order.WithBot
import WeaveGate.Static.Listing

/-!
# Index pages

`directory_listing/sort.rs` and `directory_listing/autoindex`: what the pages of a directory show, before it is made
into HTML or JSON text, and the loop of `read_dir_entries` with its counters.
-/

namespace WeaveGate.Static

open Posix (Octets Path Name FileTree Inode Canon)

/-! ## Sorting -/

/-- The order codes that the links in the head of the table lead to. -/
structure SortingAttr where
  name : Str
  lastModified : Str
  size : Str
deriving DecidableEq

section

-- `str::to_lowercase`
variable (lowercase : Str → Str)

/-- Texts are compared by their bytes. -/
def nameKey (f : FileEntry) : List Nat :=
  (Posix.utf8 (lowercase (Utf8.decodeLossy f.name))).map UInt8.toNat

/-- No size comes before all sizes. -/
def sizeKey (f : FileEntry) : WithBot Nat := f.size

def sortByKey {κ : Type} [LinearOrder κ] (key : FileEntry → κ) (files : List FileEntry) : List FileEntry :=
  files.mergeSort fun a b => key a ≤ key b

def sortFileEntries (files : List FileEntry) (orderCode : Nat) : List FileEntry × SortingAttr :=
  let attr : SortingAttr := ⟨"0".toList, "2".toList, "4".toList⟩
  match orderCode with
  | 0 | 1 =>
      let files := sortByKey (nameKey lowercase) files
      if orderCode = 1 then (files.reverse, attr) else (files, { attr with name := "1".toList })
  | 2 | 3 =>
      let files := sortByKey FileEntry.mtime files
      if orderCode = 3 then (files.reverse, attr) else (files, { attr with lastModified := "3".toList })
  | 4 | 5 =>
      let files := sortByKey sizeKey files
      if orderCode = 5 then (files.reverse, attr) else (files, { attr with size := "5".toList })
  | _ => (files, attr)

/-! ## Pages -/

/-- A row links to the entry and shows its name, with a slash behind that of a directory. -/
structure HtmlRow where
  href : Str
  name : Str
  isDir : Bool
  mtime : Int
  size : Option Nat
deriving DecidableEq

def FileEntry.htmlRow (e : FileEntry) : HtmlRow :=
  ⟨e.uri, Utf8.decodeLossy e.name, e.type = .directory, e.mtime, e.size⟩

structure HtmlIndex where
  currentPath : Str
  dirsCount : Nat
  filesCount : Nat
  downloadLink : Bool
  sortAttrs : SortingAttr
  /-- The row `../`. -/
  parentRow : Bool
  rows : List HtmlRow
deriving DecidableEq

def htmlAutoIndex (basePath : Str) (dirsCount filesCount : Nat) (entries : List FileEntry) (orderCode : Nat)
    (download : List DirDownloadFmt) : HtmlIndex :=
  let (entries, sortAttrs) := sortFileEntries lowercase entries orderCode
  { currentPath := Utf8.decodeLossy (Percent.decode (Posix.utf8 basePath))
    dirsCount, filesCount
    downloadLink := !download.isEmpty
    sortAttrs
    parentRow := basePath ≠ "/".toList
    rows := entries.map FileEntry.htmlRow }

structure JsonEntry where
  name : Str
  mtime : Int
  size : Option Nat
  type : FileType
deriving DecidableEq

def FileEntry.jsonEntry (e : FileEntry) : JsonEntry := ⟨Utf8.decodeLossy e.name, e.mtime, e.size, e.type⟩

def jsonAutoIndex (entries : List FileEntry) (orderCode : Nat) : List JsonEntry :=
  (sortFileEntries lowercase entries orderCode).1.map FileEntry.jsonEntry

/-- The pages of `Crates` are these pages as texts, which `html` and `json` make of them. -/
def withPages (crates : Crates) (html : HtmlIndex → Octets) (json : List JsonEntry → Octets) : Crates :=
  { crates with
    htmlAutoIndex := fun basePath dirsCount filesCount entries orderCode download =>
      html (htmlAutoIndex lowercase basePath dirsCount filesCount entries orderCode download)
    jsonAutoIndex := fun entries orderCode => json (jsonAutoIndex lowercase entries orderCode) }

end

/-! ## The loop over the entries -/

structure DirCounts where
  dirsCount : Nat
  filesCount : Nat
  fileEntries : List FileEntry

def DirCounts.empty : DirCounts := ⟨0, 0, []⟩

/-- One turn. Each `.ok s` is a `continue`. -/
def readDirTurn (t : FileTree) (opts : HandleOpts) (rootPathAbs : Canon) (parent : Path) (s : DirCounts) (name : Name) :
    Except Failure DirCounts :=
  let entryPath := parent.push [.normal name]
  match t.symlinkMetadata entryPath with
  | .error _ => .ok s
  | .ok metadata =>
      let push (s : DirCounts) (type : FileType) (size : Option Nat) : Except Failure DirCounts :=
        (dateTimeFrom metadata.mtime).map fun mtime => { s with
          fileEntries := s.fileEntries ++ [{ name, mtime, size, type, uri := entryUri opts.uriPath name type }] }
      let directory := push { s with dirsCount := s.dirsCount + 1 } .directory none
      let file (size : Nat) := push { s with filesCount := s.filesCount + 1 } .file (some size)
      if opts.ignoreHiddenFiles && isDotfile name then .ok s
      else if metadata.isDir then directory
      else if metadata.isFile then file metadata.size
      else if !opts.disableSymlinks && metadata.isSymlink then
        match t.canonicalize entryPath with
        | .error _ => .ok s
        | .ok symlinkPath =>
            if ¬ rootPathAbs <+: symlinkPath then .ok s
            else match t.symlinkMetadata (Posix.canonPath symlinkPath) with
              | .error _ => .ok s
              | .ok symlinkMeta => if symlinkMeta.isDir then directory else file symlinkMeta.size
      else .ok s

end WeaveGate.Static
