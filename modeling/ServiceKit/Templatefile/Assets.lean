import ServiceKit.Templatefile.Generator
import ServiceKit.Lib.Run

/-!
# `Templatefile.Assets` — the generated Go file

`assets.tpl` executed on an `Output`: the declarations of the file, and what its functions do when the program runs.
A map literal is a list of entries, each with the identifier that stands as its key and what stands between the quotes
of this constant. Which string that is says `GoSource.StringBody`; the functions below take it as it stands, which is
what a path without a backslash denotes. What the compiler embeds in a variable is a parameter (`Embedded`).
-/

namespace ServiceKit
namespace Templatefile

open Lib Lib.FilePath

/-! ## Declarations -/

structure AssetFile where
  key : Text
  fileName : Text
  fullName : Text
  baseName : Text
  ext : Text
  dir : Text
  size : Nat
  content : Option (List UInt8)
  embedFS : Text
  modTime : Int

structure AssetDir where
  key : Text
  dirName : Text
  embedFS : Text

/-- An entry of a map literal. -/
structure Entry (α : Type) where
  ident : Text
  /-- What stands between the quotes of the constant `ident`. -/
  key : Text
  value : α

structure GeneratedFile where
  package : Text
  /-- `//go:embed` directives, each with its variable. -/
  embeds : List (Text × Text)
  consts : List (Text × Text)
  allFiles : List (Entry AssetFile)
  allDirs : List (Entry AssetDir)

def FileInfo.assetFile (i : FileInfo) : Entry AssetFile :=
  ⟨i.constName, i.embedPath,
    ⟨i.constName, i.name, i.embedPath, i.baseName, i.ext, i.dir, i.size, none, i.embedFS, i.modTime⟩⟩

def FileInfo.assetDir (i : FileInfo) : Entry AssetDir :=
  ⟨i.constName, i.embedPath, ⟨i.constName, i.dir, i.embedFS⟩⟩

/-- `tmpl.Execute`. -/
def Output.execute (o : Output) : GeneratedFile where
  package := o.package
  embeds := o.files.map (fun i => (i.embedPath, i.embedFS))
  consts := o.files.map (fun i => (i.constName, i.embedPath))
  allFiles := (o.files.filter (fun i => !i.isDirWild)).map FileInfo.assetFile
  allDirs := (o.files.filter FileInfo.isDirWild).map FileInfo.assetDir

/-- Declared in the file block, where no name of the package block may be declared again. -/
def importNames : List Text :=
  ["bytes".toList, "embed".toList, "fmt".toList, "fs".toList, "lo".toList, "excelize".toList]

/-- The package-level names of the template's own text. -/
def templateNames : List Text :=
  ["AssetFile".toList, "AssetDir".toList, "fileCacheData".toList, "dirCacheData".toList, "allFiles".toList,
    "allDirs".toList, "LoadAssetFile".toList, "LoadAllAssetFiles".toList, "LoadAssetDir".toList,
    "ExcelTmplData".toList]

/-- What else the file declares beside its constants. -/
def GeneratedFile.otherNames (g : GeneratedFile) : List Text :=
  g.embeds.map Prod.snd ++ templateNames ++ importNames

/-! ## Package `io/fs` -/

/-- What a variable of type `embed.FS` holds, by path. -/
abbrev Embedded := Text → Text → Option (List UInt8)

/-- `fs.ValidPath`. -/
def validPath (name : Text) : Bool :=
  name = ".".toList || (name.splitOn '/').all (fun e => e ≠ [] && e ≠ ".".toList && e ≠ "..".toList)

/-- An `fs.FS`: an embedded one, or what `fs.Sub` allocates at `ref`. -/
inductive FS where
  | embedded (v : Text)
  | sub (ref : Nat) (v : Text) (dir : Text)
deriving DecidableEq

def FS.readFile (E : Embedded) (name : Text) : FS → Option (List UInt8)
  | .embedded v => if validPath name then E v name else none
  | .sub _ v dir =>
      if validPath name then E v (if name = ".".toList then dir else dir ++ '/' :: name) else none

/-- `fs.Sub` of an embedded file system. -/
def fsSub (ref : Nat) (v : Text) (dir : Text) : Option FS :=
  if validPath dir then some (if dir = ".".toList then .embedded v else .sub ref v dir) else none

/-! ## The functions of the file -/

/-- The variables of the running program. -/
structure Vars where
  allFiles : List (Entry AssetFile)
  /-- The keys of `fileCacheData`; the pointer under each is the one in `allFiles`. -/
  fileCacheData : List Text
  dirCacheData : List (Text × FS)
  /-- The next object that `fs.Sub` allocates. -/
  ref : Nat

inductive LoadError where
  /-- `file %s not found` -/
  | fileNotFound (fileName : Text)
  /-- The error of `ReadFile`. -/
  | readFile (fileName : Text)
  /-- `failed to create sub filesystem for dir %s: %w` -/
  | subFailed (dirName : Text)
  /-- `dir %s not found` -/
  | dirNotFound (dirName : Text)
deriving DecidableEq

def lookupEntry {α : Type} (m : List (Entry α)) (key : Text) : Option (Entry α) := m.find? (fun e => e.key = key)

def GeneratedFile.start (g : GeneratedFile) : Vars := ⟨g.allFiles, [], [], 0⟩

/-- `f.Content = data`. -/
def Vars.setContent (s : Vars) (key : Text) (data : List UInt8) : Vars :=
  { s with
    allFiles := s.allFiles.map fun e =>
      if e.key = key then { e with value := { e.value with content := some data } } else e }

def loadAssetFile (E : Embedded) (fileName : Text) (s : Vars) : Vars × Except LoadError AssetFile :=
  match lookupEntry s.allFiles fileName with
  | none => (s, .error (.fileNotFound fileName))
  | some f =>
      if fileName ∈ s.fileCacheData then (s, .ok f.value)
      else
        match (FS.embedded f.value.embedFS).readFile E fileName with
        | none => (s, .error (.readFile fileName))
        | some data =>
            ({ s.setContent fileName data with fileCacheData := s.fileCacheData ++ [fileName] },
              .ok { f.value with content := some data })

def loadAllAssetFiles (s : Vars) : List AssetFile := s.allFiles.map Entry.value

def loadAssetDir (g : GeneratedFile) (dirName : Text) (s : Vars) : Vars × Except LoadError FS :=
  match s.dirCacheData.find? (fun e => e.1 = dirName) with
  | some e => (s, .ok e.2)
  | none =>
      match lookupEntry g.allDirs dirName with
      | some d =>
          match fsSub s.ref d.value.embedFS d.value.dirName with
          | some subFS => ({ s with dirCacheData := s.dirCacheData ++ [(dirName, subFS)], ref := s.ref + 1 }, .ok subFS)
          | none => (s, .error (.subFailed dirName))
      | none => (s, .error (.dirNotFound dirName))

inductive Call where
  | loadAssetFile (fileName : Text)
  | loadAssetDir (dirName : Text)

/-- A call from the rest of the program. -/
inductive Step (E : Embedded) (g : GeneratedFile) : Vars → Call → Vars → Prop where
  | loadAssetFile (fileName : Text) (s : Vars) : Step E g s (.loadAssetFile fileName) (loadAssetFile E fileName s).1
  | loadAssetDir (dirName : Text) (s : Vars) : Step E g s (.loadAssetDir dirName) (loadAssetDir g dirName s).1

end Templatefile
end ServiceKit
