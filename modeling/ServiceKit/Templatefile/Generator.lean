import Mathlib.Data.Char
import Mathlib.Data.List.Lex
import Mathlib.Data.List.Sort
import ServiceKit.Lib.FilePath

/-!
# `Templatefile.Generator` — from directories to the data of the template

`generate_assets.go`: the files below the input directories are collected, each directory that holds one gets a
wildcard entry before them, and every entry becomes a `FileInfo`, which the template turns into Go source. The order
in which Go ranges over a map is a parameter (`MapOrder`).
-/

namespace ServiceKit
namespace Templatefile

open Lib Lib.FilePath

/-! ## The machine -/

/-- A file, as `os.Stat` and `os.ReadFile` tell of it. -/
structure FileData where
  content : List UInt8
  /-- Nanoseconds since the zero `time.Time`. -/
  modTime : Int
deriving DecidableEq

/-- What lies under a name; the entries of a directory are in the order of `os.ReadDir`. -/
inductive Node where
  | file (data : FileData)
  | dir (entries : List (Name × Node))

/-- The entry of a directory under a name. -/
def Node.child : Node → Name → Option Node
  | .file _, _ => none
  | .dir entries, n => (entries.find? (fun e => e.1 = n)).map Prod.snd

/-- `os.Stat`. -/
def Node.stat : Node → AbsPath → Option Node
  | t, [] => some t
  | t, n :: p => (t.child n).bind (fun c => c.stat p)

mutual

/-- The files that `filepath.WalkDir` visits, in its order, by their path from where it starts. -/
def Node.walk : Node → List (List Name)
  | .file _ => [[]]
  | .dir entries => walkEntries entries

def walkEntries : List (Name × Node) → List (List Name)
  | [] => []
  | (n, t) :: es => t.walk.map (fun p => n :: p) ++ walkEntries es

end

/-- The file system, and the directory that the program is started in. -/
structure Machine where
  cwd : AbsPath
  root : Node

/-- The flags, and what follows them on the command line. -/
structure Flags where
  dir : Text
  goOut : Text
  goFile : Text
  pkg : Text
  args : List Text

/-- Why no file is generated: the program exits or panics. -/
inductive Failure where
  | inputRequired
  | readingDirectory (d : Text)
  | notADirectory (d : Text)
  | noFiles
  | readingFile (path : AbsPath)
  | invalidPackage (pkg : Text)
deriving DecidableEq

/-! ## Collecting -/

/-- An entry of `allFiles`: a file, or the wildcard of a directory. -/
structure CollectedFile where
  /-- Without the `/*` that a wildcard entry has in the source: it is stripped before each use. -/
  relPath : List Name
  sourceDir : AbsPath
  isDirWild : Bool
deriving DecidableEq

/-- `dirsWithFiles`, a Go map, as its entries. -/
abbrev DirsWithFiles := List (List Name × AbsPath)

/-- `dirsWithFiles[relDir] = sourceDir` -/
def DirsWithFiles.set (m : DirsWithFiles) (relDir : List Name) (sourceDir : AbsPath) : DirsWithFiles :=
  m.filter (fun e => e.1 ≠ relDir) ++ [(relDir, sourceDir)]

/-- The order of each `range` over a map. -/
structure MapOrder where
  range : Nat → DirsWithFiles → DirsWithFiles
  perm : ∀ i m, (range i m).Perm m

/-- What the walks have collected so far. -/
structure Collected where
  allFiles : List CollectedFile
  dirsWithFiles : DirsWithFiles

/-- Not the generated file, and no temporary file. -/
def kept (outputFileName : Text) (path : List Name) : Bool :=
  match path.getLast? with
  | some baseName => baseName.chars ≠ outputFileName && !"~".toList.isPrefixOf baseName.chars
  | none => false

/-- The function that `filepath.WalkDir` calls, on a file. -/
def visit (outputFileName : Text) (sourceDir : AbsPath) (c : Collected) (path : List Name) : Collected :=
  if kept outputFileName path then
    { dirsWithFiles :=
        if path.dropLast ≠ [] then c.dirsWithFiles.set path.dropLast sourceDir else c.dirsWithFiles
      allFiles := c.allFiles ++ [⟨path, sourceDir, false⟩] }
  else c

/-- `filepath.WalkDir` of an input directory. -/
def walkDir (m : Machine) (outputFileName : Text) (c : Collected) (sourceDir : AbsPath) : Collected :=
  match m.root.stat sourceDir with
  | some t => t.walk.foldl (visit outputFileName sourceDir) c
  | none => c

/-- The first loop over the input directories. -/
def walkDirs (m : Machine) (outputFileName : Text) (dirs : List AbsPath) : Collected :=
  dirs.foldl (walkDir m outputFileName) ⟨[], []⟩

/-- `sort.Strings` on relative directories. -/
def sortStrings (ds : List (List Name)) : List (List Name) :=
  ds.insertionSort (fun d e => (RelPath.mk 0 d).text ≤ (RelPath.mk 0 e).text)

/-- The relative directories of an input directory, sorted. -/
def dirsForSource (entries : DirsWithFiles) (sourceDir : AbsPath) : List (List Name) :=
  sortStrings ((entries.filter (fun e => e.2 = sourceDir)).map Prod.fst)

/-- The wildcard entries of one input directory, each put in front. -/
def prependWildcards (sourceDir : AbsPath) (ds : List (List Name)) (allFiles : List CollectedFile) :
    List CollectedFile :=
  ds.foldl (fun fs relDir => ⟨relDir, sourceDir, true⟩ :: fs) allFiles

/-- The second loop over the input directories, from number `i`; each turn ranges over `dirsWithFiles`. -/
def prependAll (order : MapOrder) (m : DirsWithFiles) : Nat → List AbsPath → List CollectedFile → List CollectedFile
  | _, [], allFiles => allFiles
  | i, sourceDir :: dirs, allFiles =>
      prependAll order m (i + 1) dirs (prependWildcards sourceDir (dirsForSource (order.range i m) sourceDir) allFiles)

/-- The files and wildcards in the order in which the template gets them. -/
def collect (order : MapOrder) (m : Machine) (outputFileName : Text) (dirs : List AbsPath) : List CollectedFile :=
  let c := walkDirs m outputFileName dirs
  prependAll order c.dirsWithFiles 0 dirs c.allFiles

/-! ## Names -/

/-- Letters, digits and underscores, and no digit first. -/
def isValidIdentifier (U : Unicode) (s : Text) : Bool :=
  match s with
  | [] => false
  | r :: rs => (U.isLetter r || r = '_') && (r :: rs).all (fun r => U.isLetter r || U.isDigit r || r = '_')

/-- The elements of a list of the command line, trimmed; empty ones are dropped. -/
def splitCommaSeparated (s : Text) : List Text :=
  if s = [] then [] else ((s.splitOn ',').map trimSpace).filter (· ≠ [])

/-- The separators of `embedPathToConst`. -/
def isSeparator (c : Char) : Bool := c ∈ ['/', '\\', '_', '-', '.', '*']

/-- The `strings.NewReplacer` of `embedPathToConst`, on a rune. -/
def normalize (c : Char) : Char := if isSeparator c then ' ' else c

/-- The first rune in upper case. -/
def capitalize (U : Unicode) : Text → Text
  | [] => []
  | r :: rs => U.toUpper r :: rs

/-- The name of the constant of an embedded path: its words capitalized, behind `File` where it begins with no
    letter. -/
def embedPathToConst (U : Unicode) (embedPath : Text) : Text :=
  let constName := ((fields (embedPath.map normalize)).map (capitalize U)).flatten
  match constName with
  | [] => "File".toList
  | r :: _ => if U.isLetter r then constName else "File".toList ++ constName

/-! ## The data of the template -/

/-- What the template knows of an entry. -/
structure FileInfo where
  embedFS : Text
  embedPath : Text
  constName : Text
  name : Text
  baseName : Text
  ext : Text
  dir : Text
  size : Nat
  modTime : Int
  isDirWild : Bool
deriving DecidableEq

/-- `fmt.Sprintf("file%03d", i)`. -/
def embedVar (i : Nat) : Text :=
  "file".toList ++ List.replicate (3 - (Nat.toDigits 10 i).length) '0' ++ Nat.toDigits 10 i

/-- A path that is `.` stands as the empty string. -/
def orEmpty (path : Text) : Text := if path = ".".toList then [] else path

/-- The relative path of an entry from the directory of the generated file. -/
def CollectedFile.fromOutput (outputDir : AbsPath) (cf : CollectedFile) : RelPath :=
  rel outputDir (cf.sourceDir ++ cf.relPath)

/-- The path in the directive `//go:embed`. -/
def CollectedFile.embedPath (outputDir : AbsPath) (cf : CollectedFile) : Text :=
  (cf.fromOutput outputDir).text ++ if cf.isDirWild then "/*".toList else []

/-- The body of the loop that prepares the file infos. -/
def fileInfo (U : Unicode) (m : Machine) (outputDir : AbsPath) (i : Nat) (cf : CollectedFile) :
    Except Failure FileInfo :=
  let fullPath := cf.sourceDir ++ cf.relPath
  let embedPath := cf.embedPath outputDir
  let constName := embedPathToConst U embedPath
  if cf.isDirWild then
    let dirTemp := orEmpty (cf.fromOutput outputDir).base
    .ok ⟨embedVar (i + 1), embedPath, constName, dirTemp, dirTemp, [], dirTemp, 0, 0, true⟩
  else
    match m.root.stat fullPath with
    | some (.file data) =>
        let baseName := base (absText fullPath)
        let ext := ext baseName
        .ok ⟨embedVar (i + 1), embedPath, constName, baseName, baseName.take (baseName.length - ext.length),
          ext.drop 1, orEmpty (cf.fromOutput outputDir).dir.text, data.content.length, data.modTime, false⟩
    | _ => .error (.readingFile fullPath)

/-- The loop that prepares the file infos, from entry `i`. -/
def fileInfos (U : Unicode) (m : Machine) (outputDir : AbsPath) :
    Nat → List CollectedFile → Except Failure (List FileInfo)
  | _, [] => .ok []
  | i, cf :: cfs => do
      let info ← fileInfo U m outputDir i cf
      let infos ← fileInfos U m outputDir (i + 1) cfs
      .ok (info :: infos)

/-- What the template is executed on, and where the outcome is written. -/
structure Output where
  package : Text
  files : List FileInfo
  outputPath : AbsPath × Text
deriving DecidableEq

/-! ## `main` -/

/-- The input directories, as they are given and as absolute paths. -/
def Flags.inputs (f : Flags) : Text :=
  match f.dir, f.args with
  | [], d :: _ => d
  | d, _ => d

/-- The package that is asked for; it may follow the directories where these have no flag. -/
def Flags.package (f : Flags) : Text :=
  match f.dir, f.pkg, f.args with
  | [], [], _ :: p :: _ => p
  | _, p, _ => p

/-- The loop that normalizes the input directories, on one of them. -/
def checkDir (m : Machine) (d : Text) : Except Failure AbsPath :=
  match m.root.stat (abs m.cwd d) with
  | none => .error (.readingDirectory d)
  | some (.file _) => .error (.notADirectory d)
  | some (.dir _) => .ok (abs m.cwd d)

/-- The input directories, where each is one. -/
def Flags.dirs (m : Machine) (f : Flags) : Except Failure (List AbsPath) :=
  if f.inputs = [] then .error .inputRequired else (splitCommaSeparated f.inputs).mapM (checkDir m)

def Flags.outputFileName (f : Flags) : Text := if f.goFile = [] then "assets.go".toList else f.goFile

/-- The first input directory, unless the flag names another. -/
def Flags.outputDir (f : Flags) (m : Machine) (dir : AbsPath) : AbsPath :=
  if f.goOut = [] then dir else abs m.cwd f.goOut

/-- The package of the output: as it is asked for, else the name of its directory. -/
def Flags.packageName (f : Flags) (dir : AbsPath) : Text :=
  if f.package = [] then if f.goOut = [] then base (absText dir) else base f.goOut else f.package

/-- The program, up to the execution of the template. -/
def main (U : Unicode) (order : MapOrder) (m : Machine) (f : Flags) : Except Failure Output := do
  let dirs ← f.dirs m
  let allFiles := collect order m f.outputFileName dirs
  match allFiles, dirs with
  | _ :: _, dir :: _ =>
      let outputDir := f.outputDir m dir
      let pkg := f.packageName dir
      if isValidIdentifier U pkg then
        let infos ← fileInfos U m outputDir 0 allFiles
        .ok ⟨pkg, infos, (outputDir, f.outputFileName)⟩
      else .error (.invalidPackage pkg)
  | _, _ => .error .noFiles

end Templatefile
end ServiceKit
