import Spreadsheet.Text.Blank

/-! The files that a command can see, by their paths: texts, directories, and special files, which keep
nothing. -/
namespace Spreadsheet

/-- The names on the way to a file, from a root or from the working directory. The name `..` leads
back. -/
structure Path where
  /-- One slash or two; nothing for the working directory. -/
  root : String
  names : List String
deriving DecidableEq

namespace Path

def pieces (s : String) : List String := (Text.pieces (· == '/') s.toList).map String.ofList

/-- Whether a name leads nowhere else. -/
def isIdle (name : String) : Bool := name == "" || name == "."

/-- Two slashes at the beginning are a root of their own, more are not. -/
def rootOf (s : String) : String :=
  match (s.toList.takeWhile (· == '/')).length with
  | 0 => ""
  | 2 => "//"
  | _ => "/"

/-- Reads a path; neither doubled slashes nor single points count. -/
def ofText (s : String) : Path := ⟨rootOf s, (pieces s).filter (!isIdle ·)⟩

def text (p : Path) : String :=
  if p.root.isEmpty && p.names.isEmpty then "." else p.root ++ "/".intercalate p.names

def child (p : Path) (name : String) : Path := { p with names := p.names ++ [name] }

def parent (p : Path) : Path := { p with names := p.names.dropLast }

def take (p : Path) (count : Nat) : Path := { p with names := p.names.take count }

/-- The paths on the way to a file and its own, the shortest one first. -/
def leading (p : Path) : List Path := (List.range (p.names.length + 1)).map p.take

/-- The path one name further, without names that lead back and forth. There is nothing above a
root. -/
def enter (p : Path) (name : String) : Path :=
  if name != ".." then p.child name
  else if p.names.all (· == "..") then if p.root.isEmpty then p.child ".." else p
  else p.parent

/-- Whether `q` lies below `p`. -/
def isAbove (p q : Path) : Bool :=
  p.root == q.root && p.names.isPrefixOf q.names && p.names.length < q.names.length

end Path

/-- Texts, directories and special files, by paths without names that lead back and forth. -/
structure Files where
  texts : List (Path × String)
  directories : List Path
  /-- Special files, such as `/dev/null`, with the text that each gives back. They take what is written to
  them and keep nothing of it. -/
  specials : List (Path × String)

namespace Files

def empty : Files := ⟨[], [], []⟩

inductive Fault where
  | missing
  | notDirectory
  | exists
  | isDirectory
deriving DecidableEq

def Fault.message : Fault → String
  | .missing => "[Errno 2] No such file or directory"
  | .notDirectory => "[Errno 20] Not a directory"
  | .exists => "[Errno 17] File exists"
  | .isDirectory => "[Errno 21] Is a directory"

inductive Item where
  | text (content : String)
  | special (content : String)
  | directory
deriving DecidableEq

/-- What there is. The start of paths, what is above it, what was made as a directory, and what holds
files are directories. -/
def itemAt? (f : Files) (place : Path) : Option Item :=
  if place.names.all (· == "..") || f.directories.contains place ||
      f.directories.any place.isAbove || f.texts.any (fun (q, _) => place.isAbove q) ||
      f.specials.any (fun (q, _) => place.isAbove q) then
    some .directory
  else
    match f.specials.lookup place with
    | some content => some (.special content)
    | none => (f.texts.lookup place).map .text

/-- Follows a name out of a directory. -/
def follow (f : Files) (place : Path) (name : String) : Except Fault Path :=
  match f.itemAt? place with
  | some .directory => .ok (place.enter name)
  | some (.text _) | some (.special _) => .error .notDirectory
  | none => .error .missing

/-- The place that a path leads to, through directories. There may be nothing. -/
def place (f : Files) (p : Path) : Except Fault Path :=
  p.names.foldlM f.follow (p.take 0)

def item? (f : Files) (p : Path) : Option Item := (f.place p).toOption.bind f.itemAt?

def text? (f : Files) (p : Path) : Option String :=
  match f.item? p with
  | some (.text content) | some (.special content) => some content
  | _ => none

def isDirectory (f : Files) (p : Path) : Bool := f.item? p == some .directory

/-- What there is at a path as it is written: only a directory if a slash or a single point ends it. -/
def written? (f : Files) (s : String) : Option Item :=
  if s.isEmpty then none
  else
    let inside := (Path.pieces s).getLast?.any Path.isIdle
    (f.item? (.ofText s)).filter fun found => !inside || found == .directory

/-- Replaces the text of a file, or makes a file in a directory. Nothing becomes of what is written to a
special file. -/
def write (f : Files) (p : Path) (s : String) : Except Fault Files := do
  let place ← f.place p
  match f.itemAt? place with
  | some .directory => .error .isDirectory
  | some (.special _) => .ok f
  | _ => .ok { f with texts := (f.texts.filter fun (q, _) => q != place) ++ [(place, s)] }

def makeOne (f : Files) (p : Path) : Except Fault Files := do
  let place ← f.place p
  if (f.itemAt? place).isSome then .error .exists
  else .ok { f with directories := f.directories ++ [place] }

def ensureDirectory (f : Files) (p : Path) : Except Fault Files :=
  match f.makeOne p with
  | .error .missing => .error .missing
  | .error fault => if f.isDirectory p then .ok f else .error fault
  | made => made

/-- Makes the directory that the first names of a path lead to, after those on the way to it if they
are missing. -/
def makeLeading (f : Files) (p : Path) : (count : Nat) → Except Fault Files
  | 0 => f.ensureDirectory (p.take 0)
  | count + 1 =>
    match f.ensureDirectory (p.take (count + 1)) with
    | .error .missing => do (← makeLeading f p count).ensureDirectory (p.take (count + 1))
    | made => made

/-- Makes a directory and those on the way to it, where they are not there yet. -/
def makeDirectory (f : Files) (p : Path) : Except Fault Files := f.makeLeading p p.names.length

end Files
end Spreadsheet
