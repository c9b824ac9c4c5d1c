import Spreadsheet.Command.Request
import Spreadsheet.Formula.Evaluation
import Spreadsheet.Formula.Printer
import Spreadsheet.Log.Journal
import Spreadsheet.Session
import Spreadsheet.Settings.File
import Spreadsheet.Sheet.Edit
import Spreadsheet.Text.Control

/-! What the commands do: they calculate cells, or show how a formula is read. A command sees files and
leaves files behind. -/
namespace Spreadsheet.Command

inductive Stop where
  | usage
  | settings (fault : Settings.Fault)
  /-- The settings name a log directory by something that is no text. -/
  | logName (found : Yaml.Value)
  | logDirectory (fault : Files.Fault)
  | unreadableSession (path : String)
  | emptySession (path : String)
  | assignment (word : String)
  | refused (fault : Sheet.Fault)
  | unsaved (path : String) (fault : Files.Fault)
  /-- A number has no text of the precision that the settings ask for. -/
  | unshown (fault : Number.PrecisionFault)
  | malformed (error : Formula.ParseError)

namespace Stop

def message : Stop → String
  | .usage => "invalid usage"
  | .settings fault => fault.message
  | .logName (.binary _) =>
    "argument should be a str object or an os.PathLike object returning str, not <class 'bytes'>"
  | .logName found => s!"expected str, bytes or os.PathLike object, not {found.kindName}"
  | .logDirectory fault => fault.message
  | .unreadableSession path => s!"Cannot read session {path}: not a JSON document"
  | .emptySession path => s!"Session {path} has no 'cells' mapping of ADDRESS to text"
  | .assignment word => s!"Invalid --set format: {Text.quoted word}. Use ADDRESS=CONTENT."
  | .refused fault => fault.message
  | .unsaved path fault =>
    s!"Cannot write session {path}: {fault.message}: " ++ Text.quoted (Path.ofText path).text
  | .unshown fault => fault.message
  | .malformed error => error.text

def exitCode : Stop → Nat
  | .usage => 2
  | _ => 1

def line (stop : Stop) : String := s!"Error: {stop.message}\n"

end Stop

/-- What a command prints and leaves behind. Its events go to the journal, if there is one, before the
session is saved. -/
structure Outcome where
  stop : Option Stop
  out : String
  /-- What the error stream gets before the line that tells of a stop. -/
  err : String
  files : Files
  journal : Option Path
  events : List Event
  /-- Where a session is saved, and its text. -/
  saved : Option (Path × String)

namespace Outcome

def exitCode (o : Outcome) : Nat := (o.stop.map Stop.exitCode).getD 0

def stopped (files : Files) (stop : Stop) : Outcome :=
  ⟨some stop, "", "", files, none, [], none⟩

/-- A command that prints and leaves all files as they are. -/
def printed (files : Files) (out err : String) : Outcome := ⟨none, out, err, files, none, [], none⟩

/-- Text as it is printed: only a terminal gets the sequences that direct it. -/
def printedText (onTerminal : Bool) (s : String) : String :=
  if onTerminal then s else String.ofList (Text.withoutControls s.toList)

def printedOut (onTerminal : Bool) (o : Outcome) : String := printedText onTerminal o.out

def printedErr (onTerminal : Bool) (o : Outcome) : String :=
  printedText onTerminal (o.err ++ (o.stop.map Stop.line).getD "")

/-- What the journal gets, if its events are written at one time. -/
def journalText (time : String) (duration : Option Datum) (o : Outcome) : String :=
  (Log.Journal.empty.appendAll time (o.events.map (Event.entry duration))).text

/-- The files with the events in the journal. What cannot be written there is lost. -/
def journaled (time : String) (duration : Option Datum) (o : Outcome) : Files :=
  match o.journal with
  | none => o.files
  | some p =>
    if o.events.isEmpty then o.files
    else
      let before := (o.files.text? p).getD ""
      (o.files.write p (before ++ o.journalText time duration)).toOption.getD o.files

def filesAt (time : String) (duration : Option Datum) (o : Outcome) : Files :=
  let files := o.journaled time duration
  match o.saved with
  | none => files
  | some (p, text) => (files.write p text).toOption.getD files

end Outcome

/-! ## Calculations -/

/-- Whether the paths on a command line can be what they are to be. -/
def pathsFit (files : Files) (c : Calculation) : Bool :=
  let holds (found : Option Files.Item) : Bool := found.isSome && found != some .directory
  c.session.all (fun s => holds (files.written? s)) &&
    c.saveTo.all (fun s => files.written? s != some .directory) &&
    c.settings.all (fun s => (files.written? s).isSome)

/-- The settings, among them a log directory from the command line. -/
def settings (files : Files) (c : Calculation) : Except Settings.Fault Settings := do
  let read ← Settings.load files (c.settings.map Path.ofText)
  match c.logDirectory with
  | none | some "" => return read
  | some directory => return Yaml.Value.put (.text "logging_dir") (.text directory) read

def openJournal (files : Files) (settings : Settings) : Except Stop (Files × Option Path) :=
  match settings.logDirectory? with
  | none => .ok (files, none)
  | some (.text directory) =>
    let p := Path.ofText directory
    match files.makeDirectory p with
    | .ok files => .ok (files, some (p.child Log.Journal.fileName))
    | .error fault => .error (.logDirectory fault)
  | some found => .error (.logName found)

/-- The address and the content that an assignment joins by an equal sign. -/
def assignment (word : String) : Except Stop (String × String) :=
  let cs := word.toList
  match cs.dropWhile (· != '=') with
  | [] => .error (.assignment word)
  | _ :: content =>
    .ok (String.ofList (Text.trim (cs.takeWhile (· != '='))), String.ofList content)

def sessionCells (files : Files) (path : Option String) : Except Stop (List (String × String)) :=
  match path with
  | none => .ok []
  | some path =>
    match ((files.text? (.ofText path)).map Session.read).getD (.error .notJson) with
    | .ok cells => .ok cells
    | .error .notJson => .error (.unreadableSession path)
    | .error .noCells => .error (.emptySession path)

/-- The cells of the session, and then those of the assignments. -/
def items (files : Files) (c : Calculation) : Except Stop (List (Address.Given × Datum)) := do
  let cells ← sessionCells files c.session
  let assigned ← c.assignments.mapM assignment
  return (cells ++ assigned).map fun (address, content) => (.text address, .text content)

/-! ## Reports -/

def valueDatum : Option Value → Datum
  | none => .null
  | some (.error kind) => .text kind.code
  | some (.number (.int i)) => .int i
  | some (.number (.float x)) => .float x
  | some (.text s) => .text s
  | some (.bool b) => .bool b

def cellDatum (s : Sheet) (c : Cell) : Except Number.PrecisionFault Datum := do
  let shown ← c.display s.precision
  return .mapping [("raw", .text c.content), ("value", valueDatum c.value?),
    ("display", .text shown)]

def diagnosticDatum (d : Diagnostic) : Datum :=
  .mapping [("address", .text d.address.text), ("kind", .text d.rejection.kind.name),
    ("message", .text d.rejection.message),
    ("position", (d.rejection.position.map fun n => .int n).getD .null),
    ("path", .list (d.rejection.path.map fun a => .text a.text))]

/-- The results before the first failure, and that failure. -/
def untilFailure {ε α : Type} : List (Except ε α) → List α × Option ε
  | [] => ([], none)
  | .error e :: _ => ([], some e)
  | .ok a :: rest =>
    let (found, failure) := untilFailure rest
    (a :: found, failure)

/-- What a report prints, and why it goes no further. -/
abbrev Report := String × Option Number.PrecisionFault

/-- The cells and the diagnostics as JSON, of which nothing is printed if a cell cannot be shown. -/
def jsonReport (s : Sheet) (diagnostics : List Diagnostic) : Report :=
  match s.cells.toList.mapM (fun (a, c) => do return (a.text, ← cellDatum s c)) with
  | .error fault => ("", some fault)
  | .ok cells =>
    (Json.block (.mapping [("cells", .mapping cells),
      ("diagnostics", .list (diagnostics.map diagnosticDatum))]) ++ "\n", none)

/-- A line for each cell with what it shows, up to the first cell that cannot be shown. -/
def textReport (s : Sheet) : Report :=
  let (lines, fault) := untilFailure (s.cells.toList.map fun (a, c) =>
    (c.display s.precision).map fun shown => s!"{a}\t" ++ shown ++ "\n")
  (String.join lines, fault)

def diagnosticLines (diagnostics : List Diagnostic) : String :=
  String.join (diagnostics.map fun d => d.text ++ "\n")

def report (c : Calculation) (s : Sheet) (diagnostics : List Diagnostic) (before : Outcome) :
    Outcome :=
  let (out, fault) :=
    if c.asJson then jsonReport s diagnostics else textReport s
  { before with stop := fault.map .unshown, out, err := diagnosticLines diagnostics }

def finish (files : Files) (c : Calculation) (journal : Option Path)
    (loaded : Sheet.Edited (List Diagnostic)) : Outcome :=
  let s := loaded.sheet
  let o : Outcome := ⟨none, "", "", files, journal, loaded.events, none⟩
  match c.saveTo with
  | none | some "" => report c s loaded.answer o
  | some path =>
    let text := Session.text s.dump
    match (o.journaled "" none).write (.ofText path) text with
    | .ok _ => report c s loaded.answer { o with saved := some (.ofText path, text) }
    | .error fault => { o with stop := some (.unsaved path fault) }

def calculate (files : Files) (c : Calculation) : Outcome :=
  if !pathsFit files c then .stopped files .usage
  else
    match settings files c with
    | .error fault => .stopped files (.settings fault)
    | .ok settings =>
      match openJournal files settings with
      | .error stop => .stopped files stop
      | .ok (files, journal) =>
        match settings.limits, items files c with
        | .error fault, _ => .stopped files (.settings fault)
        | _, .error stop => .stopped files stop
        | .ok limits, .ok items =>
          let loaded := (Sheet.new limits).load items
          match loaded.answer with
          | .error fault =>
            { Outcome.stopped files (.refused fault) with journal, events := loaded.events }
          | .ok diagnostics =>
            finish files c journal ⟨loaded.sheet, loaded.events, diagnostics⟩

/-! ## Formulas -/

/-- Shows the canonical form of a formula, its references, and a call that cannot succeed. -/
def parse (files : Files) (formula : String) (asJson : Bool) : Outcome :=
  match Formula.parse formula with
  | .error e => .stopped files (.malformed e)
  | .ok f =>
    let references := f.references.map Formula.Reference.text
    let warning := f.firstCallFault?.map Formula.CallFault.message
    if asJson then
      .printed files (Json.block (.mapping [("formula", .text f.text),
        ("refs", .list (references.map .text)),
        ("warning", (warning.map .text).getD .null)]) ++ "\n") ""
    else
      let shown :=
        if references.isEmpty then "" else "refs: " ++ ", ".intercalate references ++ "\n"
      .printed files (f.text ++ "\n" ++ shown)
        ((warning.map fun w => s!"warning: {w}\n").getD "")

/-- The log directory that a calculation names, itself or in its settings. -/
def logDirectory? (files : Files) (c : Calculation) : Option Path :=
  match (settings files c).toOption.bind Settings.logDirectory? with
  | some (.text directory) => some (.ofText directory)
  | _ => none

/-- The paths of the files that a command line reads. -/
def readPaths (words : List String) : List Path :=
  match Request.ofWords? words with
  | some (.evaluate c) => ([c.session, c.settings].filterMap id).map Path.ofText
  | _ => []

/-- The paths on a command line whose files matter. -/
def paths (words : List String) : List Path :=
  match Request.ofWords? words with
  | some (.evaluate c) =>
    let named := ([c.session, c.saveTo, c.settings].filterMap id).map Path.ofText
    named ++ named.map (·.child Settings.fileName)
  | _ => []

/-- Those that matter besides once the settings are known. -/
def logPaths (files : Files) (words : List String) : List Path :=
  match Request.ofWords? words with
  | some (.evaluate c) =>
    ((logDirectory? files c).map (·.child Log.Journal.fileName)).toList
  | _ => []

def run (files : Files) (words : List String) : Outcome :=
  match Request.ofWords? words with
  | none => .stopped files .usage
  | some .version => .printed files versionLine ""
  | some (.help topic) => .printed files topic.text ""
  | some (.evaluate c) => calculate files c
  | some (.parse formula asJson) => parse files formula asJson

end Spreadsheet.Command
