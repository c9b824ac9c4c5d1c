import Spreadsheet.Text.Blank

/-! What the words of a command line ask for. -/
namespace Spreadsheet.Command

/-- A calculation of cells from a session file and from assignments. -/
structure Calculation where
  assignments : List String
  session : Option String
  saveTo : Option String
  settings : Option String
  logDirectory : Option String
  asJson : Bool

inductive Topic where
  | overview
  | evaluation
  | parsing
deriving DecidableEq, Repr

inductive Request where
  | version
  | help (topic : Topic)
  | evaluate (calculation : Calculation)
  | parse (formula : String) (asJson : Bool)

/-- Options by name, with whether a value follows them. -/
abbrev Options := List (String × Bool)

/-- The options on a command line in their order, with their values, and the other words. -/
structure Words where
  options : List (String × String)
  others : List String

def splitOption (word : String) : String × Option String :=
  let cs := word.toList
  let name := String.ofList (cs.takeWhile (· != '='))
  match cs.dropWhile (· != '=') with
  | [] => (name, none)
  | _ :: value => (name, some (String.ofList value))

def isOption (word : String) : Bool := word.toList.head? == some '-' && word != "-"

def Words.addOption (name value : String) (w : Words) : Words :=
  { w with options := (name, value) :: w.options }

def Words.addOther (word : String) (w : Words) : Words := { w with others := word :: w.others }

/-- Tells options from other words; none if an option is unknown, lacks its value or has one too many.
After two dashes nothing is an option, and in front of a command the options end with it. -/
def readWords (known : Options) (beforeCommand : Bool) : List String → Option Words
  | [] => some ⟨[], []⟩
  | "--" :: rest => some ⟨[], rest⟩
  | word :: rest =>
    if !isOption word then
      if beforeCommand then some ⟨[], word :: rest⟩
      else (readWords known beforeCommand rest).map (Words.addOther word)
    else
      match splitOption word with
      | (name, given) =>
        match known.lookup name, given, rest with
        | some false, none, rest =>
          (readWords known beforeCommand rest).map (Words.addOption name "")
        | some true, some value, rest =>
          (readWords known beforeCommand rest).map (Words.addOption name value)
        | some true, none, value :: rest =>
          (readWords known beforeCommand rest).map (Words.addOption name value)
        | _, _, _ => none

namespace Words

def has (name : String) (w : Words) : Bool := w.options.any (·.1 == name)

def all (name : String) (w : Words) : List String :=
  (w.options.filter (·.1 == name)).map Prod.snd

/-- The value of an option; of several the last one counts. -/
def last? (name : String) (w : Words) : Option String := (w.all name).getLast?

end Words

def overviewOptions : Options := [("--version", false), ("--help", false)]

def evaluationOptions : Options :=
  [("--set", true), ("--load", true), ("--save", true), ("--config", true), ("--log-dir", true),
    ("--json", false), ("--help", false)]

def parsingOptions : Options := [("--json", false), ("--help", false)]

def evaluation? (words : List String) : Option Request := do
  let w ← readWords evaluationOptions false words
  if w.has "--help" then return .help .evaluation
  if !w.others.isEmpty then none
  return .evaluate ⟨w.all "--set", w.last? "--load", w.last? "--save", w.last? "--config",
    w.last? "--log-dir", w.has "--json"⟩

def parsing? (words : List String) : Option Request := do
  let w ← readWords parsingOptions false words
  if w.has "--help" then return .help .parsing
  match w.others with
  | [formula] => return .parse formula (w.has "--json")
  | _ => none

/-- Reads a command line; none if it cannot be used. -/
def Request.ofWords? (words : List String) : Option Request := do
  let w ← readWords overviewOptions true words
  match w.options, w.others with
  | ("--version", _) :: _, _ => return .version
  | _ :: _, _ => return .help .overview
  | [], "eval" :: rest => evaluation? rest
  | [], "parse" :: rest => parsing? rest
  | [], _ => none

/-! ## Help -/

def versionLine : String := "gridcalc, version 0.1.0\n"

def Topic.text : Topic → String
  | .overview =>
    "Usage: gridcalc [OPTIONS] COMMAND [ARGS]...\n\n" ++
      "  gridcalc -- spreadsheet formula engine with incremental recalculation.\n\n" ++
      "Options:\n" ++
      "  --version  Show the version and exit.\n" ++
      "  --help     Show this message and exit.\n\n" ++
      "Commands:\n" ++
      "  eval   Load cell assignments, recalculate, and print every occupied cell.\n" ++
      "  parse  Parse FORMULA and print its canonical form and references.\n"
  | .evaluation =>
    "Usage: gridcalc eval [OPTIONS]\n\n" ++
      "  Load cell assignments, recalculate, and print every occupied cell.\n\n" ++
      "Options:\n" ++
      "  --set TEXT      Cell assignment as ADDRESS=CONTENT (repeatable).\n" ++
      "  --load FILE     Session file to start from; --set edits apply on top.\n" ++
      "  --save FILE     Write the resulting cells to this session file.\n" ++
      "  --config PATH   gridcalc.yaml or a directory holding one.\n" ++
      "  --log-dir PATH  Write NDJSON events under this directory.\n" ++
      "  --json          Output as JSON.\n" ++
      "  --help          Show this message and exit.\n"
  | .parsing =>
    "Usage: gridcalc parse [OPTIONS] FORMULA\n\n" ++
      "  Parse FORMULA and print its canonical form and references.\n\n" ++
      "Options:\n" ++
      "  --json  Output as JSON.\n" ++
      "  --help  Show this message and exit.\n"

end Spreadsheet.Command
