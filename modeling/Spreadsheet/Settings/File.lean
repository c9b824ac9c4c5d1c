import Spreadsheet.Data.Yaml.Document
import Spreadsheet.Files
import Spreadsheet.Settings.Basic

/-! Settings from a YAML file. -/
namespace Spreadsheet.Settings

def fileName : String := "gridcalc.yaml"

/-- The file that a path means: in a directory the one with the usual name. -/
def fileAt (files : Files) (p : Path) : Path :=
  if files.isDirectory p then p.child fileName else p

/-- The settings of a file over the defaults. Without a file these are the defaults. -/
def load (files : Files) (path : Option Path) : Except Fault Settings :=
  match path.map (fileAt files) with
  | none => .ok defaults
  | some p =>
    match files.item? p with
    | none => .ok defaults
    | some .directory => .error (.directory p.text)
    | some (.text s) | some (.special s) =>
      match Yaml.parse s with
      | .error fault => .error (.unreadable p.text fault)
      | .ok read => overDefaults p.text read

end Spreadsheet.Settings
