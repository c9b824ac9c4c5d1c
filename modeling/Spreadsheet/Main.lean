import Spreadsheet.Command.Run
import Spreadsheet.Log.Time
import Std.Time.DateTime.Timestamp

/-! The command line program. It looks at the files that the command line names, runs the command on
them, and writes what the command leaves behind. -/
namespace Spreadsheet.Program

/-- Adds what there is at a path whose directories were looked at. A file that cannot be read as text
counts as empty. A special file is read only if the command reads it, since that may wait for input. -/
def lookAt (reads : List Path) (files : Files) (p : Path) : IO Files := do
  let .ok place := files.place p | return files
  let here := (← IO.currentDir) / p.text
  if ← here.isDir then return { files with directories := place :: files.directories }
  if ← here.pathExists then
    let isSpecial := (← here.metadata).type == .other
    let text ←
      if isSpecial && !reads.contains p then pure ""
      else try IO.FS.readFile p.text catch _ => pure ""
    if isSpecial then return { files with specials := (place, text) :: files.specials }
    return { files with texts := (place, text) :: files.texts }
  return files

/-- Adds what there is on the way to a path and at it. -/
def look (reads : List Path) (files : Files) (p : Path) : IO Files :=
  p.leading.foldlM (lookAt reads) files

/-- Appends to a file that other processes may be writing to as well. -/
def append (p : Path) (text : String) : IO Unit :=
  IO.FS.withFile p.text .append fun file => do
    file.lock
    file.putStr text
    file.flush
    file.unlock

def makeDirectories (before after : Files) : IO Unit := do
  for directory in after.directories do
    unless before.directories.contains directory do IO.FS.createDirAll directory.text

/-- Milliseconds with three places, as data. -/
def milliseconds (nanoseconds : Nat) : Datum :=
  .float (Number.Decimal.mk false (nanoseconds / 1000) (-3)).toBinary

def run (words : List String) : IO UInt32 := do
  let look := look (Command.readPaths words)
  let named ← (Command.paths words).foldlM look .empty
  let files ← (Command.logPaths named words).foldlM look named
  let started ← IO.monoNanosNow
  let outcome ← IO.lazyPure fun _ => Command.run files words
  let elapsed := (← IO.monoNanosNow) - started
  let now ← Std.Time.Timestamp.now
  let time := Log.timeText (now.toNanosecondsSinceUnixEpoch.toInt.toNat / 1000)
  try
    makeDirectories files outcome.files
    if let some journal := outcome.journal then
      unless outcome.events.isEmpty do
        append journal (outcome.journalText time (some (milliseconds elapsed)))
    if let some (p, text) := outcome.saved then
      IO.FS.writeFile p.text text
  catch e =>
    IO.eprintln s!"Error: {e}"
    return 1
  IO.print (outcome.printedOut (← (← IO.getStdout).isTty))
  IO.eprint (outcome.printedErr (← (← IO.getStderr).isTty))
  return outcome.exitCode.toUInt32

end Spreadsheet.Program

def main (words : List String) : IO UInt32 := Spreadsheet.Program.run words
