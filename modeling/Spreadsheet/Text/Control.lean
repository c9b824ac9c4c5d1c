/-! Control sequences, which tell a terminal how to show a text: an escape character and a bracket,
parameters, intermediate characters, and a final character. -/
namespace Spreadsheet.Text

def escapeChar : Char := '\x1b'

/-- Digits, and `:` `;` `<` `=` `>` `?`, stand first after the bracket. -/
def isParameter (c : Char) : Bool := '0' ≤ c && c ≤ '?'

/-- The blank and the marks before the digits stand after the parameters. -/
def isIntermediate (c : Char) : Bool := ' ' ≤ c && c ≤ '/'

/-- Letters, and the marks around them, end a sequence. -/
def isFinal (c : Char) : Bool := '@' ≤ c && c ≤ '~'

/-- The length of the sequence at the beginning of a text, or zero. -/
def controlLength (cs : List Char) : Nat :=
  match cs with
  | c :: '[' :: rest =>
    let parameters := rest.takeWhile isParameter
    let behind := rest.drop parameters.length
    let intermediates := behind.takeWhile isIntermediate
    let last := (behind.drop intermediates.length).head?
    if c == escapeChar && last.any isFinal then parameters.length + intermediates.length + 3 else 0
  | _ => 0

/-- Leaves out sequences, after so many characters of one that are to be left out yet. -/
def withoutControlsFrom (skipped : Nat) : List Char → List Char
  | [] => []
  | c :: cs =>
    match skipped, controlLength (c :: cs) with
    | skipped + 1, _ => withoutControlsFrom skipped cs
    | 0, length + 1 => withoutControlsFrom length cs
    | 0, 0 => c :: withoutControlsFrom 0 cs

/-- A text without its sequences. What comes together when they are left out is none. -/
def withoutControls (cs : List Char) : List Char := withoutControlsFrom 0 cs

end Spreadsheet.Text
