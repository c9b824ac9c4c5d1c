import Spreadsheet.Data.Calendar

/-! Times as the event log writes them: in UTC, with microseconds. -/
namespace Spreadsheet.Log

open Calendar (Day lastDigits clockText)

/-- The text of a time, given in microseconds since the beginning of 1970. -/
def timeText (micros : Nat) : String :=
  let seconds := micros / 1000000
  let clock := clockText (seconds / 3600 % 24) (seconds / 60 % 60) (seconds % 60)
  (Day.ofEpoch (seconds / 86400)).text ++ "T" ++ clock ++ "." ++ lastDigits 6 micros ++ "Z"

end Spreadsheet.Log
