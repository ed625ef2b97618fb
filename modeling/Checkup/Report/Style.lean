/-!
# The style of reports

Colours are control sequences around text; lists and arguments have one form in
all reports.

* `Report.heading`, `Report.status` and the colours.
* `Report.listing`, `Report.arguments` — names and arguments in a line.
-/

namespace Checkup.Report

/-- Text between two control sequences, given by their numbers. -/
def styled (start stop : String) (text : String) : String :=
  "\x1b[" ++ start ++ "m" ++ text ++ "\x1b[" ++ stop ++ "m"

/-- Text in green. -/
def green : String → String := styled "32" "39"

/-- Text in red. -/
def red : String → String := styled "31" "39"

/-- Text in yellow. -/
def yellow : String → String := styled "33" "39"

/-- Text that stands back. -/
def dimmed : String → String := styled "2" "0"

/-- The heading of a section, bold and underlined. -/
def heading (title : String) : String := styled "4" "0" (styled "1" "0" title)

/-- Whether something ended well. -/
def status (success : Bool) : String := if success then green "Success" else red "Failure"

/-- Names with commas between them, or a dash if there are none. -/
def listing (names : List String) : String :=
  if names.isEmpty then "-" else ", ".intercalate names

/-- Arguments with blanks between them. -/
def arguments (args : List String) : String :=
  if args.isEmpty then "(none)" else " ".intercalate args

end Checkup.Report
