import RuleAudit.Report.Model

/-!
# Reports for readers

A summary opens with the count of tests; each failing rule and each failing fix test has a block of
its own, and lists of configs follow.
-/

namespace RuleAudit

/-! ## Colours -/

/-- The colours of marks and labels. -/
inductive Colour where
  | red
  | green
  | yellow
  deriving DecidableEq, Repr

/-- The number of a colour on a terminal. -/
def Colour.code : Colour → Text
  | .red => ['3', '1']
  | .green => ['3', '2']
  | .yellow => ['3', '3']

/-- A text in bold and in a colour, or as it is. -/
def painted (colour : Bool) (c : Colour) (s : Text) : Text :=
  if colour then
    "\x1b[1m\x1b[".toList ++ c.code ++ ['m'] ++ s ++ "\x1b[39m\x1b[0m".toList
  else s

def crossMark (colour : Bool) : Text := painted colour .red ['✖']

def tickMark (colour : Bool) : Text := painted colour .green ['✓']

/-! ## Blocks -/

/-- The line between sections. -/
def dashes : Text := List.replicate 80 '-'

/-- The lines of a comparison in words. -/
def LineComparison.inWords (m : LineComparison) : Text :=
  "expected lines: ".toList ++ Text.ofNats m.expected ++ ", reported lines: ".toList ++
    Text.ofNats m.reported

/-- The block of a rule. -/
def checkBlock (rule : Text) (check : RuleVerdict) (colour : Bool) : Text :=
  '\t' :: crossMark colour ++ ' ' :: Text.padRight 60 rule ++ ' ' ::
    List.intercalate "\t\n".toList (check.files.values.map LineComparison.inWords) ++
    " \n\ttest file path: ".toList ++ List.intercalate [' '] check.files.keys ++ "\n\n".toList

def fixBlock (o : GoldenVerdict) (colour : Bool) : Text :=
  '\t' :: crossMark colour ++ ' ' :: o.case.golden.display ++ " <> ".toList ++ o.case.target.display ++
    " \n\n\t".toList ++ List.intercalate "\n\t".toList o.diff ++ "\n\n\n".toList

/-- A section with a heading and one item a line; none without items. -/
def listSection (heading : String) (items : List Text) : Text :=
  if items.isEmpty then []
  else
    dashes ++ '\n' :: heading.toList ++ ":\n\t".toList ++ List.intercalate "\n\t".toList items ++
      ['\n']

namespace Report

/-- The count of tests, with a block for each failing rule. -/
def testSection (r : Report) (colour : Bool) : Text :=
  let t := r.tally
  let count := Text.ofNat t.passed ++ '/' :: Text.ofNat t.total ++ ": ".toList
  if t.total = 0 then "No unit tests found.\n".toList
  else if t.failed = 0 then count ++ tickMark colour ++ " All tests passed\n".toList
  else
    count ++ Text.ofNat t.failed ++ " unit tests did not pass:\n".toList ++ dashes ++ '\n' ::
      ((r.checks.filter fun c => !c.2.passed).map fun c => checkBlock c.1 c.2 colour).flatten

/-- The failing fix tests, or the word that there are none. -/
def fixSection (outcomes : List GoldenVerdict) (colour : Bool) : Text :=
  match outcomes.filter fun o => !o.passed with
  | [] => tickMark colour ++ " All fix tests passed!\n".toList
  | failed =>
    "The following fix tests did not pass:\n".toList ++ dashes ++ '\n' ::
      (failed.map fun o => fixBlock o colour).flatten

/-- The text of a report and its fix tests. -/
def summary (r : Report) (outcomes : List GoldenVerdict) (colour : Bool) : Text :=
  r.testSection colour ++ fixSection outcomes colour ++
    listSection "The following config files have no tests" r.missingTests ++
    listSection "The following config files declare a fix but have no fixtest" r.missingGolden ++
    listSection "The following config files produced errors"
      (r.errors.map fun e => e.config ++ ": ".toList ++ e.error)

end Report

end RuleAudit
