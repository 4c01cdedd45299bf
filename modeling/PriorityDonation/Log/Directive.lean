import PriorityDonation.Log.Level
import PriorityDonation.Text.Words

/-!
# Level directives on a command line

A word of the form `log=LEVEL` or `loglevel=LEVEL` sets the log level. The first word that does so
counts. A directive whose value names no level is passed over, as is every other word, because the
line is shared with other readers.
-/

namespace PriorityDonation.Level

/-- The level that one word sets, if it is a well-formed directive. -/
def ofDirective? (word : List Char) : Option Level :=
  match word.span (· != '=') with
  | (key, '=' :: value) =>
      if key.map Char.toLower = "log".toList ∨ key.map Char.toLower = "loglevel".toList then
        ofWord? value
      else none
  | _ => none

def ofCommandLine? (line : String) : Option Level :=
  (Text.words line.toList).findSome? ofDirective?

example : ofDirective? "LogLevel=Warning".toList = some .warn := by decide
example : ofDirective? "log=info=1".toList = none := by decide

end PriorityDonation.Level
