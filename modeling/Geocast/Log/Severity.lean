/-!
# Log records

A record has a severity and a text. Severities have a long name, a name of four letters, which log
files show, and a word for record lists. Settings may write a severity with the beginning of one of
its names.
-/
namespace Geocast

inductive Severity where
  | critical
  | error
  | warning
  | info
  | debug
  | trace
  deriving DecidableEq, Repr

namespace Severity

/-- All severities, the gravest first. -/
def all : List Severity := [critical, error, warning, info, debug, trace]

def name : Severity → String
  | critical => "CRITICAL"
  | error => "ERROR"
  | warning => "WARNING"
  | info => "INFO"
  | debug => "DEBUG"
  | trace => "TRACE"

/-- The name of four letters. -/
def shortName : Severity → String
  | critical => "CRIT"
  | error => "ERRO"
  | warning => "WARN"
  | info => "INFO"
  | debug => "DEBG"
  | trace => "TRCE"

/-- The word in lists of records. -/
def word : Severity → String
  | critical => "CRITICAL"
  | error => "ERROR"
  | warning => "WARN"
  | info => "INFO"
  | debug => "DEBUG"
  | trace => "TRACE"

/-- Gravest severities have the least rank. -/
def rank : Severity → Nat
  | critical => 0
  | error => 1
  | warning => 2
  | info => 3
  | debug => 4
  | trace => 5

/-- Whether the severity is at least as grave as a threshold. -/
def reaches (s threshold : Severity) : Bool := s.rank ≤ threshold.rank

/-- The names that a severity can be written with, the long ones before the short ones. Under the
name `OFF` there is no severity. -/
def spellings : List (String × Option Severity) :=
  let listed (spell : Severity → String) := ("OFF", none) :: all.map fun s => (spell s, some s)
  listed name ++ listed shortName

/-- The severity that a text names, in any case. The beginning of a name is enough; the first name
that begins with the text counts. -/
def named? (text : String) : Option Severity :=
  if text.isEmpty then none
  else
    let upper := (text.map Char.toUpper).toList
    (spellings.find? fun spelling => upper.isPrefixOf spelling.1.toList).bind (·.2)

end Severity

structure LogRecord where
  severity : Severity
  text : String
  deriving DecidableEq, Repr

/-- A record in a list of records: the word for its severity, then its text. -/
def LogRecord.display (r : LogRecord) : String := r.severity.word ++ " " ++ r.text

end Geocast
