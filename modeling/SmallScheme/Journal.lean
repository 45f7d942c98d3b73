/-!
The journal of a run: reports with a severity. Reports below the journal's threshold are not kept.
-/

set_option autoImplicit false
set_option relaxedAutoImplicit false

namespace SmallScheme

inductive Severity where
  | debug
  | info
  | warning
  | error
  | critical
  deriving DecidableEq, Repr

namespace Severity

def rank : Severity → Nat
  | .debug => 10
  | .info => 20
  | .warning => 30
  | .error => 40
  | .critical => 50

def name : Severity → String
  | .debug => "DEBUG"
  | .info => "INFO"
  | .warning => "WARNING"
  | .error => "ERROR"
  | .critical => "CRITICAL"

end Severity

structure Report where
  severity : Severity
  message : String
  deriving DecidableEq, Repr

structure Journal where
  threshold : Nat
  reports : Array Report

namespace Journal

def empty (threshold : Nat) : Journal :=
  ⟨threshold, #[]⟩

def add (j : Journal) (r : Report) : Journal :=
  if j.threshold ≤ r.severity.rank then { j with reports := j.reports.push r } else j

def thresholds : List (String × Nat) :=
  [("NOTSET", 0), ("DEBUG", 10), ("INFO", 20), ("WARN", 30), ("WARNING", 30), ("ERROR", 40),
    ("CRITICAL", 50), ("FATAL", 50)]

/-- A letter in upper case, as far as the names of thresholds need it: the Latin letters, and the two
letters outside their range whose upper case lies in it. -/
def upper (c : Char) : Char :=
  if c = Char.ofNat 0x131 then 'I'
  else if c = Char.ofNat 0x17F then 'S'
  else c.toUpper

/-- The threshold of a name in any case; a name that is unknown or missing stands for warnings. -/
def thresholdOf (name : Option String) : Nat :=
  let wanted := String.ofList ((name.getD "").toList.map upper)
  ((thresholds.find? (·.1 = wanted)).map Prod.snd).getD Severity.warning.rank

end Journal

end SmallScheme
