import SmallScheme.CommandLine.Integer
import SmallScheme.CommandLine.Usage
import SmallScheme.Session
import SmallScheme.Text.Quoted

/-!
Reading the arguments of the command line. Each argument is first classified as a flag, an unknown
flag, the mark that ends the flags, or an operand. Then the flags take their values and the first
unbroken row of operands names the files; what is left over is refused.
-/

set_option autoImplicit false
set_option relaxedAutoImplicit false

namespace SmallScheme.CommandLine

inductive Flag where
  | help
  | expression
  | prompt
  | continuationPrompt
  | recursionLimit
  deriving DecidableEq, Repr

namespace Flag

def spellings : List (String × Flag) :=
  [("-h", .help), ("--help", .help), ("-e", .expression), ("--eval", .expression),
    ("--prompt", .prompt), ("--continuation-prompt", .continuationPrompt),
    ("--recursion-limit", .recursionLimit)]

/-- The flag with exactly that spelling. -/
def ofSpelling? (text : String) : Option Flag :=
  (spellings.find? (·.1 = text)).map Prod.snd

def title (flag : Flag) : String :=
  "/".intercalate ((spellings.filter (·.2 = flag)).map Prod.fst)

def takesValue : Flag → Bool
  | .help => false
  | _ => true

end Flag

/-- A flag as it is given: its full spelling and a value in the same argument. -/
structure GivenFlag where
  flag : Flag
  spelling : String
  attached : Option String
  deriving DecidableEq, Repr

/-- An argument by its role. -/
inductive Argument where
  | operand (text : String)
  /-- The mark after which everything is an operand. -/
  | endOfFlags
  | given (flag : GivenFlag)
  | unknown (text : String)
  deriving DecidableEq, Repr

inductive Complaint where
  | ambiguous (argument : String) (spellings : List String)
  | missingValue (flag : Flag)
  | ignoredValue (flag : Flag) (value : String)
  | notInteger (flag : Flag) (value : String)
  | unrecognized (arguments : List String)
  deriving DecidableEq, Repr

def Complaint.message : Complaint → String
  | .ambiguous argument spellings =>
      let matching := ", ".intercalate spellings
      s!"ambiguous option: {argument} could match {matching}"
  | .missingValue flag => s!"argument {flag.title}: expected one argument"
  | .ignoredValue flag value =>
      s!"argument {flag.title}: ignored explicit argument {Text.Quoted.quote value}"
  | .notInteger flag value =>
      s!"argument {flag.title}: invalid int value: {Text.Quoted.quote value}"
  | .unrecognized arguments =>
      let texts := " ".intercalate arguments
      s!"unrecognized arguments: {texts}"

/-- The part of an argument before its first equals sign and the value after it. -/
def splitEquals (argument : String) : String × Option String :=
  let text := argument.toList
  match text.dropWhile (· != '=') with
  | [] => (argument, none)
  | _ :: value => (String.ofList (text.takeWhile (· != '=')), some (String.ofList value))

/-- The flags that a long spelling, up to an equals sign, is the beginning of. -/
def longCandidates (argument : String) : List GivenFlag :=
  let (name, attached) := splitEquals argument
  (Flag.spellings.filter (name.toList.isPrefixOf ·.1.toList)).map fun (spelling, flag) =>
    ⟨flag, spelling, attached⟩

/-- The flags that a short spelling stands for: one of two characters with its value right behind
it, or one that starts with the whole argument. -/
def shortCandidates (argument : String) : List GivenFlag :=
  let text := argument.toList
  Flag.spellings.filterMap fun (spelling, flag) =>
    if spelling.toList = text.take 2 then
      some ⟨flag, spelling, some (String.ofList (text.drop 2))⟩
    else if text.isPrefixOf spelling.toList then some ⟨flag, spelling, none⟩
    else none

/-- The role of an argument that starts with a dash and is no exact spelling of a flag. -/
def classifyDashed (argument : String) (candidates : List GivenFlag) :
    Except Complaint Argument :=
  match candidates with
  | [flag] => .ok (.given flag)
  | _ :: _ :: _ => .error (.ambiguous argument (candidates.map (·.spelling)))
  | [] =>
      if looksNegative argument || argument.toList.contains ' ' then .ok (.operand argument)
      else .ok (.unknown argument)

/-- The role of an argument before the end of the flags. -/
def classify (argument : String) : Except Complaint Argument :=
  match argument.toList with
  | '-' :: second :: _ =>
      match Flag.ofSpelling? argument with
      | some flag => .ok (.given ⟨flag, argument, none⟩)
      | none =>
          let (name, attached) := splitEquals argument
          match attached, Flag.ofSpelling? name with
          | some value, some flag => .ok (.given ⟨flag, name, some value⟩)
          | _, _ =>
              classifyDashed argument
                (if second = '-' then longCandidates argument else shortCandidates argument)
  | _ => .ok (.operand argument)

def classifyAll : List String → Except Complaint (List Argument)
  | [] => .ok []
  | argument :: rest =>
      if argument = "--" then .ok (.endOfFlags :: rest.map .operand)
      else do
        let role ← classify argument
        return role :: (← classifyAll rest)

/-- What a flag is set to: nothing if it is not given, and no value if it is given with the mark that
ends the flags in place of its value. -/
inductive Setting (α : Type) where
  | unset
  | empty
  | value (a : α)

structure Options where
  files : List String := []
  expression : Setting String := .unset
  prompts : Prompts := {}
  recursionLimit : Setting Int := .unset

/-- Where the row of files stands: not begun, going on, or over. -/
inductive Row where
  | ahead
  | open
  | over
  deriving DecidableEq, Repr

structure Taken where
  options : Options := {}
  row : Row := .ahead
  leftOver : List String := []

namespace Taken

def atFlag (t : Taken) : Taken :=
  if t.row = .open then { t with row := .over } else t

def operand (t : Taken) (text : String) : Taken :=
  if t.row = .over then { t with leftOver := t.leftOver ++ [text] }
  else { t with row := .open, options := { t.options with files := t.options.files ++ [text] } }

/-- The end of the flags belongs to the row of files without being one. -/
def endOfFlags (t : Taken) : Taken :=
  if t.row = .over then { t with leftOver := t.leftOver ++ ["--"] } else { t with row := .open }

def unknown (t : Taken) (text : String) : Taken :=
  { t.atFlag with leftOver := t.leftOver ++ [text] }

end Taken

/-- The value of a flag is stored; a later one replaces an earlier one. -/
def Options.set (o : Options) (flag : Flag) (value : String) : Except Complaint Options :=
  match flag with
  | .help => .ok o
  | .expression => .ok { o with expression := .value value }
  | .prompt => .ok { o with prompts := { o.prompts with fresh := value } }
  | .continuationPrompt => .ok { o with prompts := { o.prompts with continued := value } }
  | .recursionLimit =>
      match integer? value with
      | some n => .ok { o with recursionLimit := .value n }
      | none => .error (.notInteger .recursionLimit value)

def emptyPrompt : String := "[]"

/-- A flag without a value is stored as such; prompts show that they are empty. -/
def Options.setEmpty (o : Options) : Flag → Options
  | .help => o
  | .expression => { o with expression := .empty }
  | .prompt => { o with prompts := { o.prompts with fresh := emptyPrompt } }
  | .continuationPrompt => { o with prompts := { o.prompts with continued := emptyPrompt } }
  | .recursionLimit => { o with recursionLimit := .empty }

/-- The value in a flag's own argument is stored; the mark that ends the flags is no value. -/
def Options.setAttached (o : Options) (flag : Flag) (value : String) : Except Complaint Options :=
  if value = "--" then .ok (o.setEmpty flag) else o.set flag value

/-- What has to be done about the help flag with characters attached to its short spelling. -/
inductive Cluster where
  /-- The help flag counts. -/
  | help
  /-- The last flag of the row needs a value from the next argument. -/
  | wanting (flag : Flag)
  | refused (complaint : Complaint)

/-- Short flags written in one argument, after a help flag. -/
def cluster : List Char → Cluster
  | [] => .help
  | c :: rest =>
      match Flag.ofSpelling? (String.ofList ['-', c]) with
      | some .help => cluster rest
      | some flag => if rest.isEmpty then .wanting flag else .help
      | none => .refused (.ignoredValue .help (String.ofList (c :: rest)))

def helpCluster (given : GivenFlag) (value : String) : Cluster :=
  if given.spelling.length = 2 && value != "" then cluster value.toList
  else .refused (.ignoredValue .help value)

inductive Request where
  | help
  | run (options : Options)

/-- Take the arguments one after the other. Help ends the reading at once. -/
def take (t : Taken) : List Argument → Except Complaint Request
  | [] =>
      if t.leftOver.isEmpty then .ok (.run t.options) else .error (.unrecognized t.leftOver)
  | .operand text :: rest => take (t.operand text) rest
  | .endOfFlags :: rest => take t.endOfFlags rest
  | .unknown text :: rest => take (t.unknown text) rest
  | .given given :: rest =>
      if given.flag.takesValue then
        match given.attached with
        | some value => do
            let options ← t.options.setAttached given.flag value
            take { t.atFlag with options } rest
        | none =>
            match rest with
            | .operand value :: rest => do
                let options ← t.options.set given.flag value
                take { t.atFlag with options } rest
            | _ => .error (.missingValue given.flag)
      else
        match given.attached.map (helpCluster given) with
        | some (.refused complaint) => .error complaint
        | some (.wanting flag) =>
            match rest with
            | .operand _ :: _ => .ok .help
            | _ => .error (.missingValue flag)
        | _ => .ok .help

/-- What the arguments ask for, or why they are refused. -/
def parse (arguments : List String) : Except Complaint Request := do
  take {} (← classifyAll arguments)

end SmallScheme.CommandLine
