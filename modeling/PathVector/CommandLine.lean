import PathVector.Config
import PathVector.Integer64
import PathVector.Text.Plain
import PathVector.Text.Similarity

/-! The command line: the number of the router, its neighbors, and options for its log. Arguments
are taken from the left. The values of an argument are looked at when the next argument starts, so
an unknown argument right behind a bad value is reported in its place. -/
namespace PathVector

inductive LogFormat where
  | records | terminal
deriving DecidableEq, Repr

namespace LogFormat

def text : LogFormat → String
  | records => "bunyan"
  | terminal => "term"

def all : List LogFormat := [records,terminal]

def ofText? (s : String) : Option LogFormat := all.find? fun f => f.text = s

end LogFormat

structure Settings where
  config : RouterConfig
  format : LogFormat := .records
  /-- Takes the records in place of standard output. -/
  logFile : Option String := none

inductive Argument where
  | asn | neighbors | logFormat | logFile | help | version
deriving DecidableEq, Repr

namespace Argument

/-- Arguments that are given by name, in the order of declaration. -/
def named : List (String × Argument) :=
  [("log-format",logFormat),("log-file",logFile),("help",help),("version",version)]

def text : Argument → String
  | asn => "<ASN>"
  | neighbors => "<NEIGHBORS>..."
  | logFormat => "--log-format <LOG_FORMAT>"
  | logFile => "--log-file <LOG_FILE>"
  | help => "--help"
  | version => "--version"

def required : List Argument := [asn,neighbors]

/-- The arguments that have values. -/
def valued : List Argument := [asn,neighbors,logFormat,logFile]

/-- The text of an argument in a list of alternatives. -/
def bareText : Argument → String
  | asn => "ASN"
  | neighbors => "NEIGHBORS"
  | a => a.text

/-- The texts that the argument can have, if only these. -/
def choices : Argument → List String
  | logFormat => LogFormat.all.map LogFormat.text
  | _ => []

end Argument

inductive UsageError where
  | missing (arguments used : List Argument)
  | unexpected (name : String) (similar : Option String) (used : List Argument)
  | unexpectedValue (value : String) (argument : Argument) (used : List Argument)
  | repeated (argument : Argument)
  | noValue (argument : Argument)
  | unknownChoice (value : String) (argument : Argument)
  | invalidValue (value : String) (argument : Argument) (reason : String)
deriving DecidableEq

namespace UsageError

private def bracketed (choices : List String) : String :=
  if choices.isEmpty then "" else
    let texts := ", ".intercalate choices
    s!"\n  [possible values: {texts}]"

private def required : String := " ".intercalate (Argument.required.map Argument.text)

def usageLine (words : String) : String := s!"\n\nUsage: pvrd {words}"

/-- The usage of the command with the options that are in use. -/
def usage (used : List Argument) : String :=
  let options := used.filter (· ∉ Argument.required)
  usageLine (" ".intercalate (options.map Argument.text++[required]))

def generalUsage : String := usageLine s!"[OPTIONS] {required}"

def usageOf (used : List Argument) : String := if used.isEmpty then generalUsage else usage used

/-- The usage of an argument without a value. If others are in use it stands beside any of them. -/
def usageBeside (argument : Argument) (used : List Argument) : String :=
  if used.isEmpty then usage [argument]
  else
    let others := "|".intercalate (Argument.valued.map Argument.bareText)
    usageLine s!"{argument.text} <{others}>"

/-- What users wrote is emphasized, but not within a reason. -/
def headline : UsageError → String
  | missing arguments used =>
    let lines := String.join (arguments.map fun a => s!"\n  {a.text}")
    s!"the following required arguments were not provided:{lines}{usage used}"
  | unexpected name similar used =>
    let value := Text.emphasized s!"-- {name}"
    let name := Text.emphasized name
    let tip := match similar with
      | some s => s!"a similar argument exists: '{s}'"
      | none => s!"to pass '{name}' as a value, use '{value}'"
    s!"unexpected argument '{name}' found\n\n  tip: {tip}{usageOf used}"
  | unexpectedValue value argument used =>
    let value := Text.emphasized value
    let usage := usageBeside argument used
    s!"unexpected value '{value}' for '{argument.text}' found; no more were expected{usage}"
  | repeated argument =>
    s!"the argument '{argument.text}' cannot be used multiple times{generalUsage}"
  | noValue argument =>
    s!"a value is required for '{argument.text}' but none was supplied{bracketed argument.choices}"
  | unknownChoice value argument =>
    let tip := match Text.mostSimilar? value argument.choices with
      | some choice => s!"\n\n  tip: a similar value exists: '{choice}'"
      | none => ""
    let value := Text.emphasized value
    s!"invalid value '{value}' for '{argument.text}'{bracketed argument.choices}{tip}"
  | invalidValue value argument reason =>
    let value := Text.emphasized value
    s!"invalid value '{value}' for '{argument.text}': {reason}"

/-- A control sequence left open in a reason takes along what follows up to the next emphasis. -/
def message (e : UsageError) : String :=
  let help := Text.emphasized Argument.help.text
  Text.plain s!"error: {e.headline}\n\nFor more information, try '{help}'.\n"

end UsageError

/-- What to do instead of starting. -/
inductive Stop where
  | help
  | version
  | refused (error : UsageError)
deriving DecidableEq

namespace CommandLine

def version : String := "pvrd 0.1.0\n"

def help : String := "Path vector router

Usage: pvrd [OPTIONS] <ASN> <NEIGHBORS>...

Arguments:
  <ASN>           Autonomous system number for this router
  <NEIGHBORS>...  Neighbors as <port>-<address>-<relationship>, where relationship is one of cust, peer or prov

Options:
      --log-format <LOG_FORMAT>  Log record format [default: bunyan] [possible values: bunyan, term]
      --log-file <LOG_FILE>      Write bunyan records to this file instead of stdout
  -h, --help                     Print help
  -V, --version                  Print version
"

/-- The arguments taken so far. -/
structure Progress where
  asn : Option UInt32 := none
  neighbors : List NeighborConfig := []
  format : LogFormat := .records
  logFile : Option String := none
  /-- The arguments whose values were looked at. -/
  used : List Argument := []
  /-- The argument that takes values by position. -/
  position : Argument := .asn
  /-- An argument whose values were not looked at. -/
  pending : Option (Argument × List String) := none

namespace Progress

def parseAsn (s : String) : Except UsageError UInt32 :=
  match Integer64.parse s with
  | .error fault => .error (.invalidValue s .asn fault.message)
  | .ok n =>
    if 0 ≤ n ∧ n < UInt32.size then .ok n.toNat.toUInt32
    else .error (.invalidValue s .asn s!"{n} is not in 0..=4294967295")

def parseNeighbor (s : String) : Except UsageError NeighborConfig :=
  (NeighborConfig.parse s).mapError fun e => .invalidValue s .neighbors e.message

def parseFormat (s : String) : Except UsageError LogFormat :=
  match LogFormat.ofText? s with
  | some f => .ok f
  | none => .error (if s.isEmpty then .noValue .logFormat else .unknownChoice s .logFormat)

/-- Take the values of an argument. -/
def assign (p : Progress) (a : Argument) (values : List String) : Except UsageError Progress :=
  match a, values with
  | .asn, [v] => return { p with asn := ← parseAsn v }
  | .neighbors, vs => return { p with neighbors := p.neighbors++(← vs.mapM parseNeighbor) }
  | .logFormat, [v] => return { p with format := ← parseFormat v }
  | .logFile, [v] =>
    if v.isEmpty then .error (.noValue .logFile) else .ok { p with logFile := some v }
  | a, _ => .error (.noValue a)

/-- An argument with its values, and what was wrong with them. An argument that is refused as
repeated is not in use any more. -/
def give (p : Progress) (a : Argument) (values : List String) : Progress × Option UsageError :=
  if values.isEmpty then (p,some (.noValue a))
  else if a ∈ p.used ∧ a ≠ .neighbors then ({ p with used := p.used.erase a },some (.repeated a))
  else
    let p := if a ∈ p.used then p else { p with used := p.used++[a] }
    match p.assign a values with
    | .ok q => (q,none)
    | .error e => (p,some e)

/-- Look at the pending values. -/
def settle (p : Progress) : Progress × Option UsageError :=
  match p.pending with
  | none => (p,none)
  | some (a,values) => give { p with pending := none } a values

def settled (p : Progress) : Except Stop Progress :=
  match p.settle with
  | (p,none) => .ok p
  | (_,some e) => .error (.refused e)

/-- A value that stands by itself. -/
def positional (p : Progress) (value : String) : Except Stop Progress :=
  match p.pending with
  | some (.neighbors,values) => .ok { p with pending := some (.neighbors,values++[value]) }
  | _ => do
    let p ← p.settled
    return { p with pending := some (p.position,[value]), position := .neighbors }

/-- No argument has this name. -/
def unknown (p : Progress) (name : String) (similar : Option Argument) : Stop :=
  let q := p.settle.1
  .refused (.unexpected name (similar.map fun a => a.text.takeWhile (· ≠ ' ') |>.toString)
    (match similar with
      | some a => if a ∈ q.used then q.used else q.used++[a]
      | none => q.used))

/-- An argument by its name, perhaps with a value behind an equals sign. -/
def long (p : Progress) (name : String) (value : Option String) : Except Stop Progress :=
  match Argument.named.lookup name with
  | none =>
    let similar := Text.mostSimilar? name (Argument.named.map (·.1))
    .error (p.unknown s!"--{name}" (similar.bind (Argument.named.lookup ·)))
  | some a =>
    if a = .help ∨ a = .version then
      match value with
      | some v => .error (.refused (.unexpectedValue v a p.used))
      | none => do
        let _ ← p.settled
        .error (if a = .help then .help else .version)
    else do
      let p ← p.settled
      match value with
      | none => return { p with pending := some (a,[]) }
      | some v =>
        match p.give a [v] with
        | (q,none) => return q
        | (_,some e) => .error (.refused e)

/-- An argument by a letter. -/
def short (p : Progress) (letter : Char) : Except Stop Progress :=
  if letter = 'h' ∨ letter = 'V' then do
    let _ ← p.settled
    .error (if letter = 'h' then .help else .version)
  else .error (.refused (.unexpected s!"-{letter}" none []))

/-- A value for the argument before it, which has none yet, or else one by position. -/
def value (p : Progress) (v : String) : Except Stop Progress :=
  match p.pending with
  | some (a,[]) => .ok { p with pending := some (a,[v]) }
  | _ => p.positional v

def step (p : Progress) (arg : String) : Except Stop Progress :=
  match arg.toList with
  | '-' :: '-' :: name =>
    match cut? '=' name with
    | some (name,v) => p.long (String.ofList name) (some (String.ofList v))
    | none => p.long (String.ofList name) none
  | '-'::c::_ => p.short c
  | _ => p.value arg

/-- After two dashes all arguments are values by position. -/
def run (p : Progress) : List String → Except Stop Progress
  | [] => p.settled
  | "--"::args => do (← args.foldlM positional p).settled
  | arg::args => do run (← p.step arg) args

def settings (p : Progress) : Except Stop Settings :=
  match p.asn, p.neighbors with
  | some asn, n::ns => .ok ⟨⟨asn,n::ns⟩,p.format,p.logFile⟩
  | _, _ => .error (.refused (.missing (Argument.required.filter (· ∉ p.used)) p.used))

end Progress

def parse (args : List String) : Except Stop Settings := do (← ({} : Progress).run args).settings

end CommandLine
end PathVector
