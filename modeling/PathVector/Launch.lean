import PathVector.CommandLine
import PathVector.Dispatcher

/-! Launching a router from the command line: what is printed, what is logged and where, and the
router if one runs. -/
namespace PathVector

inductive LogTarget where
  | output
  | terminal
  | file (path : String)
deriving DecidableEq

structure Log where
  target : LogTarget
  events : List Event := []

/-- A launch that ends at once has an exit code. -/
structure Launch where
  code : Option Nat := none
  output : String := ""
  complaint : String := ""
  log : Option Log := none
  router : Option Router := none

namespace Launch

/-- The text of a failure and its cause. -/
def failure (context cause : String) : String := s!"Error: {context}\n\nCaused by:\n    {cause}\n"

def ofStop : Stop → Launch
  | .help => { code := some 0, output := CommandLine.help }
  | .version => { code := some 0, output := CommandLine.version }
  | .refused e => { code := some 2, complaint := e.message }

def target (s : Settings) : LogTarget :=
  match s.logFile, s.format with
  | some path, _ => .file path
  | none, .records => .output
  | none, .terminal => .terminal

/-- The file for the log is made before anything is logged; `fault` tells why a path cannot be
written. -/
def start (fault : String → Option String) (t : Transport) (s : Settings) : Launch :=
  match s.logFile.bind fun path => (fault path).map fun reason => (path,reason) with
  | some (path,reason) =>
    { code := some 1, complaint := failure s!"create log file {path}" reason }
  | none =>
    let o := Dispatcher.start t s.config
    let events := s.config.neighbors.map .configured++o.actions.filterMap Action.event?
    match o.error with
    | some e =>
      { code := some 1
        complaint := failure "router startup" e.message
        log := some ⟨target s,events⟩ }
    | none => { log := some ⟨target s,events⟩, router := some o.router }

def ofArguments (fault : String → Option String) (t : Transport) (args : List String) : Launch :=
  match CommandLine.parse args with
  | .ok s => start fault t s
  | .error stop => ofStop stop

end Launch

namespace Transport

/-- Links to ports of this host. Nothing is known of what is sent on them. -/
def sockets : Transport where
  opened n := [.link .socket n.address (.opened n.port)]

end Transport
end PathVector
