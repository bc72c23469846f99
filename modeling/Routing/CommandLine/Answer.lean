import Routing.CommandLine.Arguments
import Routing.Document.Build
import Routing.Files.Access
/-!
# Answers of the command line

What the program prints and returns, in any monad that gives access to files.
-/

namespace Routing.CommandLine

/-- What the program prints and returns, and what it logs. -/
structure Outcome where
  code : Nat := 0
  stdout : String := ""
  stderr : String := ""
  events : List Event := []
  deriving DecidableEq, Repr

/-- Why a request failed: a headline and the causes below it. -/
structure Complaint where
  headline : String
  causes : List String := []
  deriving DecidableEq, Repr

def Complaint.of (f : Failure) : Complaint :=
  ⟨f.message, f.causes⟩

/-- A complaint about a failure while something was being done. -/
def Complaint.about (doing : String) (f : Failure) : Complaint :=
  ⟨doing, f.message :: f.causes⟩

/-- A text whose lines after the first are indented. -/
def indented (first others : String) (s : String) : String :=
  let lines := Text.pieces (· == '\n') s.toList |>.map String.ofList
  first ++ ("\n" ++ others).intercalate lines

/-- The causes of a complaint, numbered if there are several. -/
def causeLines : List String → List String
  | [] => []
  | [cause] => [indented "    " "    " cause]
  | causes => causes.zipIdx.map fun (cause, i) =>
      indented (String.ofList (List.replicate (5 - (toString i).length) ' ') ++ toString i ++ ": ")
        "       " cause

def Complaint.text (c : Complaint) : String :=
  let below := if c.causes.isEmpty then "" else
    "\n\nCaused by:\n" ++ "\n".intercalate (causeLines c.causes)
  "Error: " ++ c.headline ++ below ++ "\n"

/-- The file of a configuration that is used if none is given. -/
def defaultPath (configDir : String) : String :=
  configDir ++ "/logroute/routes.toml"

/-- The deployment of the library's own stages. -/
abbrev Configuration := Deployment Builtin Shared

def load (path : String) (content : Except FileError String) :
    Except Complaint Configuration × List Event :=
  match Document.loadFile path content Builtin.create { shared := {} } with
  | (.error e, _, events) => (.error (.of e), events)
  | (.ok d, _, _) =>
    match d.compile with
    | (.error e, d) =>
      (.error (.about ("Failed to compile " ++ Text.quoted path) (.compile e)), d.events)
    | (.ok _, d) => (.ok d, d.events)

def runCheck (path : String) (d : Configuration) : Except Complaint String × List Event :=
  match d.start with
  | (.error e, d) =>
    (.error (.about ("Failed to start " ++ Text.quoted path) (.start e)), d.release.events)
  | (.ok _, d) =>
    match d.stop with
    | (.error e, d) =>
      (.error (.about ("Failed to stop " ++ Text.quoted path) (.stop e)), d.release.events)
    | (.ok _, d) =>
      (.ok (path ++ ": OK, " ++ toString d.graph.size ++ " stage(s)\n"), d.release.events)

def runDump (format : Format) (d : Configuration) : String :=
  match format with
  | .text => d.snapshot.text
  | .json => d.snapshot.jsonText ++ "\n"

/-- Does what is asked with a configuration file. -/
def Action.run (action : Action) (path : String) (content : Except FileError String) :
    Except Complaint String × List Event :=
  match load path content with
  | (.error c, events) => (.error c, events)
  | (.ok d, events) =>
    match action with
    | .check => runCheck path d
    | .dump format => (.ok (runDump format d), events)

def outcome : Except Complaint String × List Event → Outcome
  | (.ok stdout, events) => { stdout, events }
  | (.error c, events) => { code := 1, stderr := c.text, events }

/-- The complaint about a log directory that cannot be made. -/
def logDirComplaint (dir : String) (e : FileError) : Complaint :=
  ⟨"Failed to create log directory " ++ Text.quoted dir, [e.message]⟩

/-- The file of the log in its directory. -/
def logPath (dir : String) : String :=
  dir ++ (if dir.endsWith "/" then "" else "/") ++ "logroute.log"

/-- The outcome if the file of the log cannot be opened. -/
def noLogFile (e : FileError) : Outcome :=
  { code := 101, stderr := "failed to open the log file: " ++ e.message ++ "\n" }

section Files

variable {m : Type → Type} [Monad m]

/-- Makes the log in a directory, if one is asked for. -/
def openLog (files : Files.Access m) : Option String → m (Except Outcome Unit)
  | none => return .ok ()
  | some dir => do
    match ← files.makeDirAll dir with
    | .error e => return .error (outcome (.error (logDirComplaint dir e), []))
    | .ok _ => return (← files.append (logPath dir) "").mapError noLogFile

/-- Writes events to the log in a directory, if there is one. -/
def writeLog (files : Files.Access m) (events : List Event) : Option String → m Unit
  | none => return
  | some dir => do
    let _ ← files.append (logPath dir) (String.join (events.map (·.text ++ "\n")))

/-- Does what a request asks for; the log is made before the configuration is read. -/
def Request.serve (r : Request) (files : Files.Access m) (configDir : Option String) :
    m Outcome := do
  match ← openLog files r.logDir with
  | .error o => return o
  | .ok _ =>
    match r.file.or (configDir.map defaultPath) with
    | none =>
      return outcome (.error ⟨"No route file given and no default configuration directory", []⟩, [])
    | some path =>
      let o := outcome (r.action.run path (← files.read path))
      writeLog files o.events r.logDir
      return o

end Files

def Invocation.answer : Invocation → Outcome
  | .help topic => { stdout := topic.text }
  | .version => { stdout := versionLine }
  | _ => { code := 2, stderr := "error: unexpected arguments\n\nFor more information, try '--help'.\n" }

/-- Does what the arguments of the program ask for. -/
def answer {m : Type → Type} [Monad m] (files : Files.Access m) (configDir : Option String)
    (args : List String) : m Outcome :=
  match read args with
  | .run r => r.serve files configDir
  | other => return other.answer

end Routing.CommandLine
