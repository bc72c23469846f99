/-!
# Arguments of the command line

`check` and `dump` take a file or none; `--log-dir` may stand before or after them. A word that
starts with a dash is an option, unless it is a dash alone or comes after `--`.
-/

namespace Routing.CommandLine

/-- How a graph is printed. -/
inductive Format where
  | text
  | json
  deriving DecidableEq, Repr

def Format.ofName? (name : String) : Option Format :=
  if name = "text" then some .text else if name = "json" then some .json else none

/-- What is to be done with a configuration. -/
inductive Action where
  /-- Compile, start and stop it. -/
  | check
  /-- Print its graph. -/
  | dump (format : Format)
  deriving DecidableEq, Repr

/-- What is to be done, and with which file. -/
structure Request where
  action : Action
  file : Option String := none
  /-- The directory that gets a copy of the log. -/
  logDir : Option String := none
  deriving DecidableEq, Repr

/-- What the help is about. -/
inductive Topic where
  | all
  | check
  | dump
  | help
  deriving DecidableEq, Repr

/-- What the arguments ask for. -/
inductive Invocation where
  | run (r : Request)
  | help (topic : Topic)
  | version
  /-- The arguments make no sense. -/
  | misuse
  deriving DecidableEq, Repr

/-- The options of a command as they are read. -/
structure Options where
  file : Option String := none
  logDir : Option String := none
  format : Option Format := none
  deriving DecidableEq, Repr

def isOption (word : String) : Bool :=
  word.startsWith "-" && word ≠ "-"

/-- The value of an option in the same word, as in `--name=value`. -/
def attached? (option word : String) : Option String :=
  let start := (option ++ "=").toList
  if start.isPrefixOf word.toList then some (String.ofList (word.toList.drop start.length))
  else none

/-- The value of an option in the same word or the next one, and the words after it. -/
def valueOf? (option word : String) (rest : List String) : Option (Option (String × List String)) :=
  match attached? option word with
  | some v => some (some (v, rest))
  | none =>
    if word = option then
      match rest with
      | v :: rest => some (if isOption v then none else some (v, rest))
      | [] => some none
    else none

/-- Sets the log directory, once and not to nothing. -/
def Options.setLogDir (o : Options) (v : String) : Option Options :=
  if o.logDir.isSome || v.isEmpty then none else some { o with logDir := some v }

def Options.setFormat (o : Options) (v : String) : Option Options :=
  if o.format.isSome then none
  else (Format.ofName? v).map fun f => { o with format := some f }

/-- Sets the file, once and not to nothing. -/
def Options.setFile (o : Options) (v : String) : Option Options :=
  if o.file.isSome || v.isEmpty then none else some { o with file := some v }

/-- The request that options of a command make. -/
def Options.request (o : Options) (topic : Topic) (logDir : Option String) : Request where
  action := if topic = .dump then .dump (o.format.getD .text) else .check
  file := o.file
  logDir := o.logDir.or logDir

def readCommand (topic : Topic) (logDir : Option String) :
    Nat → Options → List String → Invocation
  | 0, _, _ => .misuse
  | _ + 1, o, [] => .run (o.request topic logDir)
  | fuel + 1, o, word :: rest =>
    if word = "--" then
      match rest.foldlM Options.setFile o with
      | some o => .run (o.request topic logDir)
      | none => .misuse
    else if word = "--help" || word.startsWith "-h" then .help topic
    else
      let next (set : String → Option Options) : Option (String × List String) → Invocation
        | some (v, rest) =>
          match set v with
          | some o => readCommand topic logDir fuel o rest
          | none => .misuse
        | none => .misuse
      match valueOf? "--log-dir" word rest with
      | some found => next o.setLogDir found
      | none =>
        match if topic = .dump then valueOf? "--format" word rest else none with
        | some found => next o.setFormat found
        | none => if isOption word then .misuse else next o.setFile (some (word, rest))

def readHelp : List String → Invocation
  | [] => .help .all
  | ["check"] => .help .check
  | ["dump"] => .help .dump
  | ["help"] => .help .help
  | _ => .misuse

/-- The options with a log directory that was not looked at before. -/
def Options.settle (o : Options) : Option String → Option Options
  | none => some o
  | some v => o.setLogDir v

/-- A command after options, or after a wrong one: then it may only ask for help. -/
def afterOptions (o : Option Options) (command : Option String → Invocation) : Invocation :=
  match o with
  | some o => command o.logDir
  | none =>
    match command none with
    | .help topic => .help topic
    | _ => .misuse

/-- Reads the words before a command. The last log directory in a word of its own is `pending`: it
is looked at when the next option comes or the command is read. -/
def readGlobal : Nat → Options → Option String → List String → Invocation
  | 0, _, _, _ => .misuse
  | _ + 1, _, _, [] => .misuse
  | fuel + 1, o, pending, word :: rest =>
    let settled := o.settle pending
    if word = "check" then
      afterOptions settled fun logDir => readCommand .check logDir (rest.length + 1) {} rest
    else if word = "dump" then
      afterOptions settled fun logDir => readCommand .dump logDir (rest.length + 1) {} rest
    else if word = "help" then afterOptions settled fun _ => readHelp rest
    else
      match settled with
      | none => .misuse
      | some o =>
        if word = "--help" || word.startsWith "-h" then .help .all
        else if word = "--version" || word.startsWith "-V" then .version
        else
          match attached? "--log-dir" word, valueOf? "--log-dir" word rest with
          | some v, _ =>
            match o.setLogDir v with
            | some o => readGlobal fuel o none rest
            | none => .misuse
          | none, some (some (v, rest)) => readGlobal fuel o (some v) rest
          | none, _ => .misuse

def read (args : List String) : Invocation :=
  readGlobal (args.length + 1) {} none args

/-- What the program is for, and how it is called. -/
def Topic.text : Topic → String
  | .all => "Compile and inspect log routing configurations

Usage: logroute [OPTIONS] <COMMAND>

Commands:
  check  Compile, start and stop a route file, reporting any error
  dump   Print the compiled stage graph
  help   Print this message or the help of the given subcommand(s)

Options:
      --log-dir <DIR>  Also write logs to this directory
  -h, --help           Print help
  -V, --version        Print version
"
  | .check => "Compile, start and stop a route file, reporting any error

Usage: logroute check [OPTIONS] [FILE]

Arguments:
  [FILE]  Route file (defaults to the per-user routes.toml)

Options:
      --log-dir <DIR>  Also write logs to this directory
  -h, --help           Print help
"
  | .dump => "Print the compiled stage graph

Usage: logroute dump [OPTIONS] [FILE]

Arguments:
  [FILE]  

Options:
      --format <FORMAT>  [default: text] [possible values: text, json]
      --log-dir <DIR>    Also write logs to this directory
  -h, --help             Print help
"
  | .help => "Print this message or the help of the given subcommand(s)

Usage: logroute help [COMMAND]...

Arguments:
  [COMMAND]...  Print help for the subcommand(s)
"

/-- The line that names the program and its version. -/
def versionLine : String := "logroute 0.1.0\n"

end Routing.CommandLine
