import Routing.Deployment
import Routing.Document.Decode
import Routing.Text.Quoted
/-!
# Building deployments from documents

Objects are made in groups, rules after them, each in the order of the document. A driver that is
refused ends it. The location of a rule, a branch or a junction is that of the first name in it.
-/

namespace Routing

/-- What building changes. -/
structure Site (σ ω : Type) where
  pool : Pool σ ω
  catalog : Catalog := {}
  /-- The serial number of the next target. -/
  serial : Nat := 0
  events : List Event := []

/-- A step of building. -/
abbrev Building (σ ω : Type) := ExceptT Failure (StateM (Site σ ω))

namespace Building

variable {σ ω : Type}

/-- What a builder goes by. -/
structure Plan (σ ω : Type) where
  lines : LineTable
  templates : Templates
  factory : Factory σ ω

def log (events : List Event) : Building σ ω Unit :=
  modify fun s => { s with events := s.events ++ events }

def Plan.locate {α : Type} (p : Plan σ ω) (x : Spanned α) : Location :=
  p.lines.locate x.span.start

def stage (p : Plan σ ω) (kind : Kind) (location : Location) (spec : DriverSpec) :
    Building σ ω Statement := do
  let s ← get
  match p.factory kind spec p.templates s.pool.shared with
  | (.error e, shared) => do
    set { s with pool := { s.pool with shared } }
    throw e
  | (.ok stage, shared) => do
    let (handle, pool) := Pool.add { s.pool with shared } stage
    set { s with pool }
    return .pipe handle (some location)

/-- The flags that are named; other names are noted. -/
def flags (names : List String) : Building σ ω Flags := do
  log ((Flags.unknownNames names).map .unknownFlag)
  return Flags.ofNames names

def newSerial : Building σ ω Nat := do
  let s ← get
  set { s with serial := s.serial + 1 }
  return s.serial

mutual

/-- The location of the first name in an element. -/
def firstIn (p : Plan σ ω) : Element → Option Location
  | .named _ name => some (p.locate name)
  | .inline kind _ => some (p.locate kind)
  | .junction branches => firstInBranches p branches

/-- The location of the first name in a branch. -/
def firstInRule (p : Plan σ ω) : RuleEntry → Option Location
  | .mk _ elements => firstInElements p elements

/-- The location of the first name in elements. -/
def firstInElements (p : Plan σ ω) : List Element → Option Location
  | [] => none
  | e :: es => (firstIn p e).or (firstInElements p es)

/-- The location of the first name in branches. -/
def firstInBranches (p : Plan σ ω) : List RuleEntry → Option Location
  | [] => none
  | b :: bs => (firstInRule p b).or (firstInBranches p bs)

end

def inline (p : Plan σ ω) (kind : Spanned Kind) (drivers : List DriverSpec) :
    Building σ ω Statement := do
  let location := p.locate kind
  if kind.value = .pipe then
    throw (.config ("Inline object at " ++ location.text ++ " needs a kind other than pipe"))
  else
    let pipes ← drivers.mapM (stage p kind.value location)
    return .inline (← newSerial) kind.value pipes (some location)

mutual

def element (p : Plan σ ω) : Element → Building σ ω Statement
  | .named kind name => return .reference kind name.value (some (p.locate name))
  | .inline kind drivers => inline p kind drivers
  | .junction branches => do
    return .junction (← rules p branches) (firstInBranches p branches)

/-- Makes the statement of a rule or a branch. -/
def rule (p : Plan σ ω) : RuleEntry → Building σ ω Statement
  | .mk names es => do
    let children ← elements p es
    return .sequence children (← flags names) (firstInElements p es)

def elements (p : Plan σ ω) : List Element → Building σ ω (List Statement)
  | [] => return []
  | e :: es => do return (← element p e) :: (← elements p es)

def rules (p : Plan σ ω) : List RuleEntry → Building σ ω (List Statement)
  | [] => return []
  | r :: rs => do return (← rule p r) :: (← rules p rs)

end

/-- Runs a step; its failure gets a context. -/
def inContext {α : Type} (context : String) (step : Building σ ω α) : Building σ ω α :=
  tryCatch step fun e => throw (.within context e)

def object (p : Plan σ ω) (kind : Kind) (entry : ObjectEntry) : Building σ ω Unit := do
  let location := p.locate entry.name
  let name := entry.name.value
  let pipes ← inContext ("In " ++ kind.name ++ " '" ++ name ++ "' at " ++ location.text)
    (entry.drivers.mapM (stage p kind location))
  let s ← get
  let (duplicate, catalog) := s.catalog.register (.definition kind name pipes (some location))
  set { s with catalog }
  log (duplicate.toList.map (.duplicateObject · (some location.text)))

def topRule (p : Plan σ ω) (entry : RuleEntry) : Building σ ω Unit := do
  let r ← rule p entry
  modify fun s => { s with catalog := (s.catalog.register r).2 }

def document (p : Plan σ ω) (d : Document) : Building σ ω Unit := do
  d.sources.forM (object p .source)
  d.destinations.forM (object p .destination)
  d.filters.forM (object p .filter)
  d.parsers.forM (object p .parser)
  d.rewrites.forM (object p .rewrite)
  d.rules.forM (topRule p)

end Building

namespace Document

variable {σ ω : Type}

/-- The templates of a document, and those that come too late. -/
def templatesOf (entries : List TemplateEntry) : Templates × List Event :=
  entries.foldl (fun (ts, events) e =>
    match ts.add { name := e.name, body := e.body } with
    | (true, ts) => (ts, events)
    | (false, ts) => (ts, events ++ [.duplicateTemplate e.name])) ({}, [])

/-- What became of a document: a deployment or a failure, with the pool and the events. -/
abbrev Built (σ ω : Type) := Except Failure (Deployment σ ω) × Pool σ ω × List Event

def build (d : Document) (lines : LineTable) (factory : Factory σ ω) (pool : Pool σ ω) :
    Built σ ω :=
  let (templates, events) := templatesOf d.templates
  let plan : Building.Plan σ ω := { lines, templates, factory }
  match (Building.document plan d).run { pool, events } with
  | (.error e, site) => (.error e, site.pool, site.events)
  | (.ok _, site) =>
    (.ok { catalog := site.catalog, templates, settings := d.settings
           build := { pool := site.pool }, events := site.events }, site.pool, site.events)

/-- Builds a deployment from a text in memory. -/
def load (text : String) (factory : Factory σ ω) (pool : Pool σ ω) : Built σ ω :=
  match parse text with
  | .error e => (.error e, pool, [])
  | .ok d => d.build (.ofText none text) factory pool

/-- Reads a document from the content of a file. -/
def parseFile (path : String) (content : Except FileError String) :
    Except Failure (Document × LineTable) :=
  match content with
  | .error e => .error (.within ("Failed to read route file " ++ Text.quoted path) (.file e))
  | .ok text =>
    match parse text with
    | .error e => .error (.within ("Failed to parse route file " ++ Text.quoted path) e)
    | .ok d => .ok (d, .ofText (some path) text)

/-- Builds a deployment from the content of a file. -/
def loadFile (path : String) (content : Except FileError String) (factory : Factory σ ω)
    (pool : Pool σ ω) : Built σ ω :=
  match parseFile path content with
  | .error e => (.error e, pool, [])
  | .ok (d, lines) => d.build lines factory pool

end Document

end Routing
