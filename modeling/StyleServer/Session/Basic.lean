/-
  Sessions of the language server.

  * `Session.request` answers what an editor asks, and `Session.notice` takes in
    what it tells.
  * A document is known from its opening to its closing, with its last text.
    Each new text has its diagnostics published; closing publishes none.
  * Notices outside of a running session are dropped.
-/
import StyleServer.Completion.Markup
import StyleServer.Completion.Sheet
import StyleServer.Config.Basic
import StyleServer.Diagnostic.Document
import StyleServer.Markup.Context
import StyleServer.Markup.Reference
import StyleServer.Session.Message
import StyleServer.Url.Import
import StyleServer.Workspace.Basic

namespace StyleServer

/-- Where a session stands. -/
inductive Phase where
  | fresh
  | running
  | over
deriving DecidableEq

/-- A session. -/
structure Session where
  config : Config
  registry : Registry
  workspace : Workspace := {}
  phase : Phase := .fresh
deriving DecidableEq

namespace Session

/-! ## Documents -/

/-- The sheet of an open document. -/
def sheet? (s : Session) (u : Url) : Option Sheet :=
  (s.workspace.buffers.lookup u).bind (·.sheet)

/-- The text of an open layout. -/
def markup? (s : Session) (u : Url) : Option Text :=
  (s.workspace.buffers.lookup u).bind fun b =>
    if b.sheet.isNone then some b.text.toList else none

/-- The diagnostics of a sheet under the configuration. -/
def diagnose (s : Session) (sheet : Sheet) : List Diagnostic :=
  if s.config.validates then
    sheet.validate (if s.config.checksProperties then some s.registry else none)
  else []

/-- What is published of an open document; nothing of a layout. -/
def publication? (s : Session) (u : Url) : Option Publication := do
  let buffer ← s.workspace.buffers.lookup u
  return ⟨u, buffer.version, s.diagnose (← buffer.sheet)⟩

/-- With the text of a document. -/
def update (s : Session) (u : Url) (text : String) (version : Int) : Session × Output :=
  let s := { s with workspace := s.workspace.openBuffer u (.of u text (some version)) }
  (s, { published := (s.publication? u).toList })

/-- Without a document. -/
def close (s : Session) (u : Url) : Session × Output :=
  ({ s with workspace := (s.workspace.closeBuffer u).invalidate u },
    { published := [⟨u, none, []⟩] })

/-! ## The workspace -/

/-- With a root, and the settings of the project there. -/
def setRoot (s : Session) (d : Disk) (root : Option WrittenPath) : Session × Output :=
  let s := { s with workspace := s.workspace.setRoot root }
  match root with
  | none => (s, {})
  | some directory =>
    let (config, log) := match s.config.loadSettings d directory with
      | .ok (config, _) => (config, [])
      | .error e => (s.config, [(LogLevel.error, e.message ++ ": " ++ e.cause)])
    ({ s with
        config := config
        workspace := { s.workspace with settings := config.settings.workspace } },
      { log := log })

/-! ## Questions about a place -/

/-- Looks for the declaration of a variable: in its document, then in the workspace. -/
def findVariable (s : Session) (d : Disk) (u : Url) (sheet : Sheet) (name : String) :
    Option Location × Session :=
  let run := (Workspace.provider d).resolveVariable name u sheet s.workspace.settings.pattern
    none s.workspace
  (run.found, { s with workspace := run.state })

/-- The value that a variable is given at a location. -/
def valueAt (s : Session) (d : Disk) (u : Url) (sheet : Sheet) (name : String) (l : Location) :
    Option String × Session :=
  if l.url = u then ((sheet.findCustom? name).map (·.value), s)
  else
    let (text, workspace) := s.workspace.read d l.url
    (text.toOption.bind fun text => ((Sheet.parse text).findCustom? name).map (·.value),
      { s with workspace := workspace })

/-- The name of the file of a URL. -/
def fileName (u : Url) : String := (u.segments.getLast?).getD ""

/-- The text for a reference to a variable. -/
def referenceMarkdown (name : String) : Option (Location × Option String) → String
  | none => "**" ++ name ++ "**\n\nUndefined variable"
  | some (l, none) => "**" ++ name ++ "**\n\nDeclared in `" ++ fileName l.url ++ "`"
  | some (l, some value) =>
    "**" ++ name ++ "**: `" ++ value ++ "`\n\nDeclared in `" ++ fileName l.url ++ "`"

/-- The hover on a reference to a variable. -/
def hoverReference (s : Session) (d : Disk) (u : Url) (sheet : Sheet) (ref : VariableRef) :
    Hover × Session :=
  let range := sheet.range ref.span
  match s.findVariable d u sheet ref.name with
  | (none, s) => (⟨referenceMarkdown ref.name none, range⟩, s)
  | (some l, s) =>
    let (value, s) := s.valueAt d u sheet ref.name l
    (⟨referenceMarkdown ref.name (some (l, value)), range⟩, s)

/-- The hover at an offset of a sheet. -/
def hoverAt (s : Session) (d : Disk) (u : Url) (sheet : Sheet) (offset : Nat) :
    Option Hover × Session :=
  match sheet.refAt? offset with
  | some ref =>
    let (hover, s) := s.hoverReference d u sheet ref
    (some hover, s)
  | none => ((sheet.hover s.registry offset).toOption.bind id, s)

/-- The hover at a position. -/
def hover (s : Session) (d : Disk) (u : Url) (p : Position) : Option Hover × Session :=
  match s.config.assists, s.sheet? u with
  | true, some sheet =>
    match sheet.source.offset? p with
    | some offset => s.hoverAt d u sheet offset
    | none => (none, s)
  | _, _ => (none, s)

/-- The items at an offset of a layout. -/
def markupItems (s : Session) (d : Disk) (text : Text) (offset : Nat) :
    List CompletionItem × Session :=
  match (markupContext text offset).toOption.bind id with
  | some .styleClass =>
    let (names, run) := (Workspace.provider d).classNames s.workspace.settings.pattern none s.workspace
    (classItems names, { s with workspace := run.state })
  | some (.element typed) => (elementItems typed, s)
  | some (.attributeOf element) => (attributeItems element, s)
  | none => ([], s)

/-- The items at a position. -/
def completion (s : Session) (d : Disk) (u : Url) (p : Position) :
    List CompletionItem × Session :=
  if s.config.assists then
    match s.markup? u, s.sheet? u with
    | some text, _ =>
      match text.offset? p with
      | some offset => s.markupItems d text offset
      | none => ([], s)
    | none, some sheet =>
      match sheet.source.offset? p with
      | some offset => ((sheet.completionItems s.registry offset).toOption.getD [], s)
      | none => ([], s)
    | none, none => ([], s)
  else ([], s)

/-- Where the class at an offset of a layout is selected. -/
def classDefinition (s : Session) (d : Disk) (text : Text) (offset : Nat) :
    Option Location × Session :=
  match classReferenceAt? text offset with
  | some ref =>
    let run := (Workspace.provider d).findClass ref.name s.workspace.settings.pattern none s.workspace
    (run.found, { s with workspace := run.state })
  | none => (none, s)

/-- Where the variable or the import at an offset of a sheet leads. -/
def sheetDefinition (s : Session) (d : Disk) (u : Url) (sheet : Sheet) (offset : Nat) :
    Option Location × Session :=
  match sheet.refAt? offset with
  | some ref => s.findVariable d u sheet ref.name
  | none =>
    ((sheet.importAt? offset).bind fun i =>
      (importTarget? u s.workspace.rootUrl? i.path).map fun target => ⟨target, .origin⟩, s)

/-- Where the thing at a position is defined. -/
def definition (s : Session) (d : Disk) (u : Url) (p : Position) : Option Location × Session :=
  match s.markup? u, s.sheet? u with
  | some text, _ =>
    match text.offset? p with
    | some offset => s.classDefinition d text offset
    | none => (none, s)
  | none, some sheet =>
    match sheet.source.offset? p with
    | some offset => s.sheetDefinition d u sheet offset
    | none => (none, s)
  | none, none => (none, s)

/-! ## Messages -/

/-- How the server introduces itself.  It answers every kind of request there is. -/
def welcome : Welcome where
  capabilities :=
    { hover := true
      completionTriggers := [":", " ", "-", "<", "\""]
      resolvesItems := false
      definition := true
      outline := true
      sync := .full }
  serverName := "uss-language-server"
  version := "0.1.0"

/-- Begins the session. -/
def start (s : Session) (d : Disk) (root : Option Url) (folders : List Url) : Session × Output :=
  let (s, output) := s.setRoot d ((root.or folders.head?).bind Url.filePath?)
  ({ s with phase := .running }, output)

/-- Answers a request of a running session. -/
def answer (s : Session) (d : Disk) : Request → Answer × Session
  | .start _ _ => (.welcome welcome, s)
  | .hover u p => let (hover, s) := s.hover d u p; (.hover hover, s)
  | .completion u p =>
    let (items, s) := s.completion d u p
    (.completion (if items.isEmpty then none else some items), s)
  | .definition u p => let (location, s) := s.definition d u p; (.definition location, s)
  | .outline u => (.outline ((s.sheet? u).map Sheet.outline), s)
  | .stop => (.stopped, { s with phase := .over })

/-- Takes a request. -/
def request (s : Session) (d : Disk) (r : Request) :
    Except RequestError Answer × Session × Output :=
  match s.phase, r with
  | .fresh, .start root folders =>
    let (s, output) := s.start d root folders
    (.ok (.welcome welcome), s, output)
  | .fresh, _ => (.error .notStarted, s, {})
  | .running, .start _ _ | .over, _ => (.error .invalidRequest, s, {})
  | .running, r => let (a, s) := s.answer d r; (.ok a, s, {})

/-- Takes a notice of a running session. -/
def take (s : Session) : Notice → Session × Output
  | .ready =>
    (s, { log := [(.info, "uss-language-server initialized (" ++ toString s.registry.size ++
      " properties)")] })
  | .opened u version text => s.update u text version
  | .changed u version texts =>
    match texts.getLast? with
    | some text => s.update u text version
    | none => (s, {})
  | .closed u => s.close u

/-- Takes a notice. -/
def notice (s : Session) (n : Notice) : Session × Output :=
  if s.phase = .running then s.take n else (s, {})

end Session

end StyleServer
