import JustfileServer.Server.State
import JustfileServer.Server.Params
import JustfileServer.Server.Objects
import JustfileServer.Json.Writer

/-!
# The handlers of the server

One action for each method that the server knows.  A handler looks at the parameters first, then
enters its line in the journal, and changes the state last, so that a failing handler leaves the
documents and the stage as they were.
-/

namespace JustfileServer.Server

/-! ## The life of the server -/

/-- What the server says about itself. -/
def capabilities : Json :=
  .obj [("capabilities", .obj [
      ("textDocumentSync", .obj [("openClose", .bool true), ("change", .int 1)]),
      ("definitionProvider", .bool true), ("hoverProvider", .bool true),
      ("positionEncoding", .str "utf-16")]),
    ("serverInfo", .obj [("name", .str serverName), ("version", .str serverVersion)])]

/-- The client introduces itself. -/
def greet : RequestHandler Server := fun _ => do
  log "Received initialize request"
  advance .ready
  return .ok capabilities

/-- The client has taken note of the capabilities. -/
def confirm : NotificationHandler Server := fun _ => log "Server initialized"

/-- The client asks for a shutdown. -/
def shutDown : RequestHandler Server := fun _ => do
  log "Shutdown requested"
  modify fun s => { s with shutdownRequested := true }
  advance .shuttingDown
  return .ok .null

/-- The client leaves; the exit code tells whether it had asked for a shutdown before. -/
def leave : NotificationHandler Server := fun _ => do
  log "Exit notification received"
  modify fun s => { s with exitCode := if s.shutdownRequested then 0 else 1 }
  advance .shuttingDown

/-! ## Documents -/

/-- The first problem of a document as the journal shows it. -/
def describeProblem (p : Problem) : Text :=
  Text.ofString "ParseError(line=" ++ Numeral.decimal p.line ++ Text.ofString ", col="
    ++ Numeral.decimal p.column ++ Text.ofString ", message=" ++ Quoted.quote p.cause.message
    ++ Text.ofString ")"

/-- Puts a document into the table and reports its problems. -/
def store (d : Document) : Action Server Unit := do
  let key ← DocumentKey.ofJson d.uri
  modify fun s => { s with documents := s.documents.put key d }
  match d.justfile.problems with
  | [] => return ()
  | p :: rest =>
      log (d.uri.shown ++ Text.ofString ": " ++ Numeral.decimal (rest.length + 1)
        ++ Text.ofString " parse error(s), first: " ++ describeProblem p)

/-- A document is opened. -/
def openDocument : NotificationHandler Server := fun params => do
  let document ← Params.document params
  let uri ← Params.documentName document
  let version ← Params.version document
  let content ← Params.content document
  log (Text.ofString "Document opened: " ++ uri.shown)
  store (.ofText uri (← Params.text content) version)

/-- A document is changed.  The client sends the whole text as the first change and any others are
left alone; without a change there is nothing to do. -/
def changeDocument : NotificationHandler Server := fun params => do
  let document ← Params.document params
  let uri ← Params.documentName document
  let version ← Params.version document
  let changes ← Params.member params "contentChanges" (.arr [])
  if changes.isTruthy then
    let key ← DocumentKey.ofJson uri
    if ((← get).documents.find? key).isNone then
      log (Text.ofString "didChange for unopened document: " ++ uri.shown)
    let content ← Params.content (← Params.firstChange changes)
    store (.ofText uri (← Params.text content) version)

/-- A document is closed.  While none is open there is nothing to look for. -/
def closeDocument : NotificationHandler Server := fun params => do
  let uri ← Params.documentName (← Params.document params)
  log (Text.ofString "Document closed: " ++ uri.shown)
  if !(← get).documents.isEmpty then
    let key ← DocumentKey.ofJson uri
    modify fun s => { s with documents := s.documents.erase key }

/-! ## Navigation -/

/-- Fails with the fault of a line that is not the encoding of any text. -/
def decoded {α : Type} : Except Utf8.DecodeFault α → Except Fault α
  | .ok a => .ok a
  | .error f => .error (.undecodable f)

/-- The word of a document that a position touches.  The column is not looked at on an empty
line. -/
def cursorAt (d : Document) (line character : Json) : Except Fault (Option Cursor) := do
  match ← Params.line? d.justfile.lineStarts.length line with
  | none => return none
  | some number =>
      let column ←
        match d.justfile.lineBytes? number.toInt with
        | some [] => pure (.units 0)
        | _ => Params.column character
      decoded (d.justfile.symbolAt number column)

/-- The document and the word that the parameters of a request point at, if there are both. -/
def target (params : Json) : Action Server (Option (Document × Cursor)) := do
  let uri ← Params.documentName (← Params.document params)
  let position ← Params.member params "position" (.obj [])
  let line ← Params.member position "line" (.int 0)
  let character ← Params.member position "character" (.int 0)
  let key ← DocumentKey.ofJson uri
  match (← get).documents.find? key with
  | none => return none
  | some d =>
      match ← cursorAt d line character with
      | none => return none
      | some c => return some (d, c)

/-- Where the definitions of the word at a position are.  The place of the word on its line decides
which definitions count. -/
def findDefinitions : RequestHandler Server := fun params => do
  match ← target params with
  | none => return .ok .null
  | some (d, c) =>
      log (Text.ofString "Definition requested for: " ++ c.word ++ Text.ofString " ("
        ++ c.scope.label ++ Text.ofString ")")
      match Scope.resolve d.index c.word c.scope with
      | [] => return .ok .null
      | definitions =>
          let ranges ← decoded (definitions.mapM d.justfile.definitionRange)
          return .ok (.arr (ranges.map (locationJson d.uri)))

/-- The kind of a name, a recipe being preferred to a variable wherever the name stands. -/
def kindOf? (index : SymbolIndex) (name : Text) : Option DefinitionKind :=
  if !(index.recipesNamed name).isEmpty then some .recipe
  else if !(index.assignmentsNamed name).isEmpty then some .assignment
  else none

/-- What the word at a position is. -/
def describeWord : RequestHandler Server := fun params => do
  match ← target params with
  | none => return .ok .null
  | some (d, c) =>
      log (Text.ofString "Hover requested for: " ++ c.word)
      match kindOf? d.index c.word with
      | none => return .ok .null
      | some kind =>
          let contents := kind.label ++ Text.ofString ": " ++ c.word
          return .ok (hoverJson contents (some c.range) plainText)

/-! ## All methods -/

/-- The server's handlers by method. -/
def dispatcher : Dispatcher Server :=
  Dispatcher.empty log
    |>.onRequest "initialize" greet
    |>.onNotification "initialized" confirm
    |>.onRequest "shutdown" shutDown
    |>.onNotification "exit" leave
    |>.onNotification "textDocument/didOpen" openDocument
    |>.onNotification "textDocument/didChange" changeDocument
    |>.onNotification "textDocument/didClose" closeDocument
    |>.onRequest "textDocument/definition" findDefinitions
    |>.onRequest "textDocument/hover" describeWord

end JustfileServer.Server
