import JustfileServer.Json.Value
import JustfileServer.Navigation.Position

/-!
# Objects on the wire

The objects in which places, stretches and hover texts are sent to a client.
-/

namespace JustfileServer

/-- A line is sent as it came. -/
def LineNumber.toJson : LineNumber → Json
  | .number n => .int n
  | .flag b => .bool b

/-- The object of a place. -/
def Position.toJson (p : Position) : Json :=
  .obj [("line", p.line.toJson), ("character", .int p.character)]

/-- The object of a stretch. -/
def Range.toJson (r : Range) : Json := .obj [("start", r.start.toJson), ("end", r.stop.toJson)]

/-- The object of a stretch in a document. -/
def locationJson (uri : Json) (r : Range) : Json := .obj [("uri", uri), ("range", r.toJson)]

/-- How a hover text is to be read. -/
def plainText : Text := "plaintext"

/-- The object of a hover text, with the stretch that it is about, if there is one. -/
def hoverJson (contents : Text) (range : Option Range) (kind : Text) : Json :=
  let required : List (Text × Json) :=
    [("contents", .obj [("kind", .str kind), ("value", .str contents)])]
  match range with
  | none => .obj required
  | some r => .obj (required ++ [(Text.ofString "range", r.toJson)])

end JustfileServer
