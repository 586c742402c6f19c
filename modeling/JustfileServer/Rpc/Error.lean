import JustfileServer.Json.Value

/-!
# Remote errors

A remote error is what a reply carries in place of a result: a code, a message, and optional data.
-/

namespace JustfileServer

/-- An error that is reported to the other side. -/
structure RpcError where
  code : Int
  message : Text
  data : Json

namespace RpcError

/-- The body of a frame is not JSON. -/
def parseCode : Int := -32700

/-- A message has not the form of a request. -/
def invalidRequestCode : Int := -32600

/-- Nothing handles the requested method. -/
def methodNotFoundCode : Int := -32601

/-- A handler did not succeed. -/
def handlerCode : Int := -32000

/-- The object that stands for the error in a reply; null data is left out. -/
def toJson (e : RpcError) : Json :=
  let required : List (Text × Json) := [("code", .int e.code), ("message", .str e.message)]
  .obj (required ++ if e.data.isNull then [] else [(Text.ofString "data", e.data)])

end RpcError

end JustfileServer
