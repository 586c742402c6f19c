import JustfileServer.Rpc.Dispatcher

/-!
# The journal

Every line that the server reports is shown on the error stream, under the server's name.  If the
server keeps a file, the line is written there first; the file holds UTF-8 and takes no lone
surrogate, so a line with one is not entered anywhere.  The error stream takes every text, a
surrogate being spelled out.
-/

namespace JustfileServer

/-- The name under which the server presents itself. -/
def serverName : Text := "justls"

/-- The version of the server. -/
def serverVersion : Text := "0.1.0"

/-- The lines reported so far. -/
structure Journal where
  /-- Does the server keep a file? -/
  keepsFile : Bool
  /-- The lines in the file, from first to last. -/
  filed : List Text
  /-- The lines on the error stream, from first to last. -/
  shown : List Text

namespace Journal

/-- A journal without lines. -/
def empty (keepsFile : Bool) : Journal := ⟨keepsFile, [], []⟩

/-- Enters a line. -/
def enter (line : Text) : Action Journal Unit := do
  if (← get).keepsFile then
    match Utf8.encodeStrict (line ++ Text.ofString "\n") with
    | .error f => throw (.unencodable f)
    | .ok _ => modify fun j => { j with filed := j.filed ++ [line] }
  modify fun j => { j with shown := j.shown ++ [line] }

/-- What stands on the error stream. -/
def screen (j : Journal) : Text :=
  Utf8.spellSurrogates (j.shown.flatMap fun line =>
    Text.ofString "[" ++ serverName ++ Text.ofString "] " ++ line ++ Text.ofString "\n")

/-- What stands in the file. -/
def file (j : Journal) : Text := j.filed.flatMap fun line => line ++ Text.ofString "\n"

end Journal

end JustfileServer
