import JustfileServer.Justfile.Outline
import JustfileServer.Text.Blank
import JustfileServer.Command.Files

/-!
# The report on a file

A report has one line for each assignment and two for each recipe, the second with the number of
its commands, and on the error stream one line for each problem.  Lines are counted from one and
columns from zero.  Files may end their lines in any of three ways, which are all read as newlines.
-/

namespace JustfileServer

/-- What a command has done: the exit code, or the fault that ended it, and what it has written. -/
structure CommandResult where
  ending : Except Fault Nat
  output : Text
  errors : Text

namespace Report

/-- The text with each carriage return, and the newline that may follow it, read as one newline. -/
def plainNewlines : Text → Text
  | [] => []
  | [c] => if c = .ofChar '\r' then [.ofChar '\n'] else [c]
  | c :: d :: rest =>
      if c = .ofChar '\r' then
        if d = .ofChar '\n' then d :: plainNewlines rest
        else .ofChar '\n' :: plainNewlines (d :: rest)
      else c :: plainNewlines (d :: rest)

/-- A line of output. -/
def outputLine (t : Text) : Text := t ++ Text.ofString "\n"

/-- A place in a file, the line counted from one. -/
def place (path : Text) (line column : Nat) : Text :=
  path ++ Text.ofString ":" ++ Numeral.decimal (line + 1) ++ Text.ofString ":"
    ++ Numeral.decimal column

/-- What the report says about a definition. -/
def definition (path : Text) (data : Bytes) (d : Definition) : Text :=
  let start := place path d.line d.column ++ Text.ofString ": " ++ d.kind.label
    ++ Text.ofString " " ++ d.name.text data
  match d.detail with
  | .assignment value =>
      let text := (value.map fun s => Text.trim (s.text data)).getD []
      outputLine (start ++ Text.ofString " := " ++ text)
  | .recipe dependencies body =>
      let names := Text.join " " (dependencies.map fun s => s.text data)
      outputLine (Text.trimEnd (start ++ Text.ofString ": " ++ names))
        ++ outputLine (Text.ofString "    " ++ Numeral.decimal body.length
          ++ Text.ofString " command line(s)")

/-- What the report says about a problem. -/
def problem (path : Text) (p : Problem) : Text :=
  outputLine (place path p.line p.column ++ Text.ofString ": error: " ++ p.cause.message)

/-- The report on a justfile; the exit code tells whether there are problems.  What it says about
a definition starts with the path and takes no surrogate, so the first definition ends the report
on a path that has one. -/
def ofJustfile (path : Text) (j : Justfile) : CommandResult :=
  match Utf8.encodeStrict path, j.definitions with
  | .error f, _ :: _ => ⟨.error (.unencodable f), [], []⟩
  | _, definitions =>
      ⟨.ok (if j.problems.isEmpty then 0 else 1), definitions.flatMap (definition path j.data),
        j.problems.flatMap (problem path)⟩

/-- The report on the contents of a file. -/
def ofContents (path : Text) (contents : Bytes) : CommandResult :=
  match Utf8.decode .scalars contents with
  | .error f => ⟨.error (.undecodable f), [], []⟩
  | .ok t => ofJustfile path (.ofText (plainNewlines t))

/-- The report on a file that may not be there to be read. -/
def ofFile (path : Text) (file : Except FileError Bytes) : CommandResult :=
  match pathFault? path with
  | some f => ⟨.error f, [], []⟩
  | none =>
      match file with
      | .ok contents => ofContents path contents
      | .error e => ⟨.ok 1, [], outputLine (Text.ofString "Error: " ++ e.message path)⟩

end Report

end JustfileServer
