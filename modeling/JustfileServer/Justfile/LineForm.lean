import JustfileServer.Justfile.Line
import JustfileServer.Justfile.Definition

/-!
# The forms of a line

`LineForm.ofLine` reads one line by itself.  A line that is blank or a comment is ignored.  Any
other line is decided by its first colon: with an equals sign behind it the line is an assignment,
without one it is a recipe header, and both need a name before the colon.  A line without a colon
is a command when it starts with white space and has no known form otherwise.
-/

namespace JustfileServer

/-- The maximal runs of bytes that are not white space, as spans, when the first byte has the
given offset. -/
def tokens : Nat → Bytes → List Span
  | _, [] => []
  | offset, b :: rest =>
      if Byte.isBlank b then tokens (offset + 1) rest
      else
        match tokens (offset + 1) rest with
        | [] => [⟨offset, offset⟩]
        | t :: ts =>
            if t.first = offset + 1 then ⟨offset, t.last⟩ :: ts else ⟨offset, offset⟩ :: t :: ts

/-- What one line says, read by itself. -/
inductive LineForm
  /-- Nothing: the line is blank or a comment. -/
  | ignored
  /-- A definition, a recipe still without commands. -/
  | definition (d : Definition)
  /-- A command, which belongs to the recipe above it. -/
  | command (line : Span)
  /-- Nothing that can be read. -/
  | problem (cause : ProblemCause)
  deriving DecidableEq

/-- The name before a colon and its column: the bytes there without the white space around them,
unless nothing is left. -/
def nameBefore? (start : Nat) (head : Bytes) : Option (Span × Nat) :=
  let name := Bytes.trim head
  let column := (head.takeWhile Byte.isBlank).length
  if name.isEmpty then none else some (.ofLength (start + column) name.length, column)

namespace LineForm

/-- The form of an assignment whose line has these bytes before the sign and after it. -/
def assignment (line : Line) (head value : Bytes) : LineForm :=
  match nameBefore? line.start head with
  | none => .problem .namelessAssignment
  | some (name, column) =>
      let span :=
        if value.isEmpty then none
        else some (.ofLength (line.start + head.length + 2) value.length)
      .definition ⟨name, line.number, column, .assignment span⟩

/-- The form of a recipe header whose line has these bytes before the colon and after it. -/
def header (line : Line) (head dependencies : Bytes) : LineForm :=
  match nameBefore? line.start head with
  | none => .problem .namelessRecipe
  | some (name, column) =>
      let spans := tokens (line.start + head.length + 1) dependencies
      .definition ⟨name, line.number, column, .recipe spans []⟩

/-- The form of a line without a colon. -/
def plain (line : Line) : LineForm :=
  match line.bytes with
  | [] => .ignored
  | b :: _ =>
      if Byte.isBlank b then .command (.ofLength line.start line.bytes.length)
      else .problem .unknownForm

/-- Is a line of these bytes blank or a comment? -/
def isIgnored (bytes : Bytes) : Bool :=
  match Bytes.trim bytes with
  | [] => true
  | b :: _ => b == Byte.hash

/-- The form of a line. -/
def ofLine (line : Line) : LineForm :=
  if isIgnored line.bytes then .ignored
  else
    let head := line.bytes.takeWhile (· != Byte.colon)
    match line.bytes.drop head.length with
    | [] => plain line
    | [_] => header line head []
    | _ :: b :: rest =>
        if b = Byte.equals then assignment line head rest else header line head (b :: rest)

end LineForm

end JustfileServer
