import JustfileServer.Justfile.LineForm

/-!
# The outline of a justfile

The forms of the lines are put together from the last line to the first.  An `Outline` is what a
run of lines amounts to: its definitions and its problems, and ahead of them the leading commands,
which stand before anything that could own them or cut them off.  A recipe header put in front
takes the leading commands as its body; any other definition or a problem leaves them stray; a
blank line or a comment changes nothing.  Nothing precedes the first line, so the leading commands
of the whole are stray as well.
-/

namespace JustfileServer

/-- What a run of lines amounts to. -/
structure Outline where
  /-- The numbers and spans of the commands before the first line of another form. -/
  leading : List (Nat × Span)
  definitions : List Definition
  problems : List Problem

namespace Outline

/-- The outline of no lines. -/
def empty : Outline := ⟨[], [], []⟩

/-- A command that belongs to no recipe. -/
def stray (command : Nat × Span) : Problem := ⟨command.1, 0, .strayCommand⟩

/-- The problems of an outline with nothing above it. -/
def allProblems (o : Outline) : List Problem := o.leading.map stray ++ o.problems

/-- The outline with a line of the given number and form put in front. -/
def addLine (number : Nat) (form : LineForm) (o : Outline) : Outline :=
  match form with
  | .ignored => o
  | .command span => { o with leading := (number, span) :: o.leading }
  | .problem cause => ⟨[], o.definitions, ⟨number, 0, cause⟩ :: o.allProblems⟩
  | .definition d =>
      match d.kind with
      | .recipe => ⟨[], d.addCommands (o.leading.map Prod.snd) :: o.definitions, o.problems⟩
      | .assignment => ⟨[], d :: o.definitions, o.allProblems⟩

/-- The outline of a run of lines. -/
def ofLines (lines : List Line) : Outline :=
  lines.foldr (fun line o => o.addLine line.number (.ofLine line)) empty

end Outline

/-- A text with everything learned from it: its bytes, its definitions and its problems from top
to bottom, and where its lines start. -/
structure Justfile where
  text : Text
  data : Bytes
  definitions : List Definition
  problems : List Problem
  lineStarts : List Nat

namespace Justfile

/-- Reads a text.  Every text can be read; what has no known form is among the problems. -/
def ofText (text : Text) : Justfile :=
  let data := Utf8.encode text
  let outline := Outline.ofLines (linesOf data)
  ⟨text, data, outline.definitions, outline.allProblems, JustfileServer.lineStarts data⟩

/-- Where the numbered line starts and where it stops. -/
def lineBounds? (j : Justfile) (number : Int) : Option (Nat × Nat) :=
  JustfileServer.lineBounds? j.lineStarts j.data.length number

/-- The bytes of the numbered line. -/
def lineBytes? (j : Justfile) (number : Int) : Option Bytes :=
  JustfileServer.lineBytes? j.lineStarts j.data number

end Justfile

end JustfileServer
