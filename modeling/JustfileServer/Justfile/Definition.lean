import JustfileServer.Justfile.Span

/-!
# Definitions and problems

What a justfile defines: variables by an assignment and recipes by a header with the command lines
under it.  A line that cannot be read is a problem, which keeps its cause.
-/

namespace JustfileServer

/-- The two kinds of names that a justfile defines. -/
inductive DefinitionKind
  /-- A variable, defined by an assignment. -/
  | assignment
  /-- A recipe, defined by a header line. -/
  | recipe
  deriving DecidableEq

/-- The word that names a kind. -/
def DefinitionKind.label : DefinitionKind → Text
  | .assignment => "variable"
  | .recipe => "recipe"

/-- What stands beside the name in a definition. -/
inductive Detail
  /-- The rest of an assignment's line, unless it is empty. -/
  | assignment (value : Option Span)
  /-- The names after a header's colon, and the command lines that follow the header. -/
  | recipe (dependencies : List Span) (body : List Span)
  deriving DecidableEq

/-- A definition: its name, the line of the name, the byte column where it starts, and the rest. -/
structure Definition where
  name : Span
  line : Nat
  column : Nat
  detail : Detail
  deriving DecidableEq

namespace Definition

/-- The kind of a definition. -/
def kind (d : Definition) : DefinitionKind :=
  match d.detail with
  | .assignment _ => .assignment
  | .recipe _ _ => .recipe

/-- The definition with further command lines at the end of its body; an assignment has no body
and stays as it is. -/
def addCommands (d : Definition) (commands : List Span) : Definition :=
  match d.detail with
  | .assignment _ => d
  | .recipe dependencies body => { d with detail := .recipe dependencies (body ++ commands) }

end Definition

/-- Why a line is a problem. -/
inductive ProblemCause
  /-- An assignment without a name. -/
  | namelessAssignment
  /-- A recipe header without a name. -/
  | namelessRecipe
  /-- A command that follows no recipe header. -/
  | strayCommand
  /-- A line of no known form. -/
  | unknownForm
  deriving DecidableEq

/-- The wording of a cause. -/
def ProblemCause.message : ProblemCause → Text
  | .namelessAssignment => "malformed variable"
  | .namelessRecipe => "malformed recipe"
  | .strayCommand => "command not inside recipe"
  | .unknownForm => "unrecognized line"

/-- A line that could not be read, the column where that shows, and why. -/
structure Problem where
  line : Nat
  column : Nat
  cause : ProblemCause
  deriving DecidableEq

end JustfileServer
