import JustfileServer.Justfile.SymbolIndex

/-!
# What a name can refer to

The place of a name on its line decides which definitions it can refer to.  Inside the double
braces of an interpolation only variables can be named, behind the colon of a recipe header only
recipes, and anywhere else a recipe is preferred to a variable.
-/

namespace JustfileServer

/-- The definitions that a name can refer to. -/
inductive Scope
  /-- Variables only. -/
  | variables
  /-- Recipes only. -/
  | recipes
  /-- Recipes, or variables when there is no recipe. -/
  | any
  deriving DecidableEq

/-- The word that names a scope. -/
def Scope.label : Scope → Text
  | .variables => "variable"
  | .recipes => "recipe"
  | .any => "any"

namespace Byte

/-- The opening brace. -/
def openBrace : UInt8 := 0x7B

/-- The closing brace. -/
def closeBrace : UInt8 := 0x7D

end Byte

namespace Scope

/-- The offset of the first two neighbouring bytes that both equal `b`. -/
def firstPair? (b : UInt8) : Bytes → Option Nat
  | [] => none
  | [_] => none
  | x :: y :: rest =>
      if x = b ∧ y = b then some 0 else (firstPair? b (y :: rest)).map (· + 1)

/-- The offset of the last two neighbouring bytes that both equal `b`. -/
def lastPair? (b : UInt8) : Bytes → Option Nat
  | [] => none
  | [_] => none
  | x :: y :: rest =>
      match lastPair? b (y :: rest) with
      | some i => some (i + 1)
      | none => if x = b ∧ y = b then some 0 else none

/-- Does the column lie inside an interpolation?  The last two opening braces that end at or
before the column have to be closed, and not before the column. -/
def inBraces (line : Bytes) (column : Int) : Bool :=
  match lastPair? Byte.openBrace (line.take column.toNat) with
  | none => false
  | some opening =>
      match firstPair? Byte.closeBrace (line.drop (opening + 2)) with
      | none => false
      | some closing => column ≤ (opening + 2 + closing : Nat)

/-- The offset of the colon that makes the line a recipe header: the first colon, unless it starts
the sign of an assignment. -/
def headerSeparator? (line : Bytes) : Option Nat :=
  match line.idxOf? Byte.colon with
  | none => none
  | some i => if (line.drop (i + 1)).head? = some Byte.equals then none else some i

/-- Does the column lie behind the colon of a recipe header? -/
def afterHeaderSeparator (line : Bytes) (column : Int) : Bool :=
  match headerSeparator? line with
  | none => false
  | some i => (i : Int) < column

/-- The scope of a name at a byte column of a line. -/
def atColumn (line : Bytes) (column : Int) : Scope :=
  if inBraces line column then .variables
  else if afterHeaderSeparator line column then .recipes
  else .any

/-- The definitions of a name in a scope, from top to bottom. -/
def resolve (index : SymbolIndex) (name : Text) : Scope → List Definition
  | .variables => index.assignmentsNamed name
  | .recipes => index.recipesNamed name
  | .any =>
      match index.recipesNamed name with
      | [] => index.assignmentsNamed name
      | ds => ds

end Scope

end JustfileServer
