import JustfileServer.Number.Binary64
import JustfileServer.Text.CodePoint

/-!
# JSON values

The members of an object keep their order.  An integer is exact, and a number written with a
fraction or an exponent is a floating point number.
-/

namespace JustfileServer

/-- A JSON value. -/
inductive Json
  | null
  | bool (b : Bool)
  | int (n : Int)
  | float (x : Binary64)
  | str (t : Text)
  | arr (elements : List Json)
  | obj (members : List (Text × Json))
  deriving Inhabited

/-- The kinds of JSON values. -/
inductive JsonKind
  | null
  | bool
  | int
  | float
  | str
  | arr
  | obj
  deriving DecidableEq

namespace Json

/-- The kind of a value. -/
def kind : Json → JsonKind
  | .null => .null
  | .bool _ => .bool
  | .int _ => .int
  | .float _ => .float
  | .str _ => .str
  | .arr _ => .arr
  | .obj _ => .obj

/-- Is the value the null value? -/
def isNull : Json → Bool
  | .null => true
  | _ => false

/-- Does the value count as true where a truth value is asked for?  Null, false, zero and what is
empty do not. -/
def isTruthy : Json → Bool
  | .null => false
  | .bool b => b
  | .int n => n != 0
  | .float x => !x.sameValue (.finite false 0 Binary64.minExponent)
  | .str t => !t.isEmpty
  | .arr elements => !elements.isEmpty
  | .obj members => !members.isEmpty

/-- The value of the member with the given name, among members in order. -/
def member? (members : List (Text × Json)) (name : Text) : Option Json :=
  match members with
  | [] => none
  | (n, v) :: rest => if n = name then some v else member? rest name

/-- Members with one of them set: in its place when the name is there already, else at the end. -/
def setMember (members : List (Text × Json)) (name : Text) (value : Json) : List (Text × Json) :=
  match members with
  | [] => [(name, value)]
  | (n, v) :: rest =>
      if n = name then (n, value) :: rest else (n, v) :: setMember rest name value

/-- Members without repeated names: of several with one name the last value counts, at the place of
the first. -/
def mergeMembers (members : List (Text × Json)) : List (Text × Json) :=
  members.foldl (fun merged m => setMember merged m.1 m.2) []

mutual

/-- A value and all the values inside it, each before its own parts. -/
def parts : Json → List Json
  | .arr elements => .arr elements :: partsOfElements elements
  | .obj members => .obj members :: partsOfMembers members
  | v => [v]

/-- The parts of the elements of an array, in order. -/
def partsOfElements : List Json → List Json
  | [] => []
  | e :: rest => parts e ++ partsOfElements rest

/-- The parts of the values of members, in order. -/
def partsOfMembers : List (Text × Json) → List Json
  | [] => []
  | (_, value) :: rest => parts value ++ partsOfMembers rest

end

/-- The texts of a value that do not belong to a part of it: a string, or the names of members. -/
def ownTexts : Json → List Text
  | .str t => [t]
  | .obj members => members.map Prod.fst
  | _ => []

mutual

/-- Are these the same value? -/
def same : Json → Json → Bool
  | .null, .null => true
  | .bool a, .bool b => a == b
  | .int m, .int n => m == n
  | .float x, .float y => x == y
  | .str t, .str u => t == u
  | .arr es, .arr ds => sameElements es ds
  | .obj ms, .obj ns => sameMembers ms ns
  | _, _ => false

/-- Are these the same elements? -/
def sameElements : List Json → List Json → Bool
  | [], [] => true
  | e :: es, d :: ds => same e d && sameElements es ds
  | _, _ => false

/-- Are these the same members, in the same order? -/
def sameMembers : List (Text × Json) → List (Text × Json) → Bool
  | [], [] => true
  | (name, v) :: ms, (other, w) :: ns => name == other && same v w && sameMembers ms ns
  | _, _ => false

end

mutual

theorem same_iff : ∀ v w : Json, same v w = true ↔ v = w
  | .null, w => by cases w <;> simp [same]
  | .bool b, w => by cases w <;> simp [same]
  | .int n, w => by cases w <;> simp [same]
  | .float x, w => by cases w <;> simp [same]
  | .str t, w => by cases w <;> simp [same]
  | .arr es, w => by cases w <;> simp [same, sameElements_iff es]
  | .obj ms, w => by cases w <;> simp [same, sameMembers_iff ms]

theorem sameElements_iff : ∀ es ds : List Json, sameElements es ds = true ↔ es = ds
  | [], ds => by cases ds <;> simp [sameElements]
  | e :: es, ds => by cases ds <;> simp [sameElements, same_iff e, sameElements_iff es]

theorem sameMembers_iff : ∀ ms ns : List (Text × Json), sameMembers ms ns = true ↔ ms = ns
  | [], ns => by cases ns <;> simp [sameMembers]
  | (name, v) :: ms, ns => by
      cases ns <;> simp [sameMembers, same_iff v, sameMembers_iff ms, Prod.ext_iff]

end

instance : DecidableEq Json := fun v w => decidable_of_iff _ (same_iff v w)

end Json

/-- The word that names a kind of value in a diagnostic. -/
def JsonKind.label : JsonKind → Text
  | .null => "NoneType"
  | .bool => "bool"
  | .int => "int"
  | .float => "float"
  | .str => "str"
  | .arr => "list"
  | .obj => "dict"

end JustfileServer
