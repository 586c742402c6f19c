import JustfileServer.Navigation.Scope
import JustfileServer.Proofs.Justfile.Tables
import JustfileServer.Proofs.Text.AsciiBytes

/-!
# What the index lists under a name

Under a name the index lists just the definitions of this name, in their order
(`listed_ofDefinitions`).  A name is looked up as a text while the definitions have bytes for names;
for words in ASCII this makes no difference, so resolving a word gives the definitions that its
scope admits, picked by their bytes (`resolve_ofJustfile`).
-/

namespace JustfileServer

/-- The definitions of a kind whose name has these bytes, from top to bottom. -/
def Justfile.named (j : Justfile) (kind : DefinitionKind) (word : Bytes) : List Definition :=
  j.definitions.filter fun d => d.kind = kind ∧ d.name.bytes j.data = word

/-- **The definitions that a word can refer to** in a scope. -/
def Justfile.admitted (j : Justfile) (word : Bytes) : Scope → List Definition
  | .variables => j.named .assignment word
  | .recipes => j.named .recipe word
  | .any => if j.named .recipe word = [] then j.named .assignment word else j.named .recipe word

namespace Justfile

variable {j : Justfile} {word : Bytes} {scope : Scope} {d : Definition}

/-! ## What a scope admits -/

theorem mem_named {kind : DefinitionKind} (h : d ∈ j.named kind word) :
    d ∈ j.definitions ∧ d.name.bytes j.data = word := by
  obtain ⟨hd, same⟩ := List.mem_filter.1 h
  exact ⟨hd, (of_decide_eq_true same).2⟩

/-- The definitions that a scope admits are of one kind. -/
theorem exists_admitted_eq (j : Justfile) (word : Bytes) (scope : Scope) :
    ∃ kind, j.admitted word scope = j.named kind word := by
  match scope with
  | .variables => exact ⟨.assignment, rfl⟩
  | .recipes => exact ⟨.recipe, rfl⟩
  | .any =>
      rw [admitted]
      split
      · exact ⟨.assignment, rfl⟩
      · exact ⟨.recipe, rfl⟩

theorem mem_admitted (h : d ∈ j.admitted word scope) :
    d ∈ j.definitions ∧ d.name.bytes j.data = word := by
  obtain ⟨kind, same⟩ := exists_admitted_eq j word scope
  rw [same] at h
  exact mem_named h

/-- A definition is admitted under its own name, unless it is a variable beside a recipe. -/
theorem mem_admitted_any (hd : d ∈ j.definitions)
    (own : ¬ (d.kind = .assignment ∧ j.named .recipe (d.name.bytes j.data) ≠ [])) :
    d ∈ j.admitted (d.name.bytes j.data) .any := by
  have listed : d ∈ j.named d.kind (d.name.bytes j.data) := by simp [named, hd]
  rw [admitted]
  cases kind : d.kind with
  | assignment =>
      rw [kind] at listed
      have none : j.named .recipe (d.name.bytes j.data) = [] := by
        by_contra some
        exact own ⟨kind, some⟩
      rwa [if_pos none]
  | recipe =>
      rw [kind] at listed
      rwa [if_neg (List.ne_nil_of_mem listed)]

/-- Where a scope admits something, no scope at all admits the same, save that recipes are preferred
to the variables that the scope asked for. -/
theorem admitted_any (some : j.admitted word scope ≠ []) :
    j.admitted word .any = if scope = .variables ∧ j.named .recipe word ≠ []
      then j.named .recipe word else j.admitted word scope := by
  match scope, some with
  | .variables, _ =>
      by_cases none : j.named .recipe word = []
      · simp [admitted, none]
      · simp [admitted, none]
  | .recipes, some =>
      have filled : j.named .recipe word ≠ [] := some
      simp [admitted, filled]
  | .any, _ => simp

end Justfile

/-! ## The index -/

namespace SymbolIndex

/-- The definitions of a kind that are listed under a name. -/
def listed (index : SymbolIndex) (name : Text) : DefinitionKind → List Definition
  | .assignment => index.assignmentsNamed name
  | .recipe => index.recipesNamed name

theorem listed_eq_find (index : SymbolIndex) (name : Text) (kind : DefinitionKind) :
    index.listed name kind = (index.table kind).find name := by
  cases kind <;> rfl

/-- **The index lists the definitions of a name**, all of them and no others, in their order.  It
lists nothing without a name. -/
theorem listed_ofDefinitions (data : Bytes) (ds : List Definition) (name : Text)
    (kind : DefinitionKind) :
    (ofDefinitions data ds).listed name kind
      = ds.filter fun d => d.kind = kind ∧ name ≠ [] ∧ d.name.text data = name := by
  rw [listed_eq_find, (sorts_ofDefinitions data ds kind).find_eq, List.filter_filter]
  apply List.filter_congr
  intro d _
  by_cases same : d.name.text data = name <;> simp [same]

end SymbolIndex

/-! ## Words -/

namespace Justfile

variable {j : Justfile} {word : Bytes}

/-- A word in ASCII is listed for the definitions whose names have its bytes. -/
theorem listed_ofJustfile (filled : word ≠ []) (ascii : ∀ b ∈ word, b.toNat < 0x80)
    (kind : DefinitionKind) :
    (SymbolIndex.ofJustfile j).listed (word.map CodePoint.ofByte) kind = j.named kind word := by
  have name (d : Definition) : d.name.text j.data = word.map CodePoint.ofByte ↔
      d.name.bytes j.data = word := Utf8.decodeReplacing_eq_iff ascii
  have spelled : word.map CodePoint.ofByte ≠ [] := by simpa using filled
  rw [SymbolIndex.ofJustfile, SymbolIndex.listed_ofDefinitions, named]
  simp only [name, ne_eq, spelled, not_false_eq_true, true_and]

/-- What a name is resolved to is taken from the definitions. -/
theorem mem_definitions_of_mem_resolve {scope : Scope} {name : Text} {d : Definition}
    (h : d ∈ scope.resolve (.ofJustfile j) name) : d ∈ j.definitions := by
  have listed (kind : DefinitionKind) (h : d ∈ (SymbolIndex.ofJustfile j).listed name kind) :
      d ∈ j.definitions := by
    rw [SymbolIndex.ofJustfile, SymbolIndex.listed_ofDefinitions] at h
    exact (List.mem_filter.1 h).1
  unfold Scope.resolve at h
  split at h
  · exact listed .assignment h
  · exact listed .recipe h
  · split at h
    · exact listed .assignment h
    · exact listed .recipe h

/-- **A word in ASCII is resolved** to what its scope admits. -/
theorem resolve_ofJustfile (filled : word ≠ []) (ascii : ∀ b ∈ word, b.toNat < 0x80)
    (scope : Scope) :
    scope.resolve (.ofJustfile j) (word.map CodePoint.ofByte) = j.admitted word scope := by
  have assignments : (SymbolIndex.ofJustfile j).assignmentsNamed (word.map CodePoint.ofByte)
      = j.named .assignment word := listed_ofJustfile filled ascii .assignment
  have recipes : (SymbolIndex.ofJustfile j).recipesNamed (word.map CodePoint.ofByte)
      = j.named .recipe word := listed_ofJustfile filled ascii .recipe
  match scope with
  | .variables => exact assignments
  | .recipes => exact recipes
  | .any =>
      rw [Scope.resolve, admitted, recipes, assignments]
      cases j.named .recipe word with
      | nil => rfl
      | cons d ds => rfl

end Justfile

end JustfileServer
