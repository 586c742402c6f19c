import Mathlib.Data.List.TakeWhile
import JustfileServer.Proofs.Justfile.LineTable
import JustfileServer.Proofs.Text.Trimming

/-!
# The roles of lines

What a line is there for can be told from its bytes alone, without any of the steps by which it is
read: `HasRole` says it with the first colon of the line and what stands around it.  Every line has
just one role, the one in which `LineForm.ofLine` reads it (`hasRole_iff`).
-/

namespace JustfileServer

/-- What a line is there for. -/
inductive LineRole
  /-- For the reader's eye only. -/
  | ignored
  /-- It defines something of this kind. -/
  | definition (kind : DefinitionKind)
  /-- It is a command of the recipe above it. -/
  | command
  /-- It is a problem, whatever stands above it. -/
  | problem (cause : ProblemCause)
  deriving DecidableEq

/-- A line of these bytes is blank or a comment. -/
def SaysNothing (bytes : Bytes) : Prop :=
  Bytes.trim bytes = [] ∨ (Bytes.trim bytes).head? = some Byte.hash

/-- The first colon of a line has these bytes before it and behind it. -/
structure CutAtColon (bytes head rest : Bytes) : Prop where
  eq : bytes = head ++ Byte.colon :: rest
  first : Byte.colon ∉ head

/-- There is nothing but white space. -/
def IsBlank (bytes : Bytes) : Prop := ∀ b ∈ bytes, Byte.isBlank b = true

/-- **The role of a line** of these bytes. -/
inductive HasRole (bytes : Bytes) : LineRole → Prop
  | ignored : SaysNothing bytes → HasRole bytes .ignored
  /-- The first colon has an equals sign behind it and a name before it. -/
  | assignment {head value : Bytes} : ¬ SaysNothing bytes →
      CutAtColon bytes head (Byte.equals :: value) → ¬ IsBlank head →
      HasRole bytes (.definition .assignment)
  | namelessAssignment {head value : Bytes} : ¬ SaysNothing bytes →
      CutAtColon bytes head (Byte.equals :: value) → IsBlank head →
      HasRole bytes (.problem .namelessAssignment)
  /-- The first colon has no equals sign behind it, and a name before it. -/
  | recipe {head rest : Bytes} : ¬ SaysNothing bytes → CutAtColon bytes head rest →
      rest.head? ≠ some Byte.equals → ¬ IsBlank head → HasRole bytes (.definition .recipe)
  | namelessRecipe {head rest : Bytes} : ¬ SaysNothing bytes → CutAtColon bytes head rest →
      rest.head? ≠ some Byte.equals → IsBlank head → HasRole bytes (.problem .namelessRecipe)
  /-- There is no colon, and the line starts with white space. -/
  | command {first : UInt8} {rest : Bytes} : ¬ SaysNothing bytes → Byte.colon ∉ bytes →
      bytes = first :: rest → Byte.isBlank first = true → HasRole bytes .command
  | unknownForm {first : UInt8} {rest : Bytes} : ¬ SaysNothing bytes → Byte.colon ∉ bytes →
      bytes = first :: rest → Byte.isBlank first = false → HasRole bytes (.problem .unknownForm)

/-- The role in which a line is read. -/
def LineForm.role : LineForm → LineRole
  | .ignored => .ignored
  | .definition d => .definition d.kind
  | .command _ => .command
  | .problem cause => .problem cause

/-! ## Every line has a role -/

theorem CutAtColon.exists_of_mem {bytes : Bytes} (h : Byte.colon ∈ bytes) :
    ∃ head rest, CutAtColon bytes head rest := by
  obtain ⟨head, rest, eq, first⟩ := List.eq_append_cons_of_mem h
  exact ⟨head, rest, eq, first⟩

theorem exists_hasRole (bytes : Bytes) : ∃ role, HasRole bytes role := by
  by_cases silent : SaysNothing bytes
  · exact ⟨_, .ignored silent⟩
  by_cases colon : Byte.colon ∈ bytes
  · obtain ⟨head, rest, cut⟩ := CutAtColon.exists_of_mem colon
    by_cases sign : rest.head? = some Byte.equals
    · obtain ⟨value, rfl⟩ := List.head?_eq_some_iff.1 sign
      by_cases nameless : IsBlank head
      · exact ⟨_, .namelessAssignment silent cut nameless⟩
      · exact ⟨_, .assignment silent cut nameless⟩
    · by_cases nameless : IsBlank head
      · exact ⟨_, .namelessRecipe silent cut sign nameless⟩
      · exact ⟨_, .recipe silent cut sign nameless⟩
  · cases bytes with
    | nil => exact absurd (.inl rfl) silent
    | cons first rest =>
        cases blank : Byte.isBlank first with
        | true => exact ⟨_, .command silent colon rfl blank⟩
        | false => exact ⟨_, .unknownForm silent colon rfl blank⟩

/-! ## The name before the colon -/

theorem Bytes.trim_eq_nil_iff {bytes : Bytes} : Bytes.trim bytes = [] ↔ IsBlank bytes :=
  rdropWhile_dropWhile_eq_nil_iff

theorem isNone_nameBefore?_iff {start : Nat} {head : Bytes} :
    (nameBefore? start head).isNone = true ↔ IsBlank head := by
  rw [nameBefore?, ← Bytes.trim_eq_nil_iff]
  cases Bytes.trim head <;> simp

/-! ## A line is read in its role -/

namespace LineForm

theorem isIgnored_iff {bytes : Bytes} : isIgnored bytes = true ↔ SaysNothing bytes := by
  rw [isIgnored, SaysNothing]
  cases Bytes.trim bytes <;> simp

variable {line : Line} {head rest value : Bytes}

theorem ofLine_of_cut (speaks : ¬ SaysNothing line.bytes) (cut : CutAtColon line.bytes head rest) :
    ofLine line = match rest with
      | [] => header line head []
      | b :: rest => if b = Byte.equals then assignment line head rest
          else header line head (b :: rest) := by
  have before : line.bytes.takeWhile (· != Byte.colon) = head := by
    have all : ∀ b ∈ head, (b != Byte.colon) = true := by
      intro b hb
      simpa using fun same : b = Byte.colon => cut.first (same ▸ hb)
    rw [cut.eq, List.takeWhile_append_of_pos all]
    simp
  have behind : line.bytes.drop head.length = Byte.colon :: rest := by
    rw [cut.eq, List.drop_left]
  rw [ofLine, if_neg (mt isIgnored_iff.1 speaks)]
  dsimp only
  rw [before, behind]
  cases rest <;> rfl

theorem ofLine_assignment (speaks : ¬ SaysNothing line.bytes)
    (cut : CutAtColon line.bytes head (Byte.equals :: value)) :
    ofLine line = assignment line head value := by
  rw [ofLine_of_cut speaks cut]
  exact if_pos rfl

theorem ofLine_header (speaks : ¬ SaysNothing line.bytes) (cut : CutAtColon line.bytes head rest)
    (sign : rest.head? ≠ some Byte.equals) : ofLine line = header line head rest := by
  rw [ofLine_of_cut speaks cut]
  cases rest with
  | nil => rfl
  | cons b rest => exact if_neg fun same => sign (congrArg some same)

theorem ofLine_plain (speaks : ¬ SaysNothing line.bytes) (plainLine : Byte.colon ∉ line.bytes) :
    ofLine line = plain line := by
  have whole : line.bytes.takeWhile (· != Byte.colon) = line.bytes := by
    rw [List.takeWhile_eq_self_iff]
    intro b hb
    simpa using fun same : b = Byte.colon => plainLine (same ▸ hb)
  rw [ofLine, if_neg (mt isIgnored_iff.1 speaks)]
  dsimp only
  rw [whole, List.drop_length]

theorem role_assignment (line : Line) (head value : Bytes) :
    (assignment line head value).role
      = if (nameBefore? line.start head).isNone then .problem .namelessAssignment
        else .definition .assignment := by
  rw [assignment]
  cases nameBefore? line.start head <;> rfl

theorem role_header (line : Line) (head rest : Bytes) :
    (header line head rest).role
      = if (nameBefore? line.start head).isNone then .problem .namelessRecipe
        else .definition .recipe := by
  rw [header]
  cases nameBefore? line.start head <;> rfl

theorem plain_cons {first : UInt8} (h : line.bytes = first :: rest) :
    plain line = if Byte.isBlank first then .command line.span else .problem .unknownForm := by
  rw [plain, Line.span, h]

end LineForm

/-- A line is read in a role that it has. -/
theorem HasRole.role_ofLine {line : Line} {role : LineRole} (h : HasRole line.bytes role) :
    (LineForm.ofLine line).role = role := by
  cases h with
  | ignored silent =>
      rw [LineForm.ofLine, if_pos (LineForm.isIgnored_iff.2 silent)]
      rfl
  | assignment speaks cut named =>
      rw [LineForm.ofLine_assignment speaks cut, LineForm.role_assignment, if_neg]
      rwa [isNone_nameBefore?_iff]
  | namelessAssignment speaks cut nameless =>
      rw [LineForm.ofLine_assignment speaks cut, LineForm.role_assignment, if_pos]
      rwa [isNone_nameBefore?_iff]
  | recipe speaks cut sign named =>
      rw [LineForm.ofLine_header speaks cut sign, LineForm.role_header, if_neg]
      rwa [isNone_nameBefore?_iff]
  | namelessRecipe speaks cut sign nameless =>
      rw [LineForm.ofLine_header speaks cut sign, LineForm.role_header, if_pos]
      rwa [isNone_nameBefore?_iff]
  | command speaks plainLine start blank =>
      rw [LineForm.ofLine_plain speaks plainLine, LineForm.plain_cons start, if_pos blank]
      rfl
  | unknownForm speaks plainLine start visible =>
      rw [LineForm.ofLine_plain speaks plainLine, LineForm.plain_cons start, visible]
      rfl

/-- **Every line has just one role**, the one in which it is read. -/
theorem hasRole_iff {line : Line} {role : LineRole} :
    HasRole line.bytes role ↔ role = (LineForm.ofLine line).role := by
  constructor
  · exact fun h => h.role_ofLine.symm
  · rintro rfl
    obtain ⟨role, h⟩ := exists_hasRole line.bytes
    rwa [h.role_ofLine]

instance (bytes : Bytes) (role : LineRole) : Decidable (HasRole bytes role) :=
  decidable_of_iff _ (@hasRole_iff ⟨0, 0, bytes⟩ role).symm

end JustfileServer
