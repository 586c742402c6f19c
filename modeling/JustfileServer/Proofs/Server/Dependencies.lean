import JustfileServer.Proofs.Justfile.Dependencies
import JustfileServer.Proofs.Navigation.Braces
import JustfileServer.Proofs.Navigation.Ranges
import JustfileServer.Proofs.Server.Occurrences

/-!
# From a dependency to its recipes

The parser finds the dependencies of a recipe as runs without white space behind the first colon of
its header; a request finds a word as a run of symbols around a position and tells its scope from
the colon and the braces of the line.  Both agree about a dependency that consists of symbols: it is
a word of the line (`HasDependency.cut_word`), and outside of braces its scope is that of recipes
(`HasDependency.atColumn_eq_recipes`).  So a request on it is answered with the recipes of its name
(`dependency_navigates`).
-/

namespace JustfileServer

namespace HasDependency

variable {line : Line} {t : Span} {head lead token tail : Bytes} {column : Nat}
  (h : HasDependency line t head lead token tail)
include h

/-- A dependency that consists of symbols is a word, as neither the colon nor white space is a
symbol. -/
theorem cut_word (symbols : ∀ b ∈ token, Byte.isSymbol b = true) :
    Word.Cut line.bytes (head ++ Byte.colon :: lead) token tail := by
  refine ⟨h.bytes_eq, symbols, h.around.filled, ?_, ?_⟩
  · intro b hb
    rcases h.starts hb with rfl | blank
    · decide
    · exact isSymbol_of_isBlank blank
  · exact fun b hb => isSymbol_of_isBlank (h.around.stops b hb)

/-- The separator of the line is the colon in front of the dependencies. -/
theorem headerSeparator?_eq : Scope.headerSeparator? line.bytes = some head.length := by
  rw [Scope.headerSeparator?_of_cut h.cut, if_neg h.sign]

/-- Outside of braces a dependency can only refer to recipes. -/
theorem atColumn_eq_recipes (symbols : ∀ b ∈ token, Byte.isSymbol b = true)
    (outside : ¬ Scope.LiesBetween line.bytes (t.first - line.start) (t.last + 1 - line.start))
    (first : (head ++ Byte.colon :: lead).length ≤ column)
    (last : column ≤ (head ++ Byte.colon :: lead).length + token.length) :
    Scope.atColumn line.bytes column = .recipes := by
  have cut := h.cut_word symbols
  have positive := List.length_pos_iff.2 cut.filled
  have start : t.first - line.start = (head ++ Byte.colon :: lead).length := by
    rw [h.span, Span.ofLength]
    dsimp only
    omega
  have stop : t.last + 1 - line.start
      = ((head ++ Byte.colon :: lead).length + token.length : Nat) := by
    rw [h.span, Span.ofLength]
    dsimp only
    omega
  have front : Scope.inBraces line.bytes (head ++ Byte.colon :: lead).length = false := by
    rw [start, stop, ← Scope.encloses_iff_liesBetween (by omega), Scope.encloses_word_iff cut,
      ← Scope.inBraces_iff, Bool.not_eq_true] at outside
    exact outside
  have behind :
      Scope.afterHeaderSeparator line.bytes (head ++ Byte.colon :: lead).length = true := by
    rw [Scope.afterHeaderSeparator, h.headerSeparator?_eq]
    apply decide_eq_true
    rw [List.length_append, List.length_cons]
    omega
  rw [cut.atColumn_eq first last, Scope.atColumn, front, behind]
  rfl

end HasDependency

namespace Server

variable {text : Text} {d : Definition} {dependencies body : List Span} {t : Span} {line : Line}

/-- **Dependencies lead to recipes.**  A dependency of a recipe consists of symbols, and it does not
lie between two opening braces and the first two closing braces behind them.  It is a piece of the
line of the recipe, and wherever a position touches it, from its first UTF-16 unit to the place
behind its last one, it is the word that is found there, as a name for recipes.  A request for its
definitions is served with the places of all recipes of that name, from the top down, or with null
when there are none; variables of that name are not among them. -/
theorem dependency_navigates (hd : d ∈ (Justfile.ofText text).definitions)
    (recipe : d.detail = .recipe dependencies body) (ht : t ∈ dependencies)
    (symbols : ∀ b ∈ t.bytes (Justfile.ofText text).data, Byte.isSymbol b = true)
    (isLine : (Justfile.ofText text).IsLine line) (number : line.number = d.line)
    (outside : ¬ Scope.LiesBetween line.bytes (t.first - line.start) (t.last + 1 - line.start)) :
    ∃ front word rest, (text.splitOn .newline)[d.line]? = some (front ++ word ++ rest) ∧
      t.first = line.start + (Utf8.encode front).length ∧ t.Covers text word ∧
      ∀ character : Int, (Utf16.encode front).length ≤ character →
        character ≤ (Utf16.encode (front ++ word)).length →
        ∃ c, (Justfile.ofText text).symbolAt (.number d.line) (.units character) = .ok (some c) ∧
          t.first = line.start + c.start ∧ t.last + 1 = line.start + c.stop ∧
          c.word = t.text (Justfile.ofText text).data ∧ c.scope = .recipes ∧
          ∀ {s : Server} {params name version : Json} {key : DocumentKey},
            Params.PointsTo params key (.int d.line) (.int character) →
            s.documents.find? key = some (.ofText name text version) →
            ∃ result, Serves findDefinitions params s result ∧
              (Justfile.ofText text).Lists name ((Justfile.ofText text).named .recipe
                (t.bytes (Justfile.ofText text).data)) result := by
  have onLine := Justfile.isLine_iff.1 isLine
  obtain ⟨head, lead, token, tail, dependency⟩ :=
    Justfile.hasDependency_of_mem hd recipe ht onLine number
  have covered : t.bytes (Justfile.ofText text).data = token := dependency.span_bytes onLine
  rw [covered] at symbols ⊢
  have cut := dependency.cut_word symbols
  obtain ⟨front, word, rest, lineText, before, units, back, covers⟩ :=
    dependency.exists_pieces onLine
  have bytes : line.bytes = Utf8.encode (front ++ word ++ rest) := by
    rw [Utf8.encode_append, Utf8.encode_append, before, units, back, dependency.bytes_eq]
  refine ⟨front, word, rest, number ▸ lineText, ?_, covers, ?_⟩
  · rw [dependency.span, before, Span.ofLength, Int.natCast_add]
  intro character first last
  have place := Column.utf16ToByte_on_piece front word rest first last
  rw [before, units] at place
  have here : (Justfile.ofText text).IsAt d.line character line.bytes
      (Column.utf16ToByte (front ++ word ++ rest) character) :=
    ⟨number ▸ isLine.bytes, _, bytes, rfl⟩
  obtain ⟨c, found, same, column, on⟩ := here.exists_isOn cut place.1 place.2
  have scope : c.scope = .recipes := by
    rw [Cursor.scope, same, column]
    exact dependency.atColumn_eq_recipes symbols outside place.1 place.2
  refine ⟨c, found, ?_, ?_, ?_, scope, ?_⟩
  · rw [dependency.span, on.start, Span.ofLength, Int.natCast_add]
  · rw [dependency.span, on.stop, Span.ofLength]
    dsimp only
    omega
  · rw [on.word_eq, Span.text, covered]
    exact ((Utf8.decodeReplacing_eq_iff cut.ascii).2 rfl).symm
  · intro s params name version key points isOpen
    have aimed := perform_target points isOpen (cursorAt_of_symbolAt found)
    obtain ⟨result, served, lists⟩ := exists_serves_findDefinitions aimed
    rw [on.resolve_eq, scope] at lists
    exact ⟨result, served, lists⟩

/-- A variable and a recipe of one name, and between them a recipe that depends on that name.  The
letter in front of the dependency takes two bytes, but one UTF-16 unit. -/
def homonyms : Text := "b := 1\né:b x\nb:\n"

/-- The recipe that depends on the name. -/
def dependent : Definition := ⟨⟨7, 8⟩, 1, 0, .recipe [⟨10, 10⟩, ⟨12, 12⟩] []⟩

/-- A server with the document open. -/
def serving : Server :=
  { initial false with
    documents := DocumentTable.put [] (.text "file:///justfile")
      (.ofText (.str "file:///justfile") homonyms (.int 1)) }

theorem dependent_mem : dependent ∈ (Justfile.ofText homonyms).definitions := by decide

theorem isLine_dependent :
    (Justfile.ofText homonyms).IsLine ⟨1, 7, Utf8.encode (Text.ofString "é:b x")⟩ :=
  ⟨by decide, by decide⟩

theorem isOpen_homonyms : serving.documents.find? (.text "file:///justfile")
    = some (.ofText (.str "file:///justfile") homonyms (.int 1)) := rfl

theorem bytes_dependency : (⟨10, 10⟩ : Span).bytes (Justfile.ofText homonyms).data
    = Utf8.encode (Text.ofString "b") := by decide

/-- The only recipe of the name is on the last line. -/
theorem lists_homonyms {result : Json}
    (h : (Justfile.ofText homonyms).Lists (.str "file:///justfile")
      ((Justfile.ofText homonyms).named .recipe (Utf8.encode (Text.ofString "b"))) result) :
    result = .arr [locationJson (.str "file:///justfile") ⟨⟨.number 2, 0⟩, ⟨.number 2, 1⟩⟩] := by
  let recipe : Definition := ⟨⟨14, 14⟩, 2, 0, .recipe [] []⟩
  have named : (Justfile.ofText homonyms).named .recipe (Utf8.encode (Text.ofString "b"))
      = [recipe] := by decide
  have place : (Justfile.ofText homonyms).IsPlaceOf recipe ⟨⟨.number 2, 0⟩, ⟨.number 2, 1⟩⟩ := by
    have bytes : (Justfile.ofText homonyms).lineBytes? recipe.line
        = some (Utf8.encode (Text.ofString "b:")) := by decide
    refine ⟨?_, rfl, rfl⟩
    rw [Justfile.definitionRange, bytes, Option.getD_some, Utf8.decode_codePoints_encode]
    rfl
  rw [named] at h
  exact h.unique ⟨_, .cons place .nil, rfl⟩

/-- The dependency touches the colon.  From before it and from behind it a request leads to the
recipe. -/
theorem dependency_navigates_homonym :
    let places := Json.arr [locationJson (.str "file:///justfile") ⟨⟨.number 2, 0⟩, ⟨.number 2, 1⟩⟩]
    Serves findDefinitions (pointing 1 2) serving places ∧
      Serves findDefinitions (pointing 1 3) serving places := by
  intro places
  have symbols : ∀ b ∈ (⟨10, 10⟩ : Span).bytes (Justfile.ofText homonyms).data,
      Byte.isSymbol b = true := by
    rw [bytes_dependency]
    exact List.all_eq_true.1 (by decide)
  obtain ⟨front, word, rest, lineText, start, covers, navigates⟩ :=
    dependency_navigates dependent_mem rfl (by decide) symbols isLine_dependent rfl
      (Scope.not_liesBetween_of_notMem (by decide))
  have whole : Text.ofString "é:" ++ Text.ofString "b x" = front ++ (word ++ rest) := by
    rw [← List.append_assoc]
    exact Option.some.inj lineText
  obtain rfl : Text.ofString "é:" = front := by
    have size : (Utf8.encode (Text.ofString "é:")).length = 3 := by decide
    dsimp only at start
    exact Utf8.eq_of_append_eq whole (by omega)
  have filled : word ≠ [] := by
    rintro rfl
    obtain ⟨above, below, -, span⟩ := covers
    have ends := congrArg Span.last span
    have starts := congrArg Span.first span
    have empty : (Utf8.encode []).length = 0 := rfl
    simp only [Span.ofLength] at ends starts
    omega
  have served (character : Int) (first : 2 ≤ character) (last : character ≤ 3) :
      Serves findDefinitions (pointing 1 character) serving places := by
    have length : (Utf16.encode (Text.ofString "é:")).length = 2 := by decide
    have positive := Utf16.length_encode_pos filled
    obtain ⟨c, -, -, -, -, -, answers⟩ := navigates character (by omega) (by
      rw [Utf16.encode_append, List.length_append]
      omega)
    obtain ⟨result, served, lists⟩ := answers (pointsTo_pointing 1 character) isOpen_homonyms
    rw [bytes_dependency] at lists
    rwa [lists_homonyms lists] at served
  exact ⟨served 2 (by decide) (by decide), served 3 (by decide) (by decide)⟩

end Server

end JustfileServer
