import JustfileServer.Proofs.Justfile.Spans
import JustfileServer.Proofs.Navigation.LineEnds
import JustfileServer.Proofs.Text.Columns
import JustfileServer.Proofs.Server.Occurrences

/-!
# Definitions lead back to themselves

When the name of a definition is a word, the place that is sent for the definition is where the word
is found again: only white space stands before it on its line, so its columns are the same in bytes
and in UTF-16 units, and neither a brace nor a colon can narrow its scope
(`NamedByWord.exists_isOn`).  Requests for definitions at that place are therefore served with the
recipes of this name, or with its variables when there is no recipe (`exists_serves_at_name`), and
following a definition once more gives the definitions that were given before, unless these were
variables beside which there are recipes (`definitions_lead_back`).
-/

namespace JustfileServer

/-- A name of symbol bytes is a word of its line. -/
theorem HasName.exists_cut {line : Line} {d : Definition} {before name : Bytes}
    (h : HasName line d before name) (symbols : ∀ b ∈ name, Byte.isSymbol b = true) :
    ∃ after, Word.Cut line.bytes before name after := by
  obtain ⟨after, rest, trails, bytes⟩ := h.exists_eq
  refine ⟨after ++ Byte.colon :: rest, bytes, symbols, h.filled, ?_, ?_⟩
  · intro b hb
    exact isSymbol_of_isBlank (h.leads b (List.mem_of_getLast? hb))
  · intro b hb
    cases after with
    | nil =>
        cases hb
        decide
    | cons first after =>
        cases hb
        exact isSymbol_of_isBlank (trails b (List.mem_cons_self ..))

namespace Justfile

/-- **The name of a definition is a word** on its line, with only white space before it. -/
structure NamedByWord (j : Justfile) (d : Definition) (bytes before after : Bytes) : Prop where
  found : j.lineBytes? d.line = some bytes
  leads : IsBlank before
  cut : Word.Cut bytes before (d.name.bytes j.data) after
  column : d.column = before.length
  length : d.name.last - d.name.first + 1 = (d.name.bytes j.data).length

variable {j : Justfile} {text : Text} {d : Definition} {bytes before after word : Bytes}
  {range : Range} {character : Int}

theorem exists_namedByWord (hd : d ∈ (ofText text).definitions)
    (symbols : ∀ b ∈ d.name.bytes (ofText text).data, Byte.isSymbol b = true) :
    ∃ bytes before after, (ofText text).NamedByWord d bytes before after := by
  obtain ⟨line, isLine, ⟨before, name, named⟩, -⟩ := exists_line_of_mem_definitions hd
  have onLine := isLine_iff.1 isLine
  have covered : d.name.bytes (ofText text).data = name := named.bytes_eq onLine
  rw [covered] at symbols
  obtain ⟨after, cut⟩ := named.exists_cut symbols
  refine ⟨line.bytes, before, after, ?_, named.leads, ?_, named.column, ?_⟩
  · rw [named.number]
    exact isLine.bytes
  · rwa [covered]
  · rw [covered, named.span]
    simp only [Span.ofLength]
    omega

namespace NamedByWord

variable (h : (ofText text).NamedByWord d bytes before after)
include h

/-- The line begins, up to the end of the name, with ASCII characters. -/
theorem exists_text : ∃ rest, (∀ b ∈ before ++ d.name.bytes (ofText text).data, b.toNat < 0x80) ∧
    bytes = Utf8.encode
      ((before ++ d.name.bytes (ofText text).data).map CodePoint.ofByte ++ rest) := by
  have ascii : ∀ b ∈ before ++ d.name.bytes (ofText text).data, b.toNat < 0x80 := by
    intro b hb
    rcases List.mem_append.1 hb with hb | hb
    · exact lt_of_isBlank (h.leads b hb)
    · exact h.cut.ascii b hb
  obtain ⟨t, encoded⟩ := exists_text_of_lineBytes? h.found
  have starts := encoded.symm.trans h.cut.eq
  obtain ⟨rest, rfl⟩ := Utf8.exists_of_encode_eq ascii starts
  exact ⟨rest, ascii, encoded⟩

/-- The place of the definition: the columns of its name, in either unit. -/
theorem range_eq (place : (ofText text).IsPlaceOf d range) :
    range = ⟨⟨.number d.line, before.length⟩,
      ⟨.number d.line, (before.length + (d.name.bytes (ofText text).data).length : Nat)⟩⟩ := by
  obtain ⟨rest, ascii, encoded⟩ := h.exists_text
  have ranged := place.eq
  rw [definitionRange, h.found, Option.getD_some, encoded, Utf8.decode_codePoints_encode,
    ok_bind, h.length, h.column] at ranged
  dsimp only at ranged
  rw [← Int.natCast_add, Column.byteToUtf16_ascii ascii (by simp),
    Column.byteToUtf16_ascii ascii (by simp)] at ranged
  cases ranged
  rfl

/-- A client's column on the name, or just behind it, is a byte column of its line. -/
theorem isAt {column : Nat}
    (last : column ≤ before.length + (d.name.bytes (ofText text).data).length) :
    (ofText text).IsAt d.line column bytes column := by
  obtain ⟨rest, ascii, encoded⟩ := h.exists_text
  refine ⟨h.found, _, encoded, ?_⟩
  rw [Column.utf16ToByte_ascii ascii (by simpa using last)]

/-- **At the place of the definition its name is found**, and it can refer to anything there. -/
theorem exists_isOn {column : Nat} (first : before.length ≤ column)
    (last : column ≤ before.length + (d.name.bytes (ofText text).data).length) :
    ∃ c, (ofText text).symbolAt (.number d.line) (.units column) = .ok (some c) ∧
      c.IsOn before (d.name.bytes (ofText text).data) after ∧ c.scope = .any := by
  obtain ⟨c, found, rfl, rfl, on⟩ := (h.isAt last).exists_isOn h.cut first last
  have braceless := h.leads.notMem (b := Byte.openBrace) (by decide)
  have colonless := h.leads.notMem (b := Byte.colon) (by decide)
  exact ⟨c, found, on, h.cut.atColumn_eq_any braceless colonless first last⟩

end NamedByWord

end Justfile

namespace Server

variable {s : Server} {params : Json} {key : DocumentKey} {name version : Json} {text : Text}
  {d : Definition} {range : Range} {c : Cursor} {result : Json}

/-! ## Requests at the place of a definition -/

/-- A position at the place of a definition finds the definition's name. -/
theorem exists_cursor_at_name (name version : Json)
    (hd : d ∈ (Justfile.ofText text).definitions)
    (symbols : ∀ b ∈ d.name.bytes (Justfile.ofText text).data, Byte.isSymbol b = true)
    (place : (Justfile.ofText text).IsPlaceOf d range) {character : Int}
    (first : range.start.character ≤ character) (last : character ≤ range.stop.character) :
    ∃ c before after, cursorAt (.ofText name text version) (.int d.line) (.int character)
        = .ok (some c) ∧
      c.IsOn before (d.name.bytes (Justfile.ofText text).data) after ∧
      before.length = d.column ∧ c.scope = .any := by
  obtain ⟨bytes, before, after, named⟩ := Justfile.exists_namedByWord hd symbols
  obtain rfl := named.range_eq place
  dsimp only at first last
  obtain ⟨column, rfl⟩ := Int.eq_ofNat_of_zero_le (Int.le_trans (Int.natCast_nonneg _) first)
  obtain ⟨c, found, on, scope⟩ := named.exists_isOn (Int.ofNat_le.1 first) (Int.ofNat_le.1 last)
  exact ⟨c, before, after, cursorAt_of_symbolAt found, on, named.column.symm, scope⟩

/-- A request at the place of a definition is served with all recipes of the definition's name, or
with all variables of the name when there is no recipe. -/
theorem exists_serves_at_name (isOpen : s.documents.find? key = some (.ofText name text version))
    (hd : d ∈ (Justfile.ofText text).definitions)
    (symbols : ∀ b ∈ d.name.bytes (Justfile.ofText text).data, Byte.isSymbol b = true)
    (place : (Justfile.ofText text).IsPlaceOf d range) (into : Params.PointsInto params key range) :
    ∃ result, Serves findDefinitions params s result ∧ (Justfile.ofText text).Lists name
      ((Justfile.ofText text).admitted (d.name.bytes (Justfile.ofText text).data) .any) result := by
  obtain ⟨line, character, points, same, first, last⟩ := into
  obtain rfl : (d.line : Int) = line := LineNumber.number.inj (place.start.symm.trans same)
  obtain ⟨c, _, _, found, on, -, scope⟩ :=
    exists_cursor_at_name name version hd symbols place first last
  have aimed := perform_target points isOpen found
  obtain ⟨result, served, lists⟩ := exists_serves_findDefinitions aimed
  rw [on.resolve_eq, scope] at lists
  exact ⟨result, served, lists⟩

/-- A request that has been served with a place points at a word, and was given the definitions that
the scope of the word admits. -/
theorem exists_isOn_of_serves {line character : Json}
    (isOpen : s.documents.find? key = some (.ofText name text version))
    (points : Params.PointsTo params key line character)
    (served : Serves findDefinitions params s result) (given : result ≠ .null) :
    ∃ c before word after, cursorAt (.ofText name text version) line character = .ok (some c) ∧
      c.IsOn before word after ∧
      (Justfile.ofText text).Lists name ((Justfile.ofText text).admitted word c.scope) result := by
  have aimed := perform_target_eq points isOpen
  cases found : cursorAt (.ofText name text version) line character with
  | error f =>
      rw [found] at aimed
      obtain ⟨journal, performed⟩ := served
      rw [findDefinitions, Action.perform_bind_error aimed] at performed
      cases performed
  | ok found' =>
      rw [found] at aimed
      cases found' with
      | none =>
          have nothing : Serves findDefinitions params s .null :=
            ⟨s.journal, perform_findDefinitions_none aimed⟩
          exact absurd (served.unique nothing) given
      | some c =>
          obtain ⟨_, _, -, pointed⟩ := symbolAt_of_cursorAt found
          obtain ⟨before, word, after, on⟩ := Justfile.exists_isOn pointed
          obtain ⟨result', served', lists⟩ := exists_serves_findDefinitions aimed
          rw [on.resolve_eq] at lists
          rw [served.unique served']
          exact ⟨c, before, word, after, rfl, on, lists⟩

/-! ## There and back -/

variable (key name version text)

/-- **A definition is found at its own place.**  At each column of the place, the end included, the
cursor has just the name of the definition, and a request for definitions is served with all recipes
of the name, or with all variables of the name when there is no recipe.  The definition itself is
among them unless it is a variable beside a recipe. -/
structure FindsItself (d : Definition) (range : Range) : Prop where
  place : (Justfile.ofText text).IsPlaceOf d range
  cursor : ∀ character : Int, range.start.character ≤ character →
    character ≤ range.stop.character →
    ∃ c, cursorAt (.ofText name text version) (.int d.line) (.int character) = .ok (some c) ∧
      c.start = d.column ∧ c.stop = d.column + (d.name.bytes (Justfile.ofText text).data).length ∧
      c.word = d.name.text (Justfile.ofText text).data
  served : ∀ s params, s.documents.find? key = some (.ofText name text version) →
    Params.PointsInto params key range → ∃ result, Serves findDefinitions params s result ∧
      (Justfile.ofText text).Lists name
        ((Justfile.ofText text).admitted (d.name.bytes (Justfile.ofText text).data) .any) result ∧
      (¬ (d.kind = .assignment ∧
          (Justfile.ofText text).named .recipe (d.name.bytes (Justfile.ofText text).data) ≠ []) →
        ∃ locations, result = .arr locations ∧ locationJson name range ∈ locations)

/-- **A place leads back to a result**, which was given for a word in a scope.  Each request for
definitions at the place is served with this result, or with the recipes of the word where there are
some but only variables were asked for. -/
def LeadsBack (scope : Scope) (word : Bytes) (result : Json) (range : Range) : Prop :=
  ∀ s params, s.documents.find? key = some (.ofText name text version) →
    Params.PointsInto params key range → ∃ result', Serves findDefinitions params s result' ∧
      if scope = .variables ∧ (Justfile.ofText text).named .recipe word ≠ [] then
        (Justfile.ofText text).Lists name ((Justfile.ofText text).named .recipe word) result'
      else result' = result

variable {key name version text}

theorem exists_findsItself (hd : d ∈ (Justfile.ofText text).definitions)
    (symbols : ∀ b ∈ d.name.bytes (Justfile.ofText text).data, Byte.isSymbol b = true) :
    ∃ range, FindsItself key name version text d range := by
  obtain ⟨range, -, place⟩ := Justfile.exists_isPlaceOf text d
  refine ⟨range, place, ?_, ?_⟩
  · intro character first last
    obtain ⟨c, before, after, found, on, column, -⟩ :=
      exists_cursor_at_name name version hd symbols place first last
    refine ⟨c, found, on.start.trans column, ?_, ?_⟩
    · rw [on.stop, column]
    · rw [on.word_eq]
      exact ((Utf8.decodeReplacing_eq_iff on.cut.ascii).2 rfl).symm
  · intro s params isOpen into
    obtain ⟨result, served, lists⟩ := exists_serves_at_name isOpen hd symbols place into
    refine ⟨result, served, lists, ?_⟩
    intro own
    exact lists.exists_location (Justfile.mem_admitted_any hd own) place

/-- A place among definitions that are listed for a word leads back to the list. -/
theorem leadsBack_of_lists {before word after : Bytes} (on : c.IsOn before word after)
    (lists : (Justfile.ofText text).Lists name
      ((Justfile.ofText text).admitted word c.scope) result)
    (hd : d ∈ (Justfile.ofText text).admitted word c.scope)
    (place : (Justfile.ofText text).IsPlaceOf d range) :
    LeadsBack key name version text c.scope word result range := by
  intro s params isOpen into
  obtain ⟨defined, rfl⟩ := Justfile.mem_admitted hd
  obtain ⟨result', served', lists'⟩ :=
    exists_serves_at_name isOpen defined on.cut.symbols place into
  refine ⟨result', served', ?_⟩
  rw [Justfile.admitted_any (List.ne_nil_of_mem hd)] at lists'
  split
  · rename_i shadowed
    rwa [if_pos shadowed] at lists'
  · rename_i own
    rw [if_neg own] at lists'
    exact lists'.unique lists

/-- **Definitions lead back to themselves.**  A definition whose name consists of symbol bytes is
found at its own place.  And wherever a request for definitions is served with places, each of them
is that of a definition, and leads back to the result: to the same places once more, or, where the
request asked for variables only and there are recipes of the name, to these recipes. -/
theorem definitions_lead_back (key : DocumentKey) (name version : Json) (text : Text) :
    (∀ d ∈ (Justfile.ofText text).definitions,
      (∀ b ∈ d.name.bytes (Justfile.ofText text).data, Byte.isSymbol b = true) →
      ∃ range, FindsItself key name version text d range) ∧
    ∀ s params line character result, s.documents.find? key = some (.ofText name text version) →
      Params.PointsTo params key line character → Serves findDefinitions params s result →
      result ≠ .null →
      ∃ (c : Cursor) (word : Bytes) (ranges : List Range),
        cursorAt (.ofText name text version) line character = .ok (some c) ∧
        c.word = word.map CodePoint.ofByte ∧ result = .arr (ranges.map (locationJson name)) ∧
        ∀ range ∈ ranges,
          (∃ d ∈ (Justfile.ofText text).definitions, (Justfile.ofText text).IsPlaceOf d range) ∧
          LeadsBack key name version text c.scope word result range := by
  refine ⟨fun d hd symbols => exists_findsItself hd symbols, ?_⟩
  intro s params line character result isOpen points served given
  obtain ⟨c, before, word, after, found, on, lists⟩ :=
    exists_isOn_of_serves isOpen points served given
  obtain ⟨ranges, places, same⟩ := lists
  have filled : (Justfile.ofText text).admitted word c.scope ≠ [] := by
    intro none
    rw [if_pos none] at same
    exact given same
  refine ⟨c, word, ranges, found, on.word_eq, same.trans (if_neg filled), ?_⟩
  intro range hr
  obtain ⟨d, hd, place⟩ := exists_of_mem_forall₂ places hr
  refine ⟨⟨d, (Justfile.mem_admitted hd).1, place⟩, ?_⟩
  exact leadsBack_of_lists on ⟨ranges, places, same⟩ hd place

/-- The reference in braces asks for variables only, and there is a recipe of its name, so from the
variable that is found one is led to the recipe. -/
theorem definitions_lead_back_from_reference : ∃ result ranges,
    Serves findDefinitions (pointing 2 5) interpolating result ∧
      result = .arr (List.map (locationJson (.str "file:///justfile")) ranges) ∧ ranges ≠ [] ∧
      (Justfile.ofText interpolated).named .recipe (Utf8.encode "a") ≠ [] ∧
      ∀ range ∈ ranges, LeadsBack (.text "file:///justfile") (.str "file:///justfile") (.int 1)
        interpolated .variables (Utf8.encode "a") result range := by
  obtain ⟨c, found, bytes, column, on⟩ :=
    isAt_reference.exists_isOn cut_reference (by decide) (by decide)
  have inside : c.scope = .variables := by
    rw [Cursor.scope, bytes, column]
    decide
  have cursor : cursorAt (.ofText (.str "file:///justfile") interpolated (.int 1)) (.int 2) (.int 5)
      = .ok (some c) := cursorAt_of_symbolAt found
  obtain ⟨result, served, ranges, places, listed⟩ := exists_serves_findDefinitions
    (perform_target (pointsTo_pointing 2 5) isOpen_interpolated cursor)
  rw [on.resolve_eq, inside] at places listed
  rw [if_neg (by decide)] at listed
  have given : result ≠ .null := by
    rw [listed]
    intro null
    cases null
  obtain ⟨c', word, ranges', found', spelled, same, back⟩ :=
    (definitions_lead_back (.text "file:///justfile") (.str "file:///justfile") (.int 1)
      interpolated).2 _ _ _ _ _ isOpen_interpolated (pointsTo_pointing 2 5) served given
  obtain rfl : c = c' := by
    rw [cursor] at found'
    cases found'
    rfl
  obtain rfl : Utf8.encode "a" = word := by
    rw [on.word_eq] at spelled
    exact CodePoint.ofByte_injective.list_map spelled
  refine ⟨result, ranges', served, same, ?_, by decide, ?_⟩
  · rintro rfl
    have none : ranges = [] := by simpa [listed] using same
    rw [none] at places
    exact absurd (List.forall₂_nil_right_iff.1 places) (by decide)
  · intro range hr
    rw [← inside]
    exact (back range hr).2

end Server

end JustfileServer
