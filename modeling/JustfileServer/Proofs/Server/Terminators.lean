import JustfileServer.Proofs.Justfile.Terminators
import JustfileServer.Proofs.Navigation.PaddedTexts
import JustfileServer.Proofs.Server.Findings

/-!
# Navigation and the terminators of lines

Two servers have one document open, the second one with a carriage return before each newline.  A
request that points at the same place in both finds the same as long as the place is on its line
(`exists_same_findings`).  Behind the end of a line it does not: for the cursor the carriage return
is part of the line, so it stops behind the carriage return, where there is no word, while without
one it stops behind the last byte of the line, which may be that of a word
(`navigation_with_returns`).
-/

namespace JustfileServer

/-- **A place behind the end of a line** that another line follows. -/
structure Justfile.IsBeyond (j : Justfile) (line character : Int) : Prop where
  past : ∃ t, j.lineBytes? line = some (Utf8.encode t) ∧
    Column.size CodePoint.utf16Width t < character
  followed : j.lineBytes? (line + 1) ≠ none

/-- What lists definitions lists those that are alike, in a text whose lines are padded. -/
theorem Justfile.Lists.of_isAlike {text padded : Text} {uri result : Json}
    {ds es : List Definition} (h : (ofText text).Lists uri ds result)
    (alike : List.Forall₂ (Text.DefineAlike text padded) ds es) :
    (ofText padded).Lists uri es result := by
  obtain ⟨ranges, places, rfl⟩ := h
  refine ⟨ranges, ?_, ?_⟩
  · induction alike generalizing ranges with
    | nil => exact List.forall₂_nil_left_iff.2 (List.forall₂_nil_left_iff.1 places)
    | cons same _ ih =>
        cases places with
        | cons place places => exact .cons (same.isPlaceOf place) (ih _ places)
  · cases alike <;> rfl

namespace Server

variable {s s' : Server} {params : Json} {key : DocumentKey} {name version version' : Json}
  {text padded : Text} {line character : Int} {bytes word tail : Bytes} {column : Nat}

/-- White space at the ends of lines does not change what a word is. -/
theorem hover_of_isPadded (pads : text.IsPadded padded) (filled : word ≠ [])
    (ascii : ∀ b ∈ word, b.toNat < 0x80) (range : Range) :
    hover (.ofJustfile (.ofText padded)) (word.map CodePoint.ofByte) range
      = hover (.ofJustfile (.ofText text)) (word.map CodePoint.ofByte) range := by
  have defined (kind : DefinitionKind) : (Justfile.ofText padded).named kind word ≠ [] ↔
      (Justfile.ofText text).named kind word ≠ [] := by
    rw [← List.length_pos_iff, ← List.length_pos_iff,
      (Justfile.forall₂_named pads kind word).length_eq]
  rw [hover, hover, kindOf?_ofJustfile filled ascii, kindOf?_ofJustfile filled ascii]
  simp only [defined]

/-- **White space at the end of a line is not noticed** from a column of the line. -/
theorem exists_same_findings (pads : text.IsPadded padded)
    (points : Params.PointsTo params key (.int line) (.int character))
    (isOpen : s.documents.find? key = some (.ofText name text version))
    (isOpen' : s'.documents.find? key = some (.ofText name padded version'))
    (here : (Justfile.ofText text).IsAt line character bytes column) (blank : IsBlank tail)
    (here' : (Justfile.ofText padded).IsAt line character (bytes ++ tail) column) :
    ∃ definitions description, Finds params s definitions description ∧
      Finds params s' definitions description := by
  by_cases touches : Word.TouchesSymbol bytes column
  · obtain ⟨word, before, after, cut, first, last⟩ := Word.touchesSymbol_iff_exists.1 touches
    obtain ⟨c, found, -, place, on⟩ := here.exists_isOn cut first last
    obtain ⟨c', found', -, place', on'⟩ := here'.exists_isOn (cut.append blank) first last
    obtain ⟨number, -, encoded, -⟩ := Justfile.parts_of_symbolAt found
    obtain ⟨number', -, encoded', -⟩ := Justfile.parts_of_symbolAt found'
    obtain ⟨same, scope, range⟩ := on.eq_of_isPadded on' blank (number'.trans number.symm)
      (place'.trans place.symm) encoded encoded'
    obtain ⟨definitions, finds, lists⟩ := exists_finds_word points isOpen found
    obtain ⟨definitions', finds', lists'⟩ := exists_finds_word points isOpen' found'
    rw [on.encode_word] at lists
    rw [on'.encode_word, scope] at lists'
    have alike := lists.of_isAlike (Justfile.forall₂_admitted pads word c.scope)
    obtain rfl : definitions' = definitions := lists'.unique alike
    rw [same, on.word_eq, range, hover_of_isPadded pads cut.filled cut.ascii, ← on.word_eq] at finds'
    exact ⟨_, _, finds, finds'⟩
  · have silent : ¬ Word.TouchesSymbol (bytes ++ tail) column :=
      mt (Word.touchesSymbol_append_iff blank).1 touches
    exact ⟨.null, .null, finds_nothing points isOpen (here.symbolAt_eq_none touches),
      finds_nothing points isOpen' (here'.symbolAt_eq_none silent)⟩

/-! ## Places on and behind a line -/

/-- On a line the carriage return at its end is not noticed. -/
theorem isAt_withReturns {t : Text} (found : (Justfile.ofText text).lineBytes? line
      = some (Utf8.encode t))
    (followed : (Justfile.ofText text).lineBytes? (line + 1) ≠ none) (character : Int) :
    (Justfile.ofText text.withReturns).IsAt line character
      (Utf8.encode t ++ [Byte.carriageReturn])
      (Column.utf16ToByte (t ++ [CodePoint.carriageReturn]) character) := by
  refine ⟨?_, t ++ [CodePoint.carriageReturn], ?_, rfl⟩
  · rw [Justfile.lineBytes?_withReturns, found, Option.map_some, if_neg followed]
  · exact (isBlank_carriageReturn.encode_append t).symm

/-- **Behind the end of a line with a carriage return** there is nothing. -/
theorem finds_nothing_beyond (points : Params.PointsTo params key (.int line) (.int character))
    (isOpen : s.documents.find? key = some (.ofText name text.withReturns version))
    (beyond : (Justfile.ofText text).IsBeyond line character) :
    Finds params s .null .null := by
  obtain ⟨t, found, past⟩ := beyond.past
  have here := isAt_withReturns found beyond.followed character
  have full : Column.size CodePoint.utf16Width (t ++ [CodePoint.carriageReturn]) ≤ character := by
    have one : Column.size CodePoint.utf16Width [CodePoint.carriageReturn] = 1 := rfl
    rw [Column.size_append, one]
    omega
  -- the cursor stops behind the carriage return, where no symbol byte is near
  have column : Column.utf16ToByte (t ++ [CodePoint.carriageReturn]) character
      = (Utf8.encode t).length + 1 := by
    rw [Column.utf16ToByte, Column.carry_of_size_le CodePoint.utf16Width_pos full,
      Column.size_append, Column.length_encode]
    rfl
  have silent : ¬ Word.TouchesSymbol (Utf8.encode t ++ [Byte.carriageReturn])
      (Column.utf16ToByte (t ++ [CodePoint.carriageReturn]) character) := by
    rw [Word.touchesSymbol_append_iff isBlank_carriageReturn, column]
    exact Word.not_touchesSymbol_of_lt (Nat.lt_succ_self _)
  exact finds_nothing points isOpen (here.symbolAt_eq_none silent)

/-- **Carriage returns are only noticed behind the end of a line.**  Two servers have one document
open, the second one with a carriage return before each newline.  A request that points at any place
of the document is served by both, for definitions and for a hover text.  The results are the same
unless the place is behind the end of a line that another line follows; there the second server
finds nothing. -/
theorem navigation_with_returns
    (points : Params.PointsTo params key (.int line) (.int character))
    (isOpen : s.documents.find? key = some (.ofText name text version))
    (isOpen' : s'.documents.find? key = some (.ofText name text.withReturns version')) :
    ∃ definitions description definitions' description',
      Finds params s definitions description ∧ Finds params s' definitions' description' ∧
      (¬ (Justfile.ofText text).IsBeyond line character →
        definitions' = definitions ∧ description' = description) ∧
      ((Justfile.ofText text).IsBeyond line character →
        definitions' = .null ∧ description' = .null) := by
  by_cases beyond : (Justfile.ofText text).IsBeyond line character
  · obtain ⟨definitions, description, finds⟩ := exists_finds points isOpen
    exact ⟨_, _, _, _, finds, finds_nothing_beyond points isOpen' beyond,
      fun other => absurd beyond other, fun _ => ⟨rfl, rfl⟩⟩
  have same : ∃ definitions description, Finds params s definitions description ∧
      Finds params s' definitions description := by
    cases found : (Justfile.ofText text).lineBytes? line with
    | none =>
        have absent : (Justfile.ofText text.withReturns).lineBytes? line = none := by
          rw [Justfile.lineBytes?_withReturns, found]
          rfl
        exact ⟨_, _, finds_nothing points isOpen (symbolAt_of_lineBytes?_eq_none found _),
          finds_nothing points isOpen' (symbolAt_of_lineBytes?_eq_none absent _)⟩
    | some bytes =>
        obtain ⟨t, rfl⟩ := Justfile.exists_text_of_lineBytes? found
        have here : (Justfile.ofText text).IsAt line character (Utf8.encode t)
            (Column.utf16ToByte t character) := ⟨found, t, rfl, rfl⟩
        by_cases last : (Justfile.ofText text).lineBytes? (line + 1) = none
        · have here' : (Justfile.ofText text.withReturns).IsAt line character (Utf8.encode t ++ [])
              (Column.utf16ToByte t character) := by
            refine ⟨?_, t, List.append_nil _, rfl⟩
            rw [Justfile.lineBytes?_withReturns, found, Option.map_some, if_pos last,
              List.append_nil]
          exact exists_same_findings text.isPadded_withReturns points isOpen isOpen' here
            (by simp [IsBlank]) here'
        · have inside : character ≤ Column.size CodePoint.utf16Width t := by
            by_contra past
            exact beyond ⟨⟨t, found, by omega⟩, last⟩
          have here' := isAt_withReturns found last character
          rw [Column.utf16ToByte, Column.carry_append inside] at here'
          exact exists_same_findings text.isPadded_withReturns points isOpen isOpen' here
            isBlank_carriageReturn here'
  obtain ⟨definitions, description, finds, finds'⟩ := same
  exact ⟨_, _, _, _, finds, finds', fun _ => ⟨rfl, rfl⟩, fun other => absurd other beyond⟩

/-- A recipe that depends on itself. -/
def selfDependent : Text := "a: a\n"

/-- A server with the document open. -/
def terminated : Server :=
  { initial false with
    documents := DocumentTable.put [] (.text "file:///justfile")
      (.ofText (.str "file:///justfile") selfDependent (.int 1)) }

/-- A server with the document open, its newlines after carriage returns. -/
def returned : Server :=
  { initial false with
    documents := DocumentTable.put [] (.text "file:///justfile")
      (.ofText (.str "file:///justfile") selfDependent.withReturns (.int 1)) }

theorem isOpen_terminated : terminated.documents.find? (.text "file:///justfile")
    = some (.ofText (.str "file:///justfile") selfDependent (.int 1)) := rfl

theorem isOpen_returned : returned.documents.find? (.text "file:///justfile")
    = some (.ofText (.str "file:///justfile") selfDependent.withReturns (.int 1)) := rfl

theorem lineBytes?_selfDependent :
    (Justfile.ofText selfDependent).lineBytes? 0 = some (Utf8.encode "a: a") := by decide

theorem isBeyond_selfDependent : (Justfile.ofText selfDependent).IsBeyond 0 9 :=
  ⟨⟨"a: a", lineBytes?_selfDependent, by decide⟩, by decide⟩

/-- The same is found at the end of the dependency, the last place of its line; behind that the
carriage return hides the dependency. -/
theorem navigation_with_returns_at_dependency :
    (∃ definitions description, Finds (pointing 0 4) terminated definitions description ∧
      Finds (pointing 0 4) returned definitions description) ∧
    Finds (pointing 0 9) returned .null .null := by
  have inside : ¬ (Justfile.ofText selfDependent).IsBeyond 0 4 := by
    intro beyond
    obtain ⟨t, found, past⟩ := beyond.past
    rw [lineBytes?_selfDependent, Option.some.injEq] at found
    rw [← Utf8.encode_injective found] at past
    exact absurd past (by decide)
  obtain ⟨definitions, description, _, _, finds, finds', same, -⟩ :=
    navigation_with_returns (pointsTo_pointing 0 4) isOpen_terminated isOpen_returned
  obtain ⟨rfl, rfl⟩ := same inside
  obtain ⟨_, _, _, _, -, nothing, -, behind⟩ :=
    navigation_with_returns (pointsTo_pointing 0 9) isOpen_terminated isOpen_returned
  obtain ⟨rfl, rfl⟩ := behind isBeyond_selfDependent
  exact ⟨⟨_, _, finds, finds'⟩, nothing⟩

/-- **Behind the end of a line** the two servers disagree: without a carriage return a column that
is too large is taken for the end of the line, where the dependency is found, and with one it is
taken for a place behind the carriage return. -/
theorem terminators_noticed_behind_line :
    (¬ ∃ result, Serves findDefinitions (pointing 0 9) terminated result ∧
      Serves findDefinitions (pointing 0 9) returned result) ∧
    ¬ ∃ result, Serves describeWord (pointing 0 9) terminated result ∧
      Serves describeWord (pointing 0 9) returned result := by
  have nothing := finds_nothing_beyond (pointsTo_pointing 0 9) isOpen_returned
    isBeyond_selfDependent
  have here : (Justfile.ofText selfDependent).IsAt 0 9 (Utf8.encode "a: a") 4 :=
    ⟨lineBytes?_selfDependent, "a: a", rfl, by decide⟩
  have cut : Word.Cut (Utf8.encode "a: a") (Utf8.encode "a: ") (Utf8.encode "a") [] :=
    .of_tests (by decide) (by decide) (by decide) (by decide) (by decide)
  obtain ⟨c, found, bytes, column, on⟩ := here.exists_isOn cut (by decide) (by decide)
  have behind : c.scope = .recipes := by
    rw [Cursor.scope, bytes, column]
    decide
  have aimed := perform_target (pointsTo_pointing 0 9) isOpen_terminated (cursorAt_of_symbolAt found)
  constructor
  · rintro ⟨result, served, served'⟩
    obtain ⟨result', listed, ranges, -, places⟩ := exists_serves_findDefinitions aimed
    rw [on.resolve_eq, behind, if_neg (by decide)] at places
    have null := (listed.unique served).trans (served'.unique nothing.definitions)
    rw [places] at null
    cases null
  · rintro ⟨result, served, served'⟩
    have described := serves_describeWord aimed
    have null := (described.unique served).trans (served'.unique nothing.description)
    have index (text : Text) (name version : Json) :
        (Document.ofText name text version).index = .ofJustfile (.ofText text) := rfl
    rw [index, hover, on.word_eq, kindOf?_ofJustfile cut.filled cut.ascii,
      if_pos (by decide)] at null
    cases null

end Server

end JustfileServer
