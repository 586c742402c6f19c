import JustfileServer.Proofs.Justfile.Pieces
import JustfileServer.Proofs.Justfile.Spans
import JustfileServer.Proofs.Navigation.Positions
import JustfileServer.Proofs.Text.Boundaries

/-!
# The range of a name

The place of a definition is given to a client in UTF-16 units.  The line is decoded for it and two
byte columns are carried over, the one where the name starts and the one behind it; both are
boundaries between code points (`byteToUtf16_length_encode`), so the range takes the units of the
name out of those of the line (`Justfile.range_selects_name`).

The range of the word under a cursor is made in the same way (`Cursor.IsOn.exists_range`).  It takes
out the units of the word (`Cursor.IsOn.range_selects`), and at each of its columns the word is found
again (`Justfile.exists_symbolAt_in_range`).
-/

namespace JustfileServer

/-- **A range selects a name** on a line: it lies on the line, it is not empty, and the UTF-16 units
in it are those of the name. -/
structure Range.Selects (range : Range) (line name : Text) : Prop where
  first : 0 ≤ range.start.character
  filled : range.start.character < range.stop.character
  last : range.stop.character ≤ (Utf16.encode line).length
  units : ((Utf16.encode line).drop range.start.character.toNat).take
    (range.stop.character - range.start.character).toNat = Utf16.encode name

/-- What stands before a place ends at the same place in both units. -/
theorem Column.byteToUtf16_length_encode (before rest : Text) :
    byteToUtf16 (before ++ rest) (Utf8.encode before).length = (Utf16.encode before).length := by
  have carried := carry_size_take CodePoint.utf8Width_pos CodePoint.utf16Width (before ++ rest)
    before.length
  rwa [List.take_left, ← length_encode, ← Utf16.length_encode] at carried

theorem Column.utf16ToByte_length_encode (before rest : Text) :
    utf16ToByte (before ++ rest) (Utf16.encode before).length = (Utf8.encode before).length := by
  have carried := carry_size_take CodePoint.utf16Width_pos CodePoint.utf8Width (before ++ rest)
    before.length
  rwa [List.take_left, ← length_encode, ← Utf16.length_encode] at carried

/-- A column on a piece of a line is carried over to one on that piece, its ends included. -/
theorem Column.utf16ToByte_on_piece (before piece rest : Text) {column : Int}
    (first : (Utf16.encode before).length ≤ column)
    (last : column ≤ (Utf16.encode (before ++ piece)).length) :
    (Utf8.encode before).length ≤ utf16ToByte (before ++ piece ++ rest) column ∧
      utf16ToByte (before ++ piece ++ rest) column
        ≤ (Utf8.encode before).length + (Utf8.encode piece).length := by
  have rises := (carriesOver_carry CodePoint.utf16Width_pos CodePoint.utf8Width
    (before ++ piece ++ rest)).monotone
  have start := utf16ToByte_length_encode before (piece ++ rest)
  have stop := utf16ToByte_length_encode (before ++ piece) rest
  rw [← List.append_assoc] at start
  rw [Utf8.encode_append, List.length_append] at stop
  constructor
  · rw [← start]
    exact rises _ _ first
  · rw [← stop]
    exact rises _ _ last

theorem Utf16.length_encode_pos {t : Text} (filled : t ≠ []) : 0 < (encode t).length := by
  obtain ⟨c, t, rfl⟩ := List.exists_cons_of_ne_nil filled
  rw [encode, List.flatMap_cons, List.length_append, CodePoint.length_utf16]
  exact Nat.add_pos_left c.utf16Width_pos _

/-- A range between the ends of what stands before a name and of the name selects it. -/
theorem Range.selects_of_append {before name : Text} (filled : name ≠ []) (rest : Text)
    (first last : LineNumber) :
    Selects ⟨⟨first, (Utf16.encode before).length⟩, ⟨last, (Utf16.encode (before ++ name)).length⟩⟩
      (before ++ name ++ rest) name := by
  have positive := Utf16.length_encode_pos filled
  have whole : Utf16.encode (before ++ name ++ rest)
      = Utf16.encode before ++ (Utf16.encode name ++ Utf16.encode rest) := by
    rw [List.append_assoc, Utf16.encode_append, Utf16.encode_append]
  have size : (Utf16.encode (before ++ name)).length
      = (Utf16.encode before).length + (Utf16.encode name).length := by
    rw [Utf16.encode_append, List.length_append]
  constructor
  · exact Int.natCast_nonneg _
  · show ((Utf16.encode before).length : Int) < (Utf16.encode (before ++ name)).length
    omega
  · show ((Utf16.encode (before ++ name)).length : Int) ≤ _
    rw [whole, List.length_append, List.length_append]
    omega
  · have length : (((Utf16.encode (before ++ name)).length : Int)
        - (Utf16.encode before).length).toNat = (Utf16.encode name).length := by omega
    rw [whole]
    dsimp only
    rw [length, Int.toNat_natCast, List.drop_left, List.take_left]

/-! ## The range of a word -/

/-- A word in ASCII that is cut out of an encoded text is a piece of the text. -/
theorem Utf8.exists_word {t : Text} {before word after : Bytes} (filled : word ≠ [])
    (small : ∀ b ∈ word, b.toNat < 0x80) (h : encode t = before ++ word ++ after) :
    ∃ front rest, t = front ++ word.map CodePoint.ofByte ++ rest ∧ encode front = before := by
  have starts : ∀ b, (word ++ after).head? = some b → b.toNat < 0x80 := by
    intro b hb
    rw [List.head?_append_of_ne_nil _ filled] at hb
    exact small b (List.mem_of_head? hb)
  rw [List.append_assoc] at h
  obtain ⟨front, back, rfl, encoded, behind⟩ := exists_front h starts
  obtain ⟨rest, rfl⟩ := exists_of_encode_eq small behind
  exact ⟨front, rest, (List.append_assoc ..).symm, encoded⟩

namespace Cursor.IsOn

variable {c : Cursor} {before word after : Bytes} (on : c.IsOn before word after)
  (decoded : c.bytes = Utf8.encode c.text)
include on decoded

/-- **The word under a cursor is a piece of its line**, and its range lies between the ends of what
stands before it and of the word. -/
theorem exists_range : ∃ front rest, c.text = front ++ c.word ++ rest ∧
    Utf8.encode front = before ∧ c.range = ⟨⟨c.line, (Utf16.encode front).length⟩,
      ⟨c.line, (Utf16.encode (front ++ c.word)).length⟩⟩ := by
  have cut := on.cut.eq
  rw [decoded] at cut
  obtain ⟨front, rest, line, rfl⟩ := Utf8.exists_word on.cut.filled on.cut.ascii cut
  rw [← on.word_eq] at line
  refine ⟨front, rest, line, rfl, ?_⟩
  have stop : c.stop = (Utf8.encode (front ++ c.word)).length := by
    rw [on.stop, Utf8.encode_append, on.encode_word, List.length_append]
  have start := Column.byteToUtf16_length_encode front (c.word ++ rest)
  rw [← List.append_assoc] at start
  rw [Cursor.range, on.start, stop, line, start, Column.byteToUtf16_length_encode]

/-- The range of a word selects it. -/
theorem range_selects : c.range.Selects c.text c.word := by
  obtain ⟨front, rest, line, -, range⟩ := on.exists_range decoded
  have filled : c.word ≠ [] := by
    intro empty
    exact on.cut.filled (by rw [← on.encode_word, empty]; rfl)
  rw [range, line]
  exact Range.selects_of_append filled rest _ _

/-- A column of the range is carried over to one that touches the word. -/
theorem touches_in_range {character : Int} (first : c.range.start.character ≤ character)
    (last : character ≤ c.range.stop.character) :
    before.length ≤ Column.utf16ToByte c.text character ∧
      Column.utf16ToByte c.text character ≤ before.length + word.length := by
  obtain ⟨front, rest, line, rfl, range⟩ := on.exists_range decoded
  rw [range] at first last
  rw [line, ← on.encode_word]
  exact Column.utf16ToByte_on_piece front c.word rest first last

end Cursor.IsOn

namespace Justfile

variable {text : Text} {d : Definition} {c : Cursor} {line character : Int}
  {column : ClientColumn}

/-- **At each column of its range a word is found again**, the end of the range included. -/
theorem exists_symbolAt_in_range
    (found : (ofText text).symbolAt (.number line) column = .ok (some c))
    (first : c.range.start.character ≤ character) (last : character ≤ c.range.stop.character) :
    ∃ c', (ofText text).symbolAt (.number line) (.units character) = .ok (some c') ∧
      c'.word = c.word ∧ c'.range = c.range := by
  obtain ⟨number, bytes, decoded, -⟩ := parts_of_symbolAt found
  obtain ⟨before, word, after, on⟩ := exists_isOn found
  have here : (ofText text).IsAt line character c.bytes (Column.utf16ToByte c.text character) :=
    ⟨bytes, c.text, decoded, rfl⟩
  obtain ⟨touches, inside⟩ := on.touches_in_range decoded first last
  obtain ⟨c', found', -, -, on'⟩ := here.exists_isOn on.cut touches inside
  obtain ⟨same, -, range⟩ := eq_of_same_word found' found (on'.start.trans on.start.symm)
    (on'.stop.trans on.stop.symm)
  exact ⟨c', found', same, range⟩

/-! ## The range of a definition -/

/-- **The range of a definition selects its name.**  Every definition of a text has a range; it lies
on the line of the definition, and the UTF-16 units that it selects there are those of the piece of
the text that the span of the name covers. -/
theorem range_selects_name (hd : d ∈ (ofText text).definitions) :
    ∃ range line name, (ofText text).IsPlaceOf d range ∧
      (text.splitOn .newline)[d.line]? = some line ∧ d.name.Covers text name ∧
      range.Selects line name := by
  obtain ⟨line, isLine, ⟨before, name, named⟩, -⟩ := exists_line_of_mem_definitions hd
  obtain ⟨front, piece, rest, lineText, rfl, rfl, covers⟩ :=
    named.exists_pieces (isLine_iff.1 isLine)
  obtain ⟨range, ranged, place⟩ := exists_isPlaceOf text d
  refine ⟨range, _, piece, place, lineText, covers, ?_⟩
  have bytes : (ofText text).lineBytes? d.line = some (Utf8.encode (front ++ piece ++ rest)) := by
    rw [lineBytes?_eq_getElem?, splitLines_encode, List.getElem?_map, lineText]
    rfl
  have behind : (d.column : Int) + (d.name.last - d.name.first + 1)
      = (Utf8.encode (front ++ piece)).length := by
    rw [named.column, named.span, Utf8.encode_append, List.length_append, Span.ofLength]
    dsimp only
    omega
  have filled : piece ≠ [] := by
    rintro rfl
    exact named.filled rfl
  rw [definitionRange, bytes, Option.getD_some, Utf8.decode_codePoints_encode] at ranged
  obtain rfl := Except.ok.inj ranged
  have start := Column.byteToUtf16_length_encode front (piece ++ rest)
  rw [← List.append_assoc] at start
  rw [behind, named.column, start, Column.byteToUtf16_length_encode]
  exact Range.selects_of_append filled rest _ _

/-- The name may have code points outside the basic plane and surrogates in it. -/
theorem range_selects_name_beyond :
    let text : Text := [0x23, 0x0A, 0x09, 0x1F600, 0xD800, 0x61, 0x3A].map CodePoint.ofNat
    let d : Definition := ⟨⟨3, 10⟩, 1, 1, .recipe [] []⟩
    d ∈ (ofText text).definitions ∧ ∃ range line name, (ofText text).IsPlaceOf d range ∧
      (text.splitOn .newline)[d.line]? = some line ∧ d.name.Covers text name ∧
      range.Selects line name := by
  have defined : (⟨⟨3, 10⟩, 1, 1, .recipe [] []⟩ : Definition) ∈ (ofText
      ([0x23, 0x0A, 0x09, 0x1F600, 0xD800, 0x61, 0x3A].map CodePoint.ofNat)).definitions := by
    decide
  exact ⟨defined, range_selects_name defined⟩

end Justfile

end JustfileServer
