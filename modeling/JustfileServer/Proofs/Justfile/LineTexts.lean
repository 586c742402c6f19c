import JustfileServer.Navigation.Cursor
import JustfileServer.Proofs.Justfile.LineTable
import JustfileServer.Proofs.Results
import JustfileServer.Proofs.Text.AsciiBytes

/-!
# The lines of an encoded text

The newline is an ASCII byte, so an encoded text is cut between code points and each of its lines is
the encoding of a text, surrogates included.  Decoding a line never fails therefore, and every
definition of a justfile has a place (`exists_isPlaceOf`).  A column in UTF-16 units is carried
over to a byte column that is on the line (`utf16ToByte_le_length`).
-/

namespace JustfileServer

/-- A line of an encoded text is the encoding of a text. -/
theorem exists_text_of_mem_splitLines {t : Text} {line : Bytes}
    (h : line ∈ splitLines (Utf8.encode t)) : ∃ u, line = Utf8.encode u := by
  induction t generalizing line with
  | nil => exact ⟨[], List.mem_singleton.1 h⟩
  | cons c t ih =>
      rw [Utf8.encode, List.flatMap_cons, ← Utf8.encode] at h
      by_cases ends : Byte.newline ∈ c.utf8
      · have value := Utf8.eq_of_mem_utf8 ends (by decide)
        have alone : c.utf8 = [Byte.newline] := by
          unfold CodePoint.utf8
          rw [value]
          rfl
        rw [alone, ← List.nil_append [Byte.newline], List.append_assoc, List.singleton_append,
          splitLines_append_newline] at h
        rcases List.mem_append.1 h with h | h
        · exact ⟨[], List.mem_singleton.1 h⟩
        · exact ih h
      · obtain ⟨first, others, cut⟩ := List.exists_cons_of_ne_nil
          (splitLines_ne_nil (Utf8.encode t))
        rw [splitLines_append_of_notMem ends cut] at h
        rw [cut] at ih
        rcases List.mem_cons.1 h with rfl | h
        · obtain ⟨u, rfl⟩ := ih (List.mem_cons_self ..)
          exact ⟨c :: u, rfl⟩
        · exact ih (List.mem_cons_of_mem _ h)

namespace Utf8

/-- Decoding with all code points gives back every text. -/
theorem decode_codePoints_encode (t : Text) : decode .codePoints (encode t) = .ok t :=
  decode_encode fun _ _ => rfl

theorem encode_injective : Function.Injective encode := by
  intro s t h
  have same := decode_codePoints_encode s
  rw [h, decode_codePoints_encode] at same
  exact (Except.ok.inj same).symm

end Utf8

/-! ## Columns -/

namespace Column

theorem carry_le_size (source target : CodePoint → Nat) (line : Text) (column : Int) :
    carry source target line column ≤ size target line := by
  induction line generalizing column with
  | nil => exact Nat.le_refl _
  | cons c line ih =>
      rw [carry, size]
      split
      · exact Nat.zero_le _
      · exact Nat.add_le_add_left (ih _) _

theorem length_encode (line : Text) :
    (Utf8.encode line).length = size CodePoint.utf8Width line := by
  induction line with
  | nil => rfl
  | cons c line ih =>
      rw [Utf8.encode, List.flatMap_cons, List.length_append, CodePoint.length_utf8,
        ← Utf8.encode, ih, size]

/-- A client's column is carried over to a place on the line. -/
theorem utf16ToByte_le_length (line : Text) (column : Int) :
    utf16ToByte line column ≤ (Utf8.encode line).length := by
  rw [length_encode]
  exact carry_le_size ..

end Column

/-! ## Lines of a justfile -/

theorem lineBytes?_eq_none_iff {starts : List Nat} {data : Bytes} {number : Int} :
    lineBytes? starts data number = none ↔ number < 0 ∨ (starts.length : Int) ≤ number := by
  rw [lineBytes?, Option.map_eq_none_iff, lineBounds?]
  by_cases negative : number < 0
  · simp [negative]
  · rw [if_neg negative]
    obtain ⟨i, rfl⟩ := Int.eq_ofNat_of_zero_le (Int.not_lt.1 negative)
    rw [Int.toNat_natCast]
    cases found : starts[i]? with
    | none =>
        have beyond := List.getElem?_eq_none_iff.1 found
        simp only [true_iff]
        exact .inr (by omega)
    | some start =>
        have inside := (List.getElem?_eq_some_iff.1 found).1
        refine iff_of_false ?_ (by omega)
        dsimp only
        split <;> exact Option.some_ne_none _

namespace Justfile

variable {text : Text}

/-- The bytes of a line are the encoding of a text. -/
theorem exists_text_of_lineBytes? {number : Int} {bytes : Bytes}
    (h : (ofText text).lineBytes? number = some bytes) : ∃ t, bytes = Utf8.encode t := by
  obtain ⟨i, rfl⟩ := exists_number_of_lineBytes? h
  have table : (ofText text).lineBytes? i
      = (linesOf (Utf8.encode text))[i]?.map Line.bytes := lineBytes?_eq ..
  rw [table] at h
  obtain ⟨line, found, rfl⟩ := Option.map_eq_some_iff.1 h
  exact exists_text_of_mem_splitLines (mem_of_mem_placeLines (List.mem_of_getElem? found))

/-- A range is the place of a definition: that of its name, on its line. -/
structure IsPlaceOf (j : Justfile) (d : Definition) (range : Range) : Prop where
  eq : j.definitionRange d = .ok range
  start : range.start.line = .number d.line
  stop : range.stop.line = .number d.line

/-- A definition has one place only. -/
theorem IsPlaceOf.unique {j : Justfile} {d : Definition} {range range' : Range}
    (h : j.IsPlaceOf d range) (h' : j.IsPlaceOf d range') : range = range' := by
  have same := h.eq
  rw [h'.eq, Except.ok.injEq] at same
  exact same.symm

/-- **Every definition has a place.** -/
theorem exists_isPlaceOf (text : Text) (d : Definition) :
    ∃ range, (ofText text).definitionRange d = .ok range ∧ (ofText text).IsPlaceOf d range := by
  obtain ⟨t, bytes⟩ : ∃ t, ((ofText text).lineBytes? d.line).getD [] = Utf8.encode t := by
    cases h : (ofText text).lineBytes? d.line with
    | none => exact ⟨[], rfl⟩
    | some bytes => exact exists_text_of_lineBytes? h
  have ranged : (ofText text).definitionRange d
      = .ok ⟨⟨.number d.line, Column.byteToUtf16 t d.column⟩,
        ⟨.number d.line, Column.byteToUtf16 t (d.column + (d.name.last - d.name.first + 1))⟩⟩ := by
    rw [definitionRange, bytes, Utf8.decode_codePoints_encode]
    rfl
  exact ⟨_, ranged, ranged, rfl, rfl⟩

end Justfile

end JustfileServer
