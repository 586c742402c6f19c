import JustfileServer.Proofs.Justfile.Terminators

/-!
# Pieces of a text

What ASCII bytes set off in an encoded text is the encoding of a piece of that text
(`Utf8.exists_piece`).  The newline is such a byte, so the lines of the bytes are the encodings of
the lines of the text (`splitLines_encode`).  A name stands between white space, the colon and the
ends of its line, so its span covers a piece as well (`HasName.exists_pieces`).
-/

namespace JustfileServer

/-! ## Cutting between code points -/

namespace Utf8

/-- A text is cut where its encoding has an ASCII byte. -/
theorem exists_of_encode_eq_append_cons {t : Text} {front back : Bytes} {b : UInt8}
    (small : b.toNat < 0x80) (h : encode t = front ++ b :: back) :
    ∃ u v, t = u ++ .ofByte b :: v ∧ encode u = front ∧ encode v = back := by
  induction t generalizing front with
  | nil => cases front <;> cases h
  | cons c t ih =>
      rw [encode, List.flatMap_cons, ← encode] at h
      rcases List.append_eq_append_iff.1 h with ⟨more, rfl, rest⟩ | ⟨more, unit, rest⟩
      · obtain ⟨u, v, rfl, rfl, rfl⟩ := ih rest
        exact ⟨c :: u, v, rfl, List.flatMap_cons .., rfl⟩
      · cases more with
        | nil =>
            rw [List.append_nil] at unit
            obtain ⟨u, v, rfl, start, rfl⟩ := @ih [] rest.symm
            refine ⟨c :: u, v, rfl, ?_, rfl⟩
            rw [encode, List.flatMap_cons, ← encode, start, unit, List.append_nil]
        | cons b' more =>
            obtain ⟨rfl, rfl⟩ := List.cons.inj rest
            -- the byte lies in the encoding of `c`, which is that byte alone
            have value := eq_of_mem_utf8 (c := c) (b := b) (by simp [unit]) small
            have alone : c.utf8 = [b] := by
              rw [CodePoint.utf8, value, if_pos small, UInt8.ofNat_toNat]
            rw [alone] at unit
            obtain ⟨rfl, rfl⟩ : front = [] ∧ more = [] := by
              cases front with
              | nil => exact ⟨rfl, (List.cons.inj unit).2.symm⟩
              | cons b' front => simp at unit
            refine ⟨[], t, ?_, rfl, rfl⟩
            rw [List.nil_append, CodePoint.ofByte, ← value, CodePoint.ofNat_val]

/-- Beginnings of a text that take up the same number of bytes are the same. -/
theorem eq_of_append_eq {s t u v : Text} (same : s ++ t = u ++ v)
    (size : (encode s).length = (encode u).length) : s = u := by
  have bytes := congrArg encode same
  rw [encode_append, encode_append] at bytes
  exact encode_injective (List.append_inj_left bytes size)

variable {text : Text} {before piece after : Bytes}

theorem encode_singleton_ofByte {b : UInt8} (small : b.toNat < 0x80) :
    encode [.ofByte b] = [b] := by
  rw [← List.map_singleton, encode_map_ofByte (by simpa using small)]

/-- What stands before an end or an ASCII byte is the encoding of the beginning of the text. -/
theorem exists_front (h : encode text = before ++ after)
    (starts : ∀ b, after.head? = some b → b.toNat < 0x80) :
    ∃ u v, text = u ++ v ∧ encode u = before ∧ encode v = after := by
  cases after with
  | nil => exact ⟨text, [], (List.append_nil _).symm, by rw [h, List.append_nil], rfl⟩
  | cons b after =>
      have small := starts b rfl
      obtain ⟨u, v, rfl, rfl, rfl⟩ := exists_of_encode_eq_append_cons small h
      refine ⟨u, .ofByte b :: v, rfl, rfl, ?_⟩
      rw [← List.singleton_append, encode_append, encode_singleton_ofByte small,
        List.singleton_append]

/-- What stands behind an end or an ASCII byte is the encoding of the rest of the text. -/
theorem exists_back (h : encode text = before ++ after)
    (ends : ∀ b, before.getLast? = some b → b.toNat < 0x80) :
    ∃ u v, text = u ++ v ∧ encode u = before ∧ encode v = after := by
  rcases List.eq_nil_or_concat before with rfl | ⟨front, b, rfl⟩
  · exact ⟨[], text, rfl, rfl, h⟩
  · have small := ends b (by simp)
    rw [List.concat_eq_append, List.append_assoc, List.singleton_append] at h
    obtain ⟨u, v, rfl, rfl, rfl⟩ := exists_of_encode_eq_append_cons small h
    refine ⟨u ++ [.ofByte b], v, by simp, ?_, rfl⟩
    rw [encode_append, encode_singleton_ofByte small, List.concat_eq_append]

/-- **What ASCII bytes set off** is the encoding of a piece of the text. -/
theorem exists_piece (h : encode text = before ++ piece ++ after)
    (ends : ∀ b, before.getLast? = some b → b.toNat < 0x80)
    (starts : ∀ b, after.head? = some b → b.toNat < 0x80) :
    ∃ u p v, text = u ++ p ++ v ∧ encode u = before ∧ encode p = piece ∧ encode v = after := by
  obtain ⟨front, v, rfl, cut, rfl⟩ := exists_front h starts
  obtain ⟨u, p, rfl, rfl, rfl⟩ := exists_back cut ends
  exact ⟨u, p, v, rfl, rfl, rfl, rfl⟩

end Utf8

/-! ## Lines -/

/-- **The lines of an encoded text** are the encodings of the lines of the text. -/
theorem splitLines_encode (text : Text) :
    splitLines (Utf8.encode text) = (text.splitOn .newline).map Utf8.encode := by
  induction text with
  | nil => rfl
  | cons c text ih =>
      rw [List.splitOn_cons_eq_if_modifyHead]
      by_cases ends : c = .newline
      · subst ends
        have cut : splitLines (Utf8.encode (.newline :: text))
            = [] :: splitLines (Utf8.encode text) := splitLines_append_newline [] _
        rw [cut, ih, if_pos (beq_self_eq_true _)]
        rfl
      · rw [if_neg (by simpa using ends), Utf8.encode, List.flatMap_cons, ← Utf8.encode]
        obtain ⟨line, lines, cut⟩ := List.exists_cons_of_ne_nil
          (List.splitOn_ne_nil CodePoint.newline text)
        rw [cut] at ih ⊢
        exact splitLines_append_of_notMem (newline_notMem_utf8 ends) ih

/-- The bytes under a number are the encoding of the line of the text under it. -/
theorem Justfile.lineBytes?_eq_map (text : Text) (i : Nat) :
    (ofText text).lineBytes? i = (text.splitOn .newline)[i]?.map Utf8.encode := by
  rw [lineBytes?_eq_getElem?, splitLines_encode, List.getElem?_map]

/-- A line of an encoded text is the encoding of a line of the text. -/
theorem Justfile.exists_line_of_lineBytes? {text : Text} {line : Int} {bytes : Bytes}
    (h : (ofText text).lineBytes? line = some bytes) :
    ∃ (i : Nat) (t : Text), line = i ∧ (text.splitOn .newline)[i]? = some t ∧
      bytes = Utf8.encode t := by
  obtain ⟨i, rfl⟩ := exists_number_of_lineBytes? h
  rw [lineBytes?_eq_map] at h
  obtain ⟨t, found, rfl⟩ := Option.map_eq_some_iff.1 h
  exact ⟨i, t, rfl, found, rfl⟩

/-- The text of a line by its number. -/
theorem getElem?_splitOn_of_mem_linesOf {text t : Text} {line : Line}
    (h : line ∈ linesOf (Utf8.encode text)) (bytes : Utf8.encode t = line.bytes) :
    (text.splitOn .newline)[line.number]? = some t := by
  have found := getElem?_number_of_mem h
  have part : (splitLines (Utf8.encode text))[line.number]? = some (Utf8.encode t) := by
    rw [← map_bytes_placeLines 0 0 (splitLines _), ← linesOf, List.getElem?_map, found, bytes]
    rfl
  rw [splitLines_encode, List.getElem?_map] at part
  obtain ⟨t', found, same⟩ := Option.map_eq_some_iff.1 part
  rw [found, Utf8.encode_injective same]

/-! ## Spans -/

/-- **A span covers a piece** of a text: in the encoding it lies behind what stands before the
piece, and it has the size of the piece. -/
def Span.Covers (s : Span) (text piece : Text) : Prop :=
  ∃ above below, text = above ++ piece ++ below ∧
    s = .ofLength (Utf8.encode above).length (Utf8.encode piece).length

/-- **A line sets off a span**: what the span covers stands on the line between ASCII bytes or ends
of the line. -/
structure Line.SetsOff (line : Line) (s : Span) (before piece after : Bytes) : Prop where
  eq : line.bytes = before ++ piece ++ after
  filled : piece ≠ []
  span : s = .ofLength (line.start + before.length) piece.length
  ends : ∀ b, before.getLast? = some b → b.toNat < 0x80
  starts : ∀ b, after.head? = some b → b.toNat < 0x80

namespace Line.SetsOff

variable {line : Line} {s : Span} {before piece after : Bytes}
  (h : line.SetsOff s before piece after)
include h

/-- A span that is set off covers its bytes. -/
theorem bytes_eq {data : Bytes} (onLine : line ∈ linesOf data) : s.bytes data = piece := by
  rw [h.span]
  exact Line.bytes_ofLength onLine h.eq h.filled

/-- **What is set off on a line** is a piece of the line, which is a line of the text, and of the
whole text. -/
theorem exists_pieces {text : Text} (onLine : line ∈ linesOf (Utf8.encode text)) :
    ∃ front word rest, (text.splitOn .newline)[line.number]? = some (front ++ word ++ rest) ∧
      Utf8.encode front = before ∧ Utf8.encode word = piece ∧ Utf8.encode rest = after ∧
      s.Covers text word := by
  have lineText {t : Text} := getElem?_splitOn_of_mem_linesOf (t := t) onLine
  obtain ⟨above, below, whole, start, upper, lower⟩ := exists_between_of_mem_placeLines onLine
  have newline : Byte.newline.toNat < 0x80 := by decide
  obtain ⟨u, t, v, rfl, rfl, units, rfl⟩ := Utf8.exists_piece whole
    (fun b hb => upper b hb ▸ newline) (fun b hb => lower b hb ▸ newline)
  obtain ⟨front, word, rest, rfl, rfl, rfl, rfl⟩ :=
    Utf8.exists_piece (units.trans h.eq) h.ends h.starts
  refine ⟨front, word, rest, lineText units, rfl, rfl, rfl, u ++ front, rest ++ v, by simp, ?_⟩
  rw [h.span, start, Utf8.encode_append, List.length_append, Nat.zero_add]

end Line.SetsOff

namespace HasName

variable {line : Line} {d : Definition} {before name : Bytes} {text : Text}

/-- A name has white space before it, or nothing, and white space or the colon behind it. -/
theorem exists_setsOff (h : HasName line d before name) :
    ∃ after, line.SetsOff d.name before name after := by
  obtain ⟨after, rest, blank, bytes⟩ := h.exists_eq
  refine ⟨after ++ Byte.colon :: rest, bytes, h.filled, h.span, ?_, ?_⟩
  · intro b hb
    exact lt_of_isBlank (h.leads b (List.mem_of_getLast? hb))
  · intro b hb
    cases after with
    | nil => rw [← Option.some.inj hb]; decide
    | cons c after =>
        rw [← Option.some.inj hb]
        exact lt_of_isBlank (blank c (List.mem_cons_self ..))

/-- **A name is a piece** of the line, which is a line of the text, and of the whole text. -/
theorem exists_pieces (h : HasName line d before name)
    (onLine : line ∈ linesOf (Utf8.encode text)) :
    ∃ front piece rest, (text.splitOn .newline)[d.line]? = some (front ++ piece ++ rest) ∧
      Utf8.encode front = before ∧ Utf8.encode piece = name ∧ d.name.Covers text piece := by
  obtain ⟨after, setsOff⟩ := h.exists_setsOff
  obtain ⟨front, piece, back, lineText, first, units, -, covers⟩ := setsOff.exists_pieces onLine
  rw [h.number]
  exact ⟨front, piece, back, lineText, first, units, covers⟩

end HasName

end JustfileServer
