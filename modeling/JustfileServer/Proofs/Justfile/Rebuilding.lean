import JustfileServer.Proofs.Justfile.Pieces

/-!
# The lines of a text, put together again

The table of starts has the start of the buffer and the place behind each newline, from left to
right (`mem_lineStarts_iff`, `pairwise_lineStarts`).  The lines that it finds are what splitting at
newlines gives, of the bytes as well as of the text (`splitLines_eq_splitOn`, `splitLines_encode`).
So nothing of a text is lost in its lines: put together with newlines between them they are its
encoding, and each of them decodes to its line of the text (`Justfile.lines_rebuild`).
-/

namespace JustfileServer

/-! ## The table of starts -/

theorem mem_startsAfterNewlines_iff {data : Bytes} {start offset : Nat} :
    offset ∈ startsAfterNewlines start data ↔
      ∃ place, offset = start + place + 1 ∧ data[place]? = some Byte.newline := by
  induction data generalizing start with
  | nil => simp [startsAfterNewlines]
  | cons b data ih =>
      -- the newline is the first byte, or it is one of the others
      have places : (∃ place, offset = start + place + 1 ∧
            (b :: data)[place]? = some Byte.newline) ↔
          (offset = start + 1 ∧ b = Byte.newline) ∨
            ∃ place, offset = start + 1 + place + 1 ∧ data[place]? = some Byte.newline := by
        constructor
        · rintro ⟨place, rfl, here⟩
          cases place with
          | zero => exact .inl ⟨rfl, by simpa using here⟩
          | succ place => exact .inr ⟨place, by omega, by simpa using here⟩
        · rintro (⟨rfl, rfl⟩ | ⟨place, rfl, here⟩)
          · exact ⟨0, rfl, rfl⟩
          · exact ⟨place + 1, by omega, by simpa using here⟩
      rw [startsAfterNewlines, places]
      split
      · rename_i ends
        simp [ends, ih]
      · rename_i other
        simp [other, ih]

/-- **Lines start** at the start of the buffer and behind each newline. -/
theorem mem_lineStarts_iff {data : Bytes} {offset : Nat} : offset ∈ lineStarts data ↔
    offset = 0 ∨ ∃ place, offset = place + 1 ∧ data[place]? = some Byte.newline := by
  rw [lineStarts, List.mem_cons, mem_startsAfterNewlines_iff]
  simp only [Nat.zero_add]

/-- Every line starts behind the one before it. -/
theorem pairwise_lineStarts (data : Bytes) : (lineStarts data).Pairwise (· < ·) := by
  rw [lineStarts_eq, List.pairwise_map]
  refine (pairwise_precedes_linesOf data).imp ?_
  intro a b precedes
  exact Nat.lt_of_le_of_lt (Nat.le_add_right ..) precedes.start

theorem length_lineStarts (data : Bytes) : (lineStarts data).length = (splitLines data).length := by
  rw [lineStarts_eq, List.length_map, linesOf, length_placeLines]

/-! ## The lines -/

/-- The lines of a buffer are what splitting it at newlines gives. -/
theorem splitLines_eq_splitOn (data : Bytes) : splitLines data = data.splitOn Byte.newline := by
  induction data with
  | nil => rfl
  | cons b data ih =>
      rw [splitLines, List.splitOn_cons_eq_if_modifyHead, ← ih]
      by_cases ends : b = Byte.newline
      · simp [ends]
      · obtain ⟨line, lines, cut⟩ := List.exists_cons_of_ne_nil (splitLines_ne_nil data)
        simp [ends, cut]

namespace Justfile

/-- The lines under all numbers that there are, in order. -/
theorem map_lineBytes?_range (text : Text) :
    (List.range (ofText text).lineStarts.length).map (fun i : Nat => (ofText text).lineBytes? i)
      = (splitLines (Utf8.encode text)).map some := by
  apply List.ext_getElem?
  intro i
  have count : (ofText text).lineStarts.length = (splitLines (Utf8.encode text)).length :=
    length_lineStarts _
  rw [List.getElem?_map, List.getElem?_map, ← lineBytes?_eq_getElem?]
  by_cases inside : i < (ofText text).lineStarts.length
  · have found : i < (splitLines (Utf8.encode text)).length := count ▸ inside
    simp [List.getElem?_range inside, lineBytes?_eq_getElem?, List.getElem?_eq_getElem found]
  · have beyond : (ofText text).lineBytes? i = none := by
      rw [lineBytes?_eq_getElem?, List.getElem?_eq_none_iff]
      omega
    simp [beyond, inside]

/-- **The lines of a text rebuild it.**  The starts of its lines are zero and the places behind its
newlines, each of them once, from left to right.  There is a line under each number below their
count and under no other one.  No line has a newline in it; with a newline between any two of them
the lines are the encoding of the text; and they decode, surrogates included, to the parts of the
text between its newlines. -/
theorem lines_rebuild (text : Text) :
    ((ofText text).lineStarts.head? = some 0 ∧ (ofText text).lineStarts.Pairwise (· < ·) ∧
      ∀ offset, offset ∈ (ofText text).lineStarts ↔ offset = 0 ∨
        ∃ place, offset = place + 1 ∧ (Utf8.encode text)[place]? = some Byte.newline) ∧
    (∀ i : Int, (ofText text).lineBytes? i = none ↔
      ¬ (0 ≤ i ∧ i ≤ (ofText text).lineStarts.length - 1)) ∧
    ∃ lines : List Bytes,
      (List.range (ofText text).lineStarts.length).map (fun i : Nat => (ofText text).lineBytes? i)
        = lines.map some ∧
      (∀ line ∈ lines, Byte.newline ∉ line) ∧
      [Byte.newline].intercalate lines = Utf8.encode text ∧
      lines.map (Utf8.decode .codePoints) = (text.splitOn .newline).map .ok := by
  refine ⟨⟨rfl, pairwise_lineStarts _, fun offset => mem_lineStarts_iff⟩, ?_, ?_⟩
  · intro i
    have beyond : (ofText text).lineBytes? i = none ↔
        i < 0 ∨ ((ofText text).lineStarts.length : Int) ≤ i := lineBytes?_eq_none_iff
    rw [beyond]
    omega
  · refine ⟨splitLines (Utf8.encode text), map_lineBytes?_range text, ?_, ?_, ?_⟩
    · intro line h
      exact newline_notMem_of_mem_splitLines h
    · rw [splitLines_eq_splitOn]
      exact List.intercalate_splitOn Byte.newline
    · rw [splitLines_encode, List.map_map]
      apply List.map_congr_left
      intro line _
      exact Utf8.decode_codePoints_encode line

/-- A newline at the end opens a last line, which is empty. -/
example : (ofText "a\n").lineBytes? 1 = some [] ∧ (ofText "a\n").lineBytes? 2 = none := by decide

end Justfile

end JustfileServer
