import JustfileServer.Justfile.Outline

/-!
# The table of lines

A buffer is cut at its newlines, so what holds of a buffer without a newline, and of a line with a
newline and a buffer behind it when it holds of that buffer, holds of every buffer
(`Bytes.by_lines`).  By this the table of starts and the cut lines agree: under each number the
table gives the bounds and the bytes of the line that was cut there (`lineBounds?_eq` and
`lineBytes?_eq`), and the lines come one after another (`pairwise_precedes_linesOf`).
-/

namespace JustfileServer

/-! ## Cutting at newlines -/

theorem Bytes.exists_lines (data : Bytes) :
    Byte.newline ∉ data ∨
      ∃ line rest, Byte.newline ∉ line ∧ data = line ++ Byte.newline :: rest := by
  induction data with
  | nil => exact .inl List.not_mem_nil
  | cons b data ih =>
      by_cases ends : b = Byte.newline
      · subst ends
        exact .inr ⟨[], data, List.not_mem_nil, rfl⟩
      · rcases ih with whole | ⟨line, rest, clean, rfl⟩
        · exact .inl (by simpa [whole] using Ne.symm ends)
        · exact .inr ⟨b :: line, rest, by simpa [clean] using Ne.symm ends, rfl⟩

/-- **Induction along the lines** of a buffer. -/
@[elab_as_elim]
theorem Bytes.by_lines {P : Bytes → Prop} (last : ∀ line, Byte.newline ∉ line → P line)
    (more : ∀ line rest, Byte.newline ∉ line → P rest → P (line ++ Byte.newline :: rest))
    (data : Bytes) : P data := by
  rcases data.exists_lines with whole | ⟨line, rest, clean, cut⟩
  · exact last data whole
  · have shorter : rest.length < data.length := by
      rw [cut, List.length_append, List.length_cons]
      omega
    exact cut ▸ more line rest clean (by_lines last more rest)
termination_by data.length

theorem splitLines_ne_nil (data : Bytes) : splitLines data ≠ [] := by
  cases data with
  | nil => simp [splitLines]
  | cons b data =>
      rw [splitLines]
      split
      · simp
      · split <;> simp

/-- Bytes in front of the first newline lengthen the first line. -/
theorem splitLines_append_of_notMem {a b line : Bytes} {lines : List Bytes}
    (clean : Byte.newline ∉ a) (h : splitLines b = line :: lines) :
    splitLines (a ++ b) = (a ++ line) :: lines := by
  induction a with
  | nil => exact h
  | cons c a ih =>
      rw [List.mem_cons, not_or] at clean
      obtain ⟨other, clean⟩ := clean
      rw [List.cons_append, splitLines, if_neg (Ne.symm other), ih clean]
      rfl

theorem splitLines_of_notMem {line : Bytes} (clean : Byte.newline ∉ line) :
    splitLines line = [line] := by
  have cut := splitLines_append_of_notMem clean (b := []) rfl
  rwa [List.append_nil] at cut

/-- **A newline separates** the lines before it from the lines after it. -/
theorem splitLines_append_newline (a b : Bytes) :
    splitLines (a ++ Byte.newline :: b) = splitLines a ++ splitLines b := by
  induction a with
  | nil => rfl
  | cons c a ih =>
      rw [List.cons_append, splitLines, splitLines, ih]
      split
      · rfl
      · obtain ⟨line, lines, cut⟩ := List.exists_cons_of_ne_nil (splitLines_ne_nil a)
        rw [cut]
        rfl

theorem newline_notMem_of_mem_splitLines {data bytes : Bytes} (h : bytes ∈ splitLines data) :
    Byte.newline ∉ bytes := by
  induction data using Bytes.by_lines with
  | last line clean =>
      rw [splitLines_of_notMem clean, List.mem_singleton] at h
      rwa [h]
  | more line rest clean ih =>
      rw [splitLines_append_newline, splitLines_of_notMem clean, List.mem_append,
        List.mem_singleton] at h
      rcases h with rfl | h
      · exact clean
      · exact ih h

theorem startsAfterNewlines_append (offset : Nat) (a b : Bytes) :
    startsAfterNewlines offset (a ++ b)
      = startsAfterNewlines offset a ++ startsAfterNewlines (offset + a.length) b := by
  induction a generalizing offset with
  | nil => rfl
  | cons c a ih =>
      have place : offset + 1 + a.length = offset + (c :: a).length := by
        rw [List.length_cons]
        omega
      rw [List.cons_append, startsAfterNewlines, startsAfterNewlines, ih, place]
      split <;> rfl

theorem startsAfterNewlines_of_notMem {line : Bytes} (clean : Byte.newline ∉ line)
    (offset : Nat) : startsAfterNewlines offset line = [] := by
  induction line generalizing offset with
  | nil => rfl
  | cons b line ih =>
      rw [List.mem_cons, not_or] at clean
      obtain ⟨other, clean⟩ := clean
      rw [startsAfterNewlines, if_neg (Ne.symm other), ih clean]

/-! ## Lines in their places -/

namespace Line

/-- Where a line stops: at its newline, or at the end of the buffer. -/
def stop (line : Line) : Nat := line.start + line.bytes.length

/-- The span of all bytes of a line. -/
def span (line : Line) : Span := .ofLength line.start line.bytes.length

/-- One line comes before another: the newline between them belongs to neither. -/
structure Precedes (a b : Line) : Prop where
  number : a.number < b.number
  start : a.stop < b.start

end Line

variable {data : Bytes} {line : Line}

theorem le_of_mem_placeLines {parts : List Bytes} {number start : Nat}
    (h : line ∈ placeLines number start parts) : number ≤ line.number ∧ start ≤ line.start := by
  induction parts generalizing number start with
  | nil => cases h
  | cons bytes parts ih =>
      rcases List.mem_cons.1 h with rfl | h
      · exact ⟨Nat.le_refl _, Nat.le_refl _⟩
      · obtain ⟨number, start⟩ := ih h
        constructor <;> omega

theorem pairwise_precedes_placeLines (number start : Nat) (parts : List Bytes) :
    (placeLines number start parts).Pairwise Line.Precedes := by
  induction parts generalizing number start with
  | nil => exact .nil
  | cons bytes parts ih =>
      refine .cons (fun line h => ?_) (ih _ _)
      obtain ⟨later, behind⟩ := le_of_mem_placeLines h
      exact ⟨later, behind⟩

/-- The lines of a buffer come one after another. -/
theorem pairwise_precedes_linesOf (data : Bytes) : (linesOf data).Pairwise Line.Precedes :=
  pairwise_precedes_placeLines 0 0 _

theorem pairwise_number_linesOf (data : Bytes) :
    ((linesOf data).map Line.number).Pairwise (· < ·) :=
  List.pairwise_map.2 ((pairwise_precedes_linesOf data).imp Line.Precedes.number)

theorem number_of_getElem? {parts : List Bytes} {number start i : Nat}
    (h : (placeLines number start parts)[i]? = some line) : line.number = number + i := by
  induction parts generalizing number start i with
  | nil => cases h
  | cons bytes parts ih =>
      cases i with
      | zero => cases h; rfl
      | succ i =>
          rw [ih h]
          omega

theorem length_placeLines (number start : Nat) (parts : List Bytes) :
    (placeLines number start parts).length = parts.length := by
  induction parts generalizing number start with
  | nil => rfl
  | cons bytes parts ih => simp [placeLines, ih]

theorem mem_of_mem_placeLines {parts : List Bytes} {number start : Nat} {line : Line}
    (h : line ∈ placeLines number start parts) : line.bytes ∈ parts := by
  induction parts generalizing number start with
  | nil => cases h
  | cons bytes parts ih =>
      rcases List.mem_cons.1 h with rfl | h
      · exact List.mem_cons_self ..
      · exact List.mem_cons_of_mem _ (ih h)

/-- The lines are where the table says that they start. -/
theorem map_start_placeLines (number start : Nat) (data : Bytes) :
    (placeLines number start (splitLines data)).map Line.start
      = start :: startsAfterNewlines start data := by
  induction data using Bytes.by_lines generalizing number start with
  | last line clean =>
      rw [splitLines_of_notMem clean, startsAfterNewlines_of_notMem clean]
      rfl
  | more line rest clean ih =>
      rw [splitLines_append_newline, splitLines_of_notMem clean, startsAfterNewlines_append,
        startsAfterNewlines_of_notMem clean, startsAfterNewlines, if_pos rfl]
      show start :: (placeLines (number + 1) (start + line.length + 1) (splitLines rest)).map
        Line.start = _
      rw [ih]
      rfl

/-- A line stops before the newline in front of the next line; the last one stops at the end. -/
theorem stop_of_getElem? {number start i : Nat} {data : Bytes}
    (h : (placeLines number start (splitLines data))[i]? = some line) :
    line.stop = match (placeLines number start (splitLines data))[i + 1]? with
      | some next => next.start - 1
      | none => start + data.length := by
  induction data using Bytes.by_lines generalizing number start i with
  | last bytes clean =>
      rw [splitLines_of_notMem clean] at h ⊢
      cases i with
      | zero => cases h; rfl
      | succ i => cases h
  | more bytes rest clean ih =>
      rw [splitLines_append_newline, splitLines_of_notMem clean] at h ⊢
      cases i with
      | zero =>
          obtain ⟨part, parts, cut⟩ := List.exists_cons_of_ne_nil (splitLines_ne_nil rest)
          cases h
          rw [cut]
          rfl
      | succ i =>
          have size : start + (bytes ++ Byte.newline :: rest).length
              = start + bytes.length + 1 + rest.length := by
            rw [List.length_append, List.length_cons]
            omega
          rw [size]
          exact ih h

/-- A line is a stretch of the buffer between two newlines, or between a newline and an end. -/
theorem exists_between_of_mem_placeLines {number start : Nat} {data : Bytes}
    (h : line ∈ placeLines number start (splitLines data)) :
    ∃ before after, data = before ++ line.bytes ++ after ∧ line.start = start + before.length ∧
      (∀ b, before.getLast? = some b → b = Byte.newline) ∧
      ∀ b, after.head? = some b → b = Byte.newline := by
  induction data using Bytes.by_lines generalizing number start with
  | last bytes clean =>
      rw [splitLines_of_notMem clean] at h
      obtain rfl := List.mem_singleton.1 h
      exact ⟨[], [], by simp, rfl, by simp, by simp⟩
  | more bytes rest clean ih =>
      rw [splitLines_append_newline, splitLines_of_notMem clean] at h
      rcases List.mem_cons.1 h with rfl | h
      · exact ⟨[], Byte.newline :: rest, rfl, rfl, by simp, by simp [eq_comm]⟩
      · obtain ⟨before, after, rfl, place, ends, starts⟩ := ih h
        refine ⟨bytes ++ Byte.newline :: before, after, by simp, ?_, ?_, starts⟩
        · rw [place, List.length_append, List.length_cons]
          omega
        · intro b hb
          cases before with
          | nil => simpa [eq_comm] using hb
          | cons c before =>
              refine ends b ?_
              rwa [List.getLast?_append, List.getLast?_cons_cons,
                Option.or_of_isSome (by simp)] at hb

/-- A line is a stretch of the buffer. -/
theorem exists_append_of_mem_placeLines {number start : Nat} {data : Bytes}
    (h : line ∈ placeLines number start (splitLines data)) :
    ∃ before after, data = before ++ line.bytes ++ after ∧ line.start = start + before.length := by
  obtain ⟨before, after, cut, place, -⟩ := exists_between_of_mem_placeLines h
  exact ⟨before, after, cut, place⟩

/-! ## The table -/

theorem lineStarts_eq (data : Bytes) : lineStarts data = (linesOf data).map Line.start :=
  (map_start_placeLines 0 0 data).symm

theorem number_of_linesOf {i : Nat} (h : (linesOf data)[i]? = some line) : line.number = i := by
  rw [number_of_getElem? h, Nat.zero_add]

theorem getElem?_number_of_mem (h : line ∈ linesOf data) :
    (linesOf data)[line.number]? = some line := by
  obtain ⟨i, found⟩ := List.mem_iff_getElem?.1 h
  rwa [number_of_linesOf found]

/-- **The bounds of a line** are those of the line that was cut there. -/
theorem lineBounds?_eq (data : Bytes) (i : Nat) :
    lineBounds? (lineStarts data) data.length i
      = (linesOf data)[i]?.map fun line => (line.start, line.stop) := by
  rw [lineBounds?, if_neg (Int.not_lt.2 (Int.natCast_nonneg i)), Int.toNat_natCast, lineStarts_eq,
    List.getElem?_map, List.getElem?_map]
  cases h : (linesOf data)[i]? with
  | none => rfl
  | some line =>
      have stops := stop_of_getElem? h
      rw [← linesOf, Nat.zero_add] at stops
      rw [Option.map_some, Option.map_some, stops]
      dsimp only
      cases (linesOf data)[i + 1]? <;> rfl

/-- **The bytes of a line** are those of the line that was cut there. -/
theorem lineBytes?_eq (data : Bytes) (i : Nat) :
    lineBytes? (lineStarts data) data i = (linesOf data)[i]?.map Line.bytes := by
  rw [lineBytes?, lineBounds?_eq, Option.map_map]
  cases h : (linesOf data)[i]? with
  | none => rfl
  | some line =>
      obtain ⟨before, after, cut, place⟩ :=
        exists_append_of_mem_placeLines (List.mem_of_getElem? h)
      have length : line.stop - line.start = line.bytes.length := Nat.add_sub_cancel_left ..
      rw [Nat.zero_add] at place
      rw [Option.map_some, Option.map_some]
      show some ((data.drop line.start).take (line.stop - line.start)) = _
      rw [length, place, cut, List.append_assoc, List.drop_left, List.take_left]

theorem stop_le_of_mem_linesOf (h : line ∈ linesOf data) :
    line.stop ≤ data.length := by
  obtain ⟨above, below, whole, start⟩ := exists_append_of_mem_placeLines h
  rw [Line.stop, whole, start, List.length_append, List.length_append]
  omega

theorem lineBytes?_of_neg {starts : List Nat} {number : Int} (h : number < 0) :
    lineBytes? starts data number = none := by
  rw [lineBytes?, lineBounds?, if_pos h]
  rfl

/-- The number of a line that there is. -/
theorem exists_number_of_lineBytes? {starts : List Nat} {number : Int} {bytes : Bytes}
    (h : lineBytes? starts data number = some bytes) : ∃ i : Nat, number = i := by
  apply Int.eq_ofNat_of_zero_le
  apply Int.not_lt.1
  intro negative
  rw [lineBytes?_of_neg negative] at h
  cases h

end JustfileServer
