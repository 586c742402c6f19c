import JustfileServer.Proofs.Frame.Blocks
import JustfileServer.Proofs.Text.LooseIntegers
import JustfileServer.Proofs.Text.Trimming

/-!
# Header lines as they stand on the stream

`IsHeaded` says how a stream begins: header lines, each closed by its newline, and then a blank
line, which may also be the unclosed end of the stream.  Whatever the bytes are, the reader takes
just these lines off the stream, or all there is if no line is blank (`takeBlock_eq`,
`rest_of_not_headed`).

`IsLengthLine` says of the bytes of a line that it is for the length, and `GivesLength` which number
it gives.  The white space around the line has no part in it, though the reader takes it away before
it looks for the colon (`lengthField?_headerText`).
-/

namespace JustfileServer

/-- The byte is white space, read as the code point of its value. -/
def IsBlankByte (b : UInt8) : Prop := (CodePoint.ofByte b).isBlank = true

instance (b : UInt8) : Decidable (IsBlankByte b) := inferInstanceAs (Decidable (_ = true))

/-- The line ends with its newline. -/
def IsClosed (line : Bytes) : Prop :=
  ∃ bytes, Byte.newline ∉ bytes ∧ line = bytes ++ [Byte.newline]

/-- A header line: closed by a newline, and not blank. -/
structure IsHeaderLine (line : Bytes) : Prop where
  closed : IsClosed line
  visible : ¬ ∀ b ∈ line, IsBlankByte b

/-- A blank line in front of these bytes: it is closed by a newline, or it ends the stream. -/
structure IsBlankLine (line rest : Bytes) : Prop where
  blank : ∀ b ∈ line, IsBlankByte b
  closed : IsClosed line ∨ Byte.newline ∉ line ∧ line ≠ [] ∧ rest = []

/-- **The bytes begin with these header lines, and then a blank line.** -/
structure IsHeaded (data : Bytes) (lines : List Bytes) (blank rest : Bytes) : Prop where
  eq : data = lines.flatten ++ blank ++ rest
  lines : ∀ line ∈ lines, IsHeaderLine line
  blank : IsBlankLine blank rest

/-- The line is for the length: before its first colon stands the name of that field, in letters of
either case and with any white space around it. -/
structure IsLengthLine (line : Bytes) (name value : Text) : Prop where
  eq : line.map CodePoint.ofByte = name ++ .ofChar ':' :: value
  first : .ofChar ':' ∉ name
  named : name.trim.lowerAscii = Text.ofString "content-length"

/-- The line is for the length, whether one can be read from it or not. -/
def ConcernsLength (line : Bytes) : Prop := ∃ name value, IsLengthLine line name value

/-- The line gives this number as the length. -/
def GivesLength (line : Bytes) (n : Int) : Prop :=
  ∃ name value, IsLengthLine line name value ∧ Numeral.Denotes value.trim n

variable {line blank rest data : Bytes} {lines : List Bytes} {name value : Text}

/-! ## Deciding what a line is -/

theorem isClosed_iff :
    IsClosed line ↔ line.getLast? = some Byte.newline ∧ Byte.newline ∉ line.dropLast := by
  constructor
  · rintro ⟨bytes, newline, rfl⟩
    simpa using newline
  · rintro ⟨last, newline⟩
    exact ⟨line.dropLast, newline, (List.dropLast_append_getLast? _ last).symm⟩

instance : DecidablePred IsClosed := fun _ => decidable_of_iff _ isClosed_iff.symm

theorem all_isBlankByte_iff :
    line.all (fun b => IsBlankByte b) = true ↔ ∀ b ∈ line, IsBlankByte b := by
  simp

instance : DecidablePred IsHeaderLine := fun line =>
  decidable_of_iff (IsClosed line ∧ ¬ line.all (fun b => IsBlankByte b) = true)
    ⟨fun h => ⟨h.1, all_isBlankByte_iff.not.1 h.2⟩,
      fun h => ⟨h.closed, all_isBlankByte_iff.not.2 h.visible⟩⟩

instance (line rest : Bytes) : Decidable (IsBlankLine line rest) :=
  decidable_of_iff (line.all (fun b => IsBlankByte b) = true ∧
      (IsClosed line ∨ Byte.newline ∉ line ∧ line ≠ [] ∧ rest = []))
    ⟨fun h => ⟨all_isBlankByte_iff.1 h.1, h.2⟩, fun h => ⟨all_isBlankByte_iff.2 h.blank, h.closed⟩⟩

instance (data : Bytes) (lines : List Bytes) (blank rest : Bytes) :
    Decidable (IsHeaded data lines blank rest) :=
  decidable_of_iff (data = lines.flatten ++ blank ++ rest ∧ (∀ line ∈ lines, IsHeaderLine line) ∧
      IsBlankLine blank rest)
    ⟨fun h => ⟨h.1, h.2.1, h.2.2⟩, fun h => ⟨h.eq, h.lines, h.blank⟩⟩

/-! ## Lines taken off the stream -/

theorem headerText_eq_nil_iff : headerText line = [] ↔ ∀ b ∈ line, IsBlankByte b := by
  rw [headerText, Text.trim_eq_nil_iff]
  simp [IsBlankByte]

/-- The step of `takeBlock` on the last line of a stream, which no newline closes. -/
theorem takeBlock_unclosed (filled : line ≠ []) (h : Byte.newline ∉ line) :
    takeBlock line
      = if (headerText line).isEmpty then ⟨[], true, []⟩ else ⟨[headerText line], false, []⟩ := by
  obtain ⟨b, tail, rfl⟩ := List.exists_cons_of_ne_nil filled
  rw [takeBlock, cutLine_of_notMem h]
  split
  · rfl
  · rw [takeBlock]

theorem takeBlock_blank (h : IsBlankLine blank rest) :
    takeBlock (blank ++ rest) = ⟨[], true, rest⟩ := by
  have empty := headerText_eq_nil_iff.2 h.blank
  rcases h.closed with ⟨bytes, newline, rfl⟩ | ⟨newline, filled, rfl⟩
  · rw [List.append_assoc, List.singleton_append, takeBlock_line newline, empty]
    rfl
  · rw [List.append_nil, takeBlock_unclosed filled newline, empty]
    rfl

/-- Header lines are taken off one by one. -/
theorem takeBlock_lines (h : ∀ line ∈ lines, IsHeaderLine line) (tail : Bytes) :
    takeBlock (lines.flatten ++ tail)
      = { takeBlock tail with lines := lines.map headerText ++ (takeBlock tail).lines } := by
  induction lines with
  | nil => rfl
  | cons line lines ih =>
      obtain ⟨⟨bytes, newline, rfl⟩, visible⟩ := h line (List.mem_cons_self ..)
      have visible : ¬ (headerText (bytes ++ [Byte.newline])).isEmpty = true := by
        rwa [List.isEmpty_iff, headerText_eq_nil_iff]
      rw [List.flatten_cons, List.append_assoc, List.append_assoc, List.singleton_append,
        takeBlock_line newline, if_neg visible, ih fun l hl => h l (List.mem_cons_of_mem _ hl)]
      rfl

/-- **Just the header lines and the blank line behind them are taken off the stream.** -/
theorem IsHeaded.takeBlock_eq (h : IsHeaded data lines blank rest) :
    takeBlock data = ⟨lines.map headerText, true, rest⟩ := by
  rw [h.eq, List.append_assoc, takeBlock_lines h.lines, takeBlock_blank h.blank, List.append_nil]

/-- A stream without a blank line is used up. -/
theorem rest_of_not_ended (h : (takeBlock data).ended = false) : (takeBlock data).rest = [] := by
  fun_induction takeBlock data with
  | case1 => rfl
  | case2 => cases h
  | case3 b rest line after _ block ih => exact ih h

/-- Where a blank line was found, it was the first line that is blank. -/
theorem exists_isHeaded (h : (takeBlock data).ended = true) :
    ∃ lines blank rest, IsHeaded data lines blank rest := by
  fun_induction takeBlock data with
  | case1 => cases h
  | case2 b rest line after empty =>
      have blank := headerText_eq_nil_iff.1 (List.isEmpty_iff.1 empty)
      have whole : b :: rest = (cutLine (b :: rest)).1 ++ after := (cutLine_fst_append_snd _).symm
      rcases cutLine_closed_or (b :: rest) with closed | ⟨newline, cut⟩
      · exact ⟨[], _, after, whole, by simp, blank, .inl closed⟩
      · rw [cut] at blank
        exact ⟨[], b :: rest, [], by simp, by simp, blank, .inr ⟨newline, by simp, rfl⟩⟩
  | case3 b rest line after visible block ih =>
      rw [List.isEmpty_iff] at visible
      have whole : b :: rest = (cutLine (b :: rest)).1 ++ after := (cutLine_fst_append_snd _).symm
      rcases cutLine_closed_or (b :: rest) with closed | ⟨-, cut⟩
      · obtain ⟨lines, blank, behind, eq, all, ends⟩ := ih h
        have first : IsHeaderLine (cutLine (b :: rest)).1 :=
          ⟨closed, fun blank => visible (headerText_eq_nil_iff.2 blank)⟩
        refine ⟨(cutLine (b :: rest)).1 :: lines, blank, behind, ?_, ?_, ends⟩
        · rw [List.flatten_cons, List.append_assoc, List.append_assoc, ← List.append_assoc _ blank,
            ← eq]
          exact whole
        · intro line hline
          rcases List.mem_cons.1 hline with rfl | hline
          · exact first
          · exact all line hline
      · -- behind a line that no newline closes there is no blank one
        have nothing : after = [] := congrArg Prod.snd cut
        have ended : (takeBlock after).ended = true := h
        rw [nothing, takeBlock] at ended
        cases ended

/-- **If no line is blank, all there is is taken off the stream**, and the block has not ended. -/
theorem rest_of_not_headed (h : ¬ ∃ lines blank rest, IsHeaded data lines blank rest) :
    (takeBlock data).rest = [] ∧ (takeBlock data).ended = false := by
  have opened : (takeBlock data).ended = false := by
    cases ended : (takeBlock data).ended with
    | false => rfl
    | true => exact absurd (exists_isHeaded ended) h
  exact ⟨rest_of_not_ended opened, opened⟩

/-! ## Lines for the length -/

/-- What a line for the length gives, from the text behind its colon. -/
def readField (line : Bytes) (value : Text) : LengthField :=
  (Numeral.integer? value.trim).elim (.invalid (headerText line)) .number

/-- **A line is read as what its bytes say**, the white space around it apart. -/
theorem lengthField?_headerText (eq : line.map CodePoint.ofByte = name ++ .ofChar ':' :: value)
    (first : .ofChar ':' ∉ name) :
    lengthField? (headerText line) = if name.trim.lowerAscii = Text.ofString "content-length" then
      some (readField line value) else none := by
  have cut : (headerText line).splitFirst? (.ofChar ':') = some (name.trimStart, value.trimEnd) := by
    rw [headerText, eq, Text.trim_append_cons (by decide)]
    exact Text.splitFirst?_append (fun h => first (Text.mem_of_mem_trimStart h)) _
  rw [lengthField?, cut]
  dsimp only
  rw [Text.trim_trimStart, Text.trim_trimEnd, readField]
  cases Numeral.integer? value.trim <;> rfl

theorem exists_isLengthLine (h : lengthField? (headerText line) ≠ none) :
    ∃ name value, IsLengthLine line name value := by
  by_cases colon : .ofChar ':' ∈ line.map CodePoint.ofByte
  · obtain ⟨name, value, eq, first⟩ := List.eq_append_cons_of_mem colon
    rw [lengthField?_headerText eq first] at h
    by_cases named : (Text.trim name).lowerAscii = Text.ofString "content-length"
    · exact ⟨name, value, eq, first, named⟩
    · exact absurd (if_neg named) h
  · have none := Text.splitFirst?_of_notMem fun h => colon (Text.mem_of_mem_trim h)
    refine absurd ?_ h
    rw [lengthField?, headerText, none]

theorem IsLengthLine.lengthField?_eq (h : IsLengthLine line name value) :
    lengthField? (headerText line) = some (readField line value) := by
  rw [lengthField?_headerText h.eq h.first, if_pos h.named]

theorem lengthField?_eq_none_iff : lengthField? (headerText line) = none ↔ ¬ ConcernsLength line := by
  constructor
  · rintro none ⟨name, value, h⟩
    rw [h.lengthField?_eq] at none
    cases none
  · intro other
    by_contra some
    exact other (exists_isLengthLine some)

theorem readField_eq_number_iff {n : Int} :
    readField line value = .number n ↔ Numeral.Denotes (Text.trim value) n := by
  rw [← Numeral.integer?_eq_some_iff, readField]
  cases Numeral.integer? (Text.trim value) <;> simp

theorem readField_eq_invalid_iff {t : Text} : readField line value = .invalid t ↔
    (¬ ∃ n, Numeral.Denotes (Text.trim value) n) ∧ headerText line = t := by
  simp only [← Numeral.integer?_eq_some_iff, readField]
  cases Numeral.integer? (Text.trim value) <;> simp

/-- A number is read from a line just if the line gives it. -/
theorem lengthField?_eq_number_iff {n : Int} :
    lengthField? (headerText line) = some (.number n) ↔ GivesLength line n := by
  constructor
  · intro read
    obtain ⟨name, value, h⟩ := exists_isLengthLine (by rw [read]; simp)
    rw [h.lengthField?_eq, Option.some.injEq, readField_eq_number_iff] at read
    exact ⟨name, value, h, read⟩
  · rintro ⟨name, value, h, denotes⟩
    rw [h.lengthField?_eq, readField_eq_number_iff.2 denotes]

/-- A line for the length that gives no number is invalid. -/
theorem lengthField?_eq_invalid_iff {t : Text} :
    lengthField? (headerText line) = some (.invalid t) ↔
      (ConcernsLength line ∧ ¬ ∃ n, GivesLength line n) ∧ t = headerText line := by
  constructor
  · intro read
    obtain ⟨name, value, h⟩ := exists_isLengthLine (by rw [read]; simp)
    refine ⟨⟨⟨name, value, h⟩, ?_⟩, ?_⟩
    · rintro ⟨n, given⟩
      rw [lengthField?_eq_number_iff.2 given] at read
      cases read
    · rw [h.lengthField?_eq, Option.some.injEq, readField_eq_invalid_iff] at read
      exact read.2.symm
  · rintro ⟨⟨⟨name, value, h⟩, unreadable⟩, rfl⟩
    rw [h.lengthField?_eq, Option.some.injEq, readField_eq_invalid_iff]
    refine ⟨?_, rfl⟩
    rintro ⟨n, denotes⟩
    exact unreadable ⟨n, name, value, h, denotes⟩

end JustfileServer
