import JustfileServer.Proofs.Justfile.Runs

/-!
# Where names stand

The name of a definition is what is left of the bytes before the first colon of its line, without
the white space around it (`LineForm.exists_hasName`).  So a name has no white space at its ends and
no colon in it, only white space stands before it on the line, and in the buffer it is what its span
covers (`HasName.bytes_eq`).
-/

namespace JustfileServer

/-- Bytes are cut around a name, which has nothing but white space on either side. -/
structure NameCut (bytes before name after : Bytes) : Prop where
  eq : bytes = before ++ name ++ after
  leads : IsBlank before
  trails : IsBlank after
  filled : name ≠ []
  starts : ∀ b, name.head? = some b → Byte.isBlank b = false
  ends : ∀ b, name.getLast? = some b → Byte.isBlank b = false

/-- **The name of a definition** on a line: it stands before the first colon. -/
structure HasName (line : Line) (d : Definition) (before name : Bytes) : Prop where
  number : d.line = line.number
  column : d.column = before.length
  span : d.name = .ofLength (line.start + before.length) name.length
  cut : ∃ head rest after, CutAtColon line.bytes head rest ∧ NameCut head before name after

/-! ## Trimming -/

theorem exists_nameCut {bytes : Bytes} (h : Bytes.trim bytes ≠ []) :
    ∃ after, NameCut bytes (bytes.takeWhile Byte.isBlank) (Bytes.trim bytes) after := by
  let rest := bytes.dropWhile Byte.isBlank
  have whole : rest = Bytes.trim bytes ++ (rest.reverse.takeWhile Byte.isBlank).reverse := by
    have reversed := congrArg List.reverse
      (List.takeWhile_append_dropWhile (p := Byte.isBlank) (l := rest.reverse))
    rw [List.reverse_append, List.reverse_reverse] at reversed
    exact reversed.symm
  refine ⟨(rest.reverse.takeWhile Byte.isBlank).reverse, ⟨?_, ?_, ?_, h, ?_, ?_⟩⟩
  · rw [List.append_assoc, ← whole, List.takeWhile_append_dropWhile]
  · intro b hb
    exact List.mem_takeWhile_imp hb
  · intro b hb
    exact List.mem_takeWhile_imp (List.mem_reverse.1 hb)
  · intro b hb
    have visible := List.head?_dropWhile_not Byte.isBlank bytes
    have first : rest.head? = some b := by
      rw [whole, List.head?_append, hb]
      rfl
    rw [first] at visible
    simpa using visible
  · intro b hb
    have visible := List.head?_dropWhile_not Byte.isBlank rest.reverse
    rw [Bytes.trim, Bytes.trimEnd, List.getLast?_reverse] at hb
    rw [show rest = Bytes.trimStart bytes from rfl, hb] at visible
    simpa using visible

theorem exists_nameCut_of_nameBefore? {start column : Nat} {head : Bytes} {span : Span}
    (h : nameBefore? start head = some (span, column)) :
    ∃ before name after, NameCut head before name after ∧ column = before.length ∧
      span = .ofLength (start + before.length) name.length := by
  unfold nameBefore? at h
  dsimp only at h
  split at h
  · cases h
  · rename_i filled
    cases h
    have visible : Bytes.trim head ≠ [] := by simpa using filled
    obtain ⟨after, cut⟩ := exists_nameCut visible
    exact ⟨_, _, after, cut, rfl, rfl⟩

/-! ## Definitions -/

namespace LineForm

variable {line : Line} {d : Definition}

/-- A definition is read from what stands before and behind the first colon of its line. -/
theorem definition_cases (h : ofLine line = .definition d) :
    (∃ head value, CutAtColon line.bytes head (Byte.equals :: value) ∧
      assignment line head value = .definition d) ∨
    ∃ head rest, CutAtColon line.bytes head rest ∧ header line head rest = .definition d := by
  have role : HasRole line.bytes (.definition d.kind) := by
    simp [hasRole_iff, h, LineForm.role]
  generalize d.kind = kind at role
  cases role with
  | assignment speaks cut named =>
      rw [ofLine_assignment speaks cut] at h
      exact .inl ⟨_, _, cut, h⟩
  | recipe speaks cut sign named =>
      rw [ofLine_header speaks cut sign] at h
      exact .inr ⟨_, _, cut, h⟩

theorem eq_of_assignment {head value : Bytes} (h : assignment line head value = .definition d) :
    ∃ name column, nameBefore? line.start head = some (name, column) ∧
      d = ⟨name, line.number, column, .assignment (if value.isEmpty then none
        else some (.ofLength (line.start + head.length + 2) value.length))⟩ := by
  unfold assignment at h
  cases named : nameBefore? line.start head with
  | none => rw [named] at h; cases h
  | some name =>
      rw [named] at h
      cases h
      exact ⟨_, _, rfl, rfl⟩

theorem eq_of_header {head rest : Bytes} (h : header line head rest = .definition d) :
    ∃ name column, nameBefore? line.start head = some (name, column) ∧
      d = ⟨name, line.number, column,
        .recipe (tokens (line.start + head.length + 1) rest) []⟩ := by
  unfold header at h
  cases named : nameBefore? line.start head with
  | none => rw [named] at h; cases h
  | some name =>
      rw [named] at h
      cases h
      exact ⟨_, _, rfl, rfl⟩

/-- **Every definition has a name** on its line. -/
theorem exists_hasName (h : ofLine line = .definition d) :
    ∃ before name, HasName line d before name := by
  have named {head rest : Bytes} (cut : CutAtColon line.bytes head rest) {span : Span}
      {column : Nat} (h : nameBefore? line.start head = some (span, column)) (detail : Detail) :
      ∃ before name, HasName line ⟨span, line.number, column, detail⟩ before name := by
    obtain ⟨before, name, after, around, rfl, rfl⟩ := exists_nameCut_of_nameBefore? h
    exact ⟨before, name, rfl, rfl, rfl, head, rest, after, cut, around⟩
  rcases definition_cases h with ⟨head, value, cut, form⟩ | ⟨head, rest, cut, form⟩
  · obtain ⟨span, column, found, rfl⟩ := eq_of_assignment form
    exact named cut found _
  · obtain ⟨span, column, found, rfl⟩ := eq_of_header form
    exact named cut found _

end LineForm

/-! ## Names in the buffer -/

theorem Span.bytes_ofLength {data before name after : Bytes} (h : data = before ++ name ++ after)
    (filled : name ≠ []) : (ofLength before.length name.length).bytes data = name := by
  have positive : 0 < name.length := List.length_pos_iff.2 filled
  have size : data.length = before.length + name.length + after.length := by
    rw [h, List.length_append, List.length_append]
  have inside : (ofLength before.length name.length).fits data.length = true := by
    rw [fits, Bool.and_eq_true, Bool.and_eq_true, decide_eq_true_iff, decide_eq_true_iff,
      decide_eq_true_iff, ofLength]
    dsimp only
    omega
  have length : ((ofLength before.length name.length).last
      - (ofLength before.length name.length).first + 1).toNat = name.length := by
    simp only [ofLength]
    omega
  rw [bytes, if_pos inside, length, ofLength, Int.toNat_natCast, h, List.append_assoc,
    List.drop_left, List.take_left]

/-- The span of a stretch of a line covers it. -/
theorem Line.bytes_ofLength {data : Bytes} {line : Line} {before piece after : Bytes}
    (onLine : line ∈ linesOf data) (cut : line.bytes = before ++ piece ++ after)
    (filled : piece ≠ []) :
    (Span.ofLength (line.start + before.length) piece.length).bytes data = piece := by
  obtain ⟨above, below, whole, start⟩ := exists_append_of_mem_placeLines onLine
  have place : line.start + before.length = (above ++ before).length := by
    rw [start, List.length_append, Nat.zero_add]
  have around : data = (above ++ before) ++ piece ++ (after ++ below) := by
    rw [whole, cut]
    simp
  rw [place]
  exact Span.bytes_ofLength around filled

namespace HasName

variable {line : Line} {d : Definition} {before name : Bytes}

theorem addCommands (h : HasName line d before name) (commands : List Span) :
    HasName line (d.addCommands commands) before name := by
  obtain ⟨span, number, column, detail⟩ := d
  cases detail <;> exact ⟨h.number, h.column, h.span, h.cut⟩

variable (h : HasName line d before name)
include h

theorem filled : name ≠ [] := by
  obtain ⟨head, rest, after, cut, around⟩ := h.cut
  exact around.filled

theorem colon_notMem : Byte.colon ∉ name := by
  obtain ⟨head, rest, after, cut, around⟩ := h.cut
  intro inside
  exact cut.first (by simp [around.eq, inside])

theorem leads : IsBlank before := by
  obtain ⟨head, rest, after, cut, around⟩ := h.cut
  exact around.leads

/-- What follows a name on its line: the white space before the colon, then the colon. -/
theorem exists_eq : ∃ after rest, IsBlank after ∧
    line.bytes = before ++ name ++ (after ++ Byte.colon :: rest) := by
  obtain ⟨head, rest, after, cut, around⟩ := h.cut
  exact ⟨after, rest, around.trails, by simp [cut.eq, around.eq]⟩

/-- The span of a name covers it. -/
theorem bytes_eq {data : Bytes} (onLine : line ∈ linesOf data) : d.name.bytes data = name := by
  obtain ⟨after, rest, -, bytes⟩ := h.exists_eq
  rw [h.span]
  exact Line.bytes_ofLength onLine bytes h.filled

end HasName

end JustfileServer
