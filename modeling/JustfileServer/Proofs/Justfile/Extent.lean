import JustfileServer.Navigation.Cursor
import JustfileServer.Proofs.Results

/-!
# How far a justfile extends

The places that the server names in a document lie in it: the line of a definition is one of its
lines (`line_le_of_mem_definitions`), and a column in UTF-16 units is no more than twice the number
of its bytes (`byteToUtf16_le`).  So the numbers in the ranges of definitions and of words are
bounded by the size of the document (`definitionRange_le` and `symbolAt_le`).
-/

namespace JustfileServer

/-! ## Sizes of texts -/

namespace Utf8

theorem length_pieces_le (r : Repertoire) (data : Bytes) :
    (pieces r data).length ≤ data.length := by
  fun_induction pieces r data with
  | case1 => exact Nat.le_refl _
  | case2 b rest ih =>
      have shorter := length_nextPiece_le r b rest
      simp only [List.length_cons]
      omega

theorem length_of_wholePoints {ps : List Piece} {offset : Nat} {t : Text}
    (h : wholePoints offset ps = .ok t) : t.length = ps.length := by
  induction ps generalizing offset t with
  | nil => cases h; rfl
  | cons p ps ih =>
      cases p with
      | broken => cases h
      | point c =>
          obtain ⟨u, others, rfl⟩ := exists_of_map_eq_ok h
          rw [List.length_cons, List.length_cons, ih others]

/-- A text has no more code points than the bytes that it was decoded from. -/
theorem length_decode_le {r : Repertoire} {data : Bytes} {t : Text} (h : decode r data = .ok t) :
    t.length ≤ data.length := by
  rw [length_of_wholePoints h]
  exact length_pieces_le r data

theorem length_encode_le (t : Text) : (encode t).length ≤ 4 * t.length := by
  induction t with
  | nil => exact Nat.le_refl _
  | cons c t ih =>
      have width : c.utf8Width ≤ 4 := by
        unfold CodePoint.utf8Width
        split_ifs <;> omega
      rw [encode, List.flatMap_cons, List.length_append, CodePoint.length_utf8, ← encode,
        List.length_cons]
      omega

end Utf8

/-! ## Columns -/

namespace Column

theorem carry_le (source : CodePoint → Nat) {target : CodePoint → Nat} {most : Nat}
    (h : ∀ c, target c ≤ most) (line : Text) (column : Int) :
    carry source target line column ≤ most * line.length := by
  induction line generalizing column with
  | nil => exact Nat.le_refl _
  | cons c line ih =>
      rw [carry, List.length_cons, Nat.mul_succ]
      split
      · exact Nat.zero_le _
      · have here := h c
        have later := ih (column - source c)
        omega

theorem byteToUtf16_le (line : Text) (column : Int) :
    byteToUtf16 line column ≤ 2 * line.length :=
  carry_le _ (fun c => by unfold CodePoint.utf16Width; split <;> omega) line column

end Column

/-! ## Lines -/

theorem length_splitLines_le (data : Bytes) : (splitLines data).length ≤ data.length + 1 := by
  induction data with
  | nil => exact Nat.le_refl _
  | cons b data ih =>
      rw [splitLines]
      split
      · simpa using ih
      · split
        · simp
        · rename_i line lines h
          rw [h] at ih
          simp only [List.length_cons] at ih ⊢
          omega

theorem number_lt_of_mem_placeLines {ls : List Bytes} {number start : Nat} {line : Line}
    (h : line ∈ placeLines number start ls) : line.number < number + ls.length := by
  induction ls generalizing number start with
  | nil => cases h
  | cons bytes ls ih =>
      rw [placeLines] at h
      rw [List.length_cons]
      rcases List.mem_cons.1 h with rfl | h
      · show number < number + (ls.length + 1)
        omega
      · have below := ih h
        omega

theorem length_lineBytes?_le {starts : List Nat} {data bytes : Bytes} {number : Int}
    (h : lineBytes? starts data number = some bytes) : bytes.length ≤ data.length := by
  obtain ⟨bounds, -, rfl⟩ := Option.map_eq_some_iff.1 h
  simp only [List.length_take, List.length_drop]
  omega

/-! ## Definitions -/

/-- How a line is read: as nothing, without a colon, or cut at one. -/
theorem LineForm.ofLine_cases (line : Line) :
    ofLine line = .ignored ∨ ofLine line = plain line ∨
      (∃ head value, ofLine line = assignment line head value) ∨
        ∃ head rest, ofLine line = header line head rest := by
  unfold ofLine
  split
  · exact .inl rfl
  · dsimp only
    split
    · exact .inr (.inl rfl)
    · exact .inr (.inr (.inr ⟨_, _, rfl⟩))
    · split
      · exact .inr (.inr (.inl ⟨_, _, rfl⟩))
      · exact .inr (.inr (.inr ⟨_, _, rfl⟩))

theorem LineForm.line_of_definition {line : Line} {d : Definition}
    (h : LineForm.ofLine line = .definition d) : d.line = line.number := by
  rcases ofLine_cases line with form | form | ⟨head, value, form⟩ | ⟨head, rest, form⟩ <;>
    rw [form] at h
  · cases h
  · unfold plain at h
    split at h
    · cases h
    · split at h <;> cases h
  · unfold assignment at h
    split at h <;> cases h
    rfl
  · unfold header at h
    split at h <;> cases h
    rfl

@[simp] theorem Definition.addCommands_nil (d : Definition) : d.addCommands [] = d := by
  obtain ⟨name, line, column, detail⟩ := d
  cases detail with
  | assignment value => rfl
  | recipe dependencies body => simp [addCommands]

/-- Every definition of an outline is read from one of the lines, and may have been given commands
since. -/
theorem Outline.exists_of_mem_definitions {lines : List Line} {d : Definition}
    (h : d ∈ (Outline.ofLines lines).definitions) :
    ∃ line ∈ lines, ∃ e commands, LineForm.ofLine line = .definition e ∧
      d = e.addCommands commands := by
  induction lines with
  | nil => cases h
  | cons line lines ih =>
      have later (h : d ∈ (Outline.ofLines lines).definitions) :
          ∃ l ∈ line :: lines, ∃ e commands, LineForm.ofLine l = .definition e ∧
            d = e.addCommands commands := by
        obtain ⟨l, hl, read⟩ := ih h
        exact ⟨l, List.mem_cons_of_mem _ hl, read⟩
      rw [Outline.ofLines, List.foldr_cons, ← Outline.ofLines] at h
      cases form : LineForm.ofLine line with
      | ignored => rw [form] at h; exact later h
      | command span => rw [form] at h; exact later h
      | problem cause => rw [form] at h; exact later h
      | definition e =>
          rw [form] at h
          unfold Outline.addLine at h
          dsimp only at h
          split at h
          · rcases List.mem_cons.1 h with rfl | h
            · exact ⟨line, List.mem_cons_self .., e, _, form, rfl⟩
            · exact later h
          · rcases List.mem_cons.1 h with rfl | h
            · exact ⟨line, List.mem_cons_self .., d, [], form, d.addCommands_nil.symm⟩
            · exact later h

theorem Outline.exists_line_of_mem {lines : List Line} {d : Definition}
    (h : d ∈ (Outline.ofLines lines).definitions) : ∃ line ∈ lines, d.line = line.number := by
  obtain ⟨line, hl, e, commands, form, rfl⟩ := Outline.exists_of_mem_definitions h
  refine ⟨line, hl, ?_⟩
  rw [← LineForm.line_of_definition form]
  unfold Definition.addCommands
  split <;> rfl

/-- A definition is on one of the lines. -/
theorem Justfile.line_le_of_mem_definitions {t : Text} {d : Definition}
    (h : d ∈ (Justfile.ofText t).definitions) : d.line ≤ (Justfile.ofText t).data.length := by
  obtain ⟨line, hl, number⟩ := Outline.exists_line_of_mem h
  have below := number_lt_of_mem_placeLines hl
  have few := length_splitLines_le (Utf8.encode t)
  rw [number]
  show line.number ≤ (Utf8.encode t).length
  omega

/-! ## Ranges -/

namespace Justfile

variable {j : Justfile}

/-- The columns of a definition's range lie in the document. -/
theorem definitionRange_le {d : Definition} {range : Range} (h : j.definitionRange d = .ok range) :
    ∃ first last : Nat, range = ⟨⟨.number d.line, first⟩, ⟨.number d.line, last⟩⟩ ∧
      first ≤ 2 * j.data.length ∧ last ≤ 2 * j.data.length := by
  obtain ⟨text, decoded, h⟩ := exists_of_bind_eq_ok h
  cases h
  have few := Utf8.length_decode_le decoded
  have short : ((j.lineBytes? d.line).getD []).length ≤ j.data.length := by
    cases hb : j.lineBytes? d.line with
    | none => exact Nat.zero_le _
    | some bytes => exact length_lineBytes?_le hb
  have inside (column : Int) : Column.byteToUtf16 text column ≤ 2 * j.data.length :=
    Nat.le_trans (Column.byteToUtf16_le text column) (by omega)
  exact ⟨_, _, rfl, inside _, inside _⟩

/-- The columns of a word's range lie in the document, and its line is the one that was asked
about. -/
theorem symbolAt_le {line : LineNumber} {character : ClientColumn} {c : Cursor}
    (h : j.symbolAt line character = .ok (some c)) :
    ∃ first last : Nat, c.range = ⟨⟨line, first⟩, ⟨line, last⟩⟩ ∧
      first ≤ 2 * j.data.length ∧ last ≤ 2 * j.data.length := by
  unfold symbolAt at h
  cases hb : j.lineBytes? line.toInt with
  | none => rw [hb] at h; cases h
  | some bytes =>
      have short := length_lineBytes?_le hb
      rw [hb] at h
      obtain ⟨text, decoded, h⟩ := exists_of_bind_eq_ok h
      have few := Utf8.length_decode_le decoded
      have inside (column : Int) : Column.byteToUtf16 text column ≤ 2 * j.data.length :=
        Nat.le_trans (Column.byteToUtf16_le text column) (by omega)
      dsimp only at h
      split at h
      · cases h
      · cases h
        exact ⟨_, _, rfl, inside _, inside _⟩

end Justfile

end JustfileServer
