import JustfileServer.Frame.Writer
import JustfileServer.Proofs.Frame.Blocks
import JustfileServer.Proofs.Text.Numerals
import JustfileServer.Proofs.Text.Trimming
import JustfileServer.Proofs.Text.Utf8RoundTrip

/-!
# The header that the writer makes

The writer puts two lines before a body: one that gives the length of the body in bytes, and a
blank one.  Read as any other header block, they announce just that length (`announces_header`).
-/

namespace JustfileServer

namespace Frame

/-- The header line for a body, as text. -/
def lengthLine (n : Nat) : Text := Text.ofString "Content-Length: " ++ Numeral.decimal n

theorem ascii_of_mem_lengthLine {n : Nat} {c : CodePoint}
    (h : c ∈ lengthLine n ++ [.ofChar '\r']) : c.val < 0x80 ∧ c.val ≠ 0x0A := by
  have name : ∀ c ∈ Text.ofString "Content-Length: ", c.val < 0x80 ∧ c.val ≠ 0x0A := by decide
  have closing : ∀ c ∈ [CodePoint.ofChar '\r'], c.val < 0x80 ∧ c.val ≠ 0x0A := by decide
  rcases List.mem_append.1 h with h | h
  · rcases List.mem_append.1 h with h | h
    · exact name c h
    · exact (Numeral.ascii_of_isDigit (Numeral.isDigit_of_mem_decimal h)).2
  · exact closing c h

theorem header_eq (n : Nat) :
    header n = Utf8.encode (lengthLine n ++ [.ofChar '\r']) ++ [Byte.newline]
      ++ (Utf8.encode [.ofChar '\r'] ++ [Byte.newline]) := by
  have closing : ascii "\r\n\r\n" = Utf8.encode [.ofChar '\r'] ++ [Byte.newline]
      ++ (Utf8.encode [.ofChar '\r'] ++ [Byte.newline]) := by decide
  rw [header, closing]
  simp [lengthLine, ascii, Utf8.encode]

theorem headerText_lengthLine (n : Nat) :
    headerText (Utf8.encode (lengthLine n ++ [.ofChar '\r']) ++ [Byte.newline]) = lengthLine n := by
  have ends : ∀ c ∈ [CodePoint.ofChar '\r', CodePoint.ofByte Byte.newline], c.isBlank = true := by
    decide
  have nonempty : lengthLine n ≠ [] := by simp [lengthLine, Numeral.decimal_ne_nil]
  have bytes : (Utf8.encode (lengthLine n ++ [.ofChar '\r']) ++ [Byte.newline]).map CodePoint.ofByte
      = [] ++ lengthLine n ++ [.ofChar '\r', .ofByte Byte.newline] := by
    rw [List.map_append, Utf8.map_ofByte_encode fun c hc => (ascii_of_mem_lengthLine hc).1]
    simp
  rw [headerText, bytes]
  refine Text.trim_append (by simp) ends nonempty ?_ ?_
  · have first : (lengthLine n).head? = some (.ofChar 'C') := rfl
    rw [first]
    decide
  · intro c hc
    rw [lengthLine, List.getLast?_append,
      Option.or_of_isSome (by simp [Numeral.decimal_ne_nil])] at hc
    exact (Numeral.ascii_of_isDigit (Numeral.isDigit_of_mem_decimal (List.mem_of_getLast? hc))).1

theorem lengthField?_lengthLine {n : Nat} (short : (Numeral.decimal n).length ≤ Numeral.maxDigits) :
    lengthField? (lengthLine n) = some (.number n) := by
  have split : (lengthLine n).splitFirst? (.ofChar ':')
      = some (Text.ofString "Content-Length", .ofChar ' ' :: Numeral.decimal n) := rfl
  have name : (Text.ofString "Content-Length").trim.lowerAscii
      = Text.ofString "content-length" := by
    decide
  have value : Text.trim (.ofChar ' ' :: Numeral.decimal n) = Numeral.decimal n := by
    have digit : ∀ c ∈ Numeral.decimal n, c.isBlank = false := fun c hc =>
      (Numeral.ascii_of_isDigit (Numeral.isDigit_of_mem_decimal hc)).1
    have trimmed : Text.trim ([.ofChar ' '] ++ Numeral.decimal n ++ []) = Numeral.decimal n :=
      Text.trim_append (by decide) (by simp) (Numeral.decimal_ne_nil n)
        (fun c hc => digit c (List.mem_of_mem_head? hc))
        (fun c hc => digit c (List.mem_of_getLast? hc))
    rwa [List.append_nil, List.singleton_append] at trimmed
  rw [lengthField?, split]
  dsimp only
  rw [if_pos name, value, Numeral.integer?_decimal short]

/-- **The header that the writer puts before a body announces its length.** -/
theorem announces_header {n : Nat} (pos : 0 < n) (most : n ≤ maxBodyLength) :
    Announces (header n) n := by
  have short : (Numeral.decimal n).length ≤ Numeral.maxDigits := by
    have few : (Numeral.decimal n).length ≤ 8 := by
      rw [Numeral.length_decimal_le_iff (by decide)]
      exact Nat.lt_of_le_of_lt most (by decide)
    exact Nat.le_trans few (by decide)
  refine ⟨[lengthLine n], ?_, pos, most, ?_⟩
  · rw [header_eq]
    have line := headerText_lengthLine n
    have noNewline : Byte.newline ∉ Utf8.encode (lengthLine n ++ [.ofChar '\r']) :=
      Utf8.notMem_encode (fun c hc => (ascii_of_mem_lengthLine hc).1)
        fun c hc => (ascii_of_mem_lengthLine hc).2
    have notBlank :
        headerText (Utf8.encode (lengthLine n ++ [.ofChar '\r']) ++ [Byte.newline]) ≠ [] := by
      rw [line]
      simp [lengthLine, Numeral.decimal_ne_nil]
    have blank : IsBlock (Utf8.encode [.ofChar '\r'] ++ [Byte.newline]) [] :=
      .blank (by decide) (by decide)
    have isBlock := IsBlock.line noNewline notBlank blank
    rwa [line] at isBlock
  · simp [lengthField?_lengthLine short]

end Frame

end JustfileServer
