import JustfileServer.Text.Utf16
import JustfileServer.Proofs.Text.AsciiBytes

/-!
# Columns on a line

A line that begins with ASCII bytes is the encoding of a text that begins with their code points
(`Utf8.exists_of_encode_eq`).  Up to the end of such a beginning a column is the same number in
bytes and in UTF-16 units, whatever comes behind it.

On any line a column is carried over by what stands before it: text behind it does not matter
(`carry_append`), and a column past the end is carried over to the end (`carry_of_size_le`).
-/

namespace JustfileServer

variable {ascii : Bytes} {rest : Text} {column : Nat}

theorem CodePoint.utf16Width_pos (c : CodePoint) : 0 < c.utf16Width := by
  unfold utf16Width
  split <;> decide

/-- An ASCII byte at the start of a line is a code point of its own. -/
theorem CodePoint.eq_ofByte_of_utf8 {c : CodePoint} {b : UInt8} {bytes tail : Bytes}
    (small : b.toNat < 0x80) (h : c.utf8 ++ bytes = b :: tail) : c = .ofByte b ∧ bytes = tail := by
  have inside : b ∈ c.utf8 := by
    cases units : c.utf8 with
    | nil =>
        have width := c.length_utf8
        rw [units] at width
        exact absurd width (Nat.ne_of_lt c.utf8Width_pos)
    | cons first others =>
        rw [units, List.cons_append] at h
        rw [(List.cons.inj h).1]
        exact List.mem_cons_self ..
  have value := Utf8.eq_of_mem_utf8 inside small
  have same : c = .ofByte b := by
    have number := congrArg ofNat value
    rwa [ofNat_val] at number
  have units : c.utf8 = [UInt8.ofNat c.val] := by rw [utf8, if_pos (by omega)]
  rw [units, List.singleton_append] at h
  exact ⟨same, (List.cons.inj h).2⟩

/-- **A line that begins with ASCII bytes** is the encoding of a text that begins with them. -/
theorem Utf8.exists_of_encode_eq {t : Text} {tail : Bytes} (small : ∀ b ∈ ascii, b.toNat < 0x80)
    (h : encode t = ascii ++ tail) : ∃ u, t = ascii.map CodePoint.ofByte ++ u := by
  induction ascii generalizing t with
  | nil => exact ⟨t, rfl⟩
  | cons b ascii ih =>
      cases t with
      | nil => cases h
      | cons c t =>
          rw [encode, List.flatMap_cons, ← encode, List.cons_append] at h
          obtain ⟨rfl, rest⟩ := CodePoint.eq_ofByte_of_utf8 (small b (List.mem_cons_self ..)) h
          obtain ⟨u, rfl⟩ := ih (fun b hb => small b (List.mem_cons_of_mem _ hb)) rest
          exact ⟨u, rfl⟩

namespace Column

/-- A column is carried over to the same number where both units count one for each code point. -/
theorem carry_ones {source target : CodePoint → Nat} {start : Text}
    (ones : ∀ c ∈ start, source c = 1 ∧ target c = 1) (inside : column ≤ start.length) :
    carry source target (start ++ rest) column = column := by
  induction start generalizing column with
  | nil =>
      obtain rfl : column = 0 := Nat.le_zero.1 inside
      cases rest <;> rfl
  | cons c start ih =>
      obtain ⟨one, one'⟩ := ones c (List.mem_cons_self ..)
      cases column with
      | zero => rfl
      | succ column =>
          have later : carry source target (start ++ rest) column = column := by
            apply ih
            · intro c hc
              exact ones c (List.mem_cons_of_mem _ hc)
            · exact Nat.le_of_succ_le_succ inside
          have back : ((column + 1 : Nat) : Int) - (1 : Nat) = column := by omega
          rw [List.cons_append, carry, if_neg (by omega), one, one', back, later, Nat.add_comm]

theorem widths_of_ascii (small : ∀ b ∈ ascii, b.toNat < 0x80) :
    ∀ c ∈ ascii.map CodePoint.ofByte, c.utf8Width = 1 ∧ c.utf16Width = 1 := by
  intro c hc
  obtain ⟨b, hb, rfl⟩ := List.mem_map.1 hc
  have value := small b hb
  rw [CodePoint.utf8Width, CodePoint.utf16Width, CodePoint.val_ofByte]
  constructor
  · exact if_pos value
  · exact if_neg (by omega)

theorem byteToUtf16_ascii (small : ∀ b ∈ ascii, b.toNat < 0x80) (inside : column ≤ ascii.length) :
    byteToUtf16 (ascii.map CodePoint.ofByte ++ rest) column = column := by
  apply carry_ones
  · exact widths_of_ascii small
  · rwa [List.length_map]

theorem utf16ToByte_ascii (small : ∀ b ∈ ascii, b.toNat < 0x80) (inside : column ≤ ascii.length) :
    utf16ToByte (ascii.map CodePoint.ofByte ++ rest) column = column := by
  apply carry_ones
  · intro c hc
    exact (widths_of_ascii small c hc).symm
  · rwa [List.length_map]

/-! ## The end of a line -/

variable {source target : CodePoint → Nat} {line : Text} {place : Int}

theorem size_append (width : CodePoint → Nat) (s t : Text) :
    size width (s ++ t) = size width s + size width t := by
  induction s with
  | nil => simp [size]
  | cons c s ih => rw [List.cons_append, size, size, ih, Nat.add_assoc]

/-- A column that is on the line is carried over in the same way when the line goes on. -/
theorem carry_append (inside : place ≤ size source line) (rest : Text) :
    carry source target (line ++ rest) place = carry source target line place := by
  induction line generalizing place with
  | nil =>
      have start : place ≤ 0 := inside
      cases rest with
      | nil => rfl
      | cons c rest => exact if_pos start
  | cons c line ih =>
      rw [List.cons_append, carry, carry]
      split
      · rfl
      · rw [size] at inside
        rw [ih (by omega)]

/-- A column at the end of the line or past it is carried over to the end. -/
theorem carry_of_size_le (positive : ∀ c, 0 < source c) (past : size source line ≤ place) :
    carry source target line place = size target line := by
  induction line generalizing place with
  | nil => rfl
  | cons c line ih =>
      have width := positive c
      rw [size] at past
      rw [carry, if_neg (by omega), ih (by omega), size]

end Column

end JustfileServer
