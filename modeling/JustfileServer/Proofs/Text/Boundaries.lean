import JustfileServer.Proofs.Justfile.LineTexts
import JustfileServer.Proofs.Text.Columns

/-!
# The boundaries between code points

A line of `n` code points has `n + 1` boundaries, which have places in bytes and places in UTF-16
units.  A column is carried over from one unit to the other at the first boundary that has reached
it (`carry_eq_size`), so what the two units have to do with each other is told by the boundaries
alone: `carriesOver_carry` says it for any two units, and `columns_exact` for bytes and UTF-16
units, where the places are the lengths of the encodings of what stands before the boundary.
-/

namespace JustfileServer

/-! ## UTF-16 -/

namespace CodePoint

/-- **The UTF-16 units of a code point**: its number, or a pair of surrogates for a number that
takes more than one unit. -/
def utf16 (c : CodePoint) : List UInt16 :=
  if c.val ≤ 0xFFFF then [UInt16.ofNat c.val]
  else [UInt16.ofNat (0xD800 + (c.val - 0x10000) / 0x400),
    UInt16.ofNat (0xDC00 + (c.val - 0x10000) % 0x400)]

@[simp] theorem length_utf16 (c : CodePoint) : c.utf16.length = c.utf16Width := by
  unfold utf16 utf16Width
  by_cases h : c.val ≤ 0xFFFF
  · simp [h, Nat.not_lt.2 h]
  · simp [h, Nat.not_le.1 h]

end CodePoint

namespace Utf16

/-- The encoding of a text in UTF-16, a lone surrogate as the one unit that it is. -/
def encode (t : Text) : List UInt16 := t.flatMap CodePoint.utf16

theorem encode_append (s t : Text) : encode (s ++ t) = encode s ++ encode t := List.flatMap_append

theorem length_encode (t : Text) : (encode t).length = Column.size CodePoint.utf16Width t := by
  induction t with
  | nil => rfl
  | cons c t ih =>
      rw [encode, List.flatMap_cons, List.length_append, CodePoint.length_utf16, ← encode, ih,
        Column.size]

end Utf16

namespace Column

variable {source target : CodePoint → Nat} {line : Text} {column : Int} {k : Nat}

/-! ## The boundary for a column -/

/-- The number of code points before the boundary at which a column is carried over. -/
def reach (source : CodePoint → Nat) : Text → Int → Nat
  | [], _ => 0
  | c :: line, column => if column ≤ 0 then 0 else reach source line (column - source c) + 1

/-- **A column is carried over at a boundary.** -/
theorem carry_eq_size (source target : CodePoint → Nat) (line : Text) (column : Int) :
    carry source target line column = size target (line.take (reach source line column)) := by
  induction line generalizing column with
  | nil => rfl
  | cons c line ih =>
      rw [carry, reach]
      split
      · rfl
      · rw [ih, List.take_succ_cons, size]

theorem reach_le_length (source : CodePoint → Nat) (line : Text) (column : Int) :
    reach source line column ≤ line.length := by
  induction line generalizing column with
  | nil => exact Nat.le_refl _
  | cons c line ih =>
      rw [reach]
      split
      · exact Nat.zero_le _
      · exact Nat.succ_le_succ (ih _)

/-- The boundary has reached the column, unless it is the last one. -/
theorem le_size_or_reach_eq (source : CodePoint → Nat) (line : Text) (column : Int) :
    column ≤ size source (line.take (reach source line column)) ∨
      reach source line column = line.length := by
  induction line generalizing column with
  | nil => exact .inr rfl
  | cons c line ih =>
      rw [reach]
      split
      · rename_i start
        exact .inl start
      · rw [List.take_succ_cons, size, List.length_cons]
        rcases ih (column - source c) with reached | last
        · exact .inl (by omega)
        · exact .inr (by rw [last])

/-- The boundaries before it have not reached the column. -/
theorem size_lt_of_lt_reach (h : k < reach source line column) :
    size source (line.take k) < column := by
  induction line generalizing column k with
  | nil => cases h
  | cons c line ih =>
      rw [reach] at h
      split at h
      · cases h
      · rename_i behind
        cases k with
        | zero => exact Int.not_le.1 behind
        | succ k =>
            have later := ih (Nat.lt_of_succ_lt_succ h)
            rw [List.take_succ_cons, size]
            omega

theorem size_take_lt (positive : ∀ c, 0 < source c) (h : k < line.length) :
    size source (line.take k) < size source (line.take (k + 1)) := by
  obtain ⟨c, longer⟩ : ∃ c, line.take (k + 1) = line.take k ++ [c] :=
    ⟨_, List.take_succ_eq_append_getElem h⟩
  have width := positive c
  rw [longer, size_append, size, size]
  omega

theorem size_take_mono (source : CodePoint → Nat) (line : Text) {j k : Nat} (h : j ≤ k) :
    size source (line.take j) ≤ size source (line.take k) := by
  obtain ⟨rest, whole⟩ := List.take_prefix_take_left (l := line) h
  rw [← whole, size_append]
  exact Nat.le_add_right _ _

theorem reach_mono (source : CodePoint → Nat) (line : Text) {a b : Int} (h : a ≤ b) :
    reach source line a ≤ reach source line b := by
  by_contra further
  have short := size_lt_of_lt_reach (Nat.not_le.1 further)
  rcases le_size_or_reach_eq source line b with reached | last
  · omega
  · have within := reach_le_length source line a
    omega

/-- At the place of a boundary it is that boundary. -/
theorem take_reach_size (positive : ∀ c, 0 < source c) (line : Text) (k : Nat) :
    line.take (reach source line (size source (line.take k))) = line.take k := by
  induction line generalizing k with
  | nil => simp
  | cons c line ih =>
      cases k with
      | zero => rfl
      | succ k =>
          have width := positive c
          have back : ((source c + size source (line.take k) : Nat) : Int) - source c
              = size source (line.take k) := by omega
          rw [List.take_succ_cons, size, reach, if_neg (by omega), back, List.take_succ_cons, ih]

/-! ## Carrying over -/

/-- **The boundary that decides about a column**: of the boundaries at these places the first one
that has reached the column, or the last one when none has. -/
structure IsReachedAt (place : Nat → Nat) (count : Nat) (column : Int) (k : Nat) : Prop where
  within : k ≤ count
  reached : column ≤ place k ∨ k = count
  first : ∀ j < k, place j < column

/-- **Columns are carried over exactly** between boundaries that have places in two units. -/
structure CarriesOver (source target : Nat → Nat) (count : Nat) (carried : Int → Nat) : Prop where
  /-- The boundaries have growing places. -/
  rises : ∀ k < count, source k < source (k + 1)
  /-- A column is carried over to the place of the boundary that decides about it. -/
  exact : ∀ column : Int, ∃ k, IsReachedAt source count column k ∧ carried column = target k
  monotone : ∀ a b : Int, a ≤ b → carried a ≤ carried b
  /-- Columns before the line are carried over to its start. -/
  before : ∀ column : Int, column ≤ 0 → carried column = 0
  /-- Columns behind the line are carried over to its end. -/
  behind : ∀ column : Int, source count ≤ column → carried column = target count

theorem carriesOver_carry (positive : ∀ c, 0 < source c) (target : CodePoint → Nat) (line : Text) :
    CarriesOver (fun k => size source (line.take k)) (fun k => size target (line.take k))
      line.length (carry source target line) where
  rises k h := size_take_lt positive h
  exact column := by
    refine ⟨reach source line column, ⟨?_, ?_, ?_⟩, carry_eq_size ..⟩
    · exact reach_le_length source line column
    · exact le_size_or_reach_eq source line column
    · exact fun j h => size_lt_of_lt_reach h
  monotone a b h := by
    rw [carry_eq_size, carry_eq_size]
    exact size_take_mono target line (reach_mono source line h)
  before column h := by
    cases line with
    | nil => rfl
    | cons c line => exact if_pos h
  behind column h := by
    rw [List.take_length] at h ⊢
    exact carry_of_size_le positive h

/-- A boundary is carried over to its place in the other unit. -/
theorem carry_size_take (positive : ∀ c, 0 < source c) (target : CodePoint → Nat) (line : Text)
    (k : Nat) :
    carry source target line (size source (line.take k)) = size target (line.take k) := by
  rw [carry_eq_size, take_reach_size positive]

/-- **The columns of a line in bytes and in UTF-16 units.**  The boundaries between its code points
have the places that the encodings of the text before them give.  A column in either unit is carried
over to the other at the first boundary that has reached it, or at the end of the line.  Carrying
over is monotone, it goes to the start of the line from before it and to the end from behind it, and
at each boundary the two directions undo each other. -/
theorem columns_exact (line : Text) :
    let bytes := fun k => (Utf8.encode (line.take k)).length
    let units := fun k => (Utf16.encode (line.take k)).length
    CarriesOver units bytes line.length (utf16ToByte line) ∧
    CarriesOver bytes units line.length (byteToUtf16 line) ∧
    ∀ k, utf16ToByte line (byteToUtf16 line (bytes k)) = bytes k ∧
      byteToUtf16 line (utf16ToByte line (units k)) = units k := by
  simp only [length_encode, Utf16.length_encode]
  refine ⟨?_, ?_, fun k => ⟨?_, ?_⟩⟩
  · exact carriesOver_carry CodePoint.utf16Width_pos CodePoint.utf8Width line
  · exact carriesOver_carry CodePoint.utf8Width_pos CodePoint.utf16Width line
  · rw [byteToUtf16, carry_size_take CodePoint.utf8Width_pos, utf16ToByte,
      carry_size_take CodePoint.utf16Width_pos]
  · rw [utf16ToByte, carry_size_take CodePoint.utf16Width_pos, byteToUtf16,
      carry_size_take CodePoint.utf8Width_pos]

/-- A column inside a surrogate pair, or inside the bytes of a code point, goes to the boundary
behind it. -/
example :
    let line := Text.ofString "a😀b"
    utf16ToByte line 2 = 5 ∧ byteToUtf16 line 3 = 3 ∧ byteToUtf16 line 5 = 3 := by decide

end Column

end JustfileServer
