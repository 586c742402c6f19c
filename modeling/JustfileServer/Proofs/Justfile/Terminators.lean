import JustfileServer.Proofs.Justfile.LineTexts
import JustfileServer.Proofs.Justfile.Padding

/-!
# Carriage returns before newlines

A newline ends a line, so a carriage return that is put before it ends up at the end of the line.
With a carriage return before each of its newlines, a text has the same lines as before, each with a
carriage return at its end except for the last one (`Justfile.lineBytes?_withReturns`).  As the
carriage return is white space these lines are padded (`Text.isPadded_withReturns`).
-/

namespace JustfileServer

/-- The byte of a carriage return. -/
def Byte.carriageReturn : UInt8 := 0x0D

namespace CodePoint

/-- The code point that ends a line. -/
def newline : CodePoint := ofByte Byte.newline

/-- The code point of a carriage return. -/
def carriageReturn : CodePoint := ofByte Byte.carriageReturn

end CodePoint

/-- **The text with carriage returns**, one before each of its newlines. -/
def Text.withReturns (t : Text) : Text :=
  t.flatMap fun c => if c = .newline then [.carriageReturn, c] else [c]

/-- Lines with a carriage return at the end of each of them except for the last one. -/
def addReturns : List Bytes → List Bytes
  | [] => []
  | [last] => [last]
  | line :: next :: lines => (line ++ [Byte.carriageReturn]) :: addReturns (next :: lines)

theorem isBlank_carriageReturn : IsBlank [Byte.carriageReturn] := by
  intro b hb
  rw [List.mem_singleton.1 hb]
  rfl

/-! ## The lines of a text -/

theorem addReturns_cons (line : Bytes) {lines : List Bytes} (more : lines ≠ []) :
    addReturns (line :: lines) = (line ++ [Byte.carriageReturn]) :: addReturns lines := by
  cases lines with
  | nil => exact absurd rfl more
  | cons next lines => rfl

/-- Bytes in front of the first line stay in front of it. -/
theorem addReturns_append_head (front line : Bytes) (lines : List Bytes) :
    ∃ first others, addReturns (line :: lines) = first :: others ∧
      addReturns ((front ++ line) :: lines) = (front ++ first) :: others := by
  cases lines with
  | nil => exact ⟨line, [], rfl, rfl⟩
  | cons next lines =>
      refine ⟨line ++ [Byte.carriageReturn], addReturns (next :: lines), rfl, ?_⟩
      rw [addReturns, List.append_assoc]

theorem newline_notMem_utf8 {c : CodePoint} (other : c ≠ .newline) : Byte.newline ∉ c.utf8 := by
  intro inside
  have value := congrArg CodePoint.ofNat (Utf8.eq_of_mem_utf8 inside (by decide))
  rw [CodePoint.ofNat_val] at value
  exact other value

theorem Text.withReturns_cons_newline (t : Text) :
    withReturns (.newline :: t) = .carriageReturn :: .newline :: t.withReturns := by
  rw [withReturns, List.flatMap_cons, if_pos rfl, ← withReturns]
  rfl

theorem Text.withReturns_cons_of_ne {c : CodePoint} (other : c ≠ .newline) (t : Text) :
    withReturns (c :: t) = c :: t.withReturns := by
  rw [withReturns, List.flatMap_cons, if_neg other, ← withReturns, List.singleton_append]

/-- **The lines of a text with carriage returns** have these at their ends. -/
theorem splitLines_withReturns (t : Text) :
    splitLines (Utf8.encode t.withReturns) = addReturns (splitLines (Utf8.encode t)) := by
  induction t with
  | nil => rfl
  | cons c t ih =>
      by_cases ends : c = .newline
      · subst ends
        have units : Utf8.encode (Text.withReturns (.newline :: t))
            = [Byte.carriageReturn] ++ Byte.newline :: Utf8.encode (Text.withReturns t) := by
          rw [Text.withReturns_cons_newline]
          rfl
        have units' : Utf8.encode (.newline :: t) = [] ++ Byte.newline :: Utf8.encode t := rfl
        rw [units, units', splitLines_append_newline, splitLines_append_newline, ih]
        exact (addReturns_cons [] (splitLines_ne_nil _)).symm
      · have clean := newline_notMem_utf8 ends
        obtain ⟨line, lines, cut⟩ := List.exists_cons_of_ne_nil (splitLines_ne_nil (Utf8.encode t))
        obtain ⟨first, others, returned, front⟩ := addReturns_append_head c.utf8 line lines
        have unit (t : Text) : Utf8.encode (c :: t) = c.utf8 ++ Utf8.encode t :=
          List.flatMap_cons ..
        rw [cut, returned] at ih
        rw [Text.withReturns_cons_of_ne ends, unit, unit, splitLines_append_of_notMem clean ih,
          splitLines_append_of_notMem clean cut, front]

theorem getElem?_addReturns (lines : List Bytes) (i : Nat) :
    (addReturns lines)[i]? = lines[i]?.map fun bytes =>
      if lines[i + 1]? = none then bytes else bytes ++ [Byte.carriageReturn] := by
  induction lines generalizing i with
  | nil => rfl
  | cons line lines ih =>
      cases lines with
      | nil => cases i <;> rfl
      | cons next lines =>
          cases i with
          | zero => rfl
          | succ i =>
              rw [addReturns, List.getElem?_cons_succ, ih]
              rfl

/-- The second bytes are the first ones, or these with a carriage return at the end. -/
def Bytes.UpToReturn (bytes bytes' : Bytes) : Prop :=
  bytes' = bytes ∨ bytes' = bytes ++ [Byte.carriageReturn]

theorem Bytes.UpToReturn.exists_tail {bytes bytes' : Bytes} (h : UpToReturn bytes bytes') :
    ∃ tail, IsBlank tail ∧ bytes' = bytes ++ tail ∧
      ∀ part, UpToReturn part (part ++ tail) := by
  rcases h with rfl | rfl
  · exact ⟨[], by simp [IsBlank], (List.append_nil _).symm, fun part => .inl (List.append_nil _)⟩
  · exact ⟨_, isBlank_carriageReturn, rfl, fun part => .inr rfl⟩

/-- **Lines with carriage returns** have at most this at their ends, wherever they are placed. -/
theorem forall₂_upToReturn_addReturns (number start start' : Nat) (lines : List Bytes) :
    List.Forall₂
      (fun line line' => line'.number = line.number ∧ Bytes.UpToReturn line.bytes line'.bytes)
      (placeLines number start lines) (placeLines number start' (addReturns lines)) := by
  induction lines generalizing number start start' with
  | nil => exact .nil
  | cons line lines ih =>
      cases lines with
      | nil => exact .cons ⟨rfl, .inl rfl⟩ .nil
      | cons next lines => exact .cons ⟨rfl, .inr rfl⟩ (ih _ _ _)

theorem Text.isPadded_withReturns (text : Text) : text.IsPadded text.withReturns := by
  rw [IsPadded, linesOf, linesOf, splitLines_withReturns]
  refine (forall₂_upToReturn_addReturns 0 0 0 _).imp ?_
  intro line line' same
  obtain ⟨tail, blank, padded, -⟩ := same.2.exists_tail
  exact ⟨same.1, tail, blank, padded⟩

/-! ## Lines by number -/

theorem map_bytes_placeLines (number start : Nat) (parts : List Bytes) :
    (placeLines number start parts).map Line.bytes = parts := by
  induction parts generalizing number start with
  | nil => rfl
  | cons bytes parts ih => rw [placeLines, List.map_cons, ih]

namespace Justfile

theorem lineBytes?_eq_getElem? (text : Text) (i : Nat) :
    (ofText text).lineBytes? i = (splitLines (Utf8.encode text))[i]? := by
  have table : (ofText text).lineBytes? i = (linesOf (Utf8.encode text))[i]?.map Line.bytes :=
    lineBytes?_eq ..
  rw [table, ← List.getElem?_map, linesOf, map_bytes_placeLines]

/-- **A line with carriage returns in the text** has one at its end when another line follows. -/
theorem lineBytes?_withReturns (text : Text) (line : Int) :
    (ofText text.withReturns).lineBytes? line = ((ofText text).lineBytes? line).map fun bytes =>
      if (ofText text).lineBytes? (line + 1) = none then bytes
      else bytes ++ [Byte.carriageReturn] := by
  by_cases negative : line < 0
  · have nowhere (text : Text) : (ofText text).lineBytes? line = none := lineBytes?_of_neg negative
    rw [nowhere, nowhere]
    rfl
  · obtain ⟨i, rfl⟩ := Int.eq_ofNat_of_zero_le (Int.not_lt.1 negative)
    rw [show ((i : Int) + 1) = ((i + 1 : Nat) : Int) from rfl, lineBytes?_eq_getElem?,
      lineBytes?_eq_getElem?, lineBytes?_eq_getElem?, splitLines_withReturns, getElem?_addReturns]

end Justfile

end JustfileServer
