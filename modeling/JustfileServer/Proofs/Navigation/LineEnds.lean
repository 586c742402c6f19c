import JustfileServer.Proofs.Justfile.Padding
import JustfileServer.Proofs.Navigation.Scopes

/-!
# Words on a line with white space at its end

No white space is a symbol, a brace, a colon or an equals sign.  So white space that is added at the
end of a line leaves its words where they are (`Cut.append`), and at a column that was on the line
before it touches the same words (`touchesSymbol_append_iff`) and has the same scope
(`Scope.atColumn_append`).
-/

namespace JustfileServer

variable {bytes before word after tail : Bytes} {column : Nat}

theorem isSymbol_of_isBlank {b : UInt8} (h : Byte.isBlank b = true) : Byte.isSymbol b = false := by
  simp only [Byte.isBlank, Bool.or_eq_true, beq_iff_eq] at h
  rcases h with (((rfl | rfl) | rfl) | rfl) | rfl <;> decide

namespace Word

/-- White space at the end of a line is no part of a word. -/
theorem Cut.append (cut : Cut bytes before word after) (blank : IsBlank tail) :
    Cut (bytes ++ tail) before word (after ++ tail) where
  eq := by rw [cut.eq, List.append_assoc]
  symbols := cut.symbols
  filled := cut.filled
  starts := cut.starts
  stops := by
    intro b hb
    cases after with
    | nil => exact isSymbol_of_isBlank (blank b (List.mem_of_head? hb))
    | cons first after => exact cut.stops b hb

/-- White space at the end of a line is not touched as a word. -/
theorem touchesSymbol_append_iff (blank : IsBlank tail) :
    TouchesSymbol (bytes ++ tail) column ↔ TouchesSymbol bytes column := by
  constructor
  · rintro ⟨place, b, here, symbol, side⟩
    refine ⟨place, b, ?_, symbol, side⟩
    rcases Nat.lt_or_ge place bytes.length with inside | past
    · rwa [List.getElem?_append_left inside] at here
    · rw [List.getElem?_append_right past] at here
      rw [isSymbol_of_isBlank (blank b (List.mem_of_getElem? here))] at symbol
      cases symbol
  · rintro ⟨place, b, here, symbol, side⟩
    obtain ⟨inside, -⟩ := List.getElem?_eq_some_iff.1 here
    exact ⟨place, b, by rwa [List.getElem?_append_left inside], symbol, side⟩

/-- A column that has left the line behind touches no word. -/
theorem not_touchesSymbol_of_lt (past : bytes.length < column) : ¬ TouchesSymbol bytes column := by
  rintro ⟨place, b, here, -, side⟩
  obtain ⟨inside, -⟩ := List.getElem?_eq_some_iff.1 here
  omega

end Word

namespace Scope

variable {head rest : Bytes}

theorem inBraces_append (blank : IsBlank tail) (inside : column ≤ bytes.length) :
    inBraces (bytes ++ tail) column = inBraces bytes column := by
  rw [inBraces, inBraces, Int.toNat_natCast, List.take_append_of_le_length inside]
  cases found : lastPair? Byte.openBrace (bytes.take column) with
  | none => rfl
  | some opening =>
      -- the pair of braces ends at or before the column
      have pair := IsPairAt.add_two_le (lastPair?_eq_some_iff.1 found).1
      rw [List.length_take] at pair
      dsimp only
      rw [List.drop_append_of_le_length (by omega),
        firstPair?_append_of_notMem (blank.notMem (by decide))]

theorem headerSeparator?_of_notMem (plain : Byte.colon ∉ bytes) : headerSeparator? bytes = none := by
  rw [headerSeparator?, List.idxOf?_eq_none_iff.2 plain]

theorem headerSeparator?_of_cut (cut : CutAtColon bytes head rest) :
    headerSeparator? bytes
      = if rest.head? = some Byte.equals then none else some head.length := by
  have first : bytes.idxOf? Byte.colon = some head.length := by
    refine List.idxOf?_eq_some_iff.2 ⟨by simp [cut.eq], by simp [cut.eq], fun i before same => ?_⟩
    simp only [cut.eq, List.getElem_append_left before] at same
    exact cut.first (same ▸ List.getElem_mem before)
  have behind : bytes.drop (head.length + 1) = rest := by
    rw [cut.eq, List.drop_length_add_append, List.drop_succ_cons, List.drop_zero]
  rw [headerSeparator?, first]
  dsimp only
  rw [behind]

theorem headerSeparator?_append (blank : IsBlank tail) :
    headerSeparator? (bytes ++ tail) = headerSeparator? bytes := by
  by_cases colon : Byte.colon ∈ bytes
  · obtain ⟨head, rest, cut⟩ := CutAtColon.exists_of_mem colon
    rw [headerSeparator?_of_cut cut, headerSeparator?_of_cut (cut.append tail)]
    simp only [head?_append_eq_equals_iff blank]
  · have plain := blank.notMem_append (by decide) colon
    rw [headerSeparator?_of_notMem colon, headerSeparator?_of_notMem plain]

theorem atColumn_append (blank : IsBlank tail) (inside : column ≤ bytes.length) :
    atColumn (bytes ++ tail) column = atColumn bytes column := by
  rw [atColumn, atColumn, inBraces_append blank inside, afterHeaderSeparator, afterHeaderSeparator,
    headerSeparator?_append blank]

end Scope

end JustfileServer
