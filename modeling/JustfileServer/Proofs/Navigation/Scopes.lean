import JustfileServer.Proofs.Navigation.Pairs
import JustfileServer.Proofs.Navigation.Words

/-!
# A word has one scope

The scope of a word is told from the column of the cursor, which may be any of the columns that
touch the word.  It does not matter which one of them it is: braces and colons are no symbol bytes,
so each of them is on the same side of all these columns (`Cut.atColumn_eq`).

Before the first brace and the first colon of a line a word can refer to anything
(`Cut.atColumn_eq_any`).
-/

namespace JustfileServer

namespace Scope

variable {bytes : Bytes} {i : Nat}

theorem getElem?_of_headerSeparator? (h : headerSeparator? bytes = some i) :
    bytes[i]? = some Byte.colon := by
  unfold headerSeparator? at h
  split at h
  · cases h
  · rename_i place found
    obtain ⟨inside, here, -⟩ := List.idxOf?_eq_some_iff.1 found
    split at h
    · cases h
    · cases h
      rw [List.getElem?_eq_getElem inside, here]

end Scope

namespace Word.Cut

variable {bytes before word after : Bytes} {column place : Nat} {b : UInt8}
  (cut : Cut bytes before word after)
include cut

/-- A byte that is no symbol stands on the same side of all columns that touch a word. -/
theorem apart (here : bytes[place]? = some b) (other : Byte.isSymbol b = false) :
    place < before.length ∨ before.length + word.length ≤ place := by
  by_contra inside
  rw [not_or, Nat.not_lt, Nat.not_le] at inside
  obtain ⟨c, same, symbol⟩ := isSymbolAt_iff.1 (cut.isSymbolAt inside.1 inside.2)
  rw [here, Option.some.injEq] at same
  rw [← same, other] at symbol
  cases symbol

theorem notMem_word (other : Byte.isSymbol b = false) : b ∉ word := by
  intro inside
  have symbol := cut.symbols b inside
  rw [other] at symbol
  cases symbol

/-- What comes before a column on a word: all that is before the word, and a part of the word. -/
theorem take_eq (first : before.length ≤ column)
    (last : column ≤ before.length + word.length) :
    bytes.take column = before ++ word.take (column - before.length) := by
  obtain ⟨k, rfl⟩ := Nat.exists_eq_add_of_le first
  have inside : k ≤ word.length := by omega
  rw [cut.eq, List.append_assoc, List.take_length_add_append, List.take_append_of_le_length inside,
    Nat.add_sub_cancel_left]

theorem inBraces_eq (first : before.length ≤ column)
    (last : column ≤ before.length + word.length) :
    Scope.inBraces bytes column = Scope.inBraces bytes before.length := by
  have opening (k : Nat) : Scope.lastPair? Byte.openBrace (before ++ word.take k)
      = Scope.lastPair? Byte.openBrace before := by
    apply Scope.lastPair?_append_of_notMem
    intro inside
    exact cut.notMem_word (by decide) (List.mem_of_mem_take inside)
  have start := cut.take_eq (Nat.le_refl _) (Nat.le_add_right ..)
  rw [Scope.inBraces, Scope.inBraces, Int.toNat_natCast, Int.toNat_natCast, cut.take_eq first last,
    start, opening, opening]
  cases Scope.lastPair? Byte.openBrace before with
  | none => rfl
  | some i =>
      dsimp only
      cases found : Scope.firstPair? Byte.closeBrace (bytes.drop (i + 2)) with
      | none => rfl
      | some closing =>
          have here := (Scope.firstPair?_eq_some_iff.1 found).1.1
          rw [List.getElem?_drop] at here
          have side := cut.apart here (by decide)
          apply decide_eq_decide.2
          omega

theorem afterHeaderSeparator_eq (first : before.length ≤ column)
    (last : column ≤ before.length + word.length) :
    Scope.afterHeaderSeparator bytes column = Scope.afterHeaderSeparator bytes before.length := by
  rw [Scope.afterHeaderSeparator, Scope.afterHeaderSeparator]
  cases found : Scope.headerSeparator? bytes with
  | none => rfl
  | some i =>
      have side := cut.apart (Scope.getElem?_of_headerSeparator? found) (by decide)
      apply decide_eq_decide.2
      omega

/-- **All columns that touch a word have one scope**, that of the first of them. -/
theorem atColumn_eq (first : before.length ≤ column)
    (last : column ≤ before.length + word.length) :
    Scope.atColumn bytes column = Scope.atColumn bytes before.length := by
  rw [Scope.atColumn, Scope.atColumn, cut.inBraces_eq first last,
    cut.afterHeaderSeparator_eq first last]

/-- A word behind no brace and no colon can refer to anything. -/
theorem atColumn_eq_any (braceless : Byte.openBrace ∉ before) (colonless : Byte.colon ∉ before)
    (first : before.length ≤ column) (last : column ≤ before.length + word.length) :
    Scope.atColumn bytes column = .any := by
  have outside : Scope.inBraces bytes before.length = false := by
    rw [Scope.inBraces, Int.toNat_natCast, cut.take_eq (Nat.le_refl _) (Nat.le_add_right ..),
      Nat.sub_self, List.take_zero, List.append_nil, Scope.lastPair?_of_notMem braceless]
  have ahead : Scope.afterHeaderSeparator bytes before.length = false := by
    rw [Scope.afterHeaderSeparator]
    cases found : Scope.headerSeparator? bytes with
    | none => rfl
    | some i =>
        have here := Scope.getElem?_of_headerSeparator? found
        apply decide_eq_false
        intro inside
        -- a colon this far to the left would be one of the bytes before the word
        rw [cut.eq, List.append_assoc, List.getElem?_append_left (by omega)] at here
        exact colonless (List.mem_of_getElem? here)
  rw [cut.atColumn_eq first last, Scope.atColumn, outside, ahead]
  rfl

end Word.Cut

end JustfileServer
