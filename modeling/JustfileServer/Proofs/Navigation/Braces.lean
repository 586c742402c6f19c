import JustfileServer.Proofs.Navigation.LineEnds

/-!
# What is in braces

`Scope.inBraces` searches a line backwards from a column for two opening braces and from there
forwards for two closing ones.  This file says what the searches find in terms of the places of
pairs of braces.  Pairs may overlap, and an interpolation may be left open.

* `inBraces_iff`: for every column, before, on or past the line, the last opening that ends at or
  before it has a closing behind it, and the first of these begins at or after the column.
* `atColumn_eq_variables_iff`: at a column that touches a word both sides can be told from the
  bounds of the word.
* `brace_scope` puts the two together, with the plain interpolation as a special case.
-/

namespace JustfileServer.Scope

variable {line bytes : Bytes}

/-! ## Interpolations around a stretch of a line -/

/-- The last two opening braces that end at or before a column, the column being any number. -/
def IsLastOpening (line : Bytes) (column : Int) (opening : Nat) : Prop :=
  IsGreatest {i | IsPairAt Byte.openBrace line i ∧ (i + 2 : Nat) ≤ column} opening

/-- The first two closing braces that begin behind an opening pair. -/
def IsFirstClosing (line : Bytes) (opening closing : Nat) : Prop :=
  IsLeast {i | IsPairAt Byte.closeBrace line i ∧ opening + 2 ≤ i} closing

/-- **A stretch of a line is in braces**: some opening ends at or before its start, and the first
closing behind the last such opening begins at or after its end. -/
def Encloses (line : Bytes) (first last : Int) : Prop :=
  ∃ opening closing, IsLastOpening line first opening ∧ IsFirstClosing line opening closing ∧
    last ≤ closing

theorem isLastOpening_iff {column : Int} {opening : Nat} : IsLastOpening line column opening ↔
    lastPair? Byte.openBrace (line.take column.toNat) = some opening := by
  have same (i : Nat) : IsPairAt Byte.openBrace (line.take column.toNat) i ↔
      IsPairAt Byte.openBrace line i ∧ (i + 2 : Nat) ≤ column := by
    rw [isPairAt_take]
    have side : i + 2 ≤ column.toNat ↔ ((i + 2 : Nat) : Int) ≤ column := by omega
    rw [side]
  rw [lastPair?_eq_some_iff, IsLastOpening]
  simp only [same]

theorem isFirstClosing_iff {opening closing : Nat} : IsFirstClosing line opening closing ↔
    ∃ k, firstPair? Byte.closeBrace (line.drop (opening + 2)) = some k ∧
      closing = opening + 2 + k := by
  constructor
  · rintro ⟨⟨pair, behind⟩, least⟩
    obtain ⟨k, rfl⟩ := Nat.exists_eq_add_of_le behind
    refine ⟨k, firstPair?_eq_some_iff.2 ⟨isPairAt_drop.2 pair, fun j other => ?_⟩, rfl⟩
    have before := least ⟨isPairAt_drop.1 other, Nat.le_add_right ..⟩
    omega
  · rintro ⟨k, found, rfl⟩
    obtain ⟨pair, least⟩ := firstPair?_eq_some_iff.1 found
    refine ⟨⟨isPairAt_drop.1 pair, Nat.le_add_right ..⟩, ?_⟩
    rintro j ⟨other, behind⟩
    obtain ⟨j, rfl⟩ := Nat.exists_eq_add_of_le behind
    exact Nat.add_le_add_left (least (isPairAt_drop.2 other)) _

/-- **Whether a column is in braces**, for a column on the line, past it, or negative. -/
theorem inBraces_iff {column : Int} :
    inBraces line column = true ↔ Encloses line column column := by
  rw [inBraces]
  constructor
  · intro h
    split at h
    · cases h
    rename_i opening last
    split at h
    · cases h
    rename_i k first
    exact ⟨opening, opening + 2 + k, isLastOpening_iff.2 last,
      isFirstClosing_iff.2 ⟨k, first, rfl⟩, of_decide_eq_true h⟩
  · rintro ⟨opening, closing, last, first, inside⟩
    obtain ⟨k, found, rfl⟩ := isFirstClosing_iff.1 first
    rw [isLastOpening_iff.1 last]
    dsimp only
    rw [found]
    exact decide_eq_true inside

/-- A stretch of a line lies between some opening and the first closing behind it. -/
def LiesBetween (line : Bytes) (first last : Int) : Prop :=
  ∃ opening closing, IsPairAt Byte.openBrace line opening ∧ (opening + 2 : Nat) ≤ first ∧
    IsFirstClosing line opening closing ∧ last ≤ closing

theorem not_liesBetween_of_notMem {first last : Int} (clean : Byte.openBrace ∉ line) :
    ¬ LiesBetween line first last := by
  rintro ⟨opening, closing, pair, -⟩
  exact clean pair.mem

/-- It does not matter which opening is taken: what lies behind one of them and before its first
closing has no other closing between that opening and the last one. -/
theorem encloses_iff_liesBetween {first last : Int} (ordered : first ≤ last) :
    Encloses line first last ↔ LiesBetween line first last := by
  constructor
  · rintro ⟨opening, closing, last, first, inside⟩
    exact ⟨opening, closing, last.1.1, last.1.2, first, inside⟩
  · rintro ⟨opening, closing, pair, ends, ⟨⟨closes, behind⟩, least⟩, inside⟩
    cases found : lastPair? Byte.openBrace (line.take first.toNat) with
    | none =>
        exact absurd (isPairAt_take.2 ⟨pair, by omega⟩) (lastPair?_eq_none_iff.1 found opening)
    | some latest =>
        have greatest := isLastOpening_iff.2 found
        have later : opening ≤ latest := greatest.2 ⟨pair, ends⟩
        have before := greatest.1.2
        refine ⟨latest, closing, greatest, ⟨⟨closes, by omega⟩, ?_⟩, inside⟩
        rintro i ⟨other, place⟩
        exact least ⟨other, by omega⟩

theorem atColumn_eq_variables {column : Int} :
    atColumn line column = .variables ↔ inBraces line column = true := by
  rw [atColumn]
  cases inBraces line column with
  | true => simp
  | false => cases afterHeaderSeparator line column <;> simp

/-! ## Words in braces -/

variable {before word after inner : Bytes}

/-- A closing that begins at or after the start of a word begins at or after its end. -/
theorem encloses_word_iff (cut : Word.Cut line before word after) :
    Encloses line before.length (before.length + word.length : Nat)
      ↔ Encloses line before.length before.length := by
  refine exists_congr fun opening => exists_congr fun closing =>
    and_congr_right fun _ => and_congr_right fun first => ?_
  have side := cut.apart first.1.1.1 (by decide)
  omega

/-- **A word has the scope of a variable** at each of the columns that touch it just when braces
enclose the whole word. -/
theorem atColumn_eq_variables_iff {place column : Int} {start stop : Nat}
    (word : Word.bounds? line place = some (start, stop)) (first : start ≤ column)
    (last : column ≤ stop) : atColumn line column = .variables ↔ Encloses line start stop := by
  obtain ⟨before, word, after, cut, rfl, rfl⟩ := Word.exists_cut_of_bounds? word
  obtain ⟨column, rfl⟩ := Int.eq_ofNat_of_zero_le (Int.le_trans (Int.natCast_nonneg _) first)
  rw [cut.atColumn_eq (Int.ofNat_le.1 first) (Int.ofNat_le.1 last), atColumn_eq_variables,
    inBraces_iff, encloses_word_iff cut]

/-- A stretch of the text of an interpolation is in braces, whatever comes before the interpolation
and behind it. -/
theorem encloses_interpolation {start stop : Nat}
    (eq : bytes = before ++ [Byte.openBrace, Byte.openBrace] ++ inner
      ++ [Byte.closeBrace, Byte.closeBrace] ++ after)
    (closed : Byte.openBrace ∉ inner) (plain : Byte.closeBrace ∉ inner)
    (first : before.length + 2 ≤ start) (ordered : start ≤ stop)
    (last : stop ≤ before.length + 2 + inner.length) : Encloses bytes start stop := by
  have size : (before ++ [Byte.openBrace, Byte.openBrace]).length = before.length + 2 := by
    rw [List.length_append]
    rfl
  have inside (place : Nat) (here : before.length + 2 ≤ place)
      (there : place < before.length + 2 + inner.length) : bytes[place]? ∈ inner.map some := by
    obtain ⟨k, rfl⟩ := Nat.exists_eq_add_of_le here
    have short : k < inner.length := by omega
    rw [eq, List.append_assoc, List.append_assoc, ← size, List.getElem?_append_right (by omega),
      Nat.add_sub_cancel_left, List.getElem?_append_left short, List.getElem?_eq_getElem short]
    exact List.mem_map_of_mem (List.getElem_mem short)
  have opening : IsPairAt Byte.openBrace bytes before.length := by
    rw [eq, List.append_assoc, List.append_assoc]
    exact isPairAt_append
  have closing : IsPairAt Byte.closeBrace bytes (before.length + 2 + inner.length) := by
    rw [eq, ← size, ← List.length_append]
    exact isPairAt_append
  refine ⟨before.length, before.length + 2 + inner.length, ⟨⟨opening, by omega⟩, ?_⟩,
    ⟨⟨closing, Nat.le_add_right ..⟩, ?_⟩, by omega⟩
  · -- the second brace of a later opening would be a byte of the text
    rintro i ⟨pair, ends⟩
    by_contra later
    have member := inside (i + 1) (by omega) (by omega)
    rw [pair.2, List.mem_map_of_injective (Option.some_injective _)] at member
    exact closed member
  · -- and so would the first brace of an earlier closing
    rintro i ⟨pair, behind⟩
    by_contra earlier
    have member := inside i behind (by omega)
    rw [pair.1, List.mem_map_of_injective (Option.some_injective _)] at member
    exact plain member

/-- **Braces decide about a word by what is around it.**

* A column of any kind is in braces when some opening ends at or before it and the first closing
  behind the last such opening begins at or after it.
* At every column that touches a word the scope is that of variables just when the last opening that
  ends at or before the start of the word has a closing, the first of which begins at or after the
  end of the word.
* This is so for each word of an interpolation whose text has no braces. -/
theorem brace_scope (line : Bytes) :
    (∀ column : Int, inBraces line column = true ↔ Encloses line column column) ∧
    (∀ (place column : Int) (start stop : Nat), Word.bounds? line place = some (start, stop) →
      start ≤ column → column ≤ stop →
      (atColumn line column = .variables ↔ Encloses line start stop)) ∧
    (∀ (before inner after : Bytes) (place column : Int) (start stop : Nat),
      line = before ++ [Byte.openBrace, Byte.openBrace] ++ inner
        ++ [Byte.closeBrace, Byte.closeBrace] ++ after →
      Byte.openBrace ∉ inner → Byte.closeBrace ∉ inner →
      Word.bounds? line place = some (start, stop) →
      before.length + 2 ≤ start → stop ≤ before.length + 2 + inner.length →
      start ≤ column → column ≤ stop → atColumn line column = .variables) := by
  refine ⟨fun column => inBraces_iff, ?_, ?_⟩
  · intro place column start stop word first last
    exact atColumn_eq_variables_iff word first last
  · intro before inner after place column start stop eq closed plain word front back first last
    rw [atColumn_eq_variables_iff word first last]
    exact encloses_interpolation eq closed plain front (by omega) back

/-- In the middle of three braces on either side a word is still that of an interpolation, the last
opening and the first closing being those next to it. -/
theorem brace_scope_tripled :
    let line := Utf8.encode (Text.ofString "\x7b\x7b\x7bab\x7d\x7d\x7d")
    Word.bounds? line 4 = some (3, 5) ∧
    (∀ column : Int, 3 ≤ column → column ≤ 5 → atColumn line column = .variables) ∧
    Encloses line 3 5 ∧ ¬ Encloses line 6 6 := by
  intro line
  obtain ⟨columns, words, interpolated⟩ := brace_scope line
  have word : Word.bounds? line 4 = some (3, 5) := by decide
  have inside (column : Int) (first : 3 ≤ column) (last : column ≤ 5) :
      atColumn line column = .variables :=
    interpolated [Byte.openBrace] [0x61, 0x62] [Byte.closeBrace] 4 column 3 5 (by decide)
      (by decide) (by decide) word (by decide) (by decide) first last
  refine ⟨word, inside, (words 4 3 3 5 word (by decide) (by decide)).1 ?_, ?_⟩
  · exact inside 3 (by decide) (by decide)
  · rw [← columns 6]
    decide

end JustfileServer.Scope
