import Mathlib.Data.List.TakeWhile
import JustfileServer.Navigation.Word

/-!
# The word that a column touches

A word on a line is symbol bytes between bytes that are none.  What `Word.bounds?` finds from the
place to which a cursor is moved is the word that the cursor's column touches (`Cut.bounds?_snap`),
and it finds none where there is no symbol byte at the column or in front of it
(`bounds?_snap_eq_none`).
-/

namespace JustfileServer.Word

/-- A line is cut around one of its words. -/
structure Cut (bytes before word after : Bytes) : Prop where
  eq : bytes = before ++ word ++ after
  symbols : ∀ b ∈ word, Byte.isSymbol b = true
  filled : word ≠ []
  starts : ∀ b, before.getLast? = some b → Byte.isSymbol b = false
  stops : ∀ b, after.head? = some b → Byte.isSymbol b = false

/-- **A column touches a word** when it is that of one of its bytes or of the place behind it. -/
def IsTouched (bytes : Bytes) (column : Nat) (word : Bytes) : Prop :=
  ∃ before after, Cut bytes before word after ∧
    before.length ≤ column ∧ column ≤ before.length + word.length

/-- There is a symbol byte at a column or just before it. -/
def TouchesSymbol (bytes : Bytes) (column : Nat) : Prop :=
  ∃ place b, bytes[place]? = some b ∧ Byte.isSymbol b = true ∧ (column = place ∨ column = place + 1)

variable {bytes before word after : Bytes} {column place start stop : Nat}

/-! ## Symbol bytes -/

theorem isSymbolAt_iff : isSymbolAt bytes place = true ↔
    ∃ b, bytes[place]? = some b ∧ Byte.isSymbol b = true := by
  rw [isSymbolAt, List.head?_drop, Option.any_eq_true]

theorem touchesSymbol_iff : TouchesSymbol bytes column ↔
    isSymbolAt bytes column = true ∨ 0 < column ∧ isSymbolAt bytes (column - 1) = true := by
  rw [isSymbolAt_iff, isSymbolAt_iff]
  constructor
  · rintro ⟨place, b, here, symbol, rfl | rfl⟩
    · exact .inl ⟨b, here, symbol⟩
    · exact .inr ⟨Nat.succ_pos _, b, here, symbol⟩
  · rintro (⟨b, here, symbol⟩ | ⟨positive, b, here, symbol⟩)
    · exact ⟨column, b, here, symbol, .inl rfl⟩
    · exact ⟨column - 1, b, here, symbol, .inr (by omega)⟩

/-- A run of symbol bytes ends where the next byte is none. -/
theorem takeWhile_isSymbol (symbols : ∀ b ∈ word, Byte.isSymbol b = true)
    (stops : ∀ b, after.head? = some b → Byte.isSymbol b = false) :
    (word ++ after).takeWhile Byte.isSymbol = word := by
  rw [List.takeWhile_append_of_pos symbols]
  cases after with
  | nil => simp
  | cons b after => simp [stops b rfl]

/-! ## Cutting around a word -/

namespace Cut

/-- Whether a line is cut around a word can be told by tests of its bytes. -/
theorem of_tests (eq : bytes = before ++ word ++ after) (symbols : word.all Byte.isSymbol = true)
    (filled : word ≠ []) (starts : before.getLast?.any Byte.isSymbol = false)
    (stops : after.head?.any Byte.isSymbol = false) : Cut bytes before word after := by
  refine ⟨eq, List.all_eq_true.1 symbols, filled, ?_, ?_⟩
  · intro b hb
    rwa [hb] at starts
  · intro b hb
    rwa [hb] at stops

theorem isSymbolAt (cut : Cut bytes before word after) (first : before.length ≤ place)
    (last : place < before.length + word.length) : Word.isSymbolAt bytes place = true := by
  obtain ⟨k, rfl⟩ := Nat.exists_eq_add_of_le first
  have inside : k < word.length := by omega
  rw [isSymbolAt_iff, cut.eq, List.append_assoc, List.getElem?_append_right (by omega),
    Nat.add_sub_cancel_left, List.getElem?_append_left inside]
  exact ⟨word[k], List.getElem?_eq_getElem inside, cut.symbols _ (List.getElem_mem inside)⟩

theorem isSymbolAt_behind (cut : Cut bytes before word after) :
    Word.isSymbolAt bytes (before.length + word.length) = false := by
  rw [Word.isSymbolAt, cut.eq, ← List.length_append, List.drop_left]
  cases after with
  | nil => rfl
  | cons b after => exact cut.stops b rfl

theorem isSymbolAt_front (cut : Cut bytes before word after) (front : place + 1 = before.length) :
    Word.isSymbolAt bytes place = false := by
  rcases List.eq_nil_or_concat before with rfl | ⟨start, b, rfl⟩
  · cases front
  · have other := cut.starts b (by simp)
    obtain rfl : place = start.length := by simpa using front
    simp [Word.isSymbolAt, cut.eq, other]

/-- From any byte of a word, and from the place behind it, the bounds of the word are found. -/
theorem bounds?_eq (cut : Cut bytes before word after) (first : before.length ≤ place)
    (last : place ≤ before.length + word.length) :
    bounds? bytes place = some (before.length, before.length + word.length) := by
  obtain ⟨k, rfl⟩ := Nat.exists_eq_add_of_le first
  have inside : k ≤ word.length := by omega
  have filled : 0 < word.length := List.length_pos_iff.2 cut.filled
  have size : bytes.length = before.length + word.length + after.length := by
    rw [cut.eq, List.length_append, List.length_append]
  have left : (bytes.take (before.length + k)).reverse.takeWhile Byte.isSymbol
      = (word.take k).reverse := by
    rw [cut.eq, List.append_assoc, List.take_length_add_append, List.take_append_of_le_length inside,
      List.reverse_append]
    refine takeWhile_isSymbol (fun b hb => ?_) fun b hb => cut.starts b (by simpa using hb)
    exact cut.symbols b (List.mem_of_mem_take (List.mem_reverse.1 hb))
  have right : (bytes.drop (before.length + k)).takeWhile Byte.isSymbol = word.drop k := by
    rw [cut.eq, List.append_assoc, List.drop_length_add_append, List.drop_append_of_le_length inside]
    exact takeWhile_isSymbol (fun b hb => cut.symbols b (List.mem_of_mem_drop hb)) cut.stops
  have onLine : ¬ (((before.length + k : Nat) : Int) < 0
      || (bytes.length : Int) < (before.length + k : Nat)) = true := by
    rw [Bool.or_eq_true, decide_eq_true_iff, decide_eq_true_iff]
    omega
  unfold bounds?
  rw [if_neg onLine]
  dsimp only
  rw [Int.toNat_natCast, left, right, List.length_reverse, List.length_take, List.length_drop,
    Nat.min_eq_left inside, if_neg (by omega)]
  congr 2 <;> omega

end Cut

/-- Around any symbol byte a line can be cut. -/
theorem exists_cut (h : isSymbolAt bytes place = true) : ∃ before word after,
    Cut bytes before word after ∧ before.length ≤ place ∧
      place < before.length + word.length := by
  obtain ⟨b, here, symbol⟩ := isSymbolAt_iff.1 h
  obtain ⟨inside, rfl⟩ := List.getElem?_eq_some_iff.1 here
  let left := (bytes.take place).reverse
  let right := bytes.drop place
  have start : right = bytes[place] :: bytes.drop (place + 1) := List.drop_eq_getElem_cons inside
  have run : right.takeWhile Byte.isSymbol ≠ [] := by
    rw [start, List.takeWhile_cons_of_pos symbol]
    exact List.cons_ne_nil _ _
  refine ⟨(left.dropWhile Byte.isSymbol).reverse,
    (left.takeWhile Byte.isSymbol).reverse ++ right.takeWhile Byte.isSymbol,
    right.dropWhile Byte.isSymbol, ⟨?_, ?_, ?_, ?_, ?_⟩, ?_, ?_⟩
  · rw [← List.append_assoc, ← List.reverse_append, List.takeWhile_append_dropWhile,
      List.append_assoc, List.takeWhile_append_dropWhile, List.reverse_reverse,
      List.take_append_drop]
  · intro b hb
    rcases List.mem_append.1 hb with hb | hb
    · exact List.mem_takeWhile_imp (List.mem_reverse.1 hb)
    · exact List.mem_takeWhile_imp hb
  · simp [run]
  · intro b hb
    rw [List.getLast?_reverse] at hb
    have visible := List.head?_dropWhile_not Byte.isSymbol left
    rw [hb] at visible
    simpa using visible
  · intro b hb
    have visible := List.head?_dropWhile_not Byte.isSymbol right
    rw [hb] at visible
    simpa using visible
  · have part : (left.dropWhile Byte.isSymbol).length ≤ left.length :=
      (List.dropWhile_suffix _).length_le
    have size : left.length ≤ place := by
      rw [List.length_reverse, List.length_take]
      exact Nat.min_le_left ..
    rw [List.length_reverse]
    exact Nat.le_trans part size
  · have whole := congrArg List.length (List.takeWhile_append_dropWhile (p := Byte.isSymbol)
      (l := left))
    have size : left.length = place := by simp [left]; omega
    have positive := List.length_pos_iff.2 run
    rw [List.length_append, List.length_reverse, List.length_reverse]
    rw [List.length_append] at whole
    omega

/-! ## From a cursor -/

theorem snap_eq (h : column ≤ bytes.length) :
    snap bytes column = if 0 < column ∧ isSymbolAt bytes column = false ∧
      isSymbolAt bytes (column - 1) = true then column - 1 else column := by
  rw [snap, clamp, Int.toNat_natCast, Nat.min_eq_left h]
  simp [and_assoc]

/-- The bounds of the word that a column touches are found. -/
theorem Cut.bounds?_snap (cut : Cut bytes before word after) (first : before.length ≤ column)
    (last : column ≤ before.length + word.length) :
    bounds? bytes (snap bytes column) = some (before.length, before.length + word.length) := by
  have filled : 0 < word.length := List.length_pos_iff.2 cut.filled
  have onLine : column ≤ bytes.length := by
    rw [cut.eq, List.length_append, List.length_append]
    omega
  rw [snap_eq onLine]
  rcases Nat.lt_or_eq_of_le last with inside | rfl
  · rw [if_neg (by simp [cut.isSymbolAt first inside])]
    exact cut.bounds?_eq first last
  · have front : Word.isSymbolAt bytes (before.length + word.length - 1) = true :=
      cut.isSymbolAt (by omega) (by omega)
    rw [if_pos ⟨by omega, cut.isSymbolAt_behind, front⟩]
    exact cut.bounds?_eq (by omega) (by omega)

/-- Where there is no symbol byte no word is found. -/
theorem bounds?_eq_none (h : ¬ TouchesSymbol bytes column) : bounds? bytes column = none := by
  rw [touchesSymbol_iff, not_or, Bool.not_eq_true] at h
  obtain ⟨here, front⟩ := h
  unfold bounds?
  split
  · rfl
  rename_i onLine
  rw [Bool.or_eq_true, decide_eq_true_iff, decide_eq_true_iff, not_or] at onLine
  have right : (bytes.drop column).takeWhile Byte.isSymbol = [] := by
    rw [isSymbolAt] at here
    cases rest : bytes.drop column with
    | nil => rfl
    | cons b rest' =>
        rw [rest] at here
        exact List.takeWhile_cons_of_neg (by simpa using here)
  have left : (bytes.take column).reverse.takeWhile Byte.isSymbol = [] := by
    cases column with
    | zero => rfl
    | succ place =>
        have inside : place < bytes.length := by omega
        have other : ¬ Byte.isSymbol bytes[place] = true := by
          intro symbol
          have found := isSymbolAt_iff.2 ⟨_, List.getElem?_eq_getElem inside, symbol⟩
          exact front ⟨Nat.succ_pos _, found⟩
        rw [List.take_succ_eq_append_getElem inside, List.reverse_append]
        exact List.takeWhile_cons_of_neg other
  dsimp only
  rw [Int.toNat_natCast, left, right]
  exact if_pos rfl

theorem bounds?_snap_eq_none (onLine : column ≤ bytes.length) (h : ¬ TouchesSymbol bytes column) :
    bounds? bytes (snap bytes column) = none := by
  have stays : snap bytes column = column := by
    rw [snap_eq onLine, if_neg]
    rintro ⟨positive, -, symbol⟩
    exact h (touchesSymbol_iff.2 (.inr ⟨positive, symbol⟩))
  rw [stays]
  exact bounds?_eq_none h

/-- **Some word is touched** just where there is a symbol byte. -/
theorem touchesSymbol_iff_exists :
    TouchesSymbol bytes column ↔ ∃ word, IsTouched bytes column word := by
  constructor
  · intro h
    rcases touchesSymbol_iff.1 h with here | ⟨positive, front⟩
    · obtain ⟨before, word, after, cut, first, last⟩ := exists_cut here
      exact ⟨word, before, after, cut, first, Nat.le_of_lt last⟩
    · obtain ⟨before, word, after, cut, first, last⟩ := exists_cut front
      exact ⟨word, before, after, cut, by omega, by omega⟩
  · rintro ⟨word, before, after, cut, first, last⟩
    have filled : 0 < word.length := List.length_pos_iff.2 cut.filled
    rw [touchesSymbol_iff]
    rcases Nat.lt_or_eq_of_le last with inside | rfl
    · exact .inl (cut.isSymbolAt first inside)
    · exact .inr ⟨by omega, cut.isSymbolAt (by omega) (by omega)⟩

/-- **A cursor that is moved** onto a word was on it or just behind it, so the bounds are the same. -/
theorem bounds?_snap (onLine : column ≤ bytes.length) :
    bounds? bytes (snap bytes column) = bounds? bytes column := by
  by_cases touches : TouchesSymbol bytes column
  · obtain ⟨word, before, after, cut, first, last⟩ := touchesSymbol_iff_exists.1 touches
    rw [cut.bounds?_snap first last, cut.bounds?_eq first last]
  · rw [bounds?_snap_eq_none onLine touches, bounds?_eq_none touches]

/-- Bounds that are found, from whatever number, are those of a word of the line. -/
theorem exists_cut_of_bounds? {column : Int} (h : bounds? bytes column = some (start, stop)) :
    ∃ before word after, Cut bytes before word after ∧ before.length = start ∧
      before.length + word.length = stop := by
  have place : (column.toNat : Int) = column := by
    by_contra negative
    have off : column < 0 := by omega
    rw [bounds?, if_pos (by simp [off])] at h
    cases h
  rw [← place] at h
  by_cases touches : TouchesSymbol bytes column.toNat
  · obtain ⟨word, before, after, cut, first, last⟩ := touchesSymbol_iff_exists.1 touches
    rw [cut.bounds?_eq first last] at h
    cases h
    exact ⟨before, word, after, cut, rfl, rfl⟩
  · rw [bounds?_eq_none touches] at h
    cases h

/-- A column touches one word only. -/
theorem IsTouched.unique {other : Bytes} (h : IsTouched bytes column word)
    (h' : IsTouched bytes column other) : word = other := by
  obtain ⟨before, after, cut, first, last⟩ := h
  obtain ⟨before', after', cut', first', last'⟩ := h'
  have bounds := cut.bounds?_snap first last
  rw [cut'.bounds?_snap first' last', Option.some.injEq, Prod.mk.injEq] at bounds
  have same : before ++ word ++ after = before' ++ other ++ after' := cut.eq.symm.trans cut'.eq
  obtain ⟨fronts, -⟩ := List.append_inj same (by simp only [List.length_append]; omega)
  exact (List.append_inj fronts (by omega)).2

/-! ## Bounds -/

/-- **Bounds mark a word** that a column touches: all bytes from the first bound up to before the
second one are symbol bytes, and the bytes next to them are none, or are not on the line. -/
structure Marks (bytes : Bytes) (column start stop : Nat) : Prop where
  first : start ≤ column
  last : column ≤ stop
  filled : start < stop
  symbols : ∀ place, start ≤ place → place < stop → isSymbolAt bytes place = true
  starts : ∀ place, place + 1 = start → isSymbolAt bytes place = false
  stops : isSymbolAt bytes stop = false

/-- A word is marked by its own bounds. -/
theorem Cut.marks (cut : Cut bytes before word after) (first : before.length ≤ column)
    (last : column ≤ before.length + word.length) :
    Marks bytes column before.length (before.length + word.length) where
  first := first
  last := last
  filled := by
    have positive := List.length_pos_iff.2 cut.filled
    omega
  symbols _ inside inside' := cut.isSymbolAt inside inside'
  starts _ front := cut.isSymbolAt_front front
  stops := cut.isSymbolAt_behind

/-- A symbol byte is an ASCII character. -/
theorem lt_of_isSymbol {b : UInt8} (h : Byte.isSymbol b = true) : b.toNat < 0x80 := by
  simp only [Byte.isSymbol, Bool.or_eq_true, Bool.and_eq_true, decide_eq_true_eq, beq_iff_eq,
    UInt8.le_iff_toNat_le, ← UInt8.toNat_inj] at h
  simp only [UInt8.reduceToNat] at h
  omega

theorem Cut.ascii (cut : Cut bytes before word after) : ∀ b ∈ word, b.toNat < 0x80 :=
  fun b hb => lt_of_isSymbol (cut.symbols b hb)

end JustfileServer.Word
