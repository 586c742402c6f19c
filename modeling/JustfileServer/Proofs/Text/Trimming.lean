import Mathlib.Data.List.DropRight
import JustfileServer.Text.Blank

/-!
# Trimmed texts

Only blanks are taken away from the ends of a text.  A visible code point in a text is a wall for
the trimming of either end (`trim_append_cons`), so the two ends can be trimmed one by one, in any
order, and as often as one likes.
-/

namespace JustfileServer

/-- Nothing is left between what is dropped at either end just if all can be dropped. -/
theorem rdropWhile_dropWhile_eq_nil_iff {α : Type} {p : α → Bool} {l : List α} :
    (l.dropWhile p).rdropWhile p = [] ↔ ∀ a ∈ l, p a = true := by
  rw [List.rdropWhile_eq_nil_iff]
  constructor
  · intro rest a inside
    rw [← List.takeWhile_append_dropWhile (p := p) (l := l)] at inside
    rcases List.mem_append.1 inside with front | back
    · exact List.mem_takeWhile_imp front
    · exact rest a back
  · intro all a inside
    exact all a ((List.dropWhile_suffix p).subset inside)

namespace Text

variable {c : CodePoint} {t : Text}

/-! ## Behind a wall -/

theorem trimStart_append_cons (visible : c.isBlank = false) (before after : Text) :
    trimStart (before ++ c :: after) = trimStart before ++ c :: after := by
  rw [trimStart, trimStart, List.dropWhile_append]
  split
  · rename_i blank
    rw [List.isEmpty_iff.1 blank, List.dropWhile_cons_of_neg (by simp [visible]), List.nil_append]
  · rfl

theorem trimEnd_append_cons (visible : c.isBlank = false) (before after : Text) :
    trimEnd (before ++ c :: after) = before ++ c :: trimEnd after := by
  have reversed := trimStart_append_cons visible after.reverse before.reverse
  rw [trimStart, trimStart] at reversed
  rw [trimEnd, trimEnd, List.reverse_append, List.reverse_cons, List.append_assoc,
    List.singleton_append, reversed]
  simp

/-- **Either side of a visible code point is trimmed at its own end.** -/
theorem trim_append_cons (visible : c.isBlank = false) (before after : Text) :
    trim (before ++ c :: after) = trimStart before ++ c :: trimEnd after := by
  rw [trim, trimStart_append_cons visible, trimEnd_append_cons visible]

/-! ## Trimming twice -/

theorem trimEnd_of_blank (blank : ∀ c ∈ t, c.isBlank = true) : trimEnd t = [] :=
  List.rdropWhile_eq_nil_iff.2 blank

/-- Nothing is left of a text just if it is blank. -/
theorem trim_eq_nil_iff : trim t = [] ↔ ∀ c ∈ t, c.isBlank = true :=
  rdropWhile_dropWhile_eq_nil_iff

theorem trimStart_trimStart (t : Text) : trimStart (trimStart t) = trimStart t :=
  List.dropWhile_idempotent _ _

theorem trimEnd_trimEnd (t : Text) : trimEnd (trimEnd t) = trimEnd t :=
  List.rdropWhile_idempotent _ _

@[simp] theorem trim_trimStart (t : Text) : trim (trimStart t) = trim t := by
  rw [trim, trimStart_trimStart, trim]

@[simp] theorem trim_trimEnd (t : Text) : trim (trimEnd t) = trim t := by
  by_cases blank : ∀ c ∈ t, c.isBlank = true
  · rw [trimEnd_of_blank blank, trim_eq_nil_iff.2 blank]
    rfl
  · simp only [not_forall, Bool.not_eq_true] at blank
    obtain ⟨c, inside, visible⟩ := blank
    obtain ⟨before, after, rfl⟩ := List.append_of_mem inside
    rw [trimEnd_append_cons visible, trim_append_cons visible, trim_append_cons visible,
      trimEnd_trimEnd]

theorem mem_of_mem_trimStart (h : c ∈ trimStart t) : c ∈ t :=
  (List.dropWhile_suffix _).subset h

theorem mem_of_mem_trimEnd (h : c ∈ trimEnd t) : c ∈ t :=
  (List.rdropWhile_prefix _ _).subset h

theorem mem_of_mem_trim (h : c ∈ trim t) : c ∈ t :=
  mem_of_mem_trimStart (mem_of_mem_trimEnd h)

/-! ## Blanks around a text -/

theorem dropWhile_append_of_head {α : Type} {p : α → Bool} {before t : List α}
    (dropped : ∀ c ∈ before, p c = true) (first : ∀ c ∈ t.head?, p c = false) :
    (before ++ t).dropWhile p = t := by
  rw [List.dropWhile_append_of_pos dropped]
  cases t with
  | nil => rfl
  | cons c t => rw [List.dropWhile_cons_of_neg (by simp [first c rfl])]

/-- The blanks around a text that neither begins nor ends with one are taken away. -/
theorem trim_append {before t after : Text} (hb : ∀ c ∈ before, c.isBlank = true)
    (ha : ∀ c ∈ after, c.isBlank = true) (nonempty : t ≠ [])
    (first : ∀ c ∈ t.head?, c.isBlank = false) (last : ∀ c ∈ t.getLast?, c.isBlank = false) :
    trim (before ++ t ++ after) = t := by
  have start : trimStart (before ++ t ++ after) = t ++ after := by
    rw [trimStart, List.append_assoc, dropWhile_append_of_head hb]
    rwa [List.head?_append, Option.or_of_isSome (by simp [nonempty])]
  rw [trim, start, trimEnd, List.reverse_append, dropWhile_append_of_head,
    List.reverse_reverse]
  · simpa using ha
  · rwa [List.head?_reverse]

/-! ## Cut at a mark, and joined -/

/-- A text is cut where the mark stands for the first time. -/
theorem splitFirst?_append {before : Text} (first : c ∉ before) (after : Text) :
    splitFirst? c (before ++ c :: after) = some (before, after) := by
  induction before with
  | nil => simp [splitFirst?]
  | cons d before ih =>
      rw [List.mem_cons, not_or] at first
      rw [List.cons_append, splitFirst?, if_neg (Ne.symm first.1), ih first.2]
      rfl

theorem splitFirst?_of_notMem (h : c ∉ t) : splitFirst? c t = none := by
  induction t with
  | nil => rfl
  | cons d t ih =>
      rw [List.mem_cons, not_or] at h
      rw [splitFirst?, if_neg (Ne.symm h.1), ih h.2]
      rfl

/-- What stands in joined texts stands in the separator or in one of them. -/
theorem mem_join {separator : Text} {ts : List Text} (h : c ∈ join separator ts) :
    c ∈ separator ∨ ∃ t ∈ ts, c ∈ t := by
  fun_induction join separator ts with
  | case1 => cases h
  | case2 t => exact .inr ⟨t, List.mem_singleton_self t, h⟩
  | case3 t u rest ih =>
      rcases List.mem_append.1 h with h | h
      · rcases List.mem_append.1 h with h | h
        · exact .inr ⟨t, List.mem_cons_self .., h⟩
        · exact .inl h
      · refine (ih h).imp_right ?_
        rintro ⟨v, hv, inside⟩
        exact ⟨v, List.mem_cons_of_mem _ hv, inside⟩

end Text

end JustfileServer
