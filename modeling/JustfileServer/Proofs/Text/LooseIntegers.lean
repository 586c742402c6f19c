import JustfileServer.Proofs.Text.Numerals

/-!
# Integers in their loose form

The digits of an integer may stand in groups, with a single underscore between any two of them, and
a sign may stand in front of the first group.  `Numeral.Denotes` says so without a reader, and
reading gives a number just for these texts (`integer?_eq_some_iff`).
-/

namespace JustfileServer.Numeral

/-- The text is one or more groups of digits, with an underscore between any two of them. -/
structure IsGrouped (t : Text) (groups : List Text) : Prop where
  eq : t = [CodePoint.ofChar '_'].intercalate groups
  some : groups ≠ []
  digits : ∀ group ∈ groups, group ≠ [] ∧ ∀ c ∈ group, isDigit c = true

/-- **What a text denotes** as an integer: the number that the digits of its groups stand for, taken
together, which may not be too many of them.  A minus sign turns it around. -/
inductive Denotes : Text → Int → Prop
  | unsigned {t : Text} {groups : List Text} : IsGrouped t groups →
      groups.flatten.length ≤ maxDigits → Denotes t (digitsValue groups.flatten)
  | plus {t : Text} {groups : List Text} : IsGrouped t groups →
      groups.flatten.length ≤ maxDigits →
      Denotes (.ofChar '+' :: t) (digitsValue groups.flatten)
  | minus {t : Text} {groups : List Text} : IsGrouped t groups →
      groups.flatten.length ≤ maxDigits →
      Denotes (.ofChar '-' :: t) (-(digitsValue groups.flatten : Int))

variable {t ds group : Text} {groups : List Text} {c : CodePoint}

/-! ## Groups of digits -/

namespace IsGrouped

theorem singleton (filled : group ≠ []) (digits : ∀ c ∈ group, isDigit c = true) :
    IsGrouped group [group] := by
  refine ⟨by simp, by simp, ?_⟩
  intro other h
  rw [List.mem_singleton.1 h]
  exact ⟨filled, digits⟩

/-- A group is put in front, with an underscore. -/
theorem cons (h : IsGrouped t groups) (filled : group ≠ [])
    (digits : ∀ c ∈ group, isDigit c = true) :
    IsGrouped (group ++ .ofChar '_' :: t) (group :: groups) := by
  obtain ⟨rfl, some, all⟩ := h
  obtain ⟨next, groups, rfl⟩ := List.exists_cons_of_ne_nil some
  refine ⟨by simp [List.intercalate_cons_cons], by simp, ?_⟩
  intro other h
  rcases List.mem_cons.1 h with rfl | h
  · exact ⟨filled, digits⟩
  · exact all other h

/-- A digit is put in front of the first group. -/
theorem cons_digit (h : IsGrouped t groups) (digit : isDigit c = true) :
    ∃ first others, groups = first :: others ∧ IsGrouped (c :: t) ((c :: first) :: others) := by
  obtain ⟨rfl, some, all⟩ := h
  obtain ⟨first, others, rfl⟩ := List.exists_cons_of_ne_nil some
  refine ⟨first, others, rfl, ?_, by simp, ?_⟩
  · cases others <;> simp [List.intercalate_cons_cons]
  · intro group h
    rcases List.mem_cons.1 h with rfl | h
    · refine ⟨by simp, ?_⟩
      intro d hd
      rcases List.mem_cons.1 hd with rfl | hd
      · exact digit
      · exact (all first (List.mem_cons_self ..)).2 d hd
    · exact all group (List.mem_cons_of_mem _ h)

end IsGrouped

/-- A run of digits up to an underscore is read, and then the other groups. -/
theorem digitRun?_append (filled : group ≠ []) (digits : ∀ c ∈ group, isDigit c = true)
    (rest : Text) :
    digitRun? (group ++ .ofChar '_' :: rest) = (digitRun? rest).map (group ++ ·) := by
  induction group with
  | nil => exact absurd rfl filled
  | cons c group ih =>
      have here := digits c (List.mem_cons_self ..)
      have others : ∀ d ∈ group, isDigit d = true := fun d hd => digits d (List.mem_cons_of_mem _ hd)
      cases group with
      | nil =>
          rw [List.cons_append, List.nil_append, digitRun?, if_pos here, if_pos rfl]
          rfl
      | cons d group =>
          have digit : d ≠ .ofChar '_' := by
            rintro rfl
            exact absurd (others _ (List.mem_cons_self ..)) (by decide)
          rw [List.cons_append, List.cons_append, digitRun?, if_pos here, if_neg digit,
            ← List.cons_append, ih (List.cons_ne_nil d group) others, Option.map_map]
          rfl

/-- **Just digits in groups are read**, and what is read is the digits. -/
theorem digitRun?_eq_some_iff :
    digitRun? t = some ds ↔ ∃ groups, IsGrouped t groups ∧ ds = groups.flatten := by
  constructor
  · intro h
    fun_induction digitRun? t generalizing ds with
    | case1 => cases h
    | case2 c digit =>
        cases h
        exact ⟨[[c]], .singleton (by simp) (by simpa using digit), rfl⟩
    | case3 => cases h
    | case4 c rest digit ih =>
        obtain ⟨later, read, rfl⟩ := Option.map_eq_some_iff.1 h
        obtain ⟨groups, grouped, rfl⟩ := ih read
        refine ⟨[c] :: groups, ?_, rfl⟩
        exact grouped.cons (List.cons_ne_nil c []) (by simpa using digit)
    | case5 c d rest digit _ ih =>
        obtain ⟨later, read, rfl⟩ := Option.map_eq_some_iff.1 h
        obtain ⟨groups, grouped, rfl⟩ := ih read
        obtain ⟨first, others, rfl, longer⟩ := grouped.cons_digit digit
        exact ⟨_, longer, rfl⟩
    | case6 => cases h
  · rintro ⟨groups, ⟨rfl, some, digits⟩, rfl⟩
    induction groups with
    | nil => exact absurd rfl some
    | cons group groups ih =>
        obtain ⟨filled, here⟩ := digits group (List.mem_cons_self ..)
        cases groups with
        | nil => simpa using digitRun?_eq filled here
        | cons next groups =>
            have later := ih (List.cons_ne_nil next groups)
              fun g hg => digits g (List.mem_cons_of_mem _ hg)
            rw [List.intercalate_cons_cons, List.append_assoc, List.singleton_append,
              digitRun?_append filled here, later]
            rfl

/-! ## Integers -/

theorem isDigit_of_digitRun? (h : digitRun? (c :: t) = some ds) : isDigit c = true := by
  by_contra other
  cases t <;> simp [digitRun?, other] at h

theorem natural?_eq_some_iff {n : Nat} : natural? t = some n ↔
    ∃ groups, IsGrouped t groups ∧ groups.flatten.length ≤ maxDigits ∧
      n = digitsValue groups.flatten := by
  constructor
  · intro h
    unfold natural? at h
    cases read : digitRun? t with
    | none => rw [read] at h; cases h
    | some digits =>
        obtain ⟨groups, grouped, rfl⟩ := digitRun?_eq_some_iff.1 read
        rw [read] at h
        dsimp only at h
        split at h
        · rename_i few
          exact ⟨groups, grouped, few, (Option.some.inj h).symm⟩
        · cases h
  · rintro ⟨groups, grouped, few, rfl⟩
    rw [natural?, digitRun?_eq_some_iff.2 ⟨groups, grouped, rfl⟩]
    exact if_pos few

theorem integer?_minus (t : Text) :
    integer? (.ofChar '-' :: t) = (natural? t).map fun n : Nat => -(n : Int) := by
  rw [integer?, if_pos rfl]
  cases natural? t <;> rfl

theorem integer?_plus (t : Text) :
    integer? (.ofChar '+' :: t) = (natural? t).map fun n : Nat => (n : Int) := by
  rw [integer?, if_neg (by decide), if_pos rfl]
  cases natural? t <;> rfl

theorem integer?_unsigned (minus : c ≠ .ofChar '-') (plus : c ≠ .ofChar '+') (t : Text) :
    integer? (c :: t) = (natural? (c :: t)).map fun n : Nat => (n : Int) := by
  rw [integer?, if_neg minus, if_neg plus]
  cases natural? (c :: t) <;> rfl

/-- **A number is read just from what denotes it.** -/
theorem integer?_eq_some_iff {n : Int} : integer? t = some n ↔ Denotes t n := by
  constructor
  · intro h
    cases t with
    | nil => cases h
    | cons c t =>
        by_cases minus : c = .ofChar '-'
        · subst minus
          rw [integer?_minus] at h
          obtain ⟨_, read, rfl⟩ := Option.map_eq_some_iff.1 h
          obtain ⟨groups, grouped, few, rfl⟩ := natural?_eq_some_iff.1 read
          exact .minus grouped few
        by_cases plus : c = .ofChar '+'
        · subst plus
          rw [integer?_plus] at h
          obtain ⟨_, read, rfl⟩ := Option.map_eq_some_iff.1 h
          obtain ⟨groups, grouped, few, rfl⟩ := natural?_eq_some_iff.1 read
          exact .plus grouped few
        · rw [integer?_unsigned minus plus] at h
          obtain ⟨_, read, rfl⟩ := Option.map_eq_some_iff.1 h
          obtain ⟨groups, grouped, few, rfl⟩ := natural?_eq_some_iff.1 read
          exact .unsigned grouped few
  · intro h
    cases h with
    | unsigned grouped few =>
        have read := natural?_eq_some_iff.2 ⟨_, grouped, few, rfl⟩
        have run := digitRun?_eq_some_iff.2 ⟨_, grouped, rfl⟩
        cases t with
        | nil => cases run
        | cons c t =>
            -- a digit is no sign
            have digit := isDigit_of_digitRun? run
            have minus : c ≠ .ofChar '-' := by rintro rfl; exact absurd digit (by decide)
            have plus : c ≠ .ofChar '+' := by rintro rfl; exact absurd digit (by decide)
            rw [integer?_unsigned minus plus, read]
            rfl
    | plus grouped few =>
        rw [integer?_plus, natural?_eq_some_iff.2 ⟨_, grouped, few, rfl⟩]
        rfl
    | minus grouped few =>
        rw [integer?_minus, natural?_eq_some_iff.2 ⟨_, grouped, few, rfl⟩]
        rfl

/-- Signs and underscores are taken where they may stand, and nowhere else. -/
example : integer? "-1_0" = some (-10) ∧ integer? "+007" = some 7 ∧ integer? "1__0" = none ∧
    integer? "_1" = none ∧ integer? "+-1" = none := by decide

end JustfileServer.Numeral
