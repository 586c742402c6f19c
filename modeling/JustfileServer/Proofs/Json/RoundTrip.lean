import JustfileServer.Proofs.Json.Parts
import JustfileServer.Proofs.Json.Strings

/-!
# JSON: what is written is read back

`IsExact` says which values come back as they were: those without floating point numbers, without
integers that are too long, and with different names for the members of each object.  For such a
value the reader takes just what was written for it and leaves what follows (`readValue_render`),
provided that what follows could not belong to a number (`EndsValue`).  The number of steps that the
reader is given suffices because it exceeds twice the length of what is read.  So a text that was
written for a value is read as that value (`ofText_render`).
-/

namespace JustfileServer.Json

/-! ## What may follow a value -/

/-- Inside a text, a value is followed by its end, a comma or a closing bracket or brace. -/
def EndsValue (t : Text) : Prop :=
  t = [] ∨ ∃ c u, t = .ofChar c :: u ∧ (c = ',' ∨ c = ']' ∨ c = '\x7d')

theorem endsValue_cons {c : Char} (u : Text) (h : c = ',' ∨ c = ']' ∨ c = '\x7d') :
    EndsValue (.ofChar c :: u) := .inr ⟨c, u, rfl, h⟩

namespace EndsValue

variable {t : Text}

/-! What follows a value goes on neither with digits nor with a fraction or an exponent. -/

theorem takeDigits_eq (h : EndsValue t) : takeDigits t = ([], t) := by
  rcases h with rfl | ⟨c, u, rfl, rfl | rfl | rfl⟩ <;> rfl

theorem takePart_eq (h : EndsValue t) : takePart t = ([], t) := by
  rcases h with rfl | ⟨c, u, rfl, rfl | rfl | rfl⟩ <;> rfl

theorem takeExponent_eq (h : EndsValue t) : takeExponent t = (none, t) := by
  rcases h with rfl | ⟨c, u, rfl, rfl | rfl | rfl⟩ <;> rfl

end EndsValue

/-! ## Integers -/

theorem takeDigits_append {ds t : Text} (h : ∀ c ∈ ds, Numeral.isDigit c = true) :
    takeDigits (ds ++ t) = (ds ++ (takeDigits t).1, (takeDigits t).2) := by
  rw [takeDigits, List.takeWhile_append_of_pos h, List.dropWhile_append_of_pos h]
  rfl

/-- Digits that do not begin with a zero are taken together. -/
theorem takeWhole_of_head_ne {t : Text} (first : t.head? ≠ some (.ofChar '0')) :
    takeWhole t = takeDigits t := by
  cases t with
  | nil => rfl
  | cons c rest =>
      have other : ¬ isChar c '0' = true := fun zero =>
        first (congrArg some (isChar_eq_true_iff.1 zero))
      exact if_neg other

theorem isDigit_head_decimal {n : Nat} {c : CodePoint} {ds : Text}
    (h : Numeral.decimal n = c :: ds) : Numeral.isDigit c = true :=
  Numeral.isDigit_of_mem_decimal (n := n) (by rw [h]; exact List.mem_cons_self ..)

/-- A decimal numeral is taken as a whole: it has no zero in front that would be taken alone. -/
theorem takeWhole_decimal (n : Nat) {t : Text} (h : EndsValue t) :
    takeWhole (Numeral.decimal n ++ t) = (Numeral.decimal n, t) := by
  have digits : takeDigits (Numeral.decimal n ++ t) = (Numeral.decimal n, t) := by
    rw [takeDigits_append fun c hc => Numeral.isDigit_of_mem_decimal hc, h.takeDigits_eq,
      List.append_nil]
  obtain ⟨c, ds, hd⟩ := List.exists_cons_of_ne_nil (Numeral.decimal_ne_nil n)
  by_cases zero : c = .ofChar '0'
  · subst zero
    obtain ⟨-, rfl⟩ := Numeral.eq_zero_of_decimal_eq_cons hd
    rw [hd]
    rfl
  · have other : (Numeral.decimal n ++ t).head? ≠ some (.ofChar '0') := by
      rw [hd]
      exact fun first => zero (Option.some.inj first)
    rw [takeWhole_of_head_ne other, digits]

/-- No word begins with a digit, nor with a sign before a digit. -/
theorem readWord?_eq_none {c : CodePoint} (u : Text) (h : Numeral.isDigit c = true) :
    readWord? (c :: u) = none ∧ readWord? (.ofChar '-' :: c :: u) = none := by
  have starts : ∀ w ∈ words, ∃ a b rest, w.1 = a :: b :: rest ∧ Numeral.isDigit a = false ∧
      Numeral.isDigit b = false := by
    intro w hw
    simp only [words, List.mem_cons, List.not_mem_nil, or_false] at hw
    rcases hw with rfl | rfl | rfl | rfl | rfl | rfl <;> exact ⟨_, _, _, rfl, rfl, rfl⟩
  constructor
  all_goals
    rw [readWord?, List.findSome?_eq_none_iff]
    intro w hw
    obtain ⟨a, b, rest, hw, ha, hb⟩ := starts w hw
    have na : a ≠ c := by rintro rfl; rw [h] at ha; cases ha
    have nb : b ≠ c := by rintro rfl; rw [h] at hb; cases hb
    simp [hw, na, nb]

/-- What is written for an integer begins with a digit or a sign, and with no word. -/
theorem ofInt_append_eq_cons (n : Int) (t : Text) :
    ∃ c u, Numeral.ofInt n ++ t = c :: u ∧ readWord? (c :: u) = none ∧
      (Numeral.isDigit c = true ∨ c = .ofChar '-') := by
  cases n with
  | ofNat m =>
      obtain ⟨c, ds, hd⟩ := List.exists_cons_of_ne_nil (Numeral.decimal_ne_nil m)
      have digit := isDigit_head_decimal hd
      refine ⟨c, ds ++ t, ?_, (readWord?_eq_none _ digit).1, .inl digit⟩
      rw [Numeral.ofInt, hd, List.cons_append]
  | negSucc m =>
      obtain ⟨c, ds, hd⟩ := List.exists_cons_of_ne_nil (Numeral.decimal_ne_nil (m + 1))
      have digit := isDigit_head_decimal hd
      refine ⟨.ofChar '-', c :: (ds ++ t), ?_, (readWord?_eq_none _ digit).2, .inr rfl⟩
      rw [Numeral.ofInt, hd, List.cons_append, List.cons_append]

/-- A decimal numeral behind an optional sign is read as an integer. -/
theorem readNumber_decimal {t u : Text} (negative : Bool) {m : Nat}
    (sign : (t.head?.any fun c => isChar c '-') = negative)
    (digits : (if negative = true then t.drop 1 else t) = Numeral.decimal m ++ u)
    (short : (Numeral.decimal m).length ≤ Numeral.maxDigits) (h : EndsValue u) :
    readNumber t = .ok (.int (if negative then -(m : Int) else m), u) := by
  have nonempty : (Numeral.decimal m).isEmpty = false := by simp [Numeral.decimal_ne_nil]
  have value : NumberParts.value ⟨negative, Numeral.decimal m, [], none⟩
      = .ok (.int (if negative then -(m : Int) else m)) := by
    simp [NumberParts.value, Nat.not_lt.2 short, Numeral.digitsValue_decimal]
  simp only [readNumber, sign, digits, takeWhole_decimal m h, nonempty, h.takePart_eq,
    h.takeExponent_eq, value, Except.map, Bool.false_eq_true, if_false]

/-- An integer that is not too long is read back from its numeral. -/
theorem readNumber_ofInt {n : Int} {u : Text}
    (short : (Numeral.decimal n.natAbs).length ≤ Numeral.maxDigits) (h : EndsValue u) :
    readNumber (Numeral.ofInt n ++ u) = .ok (.int n, u) := by
  cases n with
  | ofNat m =>
      obtain ⟨c, ds, hd⟩ := List.exists_cons_of_ne_nil (Numeral.decimal_ne_nil m)
      have unsigned : isChar c '-' = false :=
        isChar_eq_false_iff.2 (by rintro rfl; exact absurd (isDigit_head_decimal hd) (by decide))
      refine readNumber_decimal false ?_ rfl short h
      rw [Numeral.ofInt, hd]
      simpa using unsigned
  | negSucc m => exact readNumber_decimal true rfl rfl short h

/-! ## Values that come back as they were -/

/-- A value that reading gives back as it was written: it has no floating point number, no integer
that is too long, and no two members of one name in an object. -/
structure IsExact (v : Json) : Prop where
  noFloat : ∀ x, .float x ∉ v.parts
  shortIntegers : v.hasLongInteger = false
  distinctNames : ∀ members, .obj members ∈ v.parts → (members.map Prod.fst).Nodup

namespace IsExact

theorem mono {v w : Json} (h : v.IsExact) (sub : w.parts ⊆ v.parts) : w.IsExact := by
  refine ⟨fun x hx => h.noFloat x (sub hx), ?_, fun ms hm => h.distinctNames ms (sub hm)⟩
  have long := h.shortIntegers
  rw [hasLongInteger, List.any_eq_false] at long ⊢
  exact fun p hp => long p (sub hp)

theorem element {es : List Json} (h : (arr es).IsExact) {e : Json} (he : e ∈ es) : e.IsExact :=
  h.mono (parts_subset_arr he)

theorem member {ms : List (Text × Json)} (h : (obj ms).IsExact) {m : Text × Json} (hm : m ∈ ms) :
    m.2.IsExact :=
  h.mono (parts_subset_obj hm)

end IsExact

/-! ## Members -/

theorem setMember_eq_append {ms : List (Text × Json)} {name : Text} (h : name ∉ ms.map Prod.fst)
    (value : Json) : setMember ms name value = ms ++ [(name, value)] := by
  induction ms with
  | nil => rfl
  | cons m ms ih =>
      rw [List.map_cons, List.mem_cons, not_or] at h
      rw [setMember, if_neg (Ne.symm h.1), ih h.2]
      rfl

/-- Members of different names stay as they are. -/
theorem mergeMembers_eq_self {ms : List (Text × Json)} (h : (ms.map Prod.fst).Nodup) :
    mergeMembers ms = ms := by
  have step : ∀ rest merged : List (Text × Json), ((merged ++ rest).map Prod.fst).Nodup →
      rest.foldl (fun merged m => setMember merged m.1 m.2) merged = merged ++ rest := by
    intro rest
    induction rest with
    | nil => intro merged _; simp
    | cons m rest ih =>
        intro merged nodup
        have new : m.1 ∉ merged.map Prod.fst := by
          rw [List.map_append, List.nodup_append] at nodup
          intro hm
          exact nodup.2.2 m.1 hm m.1 (List.mem_cons_self ..) rfl
        rw [List.foldl_cons, setMember_eq_append new, ih _ (by simpa using nodup)]
        simp
  exact step ms [] h

/-! ## White space -/

theorem skipSpace_cons {c : CodePoint} (h : isSpace c = false) (t : Text) :
    skipSpace (c :: t) = c :: t := by
  rw [skipSpace, List.dropWhile_cons_of_neg (by simp [h])]

theorem bounds_of_isDigit {c : CodePoint} (h : Numeral.isDigit c = true) :
    0x30 ≤ c.val ∧ c.val ≤ 0x39 := by
  simpa [Numeral.isDigit] using h

/-- What is written for a value begins with an ASCII character, which is neither white space nor a
closing bracket. -/
theorem render_eq_cons {v : Json} (h : v.IsExact) :
    ∃ c u, render v = c :: u ∧ c.val < 0x80 ∧ isSpace c = false ∧ isChar c ']' = false := by
  cases v with
  | null => exact ⟨_, _, rfl, by decide⟩
  | bool b => cases b <;> exact ⟨_, _, rfl, by decide⟩
  | int n =>
      obtain ⟨c, u, hc, -, digit | rfl⟩ := ofInt_append_eq_cons n []
      · rw [List.append_nil] at hc
        have := bounds_of_isDigit digit
        refine ⟨c, u, hc, by omega, ?_, ?_⟩
        · simp only [isSpace, Bool.or_eq_false_iff, beq_eq_false_iff_ne]
          omega
        · exact isChar_eq_false_iff.2 (by rintro rfl; exact absurd digit (by decide))
      · exact ⟨_, u, by rwa [List.append_nil] at hc, by decide⟩
  | float x => exact absurd (mem_parts_self _) (h.noFloat x)
  | str t => exact ⟨_, _, rfl, by decide⟩
  | arr es => cases es <;> exact ⟨_, _, rfl, by decide⟩
  | obj ms => rcases ms with _ | ⟨⟨name, value⟩, ms⟩ <;> exact ⟨_, _, rfl, by decide⟩

theorem skipSpace_render {v : Json} (h : v.IsExact) (t : Text) :
    skipSpace (render v ++ t) = render v ++ t := by
  obtain ⟨c, u, hr, -, space, -⟩ := render_eq_cons h
  rw [hr, List.cons_append, skipSpace_cons space]

/-! ## The text between brackets -/

/-- What stands between the brackets of an array, with the closing one. -/
def elementsText : List Json → Text
  | [] => []
  | e :: es => render e ++ renderElements spell es

/-- What stands between the braces of an object, with the closing one. -/
def membersText : List (Text × Json) → Text
  | [] => []
  | (name, value) :: ms =>
      renderString spell name ++ .ofChar ':' :: (render value ++ renderMembers spell ms)

theorem render_arr_cons (e : Json) (es : List Json) :
    render (.arr (e :: es)) = .ofChar '[' :: elementsText (e :: es) := rfl

theorem render_obj_cons (m : Text × Json) (ms : List (Text × Json)) :
    render (.obj (m :: ms)) = .ofChar '\x7b' :: membersText (m :: ms) := by
  obtain ⟨name, value⟩ := m
  simp [render, renderWith, membersText]

theorem renderElements_nil : renderElements spell [] = [.ofChar ']'] := rfl

theorem renderElements_cons (e : Json) (es : List Json) :
    renderElements spell (e :: es) = .ofChar ',' :: elementsText (e :: es) := rfl

theorem renderMembers_nil : renderMembers spell [] = [.ofChar '\x7d'] := rfl

theorem renderMembers_cons (m : Text × Json) (ms : List (Text × Json)) :
    renderMembers spell (m :: ms) = .ofChar ',' :: membersText (m :: ms) := by
  obtain ⟨name, value⟩ := m
  simp [render, renderMembers, membersText]

/-! ## Reading what was written -/

/-- A member is read up to what follows its value, which decides how the reading goes on. -/
theorem readMembers_member (name : Text) {more : Text} {v : Json} {d : CodePoint} {steps : Nat}
    (exact : v.IsExact) (space : isSpace d = false)
    (value : readValue steps (render v ++ d :: more) = .ok (v, d :: more)) :
    readMembers (steps + 1) (renderString spell name ++ .ofChar ':' :: (render v ++ d :: more))
      = if isChar d '\x7d' then .ok ([(name, v)], more)
        else if isChar d ',' then do
          let (members, final) ← readMembers steps (skipSpace more)
          return ((name, v) :: members, final)
        else .error (.malformed .comma (d :: more)) := by
  have text : renderString spell name ++ .ofChar ':' :: (render v ++ d :: more)
      = .ofChar '"' :: (name.flatMap spell ++ .ofChar '"' :: .ofChar ':'
        :: (render v ++ d :: more)) := by
    simp [renderString]
  rw [text, readMembers, readString_spelled]
  simp only [isChar_ofChar, decide_true, if_true, bind, Except.bind]
  rw [skipSpace_cons (by decide)]
  simp only [isChar_ofChar, decide_true, if_true, skipSpace_render exact, value]
  rw [skipSpace_cons space]
  rfl

mutual

/-- **The reader takes just what was written for a value**, and leaves what follows it. -/
theorem readValue_render : ∀ (v : Json) (steps : Nat) (rest : Text), v.IsExact → EndsValue rest →
    2 * (render v).length < steps → readValue steps (render v ++ rest) = .ok (v, rest)
  | v, 0, rest, _, _, enough => by omega
  | .null, steps + 1, rest, _, _, _ => rfl
  | .bool b, steps + 1, rest, _, _, _ => by cases b <;> rfl
  | .int n, steps + 1, rest, exact, ends, _ => by
      have short : (Numeral.decimal n.natAbs).length ≤ Numeral.maxDigits := by
        simpa [hasLongInteger, parts, isLongInteger] using exact.shortIntegers
      have number := readNumber_ofInt short ends
      obtain ⟨c, u, hc, noWord, start⟩ := ofInt_append_eq_cons n rest
      have other : ∀ ch ∈ ['"', '\x7b', '['], isChar c ch = false := by
        intro ch hch
        refine isChar_eq_false_iff.2 ?_
        rintro rfl
        simp only [List.mem_cons, List.not_mem_nil, or_false] at hch
        rcases hch with rfl | rfl | rfl <;> revert start <;> decide
      show readValue (steps + 1) (Numeral.ofInt n ++ rest) = _
      rw [hc, readValue, other '"' (by simp), other '\x7b' (by simp), other '[' (by simp), noWord,
        ← hc, number]
      rfl
  | .float x, steps + 1, rest, exact, _, _ => absurd (mem_parts_self _) (exact.noFloat x)
  | .str t, steps + 1, rest, _, _, _ => by
      show readValue (steps + 1) (.ofChar '"' :: (t.flatMap spell ++ [.ofChar '"'] ++ rest)) = _
      rw [readValue, List.append_assoc, List.singleton_append, readString_spelled]
      rfl
  | .arr [], steps + 1, rest, _, _, _ => rfl
  | .arr (e :: es), steps + 1, rest, exact, _, enough => by
      have elements := readElements_elementsText (e :: es) steps rest (by simp)
        (fun d hd => exact.element hd)
        (by rw [render_arr_cons, List.length_cons] at enough; omega)
      obtain ⟨c, u, hr, -, space, close⟩ := render_eq_cons (exact.element (List.mem_cons_self ..))
      have start : elementsText (e :: es) ++ rest
          = c :: (u ++ (renderElements spell es ++ rest)) := by
        simp [elementsText, hr]
      rw [start] at elements
      rw [render_arr_cons, List.cons_append, start, readValue]
      simp [skipSpace_cons space, close, elements, Except.map]
  | .obj [], steps + 1, rest, _, _, _ => rfl
  | .obj (m :: ms), steps + 1, rest, exact, _, enough => by
      have members := readMembers_membersText (m :: ms) steps rest (by simp)
        (fun d hd => exact.member hd)
        (by rw [render_obj_cons, List.length_cons] at enough; omega)
      have distinct := mergeMembers_eq_self (exact.distinctNames _ (mem_parts_self _))
      obtain ⟨u, start⟩ : ∃ u, membersText (m :: ms) ++ rest = .ofChar '"' :: u := ⟨_, rfl⟩
      have space : isSpace (.ofChar '"') = false := by decide
      rw [start] at members
      rw [render_obj_cons, List.cons_append, start, readValue]
      simp [skipSpace_cons space, members, Except.map, distinct]

theorem readElements_elementsText : ∀ (es : List Json) (steps : Nat) (rest : Text), es ≠ [] →
    (∀ e ∈ es, e.IsExact) → 2 * (elementsText es).length < steps →
    readElements steps (elementsText es ++ rest) = .ok (es, rest)
  | [], _, _, nonempty, _, _ => absurd rfl nonempty
  | _ :: _, 0, _, _, _, enough => by omega
  | [e], steps + 1, rest, _, exact, enough => by
      simp only [elementsText, renderElements_nil, List.length_append,
        List.length_singleton] at enough
      have value := readValue_render e steps (.ofChar ']' :: rest)
        (exact e (List.mem_cons_self ..)) (endsValue_cons _ (.inr (.inl rfl))) (by omega)
      rw [elementsText, renderElements_nil, List.append_assoc, List.singleton_append,
        readElements, value]
      rfl
  | e :: d :: es, steps + 1, rest, _, exact, enough => by
      rw [elementsText, renderElements_cons] at enough ⊢
      simp only [List.length_append, List.length_cons] at enough
      have value := readValue_render e steps (.ofChar ',' :: (elementsText (d :: es) ++ rest))
        (exact e (List.mem_cons_self ..)) (endsValue_cons _ (.inl rfl)) (by omega)
      have elements := readElements_elementsText (d :: es) steps rest (by simp)
        (fun d hd => exact d (List.mem_cons_of_mem _ hd)) (by omega)
      have start : skipSpace (elementsText (d :: es) ++ rest) = elementsText (d :: es) ++ rest := by
        rw [elementsText, List.append_assoc, skipSpace_render (exact d (by simp))]
      rw [List.append_assoc, List.cons_append, readElements, value]
      show (do
        let (values, rest) ← readElements steps (skipSpace (elementsText (d :: es) ++ rest))
        return (e :: values, rest)) = _
      rw [start, elements]
      rfl

theorem readMembers_membersText : ∀ (ms : List (Text × Json)) (steps : Nat) (rest : Text),
    ms ≠ [] → (∀ m ∈ ms, m.2.IsExact) → 2 * (membersText ms).length < steps →
    readMembers steps (membersText ms ++ rest) = .ok (ms, rest)
  | [], _, _, nonempty, _, _ => absurd rfl nonempty
  | _ :: _, 0, _, _, _, enough => by omega
  | [(name, value)], steps + 1, rest, _, exact, enough => by
      rw [membersText, renderMembers_nil] at enough ⊢
      simp only [List.length_append, List.length_cons] at enough
      have exact := exact (name, value) (List.mem_cons_self ..)
      have value := readValue_render value steps (.ofChar '\x7d' :: rest) exact
        (endsValue_cons _ (.inr (.inr rfl))) (by omega)
      simpa using readMembers_member name exact (by decide) value
  | (name, value) :: m :: ms, steps + 1, rest, _, exact, enough => by
      rw [membersText, renderMembers_cons] at enough ⊢
      simp only [List.length_append, List.length_cons] at enough
      have first := exact (name, value) (List.mem_cons_self ..)
      have value := readValue_render value steps (.ofChar ',' :: (membersText (m :: ms) ++ rest))
        first (endsValue_cons _ (.inl rfl)) (by omega)
      have members := readMembers_membersText (m :: ms) steps rest (by simp)
        (fun d hd => exact d (List.mem_cons_of_mem _ hd)) (by omega)
      have start : skipSpace (membersText (m :: ms) ++ rest) = membersText (m :: ms) ++ rest :=
        skipSpace_cons (by decide) _
      have step := readMembers_member name first (by decide) value
      rw [start, members] at step
      simpa using step

end

/-- **A text that was written for a value is read as that value.** -/
theorem ofText_render {v : Json} (h : v.IsExact) : ofText (render v) = .ok v := by
  obtain ⟨c, u, hr, ascii, space, -⟩ := render_eq_cons h
  have noMark : (render v).head? ≠ some (.ofNat 0xFEFF) := by
    rw [hr, List.head?_cons]
    intro e
    rw [Option.some.inj e] at ascii
    exact absurd ascii (by decide)
  have start : skipSpace (render v) = render v := by rw [hr, skipSpace_cons space]
  have value := readValue_render v (2 * (render v).length + 1) [] h (.inl rfl) (by omega)
  rw [List.append_nil] at value
  rw [ofText, readAll, if_neg noMark, start, value]
  rfl

end JustfileServer.Json
