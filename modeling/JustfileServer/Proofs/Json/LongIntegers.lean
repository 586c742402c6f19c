import JustfileServer.Proofs.Json.RoundTrip
import JustfileServer.Proofs.Json.Steps

/-!
# Integers that are too long to be read

A text that is no JSON is malformed at some place, but there is another way in which reading can
end: the reader comes to an integer with more digits than are read (`ofText_eq_tooManyDigits_iff`).
Such an integer is valid JSON by itself.  The reader comes to it when all that stands before it is
well-formed; what stands behind it does not matter any more.

`ComesTo` goes through a text in the way that the reader does.  A refusal is followed down from the
whole text to the integer that it is about (`comesTo_of_readValue`), and up again from the integer
to the whole text (`ComesTo.readAll_eq`).
-/

namespace JustfileServer.Json

variable {t u rest : Text} {count : Nat}

/-! ## Integers -/

/-- A text does not go on with what would belong to the integer before it or make it another number:
a digit, a point with a digit behind it, or an exponent. -/
structure EndsInteger (t : Text) : Prop where
  digits : (takeDigits t).1 = []
  part : (takePart t).1 = []
  exponent : (takeExponent t).1 = none

/-- **A long integer**: the text begins with an optional sign and this number of digits, more than
are read, the first of which is no zero, and with nothing behind them that would belong to it. -/
inductive LongInteger : Text → Nat → Prop
  | mk {sign digits rest : Text} : sign = [] ∨ sign = [.ofChar '-'] →
      (∀ c ∈ digits, Numeral.isDigit c = true) → digits.head? ≠ some (.ofChar '0') →
      Numeral.maxDigits < digits.length → EndsInteger rest →
      LongInteger (sign ++ digits ++ rest) digits.length

/-- The parts of a number that make it an integer which is too long. -/
theorem value_eq_tooManyDigits_iff {p : NumberParts} :
    p.value = .error (.tooManyDigits count) ↔ (p.part = [] ∧ p.exponent = none) ∧
      Numeral.maxDigits < p.whole.length ∧ p.whole.length = count := by
  have plain : (p.part.isEmpty && p.exponent.isNone) = true ↔ p.part = [] ∧ p.exponent = none := by
    simp
  rw [NumberParts.value, ← plain]
  by_cases integer : (p.part.isEmpty && p.exponent.isNone) = true
  · rw [if_pos integer]
    by_cases long : Numeral.maxDigits < p.whole.length
    · rw [if_pos long, Except.error.injEq, Refusal.tooManyDigits.injEq]
      exact ⟨fun same => ⟨integer, long, same⟩, fun h => h.2.2⟩
    · rw [if_neg long]
      exact iff_of_false (by simp) fun h => long h.2.1
  · rw [if_neg integer]
    exact iff_of_false (by simp) fun h => integer h.1

/-- No digits are left behind digits. -/
theorem takeDigits_takeDigits (t : Text) : (takeDigits (takeDigits t).2).1 = [] := by
  show (t.dropWhile Numeral.isDigit).takeWhile Numeral.isDigit = []
  induction t with
  | nil => rfl
  | cons c t ih =>
      by_cases digit : Numeral.isDigit c = true
      · rw [List.dropWhile_cons_of_pos digit, ih]
      · rw [List.dropWhile_cons_of_neg digit, List.takeWhile_cons_of_neg digit]

theorem takeDigits_eq_of_nil (h : (takeDigits t).1 = []) : takeDigits t = ([], t) := by
  have whole : (takeDigits t).1 ++ (takeDigits t).2 = t := List.takeWhile_append_dropWhile
  rw [h, List.nil_append] at whole
  exact Prod.ext h whole

theorem takePart_eq_of_nil (h : (takePart t).1 = []) : takePart t = ([], t) := by
  cases t with
  | nil => rfl
  | cons c rest =>
      rw [takePart] at h ⊢
      split
      · rename_i pointed
        rw [if_pos pointed] at h
        simp [h] at pointed
      · rfl

theorem takeExponent_eq_of_none (h : (takeExponent t).1 = none) : takeExponent t = (none, t) := by
  cases t with
  | nil => rfl
  | cons c rest =>
      obtain ⟨taken, digits⟩ : ∃ taken, takeDigits (if (rest.head?.any fun s => isChar s '+' ||
          isChar s '-') = true then rest.drop 1 else rest) = taken := ⟨_, rfl⟩
      simp only [takeExponent, digits] at h ⊢
      split
      · rename_i letter
        rw [if_pos letter] at h
        split
        · rfl
        · rename_i filled
          rw [if_neg filled] at h
          cases h
      · rfl

/-- A zero is taken by itself. -/
theorem head_ne_of_long (long : 1 < (takeWhole t).1.length) : t.head? ≠ some (.ofChar '0') := by
  intro first
  obtain ⟨rest, rfl⟩ := List.head?_eq_some_iff.1 first
  exact absurd long (Nat.lt_irrefl 1)

/-- The number behind an optional sign. -/
def unsigned (t : Text) : Text :=
  if (t.head?.any fun c => isChar c '-') = true then t.drop 1 else t

theorem exists_sign (t : Text) :
    ∃ sign, (sign = [] ∨ sign = [.ofChar '-']) ∧ t = sign ++ unsigned t := by
  unfold unsigned
  cases t with
  | nil => exact ⟨[], .inl rfl, rfl⟩
  | cons c t =>
      by_cases minus : isChar c '-' = true
      · obtain rfl := isChar_eq_true_iff.1 minus
        exact ⟨_, .inr rfl, rfl⟩
      · exact ⟨[], .inl rfl, (if_neg minus).symm⟩

theorem unsigned_append {sign t : Text} (h : sign = [] ∨ sign = [.ofChar '-'])
    (digit : ∀ c, t.head? = some c → Numeral.isDigit c = true) : unsigned (sign ++ t) = t := by
  rcases h with rfl | rfl
  · cases t with
    | nil => rfl
    | cons c t =>
        have other : ¬ isChar c '-' = true := by
          rw [isChar_eq_true_iff]
          rintro rfl
          exact absurd (digit _ rfl) (by decide)
        exact if_neg other
  · rfl

/-- **A number is refused for its length** when it is a long integer. -/
theorem readNumber_eq_tooManyDigits_iff :
    readNumber t = .error (.tooManyDigits count) ↔ LongInteger t count := by
  have reading : readNumber t =
      if (takeWhole (unsigned t)).1.isEmpty then .error (.malformed .value t)
      else (NumberParts.value ⟨t.head?.any fun c => isChar c '-', (takeWhole (unsigned t)).1,
        (takePart (takeWhole (unsigned t)).2).1,
        (takeExponent (takePart (takeWhole (unsigned t)).2).2).1⟩).map
          fun v => (v, (takeExponent (takePart (takeWhole (unsigned t)).2).2).2) := rfl
  rw [reading]
  constructor
  · intro refused
    split at refused
    · cases refused
    obtain ⟨⟨part, exponent⟩, long, rfl⟩ :=
      value_eq_tooManyDigits_iff.1 (eq_error_of_map_eq_error refused)
    dsimp only at part exponent long ⊢
    have several : 1 < (takeWhole (unsigned t)).1.length := Nat.lt_trans (by decide) long
    have first := head_ne_of_long several
    have digits := takeWhole_of_head_ne first
    rw [takePart_eq_of_nil part] at exponent
    rw [digits] at part exponent long ⊢
    obtain ⟨sign, signed, whole⟩ := exists_sign t
    have cut : t = sign ++ (takeDigits (unsigned t)).1 ++ (takeDigits (unsigned t)).2 := by
      rw [List.append_assoc, takeDigits, List.takeWhile_append_dropWhile]
      exact whole
    have counted : LongInteger (sign ++ (takeDigits (unsigned t)).1 ++ (takeDigits (unsigned t)).2)
        (takeDigits (unsigned t)).1.length := by
      refine .mk signed (fun c hc => isDigit_of_mem_takeDigits hc) ?_ long
        ⟨takeDigits_takeDigits _, part, exponent⟩
      intro zero
      rw [takeDigits, List.head?_takeWhile] at zero
      exact first (Option.eq_some_of_filter_eq_some zero)
    rwa [← cut] at counted
  · rintro @⟨sign, digits, rest, signed, all, first, long, ends⟩
    have filled : digits ≠ [] := List.ne_nil_of_length_pos (Nat.lt_trans (by decide) long)
    have number : unsigned (sign ++ digits ++ rest) = digits ++ rest := by
      rw [List.append_assoc]
      refine unsigned_append signed fun c hc => ?_
      rw [List.head?_append_of_ne_nil _ filled] at hc
      exact all c (List.mem_of_head? hc)
    have taken : takeDigits (digits ++ rest) = (digits, rest) := by
      rw [takeDigits_append all, ends.digits, List.append_nil, takeDigits_eq_of_nil ends.digits]
    have whole : takeWhole (digits ++ rest) = (digits, rest) := by
      rw [takeWhole_of_head_ne, taken]
      rwa [List.head?_append_of_ne_nil _ filled]
    rw [number, whole, takePart_eq_of_nil ends.part, takeExponent_eq_of_none ends.exponent,
      if_neg (by simpa using filled), value_eq_tooManyDigits_iff.2 ⟨⟨rfl, rfl⟩, long, rfl⟩]
    rfl

/-! ## Where the reader comes to -/

/-- What the reader is about to read: a value, or what is left of the elements of an array or of the
members of an object. -/
inductive Task
  | value
  | elements
  | members

/-- A member begins with its name and a colon, behind which its value is written. -/
def NamesValue (t value : Text) : Prop :=
  ∃ rest name afterName more, t = .ofChar '"' :: rest ∧ readString t rest = .ok (name, afterName) ∧
    skipSpace afterName = .ofChar ':' :: more ∧ value = skipSpace more

/-- **The reader of a text comes to a place** in it, with something to read there.  Before it comes
to an element or a member that has others before it, these have been read. -/
inductive ComesTo (t : Text) : Task → Text → Prop
  | start : t.head? ≠ some (.ofNat 0xFEFF) → ComesTo t .value (skipSpace t)
  | array {rest more : Text} {d : CodePoint} : ComesTo t .value (.ofChar '[' :: rest) →
      skipSpace rest = d :: more → d ≠ .ofChar ']' → ComesTo t .elements (d :: more)
  | object {rest more : Text} {d : CodePoint} : ComesTo t .value (.ofChar '\x7b' :: rest) →
      skipSpace rest = d :: more → d ≠ .ofChar '\x7d' → ComesTo t .members (d :: more)
  | element {u : Text} : ComesTo t .elements u → ComesTo t .value u
  | nextElement {u after more : Text} {v : Json} : ComesTo t .elements u → read u = .ok (v, after) →
      skipSpace after = .ofChar ',' :: more → ComesTo t .elements (skipSpace more)
  | member {u w : Text} : ComesTo t .members u → NamesValue u w → ComesTo t .value w
  | nextMember {u w after more : Text} {v : Json} : ComesTo t .members u → NamesValue u w →
      read w = .ok (v, after) → skipSpace after = .ofChar ',' :: more →
      ComesTo t .members (skipSpace more)

/-- The reader comes to a long integer. -/
def ComesToLongInteger (t : Text) (count : Nat) : Prop :=
  ∃ u, ComesTo t .value u ∧ LongInteger u count

theorem eq_error_of_consWritten {w : Written} {r : Reading (List Written)} {e : Refusal}
    (h : consWritten w r = .error e) : r = .error e := by
  cases r with
  | error e' => exact congrArg Except.error (Except.error.inj h)
  | ok r => cases h

/-- A string is never refused for the length of an integer. -/
theorem readString_ne_tooManyDigits {opening t : Text} :
    readString opening t ≠ .error (.tooManyDigits count) := by
  intro refused
  replace refused := eq_error_of_map_eq_error refused
  fun_induction readWritten opening t with
  | case5 c quote backslash e numeric p q r s more n hn nonempty ih =>
      exact ih (eq_error_of_consWritten refused)
  | case9 c quote backslash e tail plain d hd ih => exact ih (eq_error_of_consWritten refused)
  | case11 c tail quote backslash printing ih => exact ih (eq_error_of_consWritten refused)
  | _ => cases refused

mutual

/-- A refusal for a length is about a long integer to which the reader comes. -/
theorem comesTo_of_readValue : ∀ {steps : Nat} {u : Text}, 2 * u.length + 1 ≤ steps →
    readValue steps u = .error (.tooManyDigits count) → ComesTo t .value u →
      ComesToLongInteger t count
  | 0, _, enough, _, _ => absurd enough (Nat.not_succ_le_zero _)
  | _ + 1, [], _, refused, _ => by cases refused
  | steps + 1, c :: rest, enough, refused, here => by
      have shorter := (skipSpace_suffix rest).length_le
      rw [List.length_cons] at enough
      rw [readValue] at refused
      split at refused
      · exact absurd (eq_error_of_map_eq_error refused) readString_ne_tooManyDigits
      split at refused
      · rename_i brace
        obtain rfl := isChar_eq_true_iff.1 brace
        split at refused
        · cases refused
        rename_i d more space
        rw [space] at shorter
        split at refused
        · cases refused
        rename_i open'
        exact comesTo_of_readMembers (by omega) (eq_error_of_map_eq_error refused)
          (.object here space (mt isChar_eq_true_iff.2 open'))
      split at refused
      · rename_i bracket
        obtain rfl := isChar_eq_true_iff.1 bracket
        split at refused
        · cases refused
        rename_i d more space
        rw [space] at shorter
        split at refused
        · cases refused
        rename_i open'
        exact comesTo_of_readElements (by omega) (eq_error_of_map_eq_error refused)
          (.array here space (mt isChar_eq_true_iff.2 open'))
      split at refused
      · cases refused
      · exact ⟨_, here, readNumber_eq_tooManyDigits_iff.1 refused⟩

theorem comesTo_of_readElements : ∀ {steps : Nat} {u : Text}, 2 * u.length + 2 ≤ steps →
    readElements steps u = .error (.tooManyDigits count) → ComesTo t .elements u →
      ComesToLongInteger t count
  | 0, _, enough, _, _ => absurd enough (Nat.not_succ_le_zero _)
  | steps + 1, u, enough, refused, here => by
      rw [readElements] at refused
      rcases cases_of_bind_eq_error refused with first | ⟨⟨v, after⟩, first, later⟩
      · exact comesTo_of_readValue (by omega) first (.element here)
      have shorter := (readValue_modest u.length first (Nat.le_refl _)).1.length_le
      have less := (skipSpace_suffix after).length_le
      dsimp only at later
      split at later
      · cases later
      rename_i d more space
      rw [space, List.length_cons] at less
      split at later
      · cases later
      split at later
      case isFalse => cases later
      rename_i comma
      obtain rfl := isChar_eq_true_iff.1 comma
      have least := (skipSpace_suffix more).length_le
      rw [readValue_eq_read (by omega)] at first
      rcases cases_of_bind_eq_error later with others | ⟨vs, -, done⟩
      · exact comesTo_of_readElements (by omega) others (.nextElement here first space)
      · cases done

theorem comesTo_of_readMembers : ∀ {steps : Nat} {u : Text}, 2 * u.length + 2 ≤ steps →
    readMembers steps u = .error (.tooManyDigits count) → ComesTo t .members u →
      ComesToLongInteger t count
  | 0, _, enough, _, _ => absurd enough (Nat.not_succ_le_zero _)
  | _ + 1, [], _, refused, _ => by cases refused
  | steps + 1, c :: rest, enough, refused, here => by
      rw [List.length_cons] at enough
      rw [readMembers] at refused
      split at refused
      case isFalse => cases refused
      rename_i quote
      obtain rfl := isChar_eq_true_iff.1 quote
      rcases cases_of_bind_eq_error refused with named | ⟨⟨name, afterName⟩, named, refused⟩
      · exact absurd named readString_ne_tooManyDigits
      have behindName := (readString_length named).1.length_le
      have start := (skipSpace_suffix afterName).length_le
      dsimp only at refused
      split at refused
      · cases refused
      rename_i d more space
      rw [space, List.length_cons] at start
      split at refused
      case isFalse => cases refused
      rename_i colon
      obtain rfl := isChar_eq_true_iff.1 colon
      have names : NamesValue (.ofChar '"' :: rest) (skipSpace more) :=
        ⟨rest, name, afterName, more, rfl, named, space, rfl⟩
      have value := (skipSpace_suffix more).length_le
      rcases cases_of_bind_eq_error refused with first | ⟨⟨v, after⟩, first, later⟩
      · exact comesTo_of_readValue (by omega) first (.member here names)
      have shorter := (readValue_modest _ first (Nat.le_refl _)).1.length_le
      have less := (skipSpace_suffix after).length_le
      dsimp only at later
      split at later
      · cases later
      rename_i e others space
      rw [space, List.length_cons] at less
      split at later
      · cases later
      split at later
      case isFalse => cases later
      rename_i comma
      obtain rfl := isChar_eq_true_iff.1 comma
      have least := (skipSpace_suffix others).length_le
      rw [readValue_eq_read (by omega)] at first
      rcases cases_of_bind_eq_error later with further | ⟨ms, -, done⟩
      · exact comesTo_of_readMembers (by omega) further (.nextMember here names first space)
      · cases done

end

theorem length_le_of_read {v : Json} {after : Text} (h : read t = .ok (v, after)) :
    after.length ≤ t.length :=
  (readValue_modest t.length h (Nat.le_refl _)).1.length_le

namespace NamesValue

variable {w : Text} (h : NamesValue u w)
include h

theorem length_lt : w.length < u.length := by
  obtain ⟨rest, name, afterName, more, rfl, named, space, rfl⟩ := h
  have behindName := (readString_length named).1.length_le
  have start := (skipSpace_suffix afterName).length_le
  have value := (skipSpace_suffix more).length_le
  rw [space, List.length_cons] at start
  rw [List.length_cons]
  omega

/-- Members are read on from the value of the first one. -/
theorem readMembers_eq {steps : Nat} (enough : 2 * u.length + 1 ≤ steps) :
    ∃ name, readMembers (steps + 1) u = (do
      let (value, after) ← read w
      match skipSpace after with
      | [] => .error (.malformed .comma [])
      | e :: others =>
          if isChar e '\x7d' then return ([(name, value)], others)
          else if isChar e ',' then
            let (members, final) ← readMembers steps (skipSpace others)
            return ((name, value) :: members, final)
          else .error (.malformed .comma (e :: others))) := by
  have shorter := h.length_lt
  obtain ⟨rest, name, afterName, more, rfl, named, space, rfl⟩ := h
  refine ⟨name, ?_⟩
  rw [readMembers, if_pos (by decide), named, ok_bind]
  dsimp only
  rw [space]
  dsimp only
  rw [if_pos (by decide)]
  exact congrArg (· >>= _) (readValue_eq_read (by omega))

end NamesValue

/-- Reading is refused for a length, with any steps that are enough. -/
def Refuses (count : Nat) : Task → Text → Prop
  | .value, t => read t = .error (.tooManyDigits count)
  | .elements, t => ∀ steps, 2 * t.length + 2 ≤ steps →
      readElements steps t = .error (.tooManyDigits count)
  | .members, t => ∀ steps, 2 * t.length + 2 ≤ steps →
      readMembers steps t = .error (.tooManyDigits count)

/-- A long integer is no string, array, object or word, so it is refused for its length. -/
theorem LongInteger.refuses (h : LongInteger u count) : Refuses count .value u := by
  have number := readNumber_eq_tooManyDigits_iff.2 h
  obtain ⟨c, tail, rfl, word, start⟩ : ∃ c tail, u = c :: tail ∧ readWord? (c :: tail) = none ∧
      (Numeral.isDigit c = true ∨ c = .ofChar '-') := by
    cases h with
    | @mk sign digits rest signed all first long ends =>
        obtain ⟨d, ds, rfl⟩ := List.exists_cons_of_ne_nil
          (List.ne_nil_of_length_pos (Nat.lt_trans (by decide) long))
        have digit := all d (List.mem_cons_self ..)
        obtain ⟨plain, negative⟩ := readWord?_eq_none (ds ++ rest) digit
        rcases signed with rfl | rfl
        · exact ⟨d, ds ++ rest, rfl, plain, .inl digit⟩
        · exact ⟨.ofChar '-', d :: (ds ++ rest), rfl, negative, .inr rfl⟩
  have other {ch : Char} (noDigit : Numeral.isDigit (.ofChar ch) = false)
      (noSign : CodePoint.ofChar ch ≠ .ofChar '-') : ¬ isChar c ch = true := by
    intro same
    obtain rfl := isChar_eq_true_iff.1 same
    rcases start with digit | sign
    · rw [noDigit] at digit
      cases digit
    · exact noSign sign
  show readValue _ (c :: tail) = _
  rw [readValue, if_neg (other (by decide) (by decide)), if_neg (other (by decide) (by decide)),
    if_neg (other (by decide) (by decide)), word]
  exact number

/-- **A refusal goes through** from the place that the reader comes to up to the whole text. -/
theorem ComesTo.readAll_eq {task : Task} (h : ComesTo t task u) (refused : Refuses count task u) :
    readAll t = .error (.tooManyDigits count) := by
  induction h with
  | start unmarked =>
      have shorter := (skipSpace_suffix t).length_le
      rw [readAll, if_neg unmarked, readValue_eq_read (by omega), refused]
  | @array rest more d _ space opened ih =>
      apply ih
      have shorter := (skipSpace_suffix rest).length_le
      rw [space] at shorter
      have size : (CodePoint.ofChar '[' :: rest).length = rest.length + 1 := rfl
      have closes := mt isChar_eq_true_iff.1 opened
      show readValue _ (.ofChar '[' :: rest) = _
      rw [readValue, if_neg (by decide), if_neg (by decide), if_pos (by decide), space]
      dsimp only
      rw [if_neg closes, refused _ (by omega)]
      rfl
  | @object rest more d _ space opened ih =>
      apply ih
      have shorter := (skipSpace_suffix rest).length_le
      rw [space] at shorter
      have size : (CodePoint.ofChar '\x7b' :: rest).length = rest.length + 1 := rfl
      have closes := mt isChar_eq_true_iff.1 opened
      show readValue _ (.ofChar '\x7b' :: rest) = _
      rw [readValue, if_neg (by decide), if_pos (by decide), space]
      dsimp only
      rw [if_neg closes, refused _ (by omega)]
      rfl
  | element _ ih =>
      apply ih
      rintro (_ | steps) enough
      · exact absurd enough (Nat.not_succ_le_zero _)
      · rw [readElements, readValue_eq_read (by omega), refused]
        rfl
  | @nextElement u after more v _ first space ih =>
      apply ih
      rintro (_ | steps) enough
      · exact absurd enough (Nat.not_succ_le_zero _)
      · have shorter := length_le_of_read first
        have less := (skipSpace_suffix after).length_le
        have least := (skipSpace_suffix more).length_le
        rw [space, List.length_cons] at less
        rw [readElements, readValue_eq_read (by omega), first, ok_bind]
        dsimp only
        rw [space]
        dsimp only
        rw [if_neg (by decide), if_pos (by decide), refused _ (by omega)]
        rfl
  | member _ names ih =>
      apply ih
      rintro (_ | steps) enough
      · exact absurd enough (Nat.not_succ_le_zero _)
      · obtain ⟨name, next⟩ := names.readMembers_eq (Nat.le_of_succ_le_succ enough)
        rw [next, refused]
        rfl
  | @nextMember u w after more v _ names first space ih =>
      apply ih
      rintro (_ | steps) enough
      · exact absurd enough (Nat.not_succ_le_zero _)
      · have behind := names.length_lt
        have shorter := length_le_of_read first
        have less := (skipSpace_suffix after).length_le
        have least := (skipSpace_suffix more).length_le
        rw [space, List.length_cons] at less
        obtain ⟨name, next⟩ := names.readMembers_eq (Nat.le_of_succ_le_succ enough)
        rw [next, first, ok_bind]
        dsimp only
        rw [space]
        dsimp only
        rw [if_neg (by decide), if_pos (by decide), refused _ (by omega)]
        rfl

/-- **Reading is refused for the length of an integer** when the reader comes to a long integer, and
only then. -/
theorem ofText_eq_tooManyDigits_iff :
    ofText t = .error (.tooManyDigits count) ↔ ComesToLongInteger t count := by
  constructor
  · intro refused
    have whole : readAll t = .error (.tooManyDigits count) := by
      unfold ofText at refused
      split at refused
      · cases refused
      · cases refused
      · rename_i given
        cases refused
        exact given
    unfold readAll at whole
    split at whole
    · cases whole
    rename_i unmarked
    have shorter := (skipSpace_suffix t).length_le
    split at whole
    · rename_i e given
      cases whole
      exact comesTo_of_readValue (by omega) given (.start unmarked)
    · split at whole <;> cases whole
  · rintro ⟨u, here, long⟩
    rw [ofText, here.readAll_eq long.refuses]

/-- More digits than are read, the first of them no zero, are a long integer by themselves. -/
theorem comesToLongInteger_of_digits {digits : Text}
    (all : ∀ c ∈ digits, Numeral.isDigit c = true) (first : digits.head? ≠ some (.ofChar '0'))
    (long : Numeral.maxDigits < digits.length) : ComesToLongInteger digits digits.length := by
  obtain ⟨c, ds, rfl⟩ := List.exists_cons_of_ne_nil
    (List.ne_nil_of_length_pos (Nat.lt_trans (by decide) long))
  have bounds := bounds_of_isDigit (all c (List.mem_cons_self ..))
  have unmarked : (c :: ds).head? ≠ some (.ofNat 0xFEFF) := by
    intro mark
    rw [Option.some.inj mark, CodePoint.val_ofNat (by decide)] at bounds
    omega
  have visible : isSpace c = false := by
    simp only [isSpace, Bool.or_eq_false_iff, beq_eq_false_iff_ne]
    omega
  have here := ComesTo.start unmarked
  rw [skipSpace_cons visible] at here
  have ends : EndsInteger [] := ⟨rfl, rfl, rfl⟩
  have integer := LongInteger.mk (.inl rfl) all first long ends
  rw [List.nil_append, List.append_nil] at integer
  exact ⟨_, here, integer⟩

end JustfileServer.Json
