import JustfileServer.Json.Writer
import JustfileServer.Json.Reader
import JustfileServer.Proofs.Text.Numerals

/-!
# Strings of JSON: what is written is read back

A code point is spelled in one of three ways (`escape?_cases`): by an escape of one letter, by a
numeric escape, which only control characters have, or as it is.  Each is read as that code point
(`readWritten_spell`).  Since no surrogate is ever written as a numeric escape, the reader joins
nothing that was apart, so a string is read back as it was, even one with surrogates in it
(`readString_spelled`).
-/

namespace JustfileServer.Json

/-! ## Characters -/

theorem isChar_eq_true_iff {c : CodePoint} {ch : Char} : isChar c ch = true ↔ c = .ofChar ch := by
  rw [isChar, beq_iff_eq]
  constructor
  · intro h
    rw [← CodePoint.ofNat_val c, h]
    rfl
  · rintro rfl
    exact CodePoint.val_ofChar ch

theorem isChar_eq_false_iff {c : CodePoint} {ch : Char} :
    isChar c ch = false ↔ c ≠ .ofChar ch := by
  rw [Bool.eq_false_iff, Ne, isChar_eq_true_iff]

@[simp] theorem isChar_ofChar (a b : Char) : isChar (.ofChar a) b = decide (a = b) := by
  rw [Bool.eq_iff_iff, isChar_eq_true_iff, decide_eq_true_eq]
  exact ⟨CodePoint.ofChar_injective, fun h => by rw [h]⟩

theorem eq_ofChar {c : CodePoint} {d : Char} (h : c.val = d.toNat) : c = .ofChar d := by
  rw [← CodePoint.ofNat_val c, h]
  rfl

/-! ## The three spellings of a code point -/

/-- A code point has an escape of one letter, or a numeric one, or none. -/
theorem escape?_cases (c : CodePoint) :
    (∃ e, escape? c = some [.ofChar '\\', e] ∧ plainEscape? e = some c ∧ isChar e 'u' = false) ∨
    (escape? c = some (Text.ofString "\\u" ++ Numeral.hex 4 c.val) ∧ c.val < 0x20) ∨
    (escape? c = none ∧ c ≠ .ofChar '"' ∧ c ≠ .ofChar '\\' ∧ 0x20 ≤ c.val) := by
  by_cases quote : c.val = 0x22
  · obtain rfl := eq_ofChar (d := '"') quote
    exact .inl ⟨.ofChar '"', by decide⟩
  by_cases backslash : c.val = 0x5C
  · obtain rfl := eq_ofChar (d := '\\') backslash
    exact .inl ⟨.ofChar '\\', by decide⟩
  by_cases newline : c.val = 0x0A
  · obtain rfl := eq_ofChar (d := '\n') newline
    exact .inl ⟨.ofChar 'n', by decide⟩
  by_cases carriage : c.val = 0x0D
  · obtain rfl := eq_ofChar (d := '\r') carriage
    exact .inl ⟨.ofChar 'r', by decide⟩
  by_cases tab : c.val = 0x09
  · obtain rfl := eq_ofChar (d := '\t') tab
    exact .inl ⟨.ofChar 't', by decide⟩
  by_cases feed : c.val = 0x0C
  · obtain rfl := eq_ofChar (d := '\x0c') feed
    exact .inl ⟨.ofChar 'f', by decide⟩
  by_cases back : c.val = 0x08
  · obtain rfl := eq_ofChar (d := '\x08') back
    exact .inl ⟨.ofChar 'b', by decide⟩
  refine .inr ?_
  rw [escape?, if_neg quote, if_neg backslash, if_neg newline, if_neg carriage, if_neg tab,
    if_neg feed, if_neg back]
  by_cases control : c.val < 0x20
  · exact .inl ⟨if_pos control, control⟩
  · refine .inr ⟨if_neg control, ?_, ?_, Nat.not_lt.1 control⟩
    · rintro rfl; exact quote rfl
    · rintro rfl; exact backslash rfl

/-! ## Reading one code point -/

theorem hexFour?_hex {n : Nat} (h : n < 0x10000) :
    hexFour? (Numeral.hexChar (n / 16 / 16 / 16 % 16)) (Numeral.hexChar (n / 16 / 16 % 16))
      (Numeral.hexChar (n / 16 % 16)) (Numeral.hexChar (n % 16)) = some n := by
  simp only [hexFour?, Numeral.hexDigit?_hexChar (Nat.mod_lt _ (by decide : 0 < 16))]
  show some _ = some n
  congr 1
  omega

/-- An escape of one letter stands for its code point. -/
theorem readWritten_plain {opening u : Text} {e p : CodePoint} (h : plainEscape? e = some p)
    (notNumeric : isChar e 'u' = false) :
    readWritten opening (.ofChar '\\' :: e :: u)
      = consWritten ⟨p, false⟩ (readWritten opening u) := by
  rw [readWritten.eq_def]
  simp [h, notNumeric]

/-- A numeric escape stands for the code point of its number, if anything follows it. -/
theorem readWritten_numeric (opening : Text) {u : Text} {n : Nat} (h : n < 0x10000) (hu : u ≠ []) :
    readWritten opening (Text.ofString "\\u" ++ Numeral.hex 4 n ++ u)
      = consWritten ⟨.ofNat n, true⟩ (readWritten opening u) := by
  rw [Numeral.hex_four]
  show readWritten opening (.ofChar '\\' :: .ofChar 'u' :: Numeral.hexChar _ :: Numeral.hexChar _
    :: Numeral.hexChar _ :: Numeral.hexChar _ :: u) = _
  rw [readWritten]
  simp [hexFour?_hex h, hu]

/-- Any other code point stands for itself. -/
theorem readWritten_self {opening u : Text} {c : CodePoint} (h1 : c ≠ .ofChar '"')
    (h2 : c ≠ .ofChar '\\') (h3 : 0x20 ≤ c.val) :
    readWritten opening (c :: u) = consWritten ⟨c, false⟩ (readWritten opening u) := by
  rw [readWritten.eq_def]
  simp [isChar_eq_false_iff.2 h1, isChar_eq_false_iff.2 h2, Nat.not_lt.2 h3]

/-- A code point is read back from its spelling, and only a control character comes back as one
that was written as a numeric escape. -/
theorem readWritten_spell (opening : Text) (c : CodePoint) {u : Text} (hu : u ≠ []) :
    ∃ escaped, (escaped = true → c.val < 0x20) ∧
      readWritten opening (spell c ++ u) = consWritten ⟨c, escaped⟩ (readWritten opening u) := by
  rcases escape?_cases c with ⟨e, he, hp, hn⟩ | ⟨he, control⟩ | ⟨he, h1, h2, h3⟩
  · refine ⟨false, by simp, ?_⟩
    rw [spell, he]
    exact readWritten_plain hp hn
  · refine ⟨true, fun _ => control, ?_⟩
    have numeric := readWritten_numeric opening (n := c.val) (by omega) hu
    rw [CodePoint.ofNat_val] at numeric
    rw [spell, he]
    exact numeric
  · refine ⟨false, by simp, ?_⟩
    rw [spell, he]
    exact readWritten_self h1 h2 h3

/-! ## Reading a whole string -/

/-- Where no first half of a surrogate pair is written as a numeric escape, nothing is joined. -/
theorem joinPairs_eq_map {ws : List Written}
    (h : ∀ w ∈ ws, w.escaped = true → w.point.isHighSurrogate = false) :
    joinPairs ws = ws.map Written.point := by
  fun_induction joinPairs ws with
  | case1 => rfl
  | case2 w => rfl
  | case3 v w rest pair ih =>
      simp only [Bool.and_eq_true] at pair
      have low := h v (List.mem_cons_self ..) pair.1.1.1
      rw [low] at pair
      exact absurd pair.1.2 (by decide)
  | case4 v w rest pair ih =>
      rw [ih fun x hx => h x (List.mem_cons_of_mem _ hx)]
      rfl

theorem readWritten_spelled (opening t rest : Text) :
    ∃ ws, readWritten opening (t.flatMap spell ++ .ofChar '"' :: rest) = .ok (ws, rest) ∧
      ws.map Written.point = t ∧ ∀ w ∈ ws, w.escaped = true → w.point.val < 0x20 := by
  induction t with
  | nil =>
      refine ⟨[], ?_, rfl, by simp⟩
      rw [List.flatMap_nil, List.nil_append, readWritten.eq_def]
      simp
  | cons c t ih =>
      obtain ⟨ws, hws, points, small⟩ := ih
      obtain ⟨escaped, hc, step⟩ := readWritten_spell opening c
        (u := t.flatMap spell ++ .ofChar '"' :: rest) (by simp)
      refine ⟨⟨c, escaped⟩ :: ws, ?_, by rw [List.map_cons, points], ?_⟩
      · rw [List.flatMap_cons, List.append_assoc, step, hws]
        rfl
      · intro w hw
        rcases List.mem_cons.1 hw with rfl | hw
        · exact hc
        · exact small w hw

/-- **A string is read back from what is written for it**, whatever follows its closing quote. -/
theorem readString_spelled (opening t rest : Text) :
    readString opening (t.flatMap spell ++ .ofChar '"' :: rest) = .ok (t, rest) := by
  obtain ⟨ws, hws, points, small⟩ := readWritten_spelled opening t rest
  have apart : joinPairs ws = t := by
    rw [← points]
    refine joinPairs_eq_map fun w hw he => ?_
    have := small w hw he
    simp only [CodePoint.isHighSurrogate, Bool.and_eq_false_iff, decide_eq_false_iff_not]
    omega
  rw [readString, hws]
  show Except.ok (joinPairs ws, rest) = _
  rw [apart]

end JustfileServer.Json
