import JustfileServer.Frame.Writer
import JustfileServer.Proofs.Json.Parts
import JustfileServer.Proofs.Text.Numerals
import JustfileServer.Proofs.Text.Utf8RoundTrip

/-!
# Surrogates in what is written

A lone surrogate is the one code point that keeps a text from being sent.  All that the writer adds
of its own, words and numerals, is made of characters, which are no surrogates; so there is a
surrogate in the written form of a value just when there is one in a string or a name of the value
itself (`hasSurrogate_render`).  This tells which values have a frame (`Frame.send_eq_ok` and
`Frame.send_eq_error`).
-/

namespace JustfileServer

/-- A character is no surrogate. -/
@[simp] theorem CodePoint.isSurrogate_ofChar (c : Char) :
    (CodePoint.ofChar c).isSurrogate = false := by
  have scalar : c.val.toNat < 0xD800 ∨ 0xE000 ≤ c.val.toNat := by
    rcases c.valid with h | ⟨h, -⟩ <;> omega
  simp only [CodePoint.isSurrogate, CodePoint.val_ofChar, Bool.and_eq_false_iff,
    decide_eq_false_iff_not]
  show ¬ 0xD800 ≤ c.val.toNat ∨ ¬ c.val.toNat < 0xE000
  omega

theorem CodePoint.isSurrogate_of_lt {c : CodePoint} (h : c.val < 0xD800) :
    c.isSurrogate = false := by
  simp [CodePoint.isSurrogate, Nat.not_le.2 h]

/-- A byte is no surrogate. -/
@[simp] theorem CodePoint.isSurrogate_ofByte (b : UInt8) :
    (CodePoint.ofByte b).isSurrogate = false := by
  have small := b.toNat_lt
  refine CodePoint.isSurrogate_of_lt ?_
  rw [CodePoint.ofByte, CodePoint.val_ofNat (by omega)]
  omega

/-! ## Texts -/

namespace Text

/-- Is there a surrogate in the text? -/
def hasSurrogate (t : Text) : Bool := t.any CodePoint.isSurrogate

theorem hasSurrogate_eq_false_iff {t : Text} :
    t.hasSurrogate = false ↔ ∀ c ∈ t, c.isSurrogate = false := by
  simp [hasSurrogate]

@[simp] theorem hasSurrogate_nil : hasSurrogate [] = false := rfl

@[simp] theorem hasSurrogate_cons (c : CodePoint) (t : Text) :
    hasSurrogate (c :: t) = (c.isSurrogate || t.hasSurrogate) := rfl

@[simp] theorem hasSurrogate_append (t u : Text) :
    hasSurrogate (t ++ u) = (t.hasSurrogate || u.hasSurrogate) := List.any_append

@[simp] theorem hasSurrogate_flatMap {α : Type} (f : α → Text) (l : List α) :
    hasSurrogate (l.flatMap f) = l.any fun a => (f a).hasSurrogate := by
  induction l with
  | nil => rfl
  | cons a l ih => rw [List.flatMap_cons, hasSurrogate_append, ih, List.any_cons]

/-- What is made of the code points of a text without surrogates has none. -/
theorem hasSurrogate_of_subset {t u : Text} (h : t.hasSurrogate = false) (sub : u ⊆ t) :
    u.hasSurrogate = false := by
  rw [hasSurrogate_eq_false_iff] at h ⊢
  exact fun c hc => h c (sub hc)

@[simp] theorem hasSurrogate_map_ofChar (cs : List Char) :
    hasSurrogate (cs.map CodePoint.ofChar) = false := by
  simp [hasSurrogate]

@[simp] theorem hasSurrogate_map_ofByte (bytes : Bytes) :
    hasSurrogate (bytes.map CodePoint.ofByte) = false := by
  simp [hasSurrogate]

@[simp] theorem hasSurrogate_ofString (s : String) : (ofString s).hasSurrogate = false :=
  hasSurrogate_map_ofChar _

@[simp] theorem hasSurrogate_replicate_ofChar (n : Nat) (c : Char) :
    hasSurrogate (List.replicate n (.ofChar c)) = false := by
  rw [hasSurrogate_eq_false_iff]
  intro d hd
  rw [List.eq_of_mem_replicate hd, CodePoint.isSurrogate_ofChar]

end Text

/-! ## Numerals -/

namespace Numeral

@[simp] theorem hasSurrogate_decimal (n : Nat) : (decimal n).hasSurrogate = false :=
  Text.hasSurrogate_map_ofChar _

@[simp] theorem hasSurrogate_ofInt (n : Int) : (ofInt n).hasSurrogate = false := by
  cases n <;> simp [ofInt]

@[simp] theorem hasSurrogate_hex (width n : Nat) : (hex width n).hasSurrogate = false := by
  induction width generalizing n with
  | zero => rfl
  | succ width ih => simp [hex, ih]

end Numeral

namespace NumberLayout

theorem hasSurrogate_positional {digits : Text} (h : digits.hasSurrogate = false) (point : Int) :
    (positional digits point).hasSurrogate = false := by
  unfold positional
  split
  · simp [h]
  · have part := Text.hasSurrogate_of_subset h (List.drop_subset point.toNat digits)
    have whole := Text.hasSurrogate_of_subset h (List.take_subset point.toNat digits)
    by_cases empty : (digits.drop point.toNat).isEmpty <;> simp [part, whole, empty]

theorem hasSurrogate_exponential {digits : Text} (h : digits.hasSurrogate = false) (power : Int) :
    (exponential digits power).hasSurrogate = false := by
  have first := Text.hasSurrogate_of_subset h (List.take_subset 1 digits)
  have part := Text.hasSurrogate_of_subset h (List.tail_sublist digits).subset
  by_cases empty : digits.tail = [] <;> simp [exponential, first, part, empty]

theorem hasSurrogate_fraction (layout : NumberLayout) (f : DecimalFraction) :
    (layout.fraction f).hasSurrogate = false := by
  have digits : Text.hasSurrogate ((Numeral.decimal f.digits).reverse.dropWhile
      (· == CodePoint.ofChar '0')).reverse = false := by
    refine Text.hasSurrogate_of_subset (Numeral.hasSurrogate_decimal f.digits) fun c hc => ?_
    exact List.mem_reverse.1 ((List.dropWhile_suffix _).subset (List.mem_reverse.1 hc))
  unfold fraction
  dsimp only
  split
  · exact hasSurrogate_positional digits _
  · exact hasSurrogate_exponential digits _

/-- The text of a number has no surrogates when the texts of the special numbers have none. -/
theorem hasSurrogate_render {layout : NumberLayout} (nan : layout.nan.hasSurrogate = false)
    (infinity : layout.infinity.hasSurrogate = false) (x : Binary64) :
    (layout.render x).hasSurrogate = false := by
  cases x with
  | nan => exact nan
  | infinite negative => simp [render, infinity]
  | finite negative mantissa exponent =>
      by_cases zero : mantissa = 0 <;> simp [render, zero, hasSurrogate_fraction]

end NumberLayout

/-! ## Values -/

namespace Json

/-- Is there a surrogate in a string or a name of the value? -/
def hasSurrogate (v : Json) : Bool := v.parts.any fun p => p.ownTexts.any Text.hasSurrogate

@[simp] theorem hasSurrogate_null : hasSurrogate .null = false := rfl

@[simp] theorem hasSurrogate_bool (b : Bool) : hasSurrogate (.bool b) = false := rfl

@[simp] theorem hasSurrogate_int (n : Int) : hasSurrogate (.int n) = false := rfl

@[simp] theorem hasSurrogate_str (t : Text) : hasSurrogate (.str t) = t.hasSurrogate := by
  simp [hasSurrogate, parts, ownTexts]

@[simp] theorem hasSurrogate_arr (es : List Json) :
    hasSurrogate (.arr es) = es.any hasSurrogate := by
  rw [hasSurrogate, parts_arr, List.any_cons, List.any_flatMap]
  rfl

@[simp] theorem hasSurrogate_obj (ms : List (Text × Json)) :
    hasSurrogate (.obj ms) = ms.any fun m => m.1.hasSurrogate || m.2.hasSurrogate := by
  rw [hasSurrogate, parts_obj, List.any_cons, List.any_flatMap, ownTexts]
  induction ms with
  | nil => rfl
  | cons m ms ih =>
      simp only [List.map_cons, List.any_cons, hasSurrogate] at ih ⊢
      rw [← ih]
      ac_rfl

theorem hasSurrogate_spell (c : CodePoint) : (spell c).hasSurrogate = c.isSurrogate := by
  by_cases low : c.val < 0xD800
  · have scalar := CodePoint.isSurrogate_of_lt low
    rw [spell, escape?, scalar]
    split_ifs <;> simp [scalar]
  · have plain : escape? c = none := by
      rw [escape?]
      split_ifs <;> first | rfl | omega
    simp [spell, plain]

theorem hasSurrogate_renderString (t : Text) :
    (renderString spell t).hasSurrogate = t.hasSurrogate := by
  have inside : (t.any fun c => (spell c).hasSurrogate) = t.hasSurrogate := by
    simp only [hasSurrogate_spell]
    rfl
  rw [renderString, Text.hasSurrogate_cons, Text.hasSurrogate_append, Text.hasSurrogate_flatMap,
    inside]
  simp

mutual

/-- The written form of a value has a surrogate in it just when the value has one. -/
theorem hasSurrogate_renderWith : ∀ v : Json, (renderWith spell v).hasSurrogate = v.hasSurrogate
  | .null => rfl
  | .bool b => by cases b <;> rfl
  | .int n => by simp [renderWith]
  | .float x => by
      rw [renderWith, NumberLayout.hasSurrogate_render (by decide) (by decide)]
      rfl
  | .str t => by rw [renderWith, hasSurrogate_renderString, hasSurrogate_str]
  | .arr [] => rfl
  | .arr (e :: es) => by
      have first := hasSurrogate_renderWith e
      have others := hasSurrogate_renderElements es
      simp [renderWith, first, others]
  | .obj [] => rfl
  | .obj ((name, value) :: ms) => by
      have first := hasSurrogate_renderWith value
      have others := hasSurrogate_renderMembers ms
      simp [renderWith, first, others, hasSurrogate_renderString, Bool.or_assoc]

theorem hasSurrogate_renderElements : ∀ es : List Json,
    (renderElements spell es).hasSurrogate = es.any hasSurrogate
  | [] => rfl
  | e :: es => by
      have first := hasSurrogate_renderWith e
      have others := hasSurrogate_renderElements es
      simp [renderElements, first, others]

theorem hasSurrogate_renderMembers : ∀ ms : List (Text × Json),
    (renderMembers spell ms).hasSurrogate = ms.any fun m => m.1.hasSurrogate || m.2.hasSurrogate
  | [] => rfl
  | (name, value) :: ms => by
      have first := hasSurrogate_renderWith value
      have others := hasSurrogate_renderMembers ms
      simp [renderMembers, first, others, hasSurrogate_renderString, Bool.or_assoc]

end

theorem hasSurrogate_render (v : Json) : v.render.hasSurrogate = v.hasSurrogate :=
  hasSurrogate_renderWith v

end Json

/-! ## Frames -/

namespace Frame

variable {v : Json}

/-- A value has a frame when it has neither an integer that is too long nor a surrogate. -/
theorem send_eq_ok (short : v.hasLongInteger = false) (scalar : v.hasSurrogate = false) :
    send v = .ok (ofBody (Utf8.encode v.render)) := by
  rw [← Json.hasSurrogate_render, Text.hasSurrogate_eq_false_iff] at scalar
  rw [send, if_neg (by simp [short]), ofValue, Utf8.encodeStrict_eq_ok scalar]
  rfl

/-- A value with a surrogate has no frame. -/
theorem send_eq_error (surrogate : v.hasSurrogate = true) : ∃ f, send v = .error f := by
  rw [← Json.hasSurrogate_render, Text.hasSurrogate, List.any_eq_true] at surrogate
  obtain ⟨c, hc, hs⟩ := surrogate
  obtain ⟨f, hf⟩ := Utf8.encodeStrict_eq_error hc hs
  rw [send, ofValue, hf]
  split
  · exact ⟨_, rfl⟩
  · exact ⟨_, rfl⟩

end Frame

end JustfileServer
