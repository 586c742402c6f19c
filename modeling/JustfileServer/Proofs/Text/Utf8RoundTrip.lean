import Mathlib.Data.List.TakeWhile
import JustfileServer.Text.Utf8

/-!
# UTF-8: encoding and decoding are inverse

The encoding of a code point is taken as one piece, whatever bytes follow it (`nextPiece_utf8`):
the first byte announces the right number of further bytes, and each of these lies in the range
that is announced for it.  So the encoding of a text falls into the pieces of its code points, and
decoding gives the text back (`decode_encode`), for each repertoire that holds the text.

A text has a strict encoding exactly when no surrogate is in it (`encodeStrict_eq_ok` and
`encodeStrict_eq_error`).  An ASCII text has its code points for bytes (`map_ofByte_encode`).
-/

namespace JustfileServer.Utf8

/-- Does the repertoire hold the code point? -/
def Repertoire.admits : Repertoire → CodePoint → Bool
  | .scalars, c => !c.isSurrogate
  | .codePoints, _ => true

variable {r : Repertoire} {b : UInt8}

/-! ## What a first byte announces -/

theorem announced_one (h : b.toNat < 0x80) : announced r b = some (b.toNat, []) := by
  rw [announced.eq_def, if_pos (UInt8.lt_iff_toNat_lt.2 h)]

theorem announced_two (h : 0xC2 ≤ b.toNat) (h' : b.toNat < 0xE0) :
    announced r b = some (b.toNat - 0xC0, [.trail]) := by
  have h1 : ¬ b < 0x80 := by rw [UInt8.lt_iff_toNat_lt]; show ¬ _ < 128; omega
  have h2 : ¬ b < 0xC2 := by rw [UInt8.lt_iff_toNat_lt]; show ¬ _ < 194; omega
  have h3 : b < 0xE0 := UInt8.lt_iff_toNat_lt.2 h'
  rw [announced.eq_def, if_neg h1, if_neg h2, if_pos h3]

/-- Of three bytes the second one is restricted: from below so that two bytes would not do, from
above so that no surrogate is encoded where the repertoire has none. -/
theorem announced_three (h : 0xE0 ≤ b.toNat) (h' : b.toNat < 0xF0) :
    ∃ g, announced r b = some (b.toNat - 0xE0, [g, .trail]) ∧
      g.low.toNat = (if b.toNat = 0xE0 then 0xA0 else 0x80) ∧
      g.high.toNat = (if b.toNat = 0xED ∧ r = .scalars then 0x9F else 0xBF) := by
  have h1 : ¬ b < 0x80 := by rw [UInt8.lt_iff_toNat_lt]; show ¬ _ < 128; omega
  have h2 : ¬ b < 0xC2 := by rw [UInt8.lt_iff_toNat_lt]; show ¬ _ < 194; omega
  have h3 : ¬ b < 0xE0 := by rw [UInt8.lt_iff_toNat_lt]; show ¬ _ < 224; omega
  rw [announced.eq_def, if_neg h1, if_neg h2, if_neg h3]
  by_cases h4 : b = 0xE0
  · subst h4; exact ⟨_, rfl, by simp, by simp⟩
  · have n4 : b.toNat ≠ 0xE0 := fun e => h4 (UInt8.toNat_inj.1 e)
    rw [if_neg h4]
    by_cases h5 : b = 0xED
    · subst h5
      cases r <;> exact ⟨_, rfl, by simp [ByteRange.trail], by simp [ByteRange.trail]⟩
    · have n5 : b.toNat ≠ 0xED := fun e => h5 (UInt8.toNat_inj.1 e)
      have h6 : b < 0xF0 := UInt8.lt_iff_toNat_lt.2 h'
      rw [if_neg h5, if_pos h6]
      exact ⟨_, rfl, by simp [n4, ByteRange.trail], by simp [n5, ByteRange.trail]⟩

/-- Of four bytes the second one is restricted: from below so that three bytes would not do, from
above by the end of the code space. -/
theorem announced_four (h : 0xF0 ≤ b.toNat) (h' : b.toNat < 0xF5) :
    ∃ g, announced r b = some (b.toNat - 0xF0, [g, .trail, .trail]) ∧
      g.low.toNat = (if b.toNat = 0xF0 then 0x90 else 0x80) ∧
      g.high.toNat = (if b.toNat = 0xF4 then 0x8F else 0xBF) := by
  have h1 : ¬ b < 0x80 := by rw [UInt8.lt_iff_toNat_lt]; show ¬ _ < 128; omega
  have h2 : ¬ b < 0xC2 := by rw [UInt8.lt_iff_toNat_lt]; show ¬ _ < 194; omega
  have h3 : ¬ b < 0xE0 := by rw [UInt8.lt_iff_toNat_lt]; show ¬ _ < 224; omega
  have h4 : b ≠ 0xE0 := by rw [Ne, ← UInt8.toNat_inj]; show ¬ _ = 224; omega
  have h5 : b ≠ 0xED := by rw [Ne, ← UInt8.toNat_inj]; show ¬ _ = 237; omega
  have h6 : ¬ b < 0xF0 := by rw [UInt8.lt_iff_toNat_lt]; show ¬ _ < 240; omega
  rw [announced.eq_def, if_neg h1, if_neg h2, if_neg h3, if_neg h4, if_neg h5, if_neg h6]
  by_cases h7 : b = 0xF0
  · subst h7; exact ⟨_, rfl, by simp, by simp⟩
  · have n7 : b.toNat ≠ 0xF0 := fun e => h7 (UInt8.toNat_inj.1 e)
    rw [if_neg h7]
    by_cases h8 : b = 0xF4
    · subst h8; exact ⟨_, rfl, by simp, by simp⟩
    · have n8 : b.toNat ≠ 0xF4 := fun e => h8 (UInt8.toNat_inj.1 e)
      have h9 : b < 0xF4 := by rw [UInt8.lt_iff_toNat_lt]; show _ < 244; omega
      rw [if_pos h9]
      exact ⟨_, rfl, by simp [n7, ByteRange.trail], by simp [n8, ByteRange.trail]⟩

/-! ## Taking up the bytes that follow -/

theorem toNat_lead {n : Nat} (h : n < 0x100) : (UInt8.ofNat n).toNat = n := by
  rw [UInt8.toNat_ofNat']
  omega

theorem toNat_continuation (n : Nat) : (CodePoint.continuation n).toNat = 0x80 + n % 0x40 := by
  rw [CodePoint.continuation, toNat_lead (by omega)]

theorem contains_iff {g : ByteRange} :
    g.contains b = true ↔ g.low.toNat ≤ b.toNat ∧ b.toNat ≤ g.high.toNat := by
  simp [ByteRange.contains, UInt8.le_iff_toNat_le]

/-- A continuation byte in its range is taken up with the six bits that it was made of. -/
theorem continued_continuation {g : ByteRange} {n : Nat} (h : g.low.toNat ≤ 0x80 + n % 0x40)
    (h' : 0x80 + n % 0x40 ≤ g.high.toNat) (first : UInt8) (count value : Nat)
    (gs : List ByteRange) (rest : Bytes) :
    continued first count value (g :: gs) (CodePoint.continuation n :: rest)
      = continued first (count + 1) (value * 0x40 + n % 0x40) gs rest := by
  have inside : g.contains (CodePoint.continuation n) = true :=
    contains_iff.2 (by rw [toNat_continuation]; exact ⟨h, h'⟩)
  rw [continued, if_pos inside, toNat_continuation, Nat.add_sub_cancel_left]

theorem continued_trail (n : Nat) (first : UInt8) (count value : Nat) (gs : List ByteRange)
    (rest : Bytes) :
    continued first count value (.trail :: gs) (CodePoint.continuation n :: rest)
      = continued first (count + 1) (value * 0x40 + n % 0x40) gs rest :=
  continued_continuation (by show 128 ≤ _; omega) (by show _ ≤ 191; omega) ..

/-- The encoding of a code point is one piece, whatever follows it. -/
theorem nextPiece_utf8 {c : CodePoint} (h : r.admits c = true) (rest : Bytes) :
    ∃ b more, c.utf8 = b :: more ∧ nextPiece r b (more ++ rest) = (.point c, rest) := by
  have hlt := c.val_lt
  unfold CodePoint.utf8
  by_cases h1 : c.val < 0x80
  · have lead := toNat_lead (show c.val < 0x100 by omega)
    refine ⟨_, _, if_pos h1, ?_⟩
    rw [nextPiece, announced_one (by omega), lead]
    simp [continued]
  rw [if_neg h1]
  by_cases h2 : c.val < 0x800
  · have lead := toNat_lead (show 0xC0 + c.val / 0x40 < 0x100 by omega)
    refine ⟨_, _, if_pos h2, ?_⟩
    rw [nextPiece, announced_two (by omega) (by omega), lead]
    simp only [List.cons_append, List.nil_append, continued_trail, continued]
    rw [show (0xC0 + c.val / 0x40 - 0xC0) * 0x40 + c.val % 0x40 = c.val by omega,
      CodePoint.ofNat_val]
  rw [if_neg h2]
  by_cases h3 : c.val < 0x10000
  · have lead := toNat_lead (show 0xE0 + c.val / 0x1000 < 0x100 by omega)
    obtain ⟨g, hg, low, high⟩ := announced_three (r := r)
      (b := UInt8.ofNat (0xE0 + c.val / 0x1000)) (by omega) (by omega)
    refine ⟨_, _, if_pos h3, ?_⟩
    rw [lead] at low high
    -- the second byte would only be too high for a surrogate
    have scalar : r = .scalars → c.val < 0xD800 ∨ 0xE000 ≤ c.val := by
      rintro rfl
      have := h
      simp only [Repertoire.admits, CodePoint.isSurrogate, Bool.not_eq_true',
        Bool.and_eq_false_iff, decide_eq_false_iff_not] at this
      omega
    rw [nextPiece, hg, lead]
    simp only [List.cons_append, List.nil_append]
    rw [continued_continuation, continued_trail, continued]
    · rw [show ((0xE0 + c.val / 0x1000 - 0xE0) * 0x40 + c.val / 0x40 % 0x40) * 0x40 + c.val % 0x40
        = c.val by omega, CodePoint.ofNat_val]
    · rw [low]
      split <;> omega
    · rw [high]
      split
      · rename_i top
        have := scalar top.2
        omega
      · omega
  · have lead := toNat_lead (show 0xF0 + c.val / 0x40000 < 0x100 by omega)
    obtain ⟨g, hg, low, high⟩ := announced_four (r := r)
      (b := UInt8.ofNat (0xF0 + c.val / 0x40000)) (by omega) (by omega)
    refine ⟨_, _, if_neg h3, ?_⟩
    rw [lead] at low high
    rw [nextPiece, hg, lead]
    simp only [List.cons_append, List.nil_append]
    rw [continued_continuation, continued_trail, continued_trail, continued]
    · rw [show (((0xF0 + c.val / 0x40000 - 0xF0) * 0x40 + c.val / 0x1000 % 0x40) * 0x40
          + c.val / 0x40 % 0x40) * 0x40 + c.val % 0x40 = c.val by omega, CodePoint.ofNat_val]
    · rw [low]
      split <;> omega
    · rw [high]
      split <;> omega

/-! ## Texts -/

theorem pieces_utf8_append {c : CodePoint} (h : r.admits c = true) (rest : Bytes) :
    pieces r (c.utf8 ++ rest) = .point c :: pieces r rest := by
  obtain ⟨b, more, hc, hp⟩ := nextPiece_utf8 h rest
  rw [hc, List.cons_append, pieces, hp]

/-- The encoding of a text falls into the pieces of its code points. -/
theorem pieces_encode {t : Text} (h : ∀ c ∈ t, r.admits c = true) :
    pieces r (encode t) = t.map .point := by
  induction t with
  | nil => rw [encode, List.flatMap_nil, pieces, List.map_nil]
  | cons c t ih =>
      have hc := h c (List.mem_cons_self ..)
      have ht := ih fun d hd => h d (List.mem_cons_of_mem _ hd)
      rw [encode, List.flatMap_cons, pieces_utf8_append hc, ← encode, ht, List.map_cons]

theorem wholePoints_map_point (t : Text) (offset : Nat) :
    wholePoints offset (t.map .point) = .ok t := by
  induction t generalizing offset with
  | nil => rfl
  | cons c t ih => rw [List.map_cons, wholePoints, ih]; rfl

/-- **Decoding gives back what was encoded**, for every text that the repertoire holds. -/
theorem decode_encode {t : Text} (h : ∀ c ∈ t, r.admits c = true) :
    decode r (encode t) = .ok t := by
  rw [decode, pieces_encode h, wholePoints_map_point]

/-- **Replacing replaces nothing** in what encodes a text without surrogates. -/
theorem decodeReplacing_encode {t : Text} (h : ∀ c ∈ t, c.isSurrogate = false) :
    decodeReplacing (encode t) = t := by
  have scalars : ∀ c ∈ t, Repertoire.scalars.admits c = true := by
    intro c hc
    simp [Repertoire.admits, h c hc]
  have same : Piece.shown ∘ Piece.point = id := rfl
  rw [decodeReplacing, pieces_encode scalars, List.map_map, same, List.map_id]

/-! ## The strict encoding -/

/-- A text without surrogates has a strict encoding, the same as the lenient one. -/
theorem encodeStrict_eq_ok {t : Text} (h : ∀ c ∈ t, c.isSurrogate = false) :
    encodeStrict t = .ok (encode t) := by
  have none : (t.dropWhile fun c => !c.isSurrogate) = [] :=
    List.dropWhile_eq_nil_iff.2 fun c hc => by simp [h c hc]
  simp [encodeStrict, none]

/-- A text with a surrogate in it has no strict encoding. -/
theorem encodeStrict_eq_error {t : Text} {c : CodePoint} (hc : c ∈ t)
    (h : c.isSurrogate = true) : ∃ f, encodeStrict t = .error f := by
  cases hd : t.dropWhile fun c => !c.isSurrogate with
  | nil =>
      have := List.dropWhile_eq_nil_iff.1 hd c hc
      simp [h] at this
  | cons d rest =>
      have hne : (t.dropWhile fun c => !c.isSurrogate) ≠ [] := by simp [hd]
      have first := List.head_dropWhile_not (fun c : CodePoint => !c.isSurrogate) hne
      simp only [hd, List.head_cons, Bool.not_eq_false'] at first
      simp only [encodeStrict, hd, List.takeWhile_cons, first, if_true, List.isEmpty_cons,
        Bool.false_eq_true, if_false]
      exact ⟨_, rfl⟩

/-! ## ASCII -/

theorem encode_eq_map {t : Text} (ascii : ∀ c ∈ t, c.val < 0x80) :
    encode t = t.map fun c => UInt8.ofNat c.val := by
  induction t with
  | nil => rfl
  | cons c t ih =>
      have hc := ascii c (List.mem_cons_self ..)
      rw [encode, List.flatMap_cons, ← encode, ih fun d hd => ascii d (List.mem_cons_of_mem _ hd),
        CodePoint.utf8, if_pos hc, List.map_cons, List.singleton_append]

/-- The bytes of an ASCII text are its code points. -/
theorem map_ofByte_encode {t : Text} (ascii : ∀ c ∈ t, c.val < 0x80) :
    (encode t).map CodePoint.ofByte = t := by
  rw [encode_eq_map ascii, List.map_map]
  refine (List.map_congr_left fun c hc => ?_).trans (List.map_id t)
  have small := ascii c hc
  have value : (UInt8.ofNat c.val).toNat = c.val := by
    rw [UInt8.toNat_ofNat']
    omega
  simp [CodePoint.ofByte, value]

theorem notMem_encode {t : Text} {b : UInt8} (ascii : ∀ c ∈ t, c.val < 0x80)
    (other : ∀ c ∈ t, c.val ≠ b.toNat) : b ∉ encode t := by
  rw [encode_eq_map ascii, List.mem_map]
  rintro ⟨c, hc, rfl⟩
  have small := ascii c hc
  refine other c hc ?_
  rw [UInt8.toNat_ofNat']
  omega

end JustfileServer.Utf8
