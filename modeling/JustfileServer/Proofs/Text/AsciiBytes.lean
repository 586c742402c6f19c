import JustfileServer.Proofs.Text.Utf8RoundTrip

/-!
# ASCII bytes stand for themselves

An ASCII byte is in the encoding of no code point but its own (`eq_of_mem_utf8`), and bytes that
are longer than they have to be are never decoded.  So a text that is decoded to ASCII, whatever is
replaced on the way, was that text in ASCII bytes (`decodeReplacing_eq_iff`), and no bytes but its
own are decoded to an ASCII code point (`exists_byte_of_mem_decodeReplacing`).
-/

namespace JustfileServer

theorem CodePoint.val_ofByte (b : UInt8) : (ofByte b).val = b.toNat := by
  have small := b.toNat_lt
  exact val_ofNat (by omega)

theorem CodePoint.ofByte_injective : Function.Injective ofByte := by
  intro a b h
  have same := congrArg val h
  rw [val_ofByte, val_ofByte] at same
  exact UInt8.toNat_inj.1 same

namespace Utf8

variable {b : UInt8}

/-! ## Encoding -/

/-- An ASCII byte is in the encoding of its own code point only. -/
theorem eq_of_mem_utf8 {c : CodePoint} (h : b ∈ c.utf8) (ascii : b.toNat < 0x80) :
    c.val = b.toNat := by
  have hlt := c.val_lt
  have trail (n : Nat) : b ≠ CodePoint.continuation n := by
    rintro rfl
    rw [toNat_continuation] at ascii
    omega
  have lead {n : Nat} (size : n < 0x100) (high : 0x80 ≤ n) : b ≠ UInt8.ofNat n := by
    rintro rfl
    rw [toNat_lead size] at ascii
    omega
  unfold CodePoint.utf8 at h
  by_cases h1 : c.val < 0x80
  · rw [if_pos h1, List.mem_singleton] at h
    rw [h, toNat_lead (by omega)]
  rw [if_neg h1] at h
  by_cases h2 : c.val < 0x800
  · have first := lead (n := 0xC0 + c.val / 0x40) (by omega) (by omega)
    simp only [if_pos h2, List.mem_cons, first, trail, List.not_mem_nil, or_false] at h
  rw [if_neg h2] at h
  by_cases h3 : c.val < 0x10000
  · have first := lead (n := 0xE0 + c.val / 0x1000) (by omega) (by omega)
    simp only [if_pos h3, List.mem_cons, first, trail, List.not_mem_nil, or_false] at h
  · have first := lead (n := 0xF0 + c.val / 0x40000) (by omega) (by omega)
    simp only [if_neg h3, List.mem_cons, first, trail, List.not_mem_nil, or_false] at h

theorem encode_append (s t : Text) : encode (s ++ t) = encode s ++ encode t := List.flatMap_append

/-- ASCII bytes are the encoding of their own code points. -/
theorem encode_map_ofByte {bytes : Bytes} (ascii : ∀ b ∈ bytes, b.toNat < 0x80) :
    encode (bytes.map CodePoint.ofByte) = bytes := by
  induction bytes with
  | nil => rfl
  | cons b bytes ih =>
      have small := ascii b (List.mem_cons_self ..)
      have unit : (CodePoint.ofByte b).utf8 = [b] := by
        rw [CodePoint.utf8, CodePoint.val_ofByte, if_pos small, UInt8.ofNat_toNat]
      rw [List.map_cons, encode, List.flatMap_cons, unit, ← encode,
        ih fun b hb => ascii b (List.mem_cons_of_mem _ hb), List.singleton_append]

/-! ## Decoding -/

/-- Bits that are past ASCII already are so in the whole code point. -/
theorem shown_continued_ge {first : UInt8} {count value : Nat} (high : 0x80 ≤ value)
    (ranges : List ByteRange) (rest : Bytes) :
    0x80 ≤ (continued first count value ranges rest).1.shown.val := by
  induction ranges generalizing count value rest with
  | nil =>
      show 0x80 ≤ (CodePoint.ofNat value).val
      unfold CodePoint.ofNat
      split
      · exact high
      · decide
  | cons g gs ih =>
      cases rest with
      | nil => exact show 0x80 ≤ CodePoint.replacement.val by decide
      | cons b rest =>
          unfold continued
          split
          · exact ih (by omega) rest
          · exact show 0x80 ≤ CodePoint.replacement.val by decide

/-- Two bits are past ASCII with the bits of a second byte. -/
theorem shown_continued_ge_of_two {first : UInt8} {count value : Nat} (high : 2 ≤ value)
    (g : ByteRange) (gs : List ByteRange) (rest : Bytes) :
    0x80 ≤ (continued first count value (g :: gs) rest).1.shown.val := by
  cases rest with
  | nil => exact show 0x80 ≤ CodePoint.replacement.val by decide
  | cons b rest =>
      unfold continued
      split
      · exact shown_continued_ge (by omega) gs rest
      · exact show 0x80 ≤ CodePoint.replacement.val by decide

/-- Of more bytes, a second one that has to be high makes up for a first one without bits. -/
theorem shown_continued_ge_of_second {first : UInt8} {count value : Nat} {g : ByteRange}
    (high : 2 ≤ value * 0x40 + (g.low.toNat - 0x80)) (g' : ByteRange) (gs : List ByteRange)
    (rest : Bytes) : 0x80 ≤ (continued first count value (g :: g' :: gs) rest).1.shown.val := by
  cases rest with
  | nil => exact show 0x80 ≤ CodePoint.replacement.val by decide
  | cons b rest =>
      unfold continued
      split
      · rename_i inside
        have bits := (contains_iff.1 inside).1
        exact shown_continued_ge_of_two (by omega) g' gs rest
      · exact show 0x80 ≤ CodePoint.replacement.val by decide

theorem announced_none {r : Repertoire} (h : 0x80 ≤ b.toNat)
    (h' : b.toNat < 0xC2 ∨ 0xF5 ≤ b.toNat) : announced r b = none := by
  have h1 : ¬ b < 0x80 := by rw [UInt8.lt_iff_toNat_lt]; show ¬ _ < 128; omega
  rw [announced.eq_def, if_neg h1]
  rcases h' with low | high
  · have h2 : b < 0xC2 := UInt8.lt_iff_toNat_lt.2 low
    rw [if_pos h2]
  · have h2 : ¬ b < 0xC2 := by rw [UInt8.lt_iff_toNat_lt]; show ¬ _ < 194; omega
    have h3 : ¬ b < 0xE0 := by rw [UInt8.lt_iff_toNat_lt]; show ¬ _ < 224; omega
    have h4 : b ≠ 0xE0 := by rw [Ne, ← UInt8.toNat_inj]; show ¬ _ = 224; omega
    have h5 : b ≠ 0xED := by rw [Ne, ← UInt8.toNat_inj]; show ¬ _ = 237; omega
    have h6 : ¬ b < 0xF0 := by rw [UInt8.lt_iff_toNat_lt]; show ¬ _ < 240; omega
    have h7 : b ≠ 0xF0 := by rw [Ne, ← UInt8.toNat_inj]; show ¬ _ = 240; omega
    have h8 : ¬ b < 0xF4 := by rw [UInt8.lt_iff_toNat_lt]; show ¬ _ < 244; omega
    have h9 : b ≠ 0xF4 := by rw [Ne, ← UInt8.toNat_inj]; show ¬ _ = 244; omega
    rw [if_neg h2, if_neg h3, if_neg h4, if_neg h5, if_neg h6, if_neg h7, if_neg h8, if_neg h9]

/-- A piece that begins with no ASCII byte is not shown as one. -/
theorem shown_nextPiece_ge {r : Repertoire} (h : 0x80 ≤ b.toNat) (rest : Bytes) :
    0x80 ≤ (nextPiece r b rest).1.shown.val := by
  unfold nextPiece
  by_cases none : b.toNat < 0xC2 ∨ 0xF5 ≤ b.toNat
  · rw [announced_none h none]
    exact show 0x80 ≤ CodePoint.replacement.val by decide
  by_cases two : b.toNat < 0xE0
  · rw [announced_two (by omega) two]
    exact shown_continued_ge_of_two (by omega) _ _ rest
  by_cases three : b.toNat < 0xF0
  · obtain ⟨g, announced, low, -⟩ := announced_three (r := r) (by omega) three
    rw [announced]
    refine shown_continued_ge_of_second ?_ _ _ rest
    rw [low]
    split <;> omega
  · obtain ⟨g, announced, low, -⟩ := announced_four (r := r) (b := b) (by omega) (by omega)
    rw [announced]
    refine shown_continued_ge_of_second ?_ _ _ rest
    rw [low]
    split <;> omega

theorem nextPiece_ascii {r : Repertoire} (h : b.toNat < 0x80) (rest : Bytes) :
    nextPiece r b rest = (.point (.ofByte b), rest) := by
  rw [nextPiece, announced_one h]
  rfl

theorem decodeReplacing_cons_ascii (h : b.toNat < 0x80) (rest : Bytes) :
    decodeReplacing (b :: rest) = .ofByte b :: decodeReplacing rest := by
  rw [decodeReplacing, pieces, nextPiece_ascii h]
  rfl

/-- **Bytes are decoded to a text in ASCII** only when they are the bytes of that text. -/
theorem decodeReplacing_eq_iff {word : Bytes} (ascii : ∀ b ∈ word, b.toNat < 0x80) {data : Bytes} :
    decodeReplacing data = word.map CodePoint.ofByte ↔ data = word := by
  induction word generalizing data with
  | nil =>
      cases data with
      | nil => simp [decodeReplacing, pieces]
      | cons b rest => simp [decodeReplacing, pieces]
  | cons c word ih =>
      have small := ascii c (List.mem_cons_self ..)
      have later (rest : Bytes) : decodeReplacing rest = word.map CodePoint.ofByte ↔ rest = word :=
        ih fun b hb => ascii b (List.mem_cons_of_mem _ hb)
      cases data with
      | nil => simp [decodeReplacing, pieces]
      | cons b rest =>
          by_cases plainByte : b.toNat < 0x80
          · rw [decodeReplacing_cons_ascii plainByte, List.map_cons, List.cons.injEq, later,
              CodePoint.ofByte_injective.eq_iff, List.cons.injEq]
          · have high := shown_nextPiece_ge (r := .scalars) (Nat.not_lt.1 plainByte) rest
            constructor
            · intro same
              rw [decodeReplacing, pieces, List.map_cons, List.map_cons, List.cons.injEq] at same
              rw [same.1, CodePoint.val_ofByte] at high
              omega
            · intro same
              obtain ⟨rfl, -⟩ := List.cons.inj same
              exact absurd small plainByte

/-- What is left behind a piece is the end of the bytes. -/
theorem continued_suffix (first : UInt8) (count value : Nat) (ranges : List ByteRange)
    (rest : Bytes) : (continued first count value ranges rest).2 <:+ rest := by
  induction ranges generalizing count value rest with
  | nil => exact List.suffix_refl _
  | cons g gs ih =>
      cases rest with
      | nil => exact List.suffix_refl _
      | cons b rest =>
          unfold continued
          split
          · exact (ih _ _ rest).trans (List.suffix_cons b rest)
          · exact List.suffix_refl _

theorem nextPiece_suffix (r : Repertoire) (b : UInt8) (rest : Bytes) :
    (nextPiece r b rest).2 <:+ rest := by
  unfold nextPiece
  split
  · exact List.suffix_refl _
  · exact continued_suffix ..

/-- **An ASCII code point is decoded only from its byte.** -/
theorem exists_byte_of_mem_decodeReplacing {c : CodePoint} (small : c.val < 0x80) {data : Bytes}
    (h : c ∈ decodeReplacing data) : ∃ b ∈ data, c = .ofByte b := by
  unfold decodeReplacing at h
  fun_induction pieces .scalars data with
  | case1 => cases h
  | case2 b rest ih =>
      rcases List.mem_cons.1 h with first | later
      · by_cases ascii : b.toNat < 0x80
        · rw [nextPiece_ascii ascii] at first
          exact ⟨b, List.mem_cons_self .., first⟩
        · have high := shown_nextPiece_ge (r := .scalars) (Nat.not_lt.1 ascii) rest
          rw [← first] at high
          omega
      · obtain ⟨b', inside, eq⟩ := ih later
        exact ⟨b', List.mem_cons_of_mem _ ((nextPiece_suffix ..).subset inside), eq⟩

end Utf8

end JustfileServer
