import Mathlib.Data.List.Infix
import Mathlib.Data.List.TakeWhile
import JustfileServer.Json.Reader
import JustfileServer.Proofs.Json.Parts
import JustfileServer.Proofs.Results
import JustfileServer.Proofs.Text.Numerals

/-!
# How large the parts of a value are that was read

Whatever the text, the strings of the value that it is read as are no longer than the text, and its
integers have no more digits than are read, which are no more than are written
(`modest_of_ofText`).  The proof follows the reader: each of its parts leaves an end of the text
that it was given, and takes no more for a string than was there.
-/

namespace JustfileServer

/-! ## Numerals -/

namespace Numeral

theorem digitsValue_append (ds : Text) (c : CodePoint) :
    digitsValue (ds ++ [c]) = 10 * digitsValue ds + (c.val - 0x30) := by
  simp [digitsValue]

/-- The value of a run of digits has no more digits than the run. -/
theorem digitsValue_lt {ds : Text} (h : ∀ c ∈ ds, isDigit c = true) :
    digitsValue ds < 10 ^ ds.length := by
  induction ds using List.reverseRecOn with
  | nil => exact Nat.one_pos
  | append_singleton ds c ih =>
      have first := ih fun d hd => h d (List.mem_append_left _ hd)
      have digit := h c (List.mem_append_right _ (List.mem_singleton_self c))
      simp only [isDigit, Bool.and_eq_true, decide_eq_true_eq] at digit
      rw [digitsValue_append, List.length_append, List.length_singleton, Nat.pow_succ]
      omega

end Numeral

namespace Json

/-- A value of its own, its parts left aside, that is no longer than so many code points or so many
digits as are written. -/
def IsModest (size : Nat) : Json → Prop
  | .str t => t.length ≤ size
  | .int n => isLongInteger (.int n) = false
  | _ => True

/-! ## Strings -/

theorem length_joinPairs_le (ws : List Written) : (joinPairs ws).length ≤ ws.length := by
  fun_induction joinPairs ws with
  | case1 => simp
  | case2 => simp
  | case3 v w rest pair ih => simp only [List.length_cons]; omega
  | case4 v w rest single ih => simp only [List.length_cons] at ih ⊢; omega

theorem eq_of_consWritten {w : Written} {r : Reading (List Written)} {ws : List Written}
    {rest : Text} (h : consWritten w r = .ok (ws, rest)) :
    ∃ later, r = .ok (later, rest) ∧ ws = w :: later := by
  cases r with
  | error e => cases h
  | ok r =>
      obtain ⟨later, rest'⟩ := r
      cases h
      exact ⟨later, rfl, rfl⟩

/-- A string takes no fewer code points off the text than it has. -/
theorem readWritten_length {opening t rest : Text} {ws : List Written}
    (h : readWritten opening t = .ok (ws, rest)) :
    rest <:+ t ∧ ws.length ≤ t.length := by
  fun_induction readWritten opening t generalizing ws with
  | case2 c tail quote =>
      cases h
      exact ⟨List.suffix_cons .., Nat.zero_le _⟩
  | case5 c quote backslash e numeric p q r s more n hn nonempty ih =>
      obtain ⟨later, hr, rfl⟩ := eq_of_consWritten h
      obtain ⟨suffix, few⟩ := ih hr
      refine ⟨?_, by simp only [List.length_cons]; omega⟩
      exact suffix.trans ((List.suffix_append [c, e, p, q, r, s] more))
  | case9 c quote backslash e tail plain d hd ih =>
      obtain ⟨later, hr, rfl⟩ := eq_of_consWritten h
      obtain ⟨suffix, few⟩ := ih hr
      refine ⟨?_, by simp only [List.length_cons]; omega⟩
      exact suffix.trans (List.suffix_append [c, e] tail)
  | case11 c tail quote backslash printing ih =>
      obtain ⟨later, hr, rfl⟩ := eq_of_consWritten h
      obtain ⟨suffix, few⟩ := ih hr
      refine ⟨suffix.trans (List.suffix_cons ..), by simp only [List.length_cons]; omega⟩
  | _ => cases h

theorem readString_length {opening t rest u : Text} (h : readString opening t = .ok (u, rest)) :
    rest <:+ t ∧ u.length ≤ t.length := by
  obtain ⟨⟨ws, rest'⟩, written, same⟩ := exists_of_map_eq_ok h
  cases same
  obtain ⟨suffix, few⟩ := readWritten_length written
  exact ⟨suffix, Nat.le_trans (length_joinPairs_le ws) few⟩

/-! ## Numbers -/

theorem takeDigits_suffix (t : Text) : (takeDigits t).2 <:+ t := List.dropWhile_suffix _

theorem isDigit_of_mem_takeDigits {t : Text} {c : CodePoint} (h : c ∈ (takeDigits t).1) :
    Numeral.isDigit c = true := List.mem_takeWhile_imp h

theorem takePart_suffix (t : Text) : (takePart t).2 <:+ t := by
  unfold takePart
  split
  · exact List.suffix_rfl
  · split
    · exact (takeDigits_suffix _).trans (List.suffix_cons ..)
    · exact List.suffix_rfl

theorem takeExponent_suffix (t : Text) : (takeExponent t).2 <:+ t := by
  unfold takeExponent
  split
  · exact List.suffix_rfl
  · rename_i c rest
    split
    · obtain ⟨u, behind, unsigned⟩ : ∃ u, u <:+ c :: rest ∧
          (if (rest.head?.any fun s => isChar s '+' || isChar s '-') = true then rest.drop 1
            else rest) = u := by
        refine ⟨_, ?_, rfl⟩
        split
        · exact (List.drop_suffix _ _).trans (List.suffix_cons ..)
        · exact List.suffix_cons ..
      dsimp only
      rw [unsigned]
      split
      · exact List.suffix_rfl
      · exact (takeDigits_suffix _).trans behind
    · exact List.suffix_rfl

theorem takeWhole_suffix (t : Text) : (takeWhole t).2 <:+ t := by
  unfold takeWhole
  split
  · exact List.suffix_rfl
  · split
    · exact List.suffix_cons ..
    · exact takeDigits_suffix _

theorem isDigit_of_mem_takeWhole {t : Text} {c : CodePoint} (h : c ∈ (takeWhole t).1) :
    Numeral.isDigit c = true := by
  unfold takeWhole at h
  split at h
  · cases h
  · split at h
    · rename_i zero
      obtain rfl := List.mem_singleton.1 h
      simp only [isChar, beq_iff_eq] at zero
      simp [Numeral.isDigit, zero]
    · exact isDigit_of_mem_takeDigits h

/-- A number has no more digits than are read. -/
theorem modest_of_value {p : NumberParts} {v : Json} (h : p.value = .ok v) (size : Nat)
    (digits : ∀ c ∈ p.whole, Numeral.isDigit c = true) : v.IsModest size ∧ v.parts = [v] := by
  unfold NumberParts.value at h
  split at h
  · split at h
    · cases h
    · rename_i short
      cases h
      refine ⟨?_, rfl⟩
      have small := Numeral.digitsValue_lt digits
      have few : (Numeral.decimal (Numeral.digitsValue p.whole)).length ≤ Numeral.maxDigits := by
        rw [Numeral.length_decimal_le_iff (by decide)]
        exact Nat.lt_of_lt_of_le small (Nat.pow_le_pow_right (by decide) (Nat.not_lt.1 short))
      cases p.negative <;> simpa [IsModest, isLongInteger] using few
  · cases h
    exact ⟨trivial, rfl⟩

theorem readNumber_modest {t rest : Text} {v : Json} (h : readNumber t = .ok (v, rest))
    (size : Nat) : rest <:+ t ∧ v.IsModest size ∧ v.parts = [v] := by
  obtain ⟨u, behind, unsigned⟩ : ∃ u, u <:+ t ∧
      (if (t.head?.any fun c => isChar c '-') = true then t.drop 1 else t) = u := by
    refine ⟨_, ?_, rfl⟩
    split
    · exact List.drop_suffix _ _
    · exact List.suffix_rfl
  simp only [readNumber, unsigned] at h
  split at h
  · cases h
  · obtain ⟨w, value, same⟩ := exists_of_map_eq_ok h
    cases same
    refine ⟨?_, modest_of_value value size fun c hc => isDigit_of_mem_takeWhole hc⟩
    exact (takeExponent_suffix _).trans ((takePart_suffix _).trans
      ((takeWhole_suffix _).trans behind))

/-! ## Members -/

theorem mem_setMember {ms : List (Text × Json)} {name : Text} {value : Json} {m : Text × Json}
    (h : m ∈ setMember ms name value) : m ∈ ms ∨ m.2 = value := by
  fun_induction setMember ms name value with
  | case1 =>
      obtain rfl := List.mem_singleton.1 h
      exact .inr rfl
  | case2 v rest =>
      rcases List.mem_cons.1 h with rfl | h
      · exact .inr rfl
      · exact .inl (List.mem_cons_of_mem _ h)
  | case3 n v rest other ih =>
      rcases List.mem_cons.1 h with rfl | h
      · exact .inl (List.mem_cons_self ..)
      · exact (ih h).imp_left (List.mem_cons_of_mem _)

/-- Merging members of one name brings no new values. -/
theorem exists_of_mem_mergeMembers {ms : List (Text × Json)} {m : Text × Json}
    (h : m ∈ mergeMembers ms) : ∃ d ∈ ms, m.2 = d.2 := by
  induction ms using List.reverseRecOn with
  | nil => cases h
  | append_singleton ms d ih =>
      rw [mergeMembers, List.foldl_append] at h
      rcases mem_setMember h with h | h
      · obtain ⟨e, he, hm⟩ := ih h
        exact ⟨e, List.mem_append_left _ he, hm⟩
      · exact ⟨d, List.mem_append_right _ (List.mem_singleton_self d), h⟩

/-! ## Values -/

theorem skipSpace_suffix (t : Text) : skipSpace t <:+ t := List.dropWhile_suffix _

theorem readWord?_modest {t rest : Text} {v : Json} (h : readWord? t = some (v, rest))
    (size : Nat) : rest <:+ t ∧ ∀ p ∈ v.parts, p.IsModest size := by
  obtain ⟨w, hw, found⟩ := List.exists_of_findSome?_eq_some h
  split at found
  · cases found
    refine ⟨List.drop_suffix _ _, ?_⟩
    simp only [words, List.mem_cons, List.not_mem_nil, or_false] at hw
    rcases hw with rfl | rfl | rfl | rfl | rfl | rfl <;> simp [parts, IsModest]
  · cases found

mutual

/-- All parts of a value that is read are modest. -/
theorem readValue_modest (size : Nat) : ∀ {steps : Nat} {t rest : Text} {v : Json},
    readValue steps t = .ok (v, rest) → t.length ≤ size →
      rest <:+ t ∧ ∀ p ∈ v.parts, p.IsModest size
  | 0, _, _, _, h, _ => by cases h
  | _ + 1, [], _, _, h, _ => by cases h
  | steps + 1, c :: tail, rest, v, h, fits => by
      have behind : skipSpace tail <:+ c :: tail :=
        (skipSpace_suffix _).trans (List.suffix_cons ..)
      rw [readValue] at h
      split at h
      -- a string
      · obtain ⟨⟨u, after⟩, read, same⟩ := exists_of_map_eq_ok h
        cases same
        obtain ⟨suffix, few⟩ := readString_length read
        refine ⟨suffix.trans (List.suffix_cons ..), ?_⟩
        rw [List.length_cons] at fits
        simp only [parts, List.mem_singleton, forall_eq]
        exact Nat.le_trans few (by omega)
      split at h
      -- an object
      · split at h
        · cases h
        rename_i d more space
        rw [space] at behind
        split at h
        · cases h
          exact ⟨(List.suffix_cons ..).trans behind, by simp [parts_obj, IsModest]⟩
        obtain ⟨⟨ms, after⟩, read, same⟩ := exists_of_map_eq_ok h
        cases same
        obtain ⟨suffix, modest⟩ := readMembers_modest size read
          (Nat.le_trans behind.length_le fits)
        refine ⟨suffix.trans behind, ?_⟩
        rw [parts_obj, List.forall_mem_cons]
        refine ⟨trivial, fun p hp => ?_⟩
        obtain ⟨m, hm, hp⟩ := List.mem_flatMap.1 hp
        obtain ⟨d, hd, value⟩ := exists_of_mem_mergeMembers hm
        exact modest d hd p (value ▸ hp)
      split at h
      -- an array
      · split at h
        · cases h
        rename_i d more space
        rw [space] at behind
        split at h
        · cases h
          exact ⟨(List.suffix_cons ..).trans behind, by simp [parts_arr, IsModest]⟩
        obtain ⟨⟨vs, after⟩, read, same⟩ := exists_of_map_eq_ok h
        cases same
        obtain ⟨suffix, modest⟩ := readElements_modest size read
          (Nat.le_trans behind.length_le fits)
        refine ⟨suffix.trans behind, ?_⟩
        rw [parts_arr, List.forall_mem_cons]
        refine ⟨trivial, fun p hp => ?_⟩
        obtain ⟨v, hv, hp⟩ := List.mem_flatMap.1 hp
        exact modest v hv p hp
      split at h
      -- a word or a number
      · rename_i r found
        cases h
        exact readWord?_modest found size
      · obtain ⟨suffix, modest, alone⟩ := readNumber_modest h size
        rw [alone]
        exact ⟨suffix, by simpa using modest⟩

theorem readElements_modest (size : Nat) : ∀ {steps : Nat} {t rest : Text} {vs : List Json},
    readElements steps t = .ok (vs, rest) → t.length ≤ size →
      rest <:+ t ∧ ∀ v ∈ vs, ∀ p ∈ v.parts, p.IsModest size
  | 0, _, _, _, h, _ => by cases h
  | steps + 1, t, rest, vs, h, fits => by
      rw [readElements] at h
      obtain ⟨⟨v, after⟩, first, h⟩ := exists_of_bind_eq_ok h
      obtain ⟨suffix, modest⟩ := readValue_modest size first fits
      have behind := (skipSpace_suffix after).trans suffix
      dsimp only at h
      split at h
      · cases h
      rename_i d more space
      rw [space] at behind
      have later := (List.suffix_cons d more).trans behind
      split at h
      · cases h
        exact ⟨later, by simpa using modest⟩
      split at h
      · obtain ⟨⟨ws, end'⟩, read, same⟩ := exists_of_bind_eq_ok h
        cases same
        have next := (skipSpace_suffix more).trans later
        obtain ⟨suffix, others⟩ := readElements_modest size read
          (Nat.le_trans next.length_le fits)
        exact ⟨suffix.trans next, List.forall_mem_cons.2 ⟨modest, others⟩⟩
      · cases h

theorem readMembers_modest (size : Nat) : ∀ {steps : Nat} {t rest : Text}
    {ms : List (Text × Json)}, readMembers steps t = .ok (ms, rest) → t.length ≤ size →
      rest <:+ t ∧ ∀ m ∈ ms, ∀ p ∈ m.2.parts, p.IsModest size
  | 0, _, _, _, h, _ => by cases h
  | _ + 1, [], _, _, h, _ => by cases h
  | steps + 1, c :: tail, rest, ms, h, fits => by
      rw [readMembers] at h
      split at h
      case isFalse => cases h
      obtain ⟨⟨name, afterName⟩, named, h⟩ := exists_of_bind_eq_ok h
      have behindName := (skipSpace_suffix afterName).trans
        ((readString_length named).1.trans (List.suffix_cons c tail))
      dsimp only at h
      split at h
      · cases h
      rename_i d more space
      rw [space] at behindName
      split at h
      case isFalse => cases h
      have start := (skipSpace_suffix more).trans ((List.suffix_cons d more).trans behindName)
      obtain ⟨⟨v, after⟩, first, h⟩ := exists_of_bind_eq_ok h
      obtain ⟨suffix, modest⟩ := readValue_modest size first (Nat.le_trans start.length_le fits)
      have behind := (skipSpace_suffix after).trans (suffix.trans start)
      dsimp only at h
      split at h
      · cases h
      rename_i e others space
      rw [space] at behind
      have later := (List.suffix_cons e others).trans behind
      split at h
      · cases h
        exact ⟨later, by simpa using modest⟩
      split at h
      case isFalse => cases h
      obtain ⟨⟨ns, end'⟩, read, same⟩ := exists_of_bind_eq_ok h
      cases same
      have next := (skipSpace_suffix others).trans later
      obtain ⟨suffix, rest⟩ := readMembers_modest size read (Nat.le_trans next.length_le fits)
      exact ⟨suffix.trans next, List.forall_mem_cons.2 ⟨modest, rest⟩⟩

end

/-- **What a text is read as is modest**: its strings are no longer than the text, and its integers
can be written again. -/
theorem modest_of_ofText {t : Text} {v : Json} (h : ofText t = .ok v) :
    ∀ p ∈ v.parts, p.IsModest t.length := by
  unfold ofText at h
  cases hr : readAll t with
  | error e => rw [hr] at h; cases e <;> cases h
  | ok w =>
      rw [hr] at h
      cases h
      unfold readAll at hr
      split at hr
      · cases hr
      cases hv : readValue (2 * t.length + 1) (skipSpace t) with
      | error e => rw [hv] at hr; cases hr
      | ok r =>
          obtain ⟨v, after⟩ := r
          simp only [hv] at hr
          split at hr
          · cases hr
            exact (readValue_modest t.length hv (skipSpace_suffix t).length_le).2
          · cases hr

end Json

end JustfileServer
