import JustfileServer.Frame.Reader
import JustfileServer.Proofs.Json.Bounds
import JustfileServer.Proofs.Justfile.Extent

/-!
# Values as they come in frames

What comes from a frame is `IsReadable`: it has no integer that could not be written again and no
string that is longer than a frame (`isReadable_of_decodeBody`), and so have its parts.
-/

namespace JustfileServer

/-- A value as it can come in a frame. -/
def Json.IsReadable (v : Json) : Prop := ∀ p ∈ v.parts, p.IsModest maxBodyLength

namespace Json

theorem isLongInteger_of_le {n : Nat} (h : n ≤ 8 * maxBodyLength) :
    isLongInteger (.int n) = false := by
  have few : (Numeral.decimal n).length ≤ 10 := by
    rw [Numeral.length_decimal_le_iff (by decide)]
    exact Nat.lt_of_le_of_lt h (by decide)
  have most : 10 ≤ Numeral.maxDigits := by decide
  simp only [isLongInteger, Int.natAbs_natCast, decide_eq_false_iff_not]
  omega

namespace IsReadable

variable {v : Json}

theorem hasLongInteger (h : v.IsReadable) : v.hasLongInteger = false := by
  rw [Json.hasLongInteger, List.any_eq_false]
  intro p hp
  have modest := h p hp
  cases p with
  | int n =>
      have short : isLongInteger (.int n) = false := modest
      simp [short]
  | _ => simp [isLongInteger]

theorem length_le {t : Text} (h : (str t).IsReadable) : t.length ≤ maxBodyLength :=
  h (.str t) (by simp [parts])

theorem element {es : List Json} (h : (arr es).IsReadable) {e : Json} (he : e ∈ es) :
    e.IsReadable := fun p hp => h p (parts_subset_arr he hp)

theorem member? {ms : List (Text × Json)} (h : (obj ms).IsReadable) {name : Text}
    (hv : Json.member? ms name = some v) : v.IsReadable := by
  obtain ⟨n, hn⟩ : ∃ n, (n, v) ∈ ms := by
    clear h
    induction ms with
    | nil => cases hv
    | cons m ms ih =>
        rw [Json.member?] at hv
        split at hv
        · cases hv
          exact ⟨_, List.mem_cons_self ..⟩
        · obtain ⟨n, hn⟩ := ih hv
          exact ⟨n, List.mem_cons_of_mem _ hn⟩
  exact fun p hp => h p (parts_subset_obj hn hp)

end IsReadable

theorem isReadable_null : null.IsReadable := by simp [IsReadable, parts, IsModest]

theorem isReadable_obj_nil : (obj []).IsReadable := by
  simp [IsReadable, parts, partsOfMembers, IsModest]

theorem isReadable_arr_nil : (arr []).IsReadable := by
  simp [IsReadable, parts, partsOfElements, IsModest]

theorem isReadable_str_nil : (str []).IsReadable := by simp [IsReadable, parts, IsModest]

theorem isReadable_zero : (int 0).IsReadable := by
  have short : isLongInteger (.int 0) = false := by decide
  simpa [IsReadable, parts, IsModest] using short

end Json

/-- The value of a body is as it can come in a frame. -/
theorem isReadable_of_decodeBody {body : Bytes} (most : body.length ≤ maxBodyLength) {v : Json}
    (h : decodeBody body = .value v) : v.IsReadable := by
  unfold decodeBody at h
  split at h
  · cases h
  · rename_i t decoded
    split at h
    · rename_i w read
      cases h
      intro p hp
      have fits := Nat.le_trans (Utf8.length_decode_le decoded) most
      have modest := Json.modest_of_ofText read p hp
      cases p with
      | str u => exact Nat.le_trans modest fits
      | int n => exact modest
      | _ => trivial
    · cases h
    · cases h

end JustfileServer
