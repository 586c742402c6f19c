import Mathlib.Data.List.Basic
import JustfileServer.Json.Writer

/-!
# The parts of a value

The parts of an array or an object are the value itself and the parts of what is in it
(`parts_arr`, `parts_obj`), so a property of all parts passes on to what is in a value
(`parts_subset_arr`, `parts_subset_obj`).
-/

namespace JustfileServer.Json

theorem partsOfElements_eq (es : List Json) : partsOfElements es = es.flatMap parts := by
  induction es with
  | nil => rfl
  | cons e es ih => rw [partsOfElements, ih, List.flatMap_cons]

theorem partsOfMembers_eq (ms : List (Text × Json)) :
    partsOfMembers ms = ms.flatMap fun m => m.2.parts := by
  induction ms with
  | nil => rfl
  | cons m ms ih => rw [partsOfMembers, ih, List.flatMap_cons]

theorem parts_arr (es : List Json) : (arr es).parts = arr es :: es.flatMap parts := by
  rw [parts, partsOfElements_eq]

theorem parts_obj (ms : List (Text × Json)) :
    (obj ms).parts = obj ms :: ms.flatMap fun m => m.2.parts := by
  rw [parts, partsOfMembers_eq]

theorem mem_parts_self (v : Json) : v ∈ v.parts := by
  cases v <;> simp [parts]

theorem parts_subset_arr {e : Json} {es : List Json} (h : e ∈ es) :
    e.parts ⊆ (arr es).parts := by
  intro p hp
  rw [parts_arr]
  exact List.mem_cons_of_mem _ (List.mem_flatMap.2 ⟨e, h, hp⟩)

theorem parts_subset_obj {m : Text × Json} {ms : List (Text × Json)} (h : m ∈ ms) :
    m.2.parts ⊆ (obj ms).parts := by
  intro p hp
  rw [parts_obj]
  exact List.mem_cons_of_mem _ (List.mem_flatMap.2 ⟨m, h, hp⟩)

/-! ## Integers that are too long -/

@[simp] theorem hasLongInteger_null : hasLongInteger .null = false := rfl

@[simp] theorem hasLongInteger_str (t : Text) : hasLongInteger (.str t) = false := rfl

@[simp] theorem hasLongInteger_int (n : Int) :
    hasLongInteger (.int n) = isLongInteger (.int n) := by
  simp [hasLongInteger, parts]

@[simp] theorem hasLongInteger_arr (es : List Json) :
    hasLongInteger (.arr es) = es.any hasLongInteger := by
  rw [hasLongInteger, parts_arr, List.any_cons, List.any_flatMap]
  rfl

@[simp] theorem hasLongInteger_obj (ms : List (Text × Json)) :
    hasLongInteger (.obj ms) = ms.any fun m => m.2.hasLongInteger := by
  rw [hasLongInteger, parts_obj, List.any_cons, List.any_flatMap]
  rfl

end JustfileServer.Json
