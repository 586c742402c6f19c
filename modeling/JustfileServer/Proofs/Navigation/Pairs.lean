import Mathlib.Order.Bounds.Basic
import JustfileServer.Navigation.Scope

/-!
# Pairs of braces

`Scope.lastPair?` and `Scope.firstPair?` search bytes for two neighbours that both equal a certain
byte.  `IsPairAt` says where such a pair is, pairs that overlap included, and the searches find the
last one of them (`lastPair?_eq_some_iff`) and the first one (`firstPair?_eq_some_iff`).  So what a
search finds is known where the pairs are, and bytes that are in no pair do not matter to it.
-/

namespace JustfileServer.Scope

variable {b : UInt8} {bytes before after rest : Bytes} {i n : Nat}

/-! ## Pairs of one byte -/

/-- The byte at an offset and the one behind it both equal `b`. -/
def IsPairAt (b : UInt8) (bytes : Bytes) (i : Nat) : Prop :=
  bytes[i]? = some b ∧ bytes[i + 1]? = some b

theorem IsPairAt.mem (pair : IsPairAt b bytes i) : b ∈ bytes := List.mem_of_getElem? pair.1

/-- Both bytes of a pair are there. -/
theorem IsPairAt.add_two_le (pair : IsPairAt b bytes i) : i + 2 ≤ bytes.length :=
  (List.getElem?_eq_some_iff.1 pair.2).1

theorem not_isPairAt_nil : ¬ IsPairAt b [] i := fun pair => nomatch pair.1

theorem not_isPairAt_singleton {x : UInt8} : ¬ IsPairAt b [x] i := fun pair => nomatch pair.2

theorem isPairAt_zero {x y : UInt8} : IsPairAt b (x :: y :: bytes) 0 ↔ x = b ∧ y = b := by
  rw [IsPairAt, List.getElem?_cons_succ, List.getElem?_cons_zero, List.getElem?_cons_zero,
    Option.some.injEq, Option.some.injEq]

theorem isPairAt_succ {x : UInt8} : IsPairAt b (x :: bytes) (i + 1) ↔ IsPairAt b bytes i := by
  rw [IsPairAt, List.getElem?_cons_succ, List.getElem?_cons_succ, IsPairAt]

theorem isPairAt_take : IsPairAt b (bytes.take n) i ↔ IsPairAt b bytes i ∧ i + 2 ≤ n := by
  rw [IsPairAt, IsPairAt]
  constructor
  · rintro ⟨first, second⟩
    obtain ⟨inside, -⟩ := List.getElem?_eq_some_iff.1 second
    rw [List.length_take] at inside
    rw [List.getElem?_take_of_lt (by omega)] at first second
    exact ⟨⟨first, second⟩, by omega⟩
  · rintro ⟨⟨first, second⟩, inside⟩
    rw [List.getElem?_take_of_lt (by omega), List.getElem?_take_of_lt (by omega)]
    exact ⟨first, second⟩

theorem isPairAt_drop : IsPairAt b (bytes.drop n) i ↔ IsPairAt b bytes (n + i) := by
  rw [IsPairAt, List.getElem?_drop, List.getElem?_drop, IsPairAt, Nat.add_assoc]

/-- The two bytes of an opening or a closing are a pair. -/
theorem isPairAt_append : IsPairAt b (before ++ [b, b] ++ after) before.length := by
  rw [IsPairAt, List.append_assoc, List.getElem?_append_right (Nat.le_refl _),
    List.getElem?_append_right (Nat.le_add_right ..), Nat.sub_self, Nat.add_sub_cancel_left]
  exact ⟨rfl, rfl⟩

/-- Bytes without `b` add no pair, neither of themselves nor with a byte before them. -/
theorem isPairAt_append_of_notMem (clean : b ∉ rest) :
    IsPairAt b (bytes ++ rest) i ↔ IsPairAt b bytes i := by
  constructor
  · rintro ⟨first, second⟩
    rcases Nat.lt_or_ge (i + 1) bytes.length with inside | past
    · rw [List.getElem?_append_left (by omega)] at first second
      exact ⟨first, second⟩
    · rw [List.getElem?_append_right past] at second
      exact absurd (List.mem_of_getElem? second) clean
  · intro pair
    have inside := pair.add_two_le
    rw [IsPairAt, List.getElem?_append_left (by omega), List.getElem?_append_left (by omega)]
    exact pair

/-! ## The searches -/

theorem lastPair?_eq_none_iff : lastPair? b bytes = none ↔ ∀ i, ¬ IsPairAt b bytes i := by
  induction bytes with
  | nil => exact ⟨fun _ _ => not_isPairAt_nil, fun _ => rfl⟩
  | cons x bytes ih =>
      cases bytes with
      | nil => exact ⟨fun _ _ => not_isPairAt_singleton, fun _ => rfl⟩
      | cons y bytes =>
          rw [lastPair?]
          constructor
          · intro h i
            split at h
            · cases h
            rename_i rest
            cases i with
            | zero => exact fun pair => by rw [if_pos (isPairAt_zero.1 pair)] at h; cases h
            | succ i => exact fun pair => ih.1 rest i (isPairAt_succ.1 pair)
          · intro pairless
            rw [ih.2 fun i pair => pairless (i + 1) (isPairAt_succ.2 pair)]
            exact if_neg fun pair => pairless 0 (isPairAt_zero.2 pair)

/-- The search from the right finds the last pair. -/
theorem lastPair?_eq_some_iff :
    lastPair? b bytes = some i ↔ IsGreatest {j | IsPairAt b bytes j} i := by
  have found : ∀ i, lastPair? b bytes = some i → IsGreatest {j | IsPairAt b bytes j} i := by
    induction bytes with
    | nil => exact fun _ h => nomatch h
    | cons x bytes ih =>
        cases bytes with
        | nil => exact fun _ h => nomatch h
        | cons y bytes =>
            intro i h
            rw [lastPair?] at h
            split at h
            · rename_i k last
              cases h
              obtain ⟨here, greatest⟩ := ih k last
              refine ⟨isPairAt_succ.2 here, fun j pair => ?_⟩
              cases j with
              | zero => exact Nat.zero_le _
              | succ j => exact Nat.succ_le_succ (greatest (isPairAt_succ.1 pair))
            · rename_i none
              split at h
              · rename_i pair
                cases h
                refine ⟨isPairAt_zero.2 pair, fun j pair => ?_⟩
                cases j with
                | zero => exact Nat.le_refl _
                | succ j => exact absurd (isPairAt_succ.1 pair) (lastPair?_eq_none_iff.1 none j)
              · cases h
  refine ⟨found i, fun greatest => ?_⟩
  cases h : lastPair? b bytes with
  | none => exact absurd greatest.1 (lastPair?_eq_none_iff.1 h i)
  | some k => rw [(found k h).unique greatest]

theorem firstPair?_eq_none_iff : firstPair? b bytes = none ↔ ∀ i, ¬ IsPairAt b bytes i := by
  induction bytes with
  | nil => exact ⟨fun _ _ => not_isPairAt_nil, fun _ => rfl⟩
  | cons x bytes ih =>
      cases bytes with
      | nil => exact ⟨fun _ _ => not_isPairAt_singleton, fun _ => rfl⟩
      | cons y bytes =>
          rw [firstPair?]
          constructor
          · intro h i
            split at h
            · cases h
            rename_i other
            cases i with
            | zero => exact fun pair => other (isPairAt_zero.1 pair)
            | succ i => exact fun pair => ih.1 (Option.map_eq_none_iff.1 h) i (isPairAt_succ.1 pair)
          · intro pairless
            rw [if_neg fun pair => pairless 0 (isPairAt_zero.2 pair)]
            exact Option.map_eq_none_iff.2
              (ih.2 fun i pair => pairless (i + 1) (isPairAt_succ.2 pair))

/-- The search from the left finds the first pair. -/
theorem firstPair?_eq_some_iff :
    firstPair? b bytes = some i ↔ IsLeast {j | IsPairAt b bytes j} i := by
  have found : ∀ i, firstPair? b bytes = some i → IsLeast {j | IsPairAt b bytes j} i := by
    induction bytes with
    | nil => exact fun _ h => nomatch h
    | cons x bytes ih =>
        cases bytes with
        | nil => exact fun _ h => nomatch h
        | cons y bytes =>
            intro i h
            rw [firstPair?] at h
            split at h
            · rename_i pair
              cases h
              exact ⟨isPairAt_zero.2 pair, fun j _ => Nat.zero_le j⟩
            · rename_i other
              obtain ⟨k, first, rfl⟩ := Option.map_eq_some_iff.1 h
              obtain ⟨here, least⟩ := ih k first
              refine ⟨isPairAt_succ.2 here, fun j pair => ?_⟩
              cases j with
              | zero => exact absurd (isPairAt_zero.1 pair) other
              | succ j => exact Nat.succ_le_succ (least (isPairAt_succ.1 pair))
  refine ⟨found i, fun least => ?_⟩
  cases h : firstPair? b bytes with
  | none => exact absurd least.1 (firstPair?_eq_none_iff.1 h i)
  | some k => rw [(found k h).unique least]

/-- What the searches find is known where the pairs are. -/
theorem lastPair?_congr {other : Bytes} (same : ∀ i, IsPairAt b bytes i ↔ IsPairAt b other i) :
    lastPair? b bytes = lastPair? b other := by
  cases h : lastPair? b other with
  | none => exact lastPair?_eq_none_iff.2 fun i pair => lastPair?_eq_none_iff.1 h i ((same i).1 pair)
  | some k =>
      rw [lastPair?_eq_some_iff] at h ⊢
      simpa only [same] using h

theorem firstPair?_congr {other : Bytes} (same : ∀ i, IsPairAt b bytes i ↔ IsPairAt b other i) :
    firstPair? b bytes = firstPair? b other := by
  cases h : firstPair? b other with
  | none =>
      exact firstPair?_eq_none_iff.2 fun i pair => firstPair?_eq_none_iff.1 h i ((same i).1 pair)
  | some k =>
      rw [firstPair?_eq_some_iff] at h ⊢
      simpa only [same] using h

/-! ## Bytes that are in no pair -/

theorem lastPair?_of_notMem (clean : b ∉ bytes) : lastPair? b bytes = none :=
  lastPair?_eq_none_iff.2 fun _ pair => clean pair.mem

theorem lastPair?_append_of_notMem (clean : b ∉ rest) :
    lastPair? b (bytes ++ rest) = lastPair? b bytes :=
  lastPair?_congr fun _ => isPairAt_append_of_notMem clean

theorem firstPair?_append_of_notMem (clean : b ∉ rest) :
    firstPair? b (bytes ++ rest) = firstPair? b bytes :=
  firstPair?_congr fun _ => isPairAt_append_of_notMem clean

end JustfileServer.Scope
