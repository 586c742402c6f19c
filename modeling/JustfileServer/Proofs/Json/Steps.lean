import JustfileServer.Proofs.Json.Bounds

/-!
# Steps enough

The depth to which the reader of JSON recurs is bounded by a number of steps.  From twice the length
of the text and one more on, the number does not show in what is read (`readValue_eq_read`): each
step takes something off the text before it comes to the same task again.
-/

namespace JustfileServer.Json

mutual

/-- One step more than enough changes nothing. -/
theorem readValue_succ : ∀ {steps : Nat} {t : Text}, 2 * t.length + 1 ≤ steps →
    readValue (steps + 1) t = readValue steps t
  | 0, _, enough => absurd enough (Nat.not_succ_le_zero _)
  | _ + 1, [], _ => rfl
  | steps + 1, c :: rest, enough => by
      have fits : ∀ {d : CodePoint} {more : Text}, skipSpace rest = d :: more →
          2 * (d :: more).length + 2 ≤ steps := by
        intro d more space
        have shorter := (skipSpace_suffix rest).length_le
        rw [space] at shorter
        rw [List.length_cons] at enough
        omega
      rw [readValue, readValue]
      cases space : skipSpace rest with
      | nil => rfl
      | cons d more =>
          dsimp only
          rw [readElements_succ (fits space), readMembers_succ (fits space)]

theorem readElements_succ : ∀ {steps : Nat} {t : Text}, 2 * t.length + 2 ≤ steps →
    readElements (steps + 1) t = readElements steps t
  | 0, _, enough => absurd enough (Nat.not_succ_le_zero _)
  | steps + 1, t, enough => by
      rw [readElements, readElements, readValue_succ (by omega)]
      refine bind_congr_of_ok fun ⟨v, after⟩ first => ?_
      have shorter := (readValue_modest t.length first (Nat.le_refl _)).1.length_le
      dsimp only
      cases space : skipSpace after with
      | nil => rfl
      | cons d more =>
          have less := (skipSpace_suffix after).length_le
          have least := (skipSpace_suffix more).length_le
          rw [space, List.length_cons] at less
          dsimp only
          rw [readElements_succ (by omega)]

theorem readMembers_succ : ∀ {steps : Nat} {t : Text}, 2 * t.length + 2 ≤ steps →
    readMembers (steps + 1) t = readMembers steps t
  | 0, _, enough => absurd enough (Nat.not_succ_le_zero _)
  | _ + 1, [], _ => rfl
  | steps + 1, c :: rest, enough => by
      rw [List.length_cons] at enough
      rw [readMembers, readMembers]
      split
      case isFalse => rfl
      refine bind_congr_of_ok fun ⟨name, afterName⟩ named => ?_
      have behindName := (readString_length named).1.length_le
      dsimp only
      cases space : skipSpace afterName with
      | nil => rfl
      | cons d more =>
          have start := (skipSpace_suffix afterName).length_le
          have value := (skipSpace_suffix more).length_le
          rw [space, List.length_cons] at start
          dsimp only
          rw [readValue_succ (by omega)]
          split
          case isFalse => rfl
          refine bind_congr_of_ok fun ⟨v, after⟩ first => ?_
          have shorter := (readValue_modest _ first (Nat.le_refl _)).1.length_le
          dsimp only
          cases space : skipSpace after with
          | nil => rfl
          | cons e others =>
              have less := (skipSpace_suffix after).length_le
              have least := (skipSpace_suffix others).length_le
              rw [space, List.length_cons] at less
              dsimp only
              rw [readMembers_succ (by omega)]

end

/-- Reads a value that starts at the beginning of a text, with as many steps as it takes. -/
def read (t : Text) : Except Refusal (Json × Text) := readValue (2 * t.length + 1) t

/-- **More steps than enough** change nothing. -/
theorem readValue_eq_read {steps : Nat} (enough : 2 * t.length + 1 ≤ steps) :
    readValue steps t = read t := by
  induction steps, enough using Nat.le_induction with
  | base => rfl
  | succ steps enough ih => rw [readValue_succ enough, ih]

end JustfileServer.Json
