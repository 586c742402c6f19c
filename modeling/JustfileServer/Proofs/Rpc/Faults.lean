import JustfileServer.Proofs.Json.Surrogates
import JustfileServer.Proofs.Text.Trimming
import JustfileServer.Rpc.Fault

/-!
# Faults are told without surrogates

A diagnostic quotes what is not printable, and no surrogate is printable, so the description of a
fault can always be entered in a file (`Fault.hasSurrogate_describe`).  The message of a fault,
which goes to the client, quotes nothing; but only a fault whose words come from elsewhere can have
a surrogate in it (`Fault.hasSurrogate_message`).
-/

namespace JustfileServer

/-! ## Quoting -/

/-- A surrogate is not printed as it is. -/
theorem CodePoint.isPrintable_of_isSurrogate {c : CodePoint} (h : c.isSurrogate = true) :
    c.isPrintable = false := by
  simp only [isSurrogate, Bool.and_eq_true, decide_eq_true_eq] at h
  have listed : (0xD7FC, 0xF8FF) ∈ Printable.unprintableRanges := by decide
  have within : (Printable.unprintableRanges.any fun range =>
      range.1 ≤ c.val && c.val ≤ range.2) = true := by
    rw [List.any_eq_true]
    refine ⟨_, listed, ?_⟩
    simp only [Bool.and_eq_true, decide_eq_true_eq]
    omega
  rw [isPrintable, if_neg (by omega), within]
  rfl

namespace Quoted

theorem isSurrogate_mark (t : Text) : (mark t).isSurrogate = false := by
  unfold mark
  split <;> exact CodePoint.isSurrogate_ofChar _

theorem hasSurrogate_spell {around : CodePoint} (h : around.isSurrogate = false) (c : CodePoint) :
    (spell around c).hasSurrogate = false := by
  unfold spell
  split_ifs with marked newline carriage tab printable low middle
  · have plain : c.isSurrogate = false := by
      rcases Bool.or_eq_true_iff.1 marked with same | same
      · rw [of_decide_eq_true same, h]
      · rw [of_decide_eq_true same, CodePoint.isSurrogate_ofChar]
    simp [plain]
  · simp
  · simp
  · simp
  · have plain : c.isSurrogate = false := by
      by_contra surrogate
      rw [CodePoint.isPrintable_of_isSurrogate (by simpa using surrogate)] at printable
      cases printable
    simp [plain]
  · simp
  · simp
  · simp

/-- There is no surrogate in a quoted text. -/
@[simp] theorem hasSurrogate_quote (t : Text) : (quote t).hasSurrogate = false := by
  simp [quote, isSurrogate_mark, hasSurrogate_spell (isSurrogate_mark t)]

end Quoted

namespace Utf8

@[simp] theorem hasSurrogate_spellSurrogates (t : Text) :
    (spellSurrogates t).hasSurrogate = false := by
  rw [spellSurrogates, Text.hasSurrogate_flatMap, List.any_eq_false]
  intro c _
  by_cases h : c.isSurrogate = true <;> simp [h]

theorem EncodeFault.hasSurrogate_message (f : EncodeFault) : f.message.hasSurrogate = false := by
  unfold EncodeFault.message
  dsimp only
  split <;> simp

theorem DecodeFault.hasSurrogate_message (f : DecodeFault) : f.message.hasSurrogate = false := by
  obtain ⟨start, count, first, reason⟩ := f
  have words : reason.message.hasSurrogate = false := by cases reason <;> decide
  by_cases single : count = 1 <;> simp [DecodeFault.message, single, words]

end Utf8

@[simp] theorem JsonKind.hasSurrogate_label (kind : JsonKind) :
    kind.label.hasSurrogate = false := by
  cases kind <;> decide

theorem Text.hasSurrogate_join {separator : Text} {ts : List Text}
    (h : separator.hasSurrogate = false) (hs : ∀ t ∈ ts, t.hasSurrogate = false) :
    (join separator ts).hasSurrogate = false := by
  rw [hasSurrogate_eq_false_iff]
  intro c inside
  rcases mem_join inside with inside | ⟨t, ht, inside⟩
  · exact hasSurrogate_eq_false_iff.1 h c inside
  · exact hasSurrogate_eq_false_iff.1 (hs t ht) c inside

/-! ## Faults -/

namespace Fault

/-- Do the words of a fault come from elsewhere? -/
def isForeign : Fault → Bool
  | .invalid _ => true
  | .remote _ => true
  | _ => false

/-- The message of a fault in the program's own words has no surrogate. -/
theorem hasSurrogate_message {f : Fault} (h : f.isForeign = false) :
    f.message.hasSurrogate = false := by
  cases f with
  | unencodable f => exact f.hasSurrogate_message
  | undecodable f => exact f.hasSurrogate_message
  | invalid => cases h
  | remote => cases h
  | _ => simp [message, lacking, unordered]

/-- The description of a fault has no surrogate. -/
theorem hasSurrogate_describe (f : Fault) : f.describe.hasSurrogate = false := by
  have name : f.className.hasSurrogate = false := by
    cases f <;> exact Text.hasSurrogate_ofString _
  have details : ∀ t ∈ f.details, t.hasSurrogate = false := by
    cases f <;> simp [Fault.details]
  have joined : (Text.join ", " f.details).hasSurrogate = false :=
    Text.hasSurrogate_join (by decide) details
  simp [describe, name, joined]

end Fault

end JustfileServer
