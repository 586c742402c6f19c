import Mathlib.Data.List.Forall2
import JustfileServer.Proofs.Justfile.Names

/-!
# White space at the ends of lines

White space that is added at the end of a line changes neither what the line is there for
(`HasRole.append`) nor the name of a definition on it (`HasName.eq_of_isPadded`).  So two runs of
lines that differ in nothing but such white space define the same (`Outline.forall₂_definitions`):
definitions of the same kinds, with the same names at the same columns of the same lines.  Only what
comes behind the names may end elsewhere.
-/

namespace JustfileServer

/-- The second line is the first one with white space added at its end. -/
structure Line.IsPadded (line padded : Line) : Prop where
  number : padded.number = line.number
  bytes : ∃ tail, IsBlank tail ∧ padded.bytes = line.bytes ++ tail

/-- **Two definitions are alike**: they are of one kind, and they have one name at the same place of
two lines, of which the second one is the first one padded. -/
structure Definition.IsAlike (lines padded : List Line) (d e : Definition) : Prop where
  kind : e.kind = d.kind
  named : ∃ line ∈ lines, ∃ line' ∈ padded, line.IsPadded line' ∧
    ∃ before name, HasName line d before name ∧ HasName line' e before name

/-- The lines of the second text are those of the first one padded. -/
def Text.IsPadded (text padded : Text) : Prop :=
  List.Forall₂ Line.IsPadded (linesOf (Utf8.encode text)) (linesOf (Utf8.encode padded))

variable {bytes head rest tail : Bytes} {line line' : Line}

/-! ## Trimming -/

theorem lt_of_isBlank {b : UInt8} (h : Byte.isBlank b = true) : b.toNat < 0x80 := by
  simp only [Byte.isBlank, Bool.or_eq_true, beq_iff_eq] at h
  rcases h with (((rfl | rfl) | rfl) | rfl) | rfl <;> decide

theorem IsBlank.notMem (h : IsBlank bytes) {b : UInt8} (visible : Byte.isBlank b = false) :
    b ∉ bytes := by
  intro inside
  have blank := h b inside
  rw [visible] at blank
  cases blank

theorem IsBlank.notMem_append (h : IsBlank tail) {b : UInt8} (visible : Byte.isBlank b = false)
    (clean : b ∉ bytes) : b ∉ bytes ++ tail := by
  rw [List.mem_append, not_or]
  exact ⟨clean, h.notMem visible⟩

theorem Bytes.trimEnd_append (bytes : Bytes) (blank : IsBlank tail) :
    trimEnd (bytes ++ tail) = trimEnd bytes := by
  have all : ∀ b ∈ tail.reverse, Byte.isBlank b = true := fun b hb => blank b (List.mem_reverse.1 hb)
  rw [trimEnd, List.reverse_append, List.dropWhile_append_of_pos all, trimEnd]

/-- Bytes with white space before them are trimmed to the same. -/
theorem Bytes.trim_append_left (blank : IsBlank head) (bytes : Bytes) :
    trim (head ++ bytes) = trim bytes := by
  rw [trim, trimStart, List.dropWhile_append_of_pos blank, trim, trimStart]

/-- Bytes with white space behind them are trimmed to the same. -/
theorem Bytes.trim_append (bytes : Bytes) (blank : IsBlank tail) :
    trim (bytes ++ tail) = trim bytes := by
  by_cases all : IsBlank bytes
  · rw [trim_append_left all, trim_eq_nil_iff.2 blank, trim_eq_nil_iff.2 all]
  · have start : trimStart (bytes ++ tail) = trimStart bytes ++ tail := by
      rw [trimStart, List.dropWhile_append, if_neg, trimStart]
      rw [List.isEmpty_iff, List.dropWhile_eq_nil_iff]
      exact all
    rw [trim, start, trimEnd_append _ blank, trim]

namespace NameCut

variable {before name after before' name' after' : Bytes}

theorem trim_eq (h : NameCut bytes before name after) : Bytes.trim bytes = name := by
  have start : Bytes.trimStart name = name := by
    cases name with
    | nil => rfl
    | cons b name => exact List.dropWhile_cons_of_neg (by simp [h.starts b rfl])
  have stop : Bytes.trimEnd name = name := by
    rw [Bytes.trimEnd, List.reverse_eq_iff]
    cases reversed : name.reverse with
    | nil => rfl
    | cons b name' =>
        have last : name.getLast? = some b := by rw [← List.head?_reverse, reversed]; rfl
        exact List.dropWhile_cons_of_neg (by simp [h.ends b last])
  rw [h.eq, Bytes.trim_append _ h.trails, Bytes.trim_append_left h.leads, Bytes.trim, start, stop]

theorem takeWhile_eq (h : NameCut bytes before name after) :
    bytes.takeWhile Byte.isBlank = before := by
  rw [h.eq, List.append_assoc, List.takeWhile_append_of_pos h.leads]
  cases name with
  | nil => exact absurd rfl h.filled
  | cons b name =>
      rw [List.cons_append, List.takeWhile_cons_of_neg (by simp [h.starts b rfl]),
        List.append_nil]

/-- Bytes are cut around one name only. -/
theorem unique (h : NameCut bytes before name after) (h' : NameCut bytes before' name' after') :
    before = before' ∧ name = name' :=
  ⟨h.takeWhile_eq.symm.trans h'.takeWhile_eq, h.trim_eq.symm.trans h'.trim_eq⟩

end NameCut

/-! ## One line -/

theorem CutAtColon.append (h : CutAtColon bytes head rest) (tail : Bytes) :
    CutAtColon (bytes ++ tail) head (rest ++ tail) :=
  ⟨by rw [h.eq, List.append_assoc, List.cons_append], h.first⟩

/-- A line has one first colon. -/
theorem CutAtColon.unique {head' rest' : Bytes} (h : CutAtColon bytes head rest)
    (h' : CutAtColon bytes head' rest') : head = head' := by
  have front {head rest : Bytes} (h : CutAtColon bytes head rest) :
      bytes.takeWhile (· != Byte.colon) = head := by
    have others : ∀ b ∈ head, (b != Byte.colon) = true := by
      intro b hb
      simpa using fun same : b = Byte.colon => h.first (same ▸ hb)
    rw [h.eq, List.takeWhile_append_of_pos others]
    simp
  rw [← front h, front h']

theorem saysNothing_append_iff (blank : IsBlank tail) :
    SaysNothing (bytes ++ tail) ↔ SaysNothing bytes := by
  rw [SaysNothing, SaysNothing, Bytes.trim_append bytes blank]

/-- White space at the end of a line puts no equals sign behind a colon. -/
theorem head?_append_eq_equals_iff (blank : IsBlank tail) :
    (rest ++ tail).head? = some Byte.equals ↔ rest.head? = some Byte.equals := by
  cases rest with
  | nil =>
      refine iff_of_false (fun first => ?_) (by simp)
      exact blank.notMem (by decide) (List.mem_of_head? first)
  | cons b rest => rfl

/-- **White space at the end of a line** does not change its role. -/
theorem HasRole.append {role : LineRole} (h : HasRole bytes role) (blank : IsBlank tail) :
    HasRole (bytes ++ tail) role := by
  have still : ¬ SaysNothing bytes → ¬ SaysNothing (bytes ++ tail) :=
    mt (saysNothing_append_iff blank).1
  have unsigned {rest : Bytes} (sign : rest.head? ≠ some Byte.equals) :
      (rest ++ tail).head? ≠ some Byte.equals :=
    mt (head?_append_eq_equals_iff blank).1 sign
  cases h with
  | ignored silent => exact .ignored ((saysNothing_append_iff blank).2 silent)
  | assignment speaks cut named => exact .assignment (still speaks) (cut.append tail) named
  | namelessAssignment speaks cut nameless =>
      exact .namelessAssignment (still speaks) (cut.append tail) nameless
  | recipe speaks cut sign named =>
      exact .recipe (still speaks) (cut.append tail) (unsigned sign) named
  | namelessRecipe speaks cut sign nameless =>
      exact .namelessRecipe (still speaks) (cut.append tail) (unsigned sign) nameless
  | command speaks plain start first =>
      have colonless := blank.notMem_append (by decide) plain
      exact .command (still speaks) colonless (by rw [start, List.cons_append]) first
  | unknownForm speaks plain start first =>
      have colonless := blank.notMem_append (by decide) plain
      exact .unknownForm (still speaks) colonless (by rw [start, List.cons_append]) first

theorem Line.IsPadded.role_ofLine (pad : line.IsPadded line') :
    (LineForm.ofLine line').role = (LineForm.ofLine line).role := by
  obtain ⟨tail, blank, padded⟩ := pad.bytes
  have role : HasRole line'.bytes (LineForm.ofLine line).role := by
    rw [padded]
    exact (hasRole_iff.2 rfl).append blank
  exact (hasRole_iff.1 role).symm

/-- **White space at the end of a line** does not change the name on it. -/
theorem HasName.eq_of_isPadded {d e : Definition} {before name before' name' : Bytes}
    (h : HasName line d before name) (h' : HasName line' e before' name')
    (pad : line.IsPadded line') : before = before' ∧ name = name' := by
  obtain ⟨head, rest, after, cut, around⟩ := h.cut
  obtain ⟨head', rest', after', cut', around'⟩ := h'.cut
  obtain ⟨tail, -, padded⟩ := pad.bytes
  rw [padded] at cut'
  obtain rfl : head = head' := (cut.append tail).unique cut'
  exact around.unique around'

/-- Where a line defines something the padded line defines the like. -/
theorem LineForm.exists_of_isPadded {d : Definition} (pad : line.IsPadded line')
    (h : ofLine line = .definition d) :
    ∃ e, ofLine line' = .definition e ∧ e.kind = d.kind ∧
      ∃ before name, HasName line d before name ∧ HasName line' e before name := by
  have role := pad.role_ofLine
  rw [h] at role
  cases form : ofLine line' with
  | ignored => rw [form] at role; cases role
  | command span => rw [form] at role; cases role
  | problem cause => rw [form] at role; cases role
  | definition e =>
      rw [form] at role
      obtain ⟨before, name, named⟩ := exists_hasName h
      obtain ⟨before', name', named'⟩ := exists_hasName form
      obtain ⟨rfl, rfl⟩ := named.eq_of_isPadded named' pad
      exact ⟨e, rfl, LineRole.definition.inj role, before, name, named, named'⟩

/-! ## Runs of lines -/

namespace Outline

variable {lines padded : List Line}

/-- Only a line that defines something adds to the definitions. -/
theorem definitions_addLine_of_role_ne {form : LineForm}
    (other : ∀ kind, form.role ≠ .definition kind) (number : Nat) (o : Outline) :
    (o.addLine number form).definitions = o.definitions := by
  cases form with
  | ignored => rfl
  | command span => rfl
  | problem cause => rfl
  | definition d => exact absurd rfl (other d.kind)

theorem definitions_addLine_definition (number : Nat) (d : Definition) (o : Outline) :
    ∃ commands, (o.addLine number (.definition d)).definitions
      = d.addCommands commands :: o.definitions := by
  unfold addLine
  dsimp only
  cases kind : d.kind with
  | recipe => exact ⟨_, rfl⟩
  | assignment =>
      obtain ⟨name, line, column, detail⟩ := d
      cases detail with
      | assignment value => exact ⟨[], rfl⟩
      | recipe dependencies body => cases kind

/-- **Lines that are padded define the like**, in the same order. -/
theorem forall₂_definitions (h : List.Forall₂ Line.IsPadded lines padded) :
    List.Forall₂ (Definition.IsAlike lines padded) (ofLines lines).definitions
      (ofLines padded).definitions := by
  induction h with
  | nil => exact .nil
  | @cons line line' lines padded pad _ ih =>
      have later : List.Forall₂ (Definition.IsAlike (line :: lines) (line' :: padded))
          (ofLines lines).definitions (ofLines padded).definitions := by
        refine ih.imp fun d e alike => ⟨alike.kind, ?_⟩
        obtain ⟨l, hl, l', hl', named⟩ := alike.named
        exact ⟨l, List.mem_cons_of_mem _ hl, l', List.mem_cons_of_mem _ hl', named⟩
      rw [ofLines_cons, ofLines_cons]
      by_cases defines : ∃ d, LineForm.ofLine line = .definition d
      · obtain ⟨d, form⟩ := defines
        obtain ⟨e, form', kind, before, name, named, named'⟩ := LineForm.exists_of_isPadded pad form
        rw [form, form']
        obtain ⟨commands, added⟩ := definitions_addLine_definition line.number d (ofLines lines)
        obtain ⟨commands', added'⟩ := definitions_addLine_definition line'.number e (ofLines padded)
        rw [added, added']
        refine .cons ⟨?_, line, List.mem_cons_self .., line', List.mem_cons_self .., pad, before,
          name, named.addCommands commands, named'.addCommands commands'⟩ later
        rw [Definition.kind_addCommands, Definition.kind_addCommands, kind]
      · have other : ∀ kind, (LineForm.ofLine line).role ≠ .definition kind := by
          intro kind role
          cases form : LineForm.ofLine line with
          | definition d => exact defines ⟨d, form⟩
          | ignored => rw [form] at role; cases role
          | command span => rw [form] at role; cases role
          | problem cause => rw [form] at role; cases role
        have other' := other
        rw [← pad.role_ofLine] at other'
        rw [definitions_addLine_of_role_ne other, definitions_addLine_of_role_ne other']
        exact later

end Outline

end JustfileServer
