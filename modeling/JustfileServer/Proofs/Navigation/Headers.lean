import JustfileServer.Proofs.Justfile.Ownership
import JustfileServer.Proofs.Navigation.LineEnds

/-!
# What a recipe header is

The header of a recipe is recognised twice: by `Scope.headerSeparator?`, which knows nothing but the
bytes of one line, and by the reader of the whole text, which records a recipe or a problem about
its name.  On a line that is no comment both find the same (`headers_agree`).  A comment is passed
over by the reader, but a colon in it separates like any other one (`comment_separates`).
-/

namespace JustfileServer

/-- The first byte of a line that is no white space starts a comment. -/
def IsComment (bytes : Bytes) : Prop := (Bytes.trim bytes).head? = some Byte.hash

instance (bytes : Bytes) : Decidable (IsComment bytes) := inferInstanceAs (Decidable (_ = _))

/-- **A header is recorded** for the line of a number: as a recipe, or as one that has no name. -/
def Justfile.RecordsHeader (j : Justfile) (number : Nat) : Prop :=
  (∃ d ∈ j.definitions, d.kind = .recipe ∧ d.line = number) ∨
    ∃ p ∈ j.problems, p.cause = .namelessRecipe ∧ p.line = number

instance (j : Justfile) (number : Nat) : Decidable (j.RecordsHeader number) :=
  inferInstanceAs (Decidable (_ ∨ _))

/-! ## The bytes of a header -/

variable {bytes : Bytes} {line : Line} {text : Text}

/-- A line has a separator just when something else than an equals sign, or nothing, follows its
first colon. -/
theorem isSome_headerSeparator?_iff : (Scope.headerSeparator? bytes).isSome = true ↔
    ∃ head rest, CutAtColon bytes head rest ∧ rest.head? ≠ some Byte.equals := by
  constructor
  · intro h
    have colon : Byte.colon ∈ bytes := by
      by_contra plain
      rw [Scope.headerSeparator?_of_notMem plain] at h
      cases h
    obtain ⟨head, rest, cut⟩ := CutAtColon.exists_of_mem colon
    refine ⟨head, rest, cut, fun sign => ?_⟩
    rw [Scope.headerSeparator?_of_cut cut, if_pos sign] at h
    cases h
  · rintro ⟨head, rest, cut, sign⟩
    rw [Scope.headerSeparator?_of_cut cut, if_neg sign]
    rfl

/-- The lines that are there for a recipe, named or not, are those that say something and have a
separator. -/
theorem hasRole_header_iff :
    HasRole bytes (.definition .recipe) ∨ HasRole bytes (.problem .namelessRecipe) ↔
      ¬ SaysNothing bytes ∧ (Scope.headerSeparator? bytes).isSome = true := by
  rw [isSome_headerSeparator?_iff]
  constructor
  · rintro (role | role)
    · cases role with
      | recipe speaks cut sign named => exact ⟨speaks, _, _, cut, sign⟩
    · cases role with
      | namelessRecipe speaks cut sign nameless => exact ⟨speaks, _, _, cut, sign⟩
  · rintro ⟨speaks, head, rest, cut, sign⟩
    by_cases nameless : IsBlank head
    · exact .inr (.namelessRecipe speaks cut sign nameless)
    · exact .inl (.recipe speaks cut sign nameless)

/-- A line with a separator is not blank, so it is a comment if it says nothing. -/
theorem isComment_of_saysNothing (silent : SaysNothing bytes)
    (separates : (Scope.headerSeparator? bytes).isSome = true) : IsComment bytes := by
  rcases silent with blank | comment
  · obtain ⟨head, rest, cut, -⟩ := isSome_headerSeparator?_iff.1 separates
    have white := Bytes.trim_eq_nil_iff.1 blank Byte.colon (by simp [cut.eq])
    exact absurd white (by decide)
  · exact comment

/-! ## What is recorded -/

namespace Justfile

theorem definition_mem_mentions_iff {j : Justfile} {d : Definition} (h : d.line = line.number) :
    .definition d ∈ j.mentions line ↔ d ∈ j.definitions := by
  have inDefinition (e : Definition) : .definition d ∈ e.mentions line ↔
      d = e ∧ e.line = line.number := by
    rw [Definition.mentions]
    split <;> simp_all
  have inProblem (p : Problem) : .definition d ∉ p.mentions line := by
    rw [Problem.mentions]
    split <;> simp
  simp only [Justfile.mentions, List.mem_append, List.mem_flatMap, inDefinition, inProblem]
  constructor
  · rintro (⟨e, he, rfl, -⟩ | ⟨p, -, no⟩)
    · exact he
    · exact no.elim
  · exact fun hd => .inl ⟨d, hd, rfl, h⟩

/-- A recorded header is a mention of its line. -/
theorem recordsHeader_iff_mentions {j : Justfile} : j.RecordsHeader line.number ↔
    (∃ d, d.kind = .recipe ∧ d.line = line.number ∧ .definition d ∈ j.mentions line) ∨
      ∃ p, p.cause = .namelessRecipe ∧ p.line = line.number ∧ .problem p ∈ j.mentions line := by
  constructor
  · rintro (⟨d, hd, kind, number⟩ | ⟨p, hp, cause, number⟩)
    · exact .inl ⟨d, kind, number, (definition_mem_mentions_iff number).2 hd⟩
    · exact .inr ⟨p, cause, number, (problem_mem_mentions_iff number).2 hp⟩
  · rintro (⟨d, kind, number, hd⟩ | ⟨p, cause, number, hp⟩)
    · exact .inl ⟨d, (definition_mem_mentions_iff number).1 hd, kind, number⟩
    · exact .inr ⟨p, (problem_mem_mentions_iff number).1 hp, cause, number⟩

/-- A header is recorded just for the lines that are there for a recipe. -/
theorem recordsHeader_iff (isLine : (ofText text).IsLine line) :
    (ofText text).RecordsHeader line.number ↔
      HasRole line.bytes (.definition .recipe) ∨ HasRole line.bytes (.problem .namelessRecipe) := by
  obtain ⟨before, after, cut, above, below⟩ := exists_cut_of_mem_linesOf (isLine_iff.1 isLine)
  have listed := Outline.listed_role above below
  rw [← cut] at listed
  change LineRole.Listed line ((ofText text).mentions line) _ at listed
  rw [recordsHeader_iff_mentions, hasRole_iff, hasRole_iff]
  generalize (LineForm.ofLine line).role = role at listed
  cases role with
  | ignored =>
      rw [LineRole.Listed] at listed
      simp [listed]
  | definition kind =>
      obtain ⟨d, rfl, number, mentions⟩ := listed
      simp [mentions, number, eq_comm]
  | command =>
      rcases listed with ⟨d, -, mentions⟩ | mentions
      · simp [mentions]
      · simp [mentions]
  | problem cause =>
      rw [LineRole.Listed] at listed
      simp [listed, eq_comm]

/-- **Two readings of a header agree.**  Of a line that is no comment a header is recorded just when
it has a separator, and of a comment none is.  So the scope of recipes is found on the lines of
recorded headers and in comments only. -/
theorem headers_agree (isLine : (ofText text).IsLine line) :
    (¬ IsComment line.bytes → ((Scope.headerSeparator? line.bytes).isSome = true ↔
      (ofText text).RecordsHeader line.number)) ∧
    (IsComment line.bytes → ¬ (ofText text).RecordsHeader line.number) ∧
    ∀ column : Int, Scope.atColumn line.bytes column = .recipes →
      (ofText text).RecordsHeader line.number ∨ IsComment line.bytes := by
  have recorded := (recordsHeader_iff isLine).trans hasRole_header_iff
  rw [recorded]
  refine ⟨fun speaks => ⟨fun separates => ⟨fun silent => ?_, separates⟩, And.right⟩, ?_, ?_⟩
  · exact speaks (isComment_of_saysNothing silent separates)
  · exact fun comment header => header.1 (.inr comment)
  · intro column scope
    have separates : (Scope.headerSeparator? line.bytes).isSome = true := by
      cases found : Scope.headerSeparator? line.bytes with
      | some i => rfl
      | none =>
          rw [Scope.atColumn, Scope.afterHeaderSeparator, found] at scope
          cases inside : Scope.inBraces line.bytes column <;> rw [inside] at scope <;> cases scope
    by_cases silent : SaysNothing line.bytes
    · exact .inr (isComment_of_saysNothing silent separates)
    · exact .inl ⟨silent, separates⟩

/-- A comment that reads like the header below it. -/
def commented : Text := "# a: b\na: b"

theorem headers_agree_commented :
    ¬ (ofText commented).RecordsHeader 0 ∧ (ofText commented).RecordsHeader 1 := by
  have comment : (ofText commented).IsLine ⟨0, 0, Utf8.encode (Text.ofString "# a: b")⟩ :=
    ⟨by decide, by decide⟩
  have header : (ofText commented).IsLine ⟨1, 7, Utf8.encode (Text.ofString "a: b")⟩ :=
    ⟨by decide, by decide⟩
  exact ⟨(headers_agree comment).2.1 (by decide),
    ((headers_agree header).1 (by decide)).1 (by decide)⟩

/-- **A colon in a comment separates**, and what is behind it has the scope of recipes, although
nothing is recorded for the line. -/
theorem comment_separates :
    let line : Line := ⟨0, 0, Utf8.encode (Text.ofString "# a: b")⟩
    (ofText commented).IsLine line ∧ Scope.atColumn line.bytes 5 = .recipes ∧
      ¬ ((Scope.headerSeparator? line.bytes).isSome = true ↔
        (ofText commented).RecordsHeader line.number) := by
  intro line
  refine ⟨⟨by decide, by decide⟩, by decide, ?_⟩
  decide

end Justfile

end JustfileServer
