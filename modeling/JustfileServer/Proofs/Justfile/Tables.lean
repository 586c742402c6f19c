import Mathlib.Data.List.Basic
import Mathlib.Data.List.Induction
import JustfileServer.Justfile.SymbolIndex

/-!
# The tables of the index

A table sorts the definitions of one kind by their names: each of them stands once in the table,
under its own name and with all others of that name, in their order (`NameTable.Sorts`).  One
definition more keeps this up (`NameTable.Sorts.add`), so it holds of the tables that are built from
all definitions (`SymbolIndex.sorts_ofDefinitions`).
-/

namespace JustfileServer

/-! ## Tables -/

namespace NameTable

variable {table : NameTable} {name other : Text} {d : Definition} {ds : List Definition}

/-- **A table sorts definitions by their names.**  No name is twice in it or empty; what is listed
under a name are the definitions of this name, in their order and at least one; and all definitions
are listed, each as often as it is there. -/
structure Sorts (table : NameTable) (nameOf : Definition → Text) (ds : List Definition) : Prop where
  nodup : table.names.Nodup
  filled : ∀ entry ∈ table, entry.1 ≠ [] ∧ entry.2 ≠ []
  listed : ∀ entry ∈ table, entry.2 = ds.filter fun d => nameOf d = entry.1
  perm : (table.flatMap Prod.snd).Perm ds

@[simp] theorem names_cons (entry : Text × List Definition) (table : NameTable) :
    names (entry :: table) = entry.1 :: names table := rfl

theorem find_of_notMem (h : name ∉ table.names) : table.find name = [] := by
  induction table with
  | nil => rfl
  | cons entry table ih =>
      obtain ⟨n, listed⟩ := entry
      rw [names_cons, List.mem_cons, not_or] at h
      rw [find, if_neg (Ne.symm h.1)]
      exact ih h.2

/-- The names of a table tell its entries apart. -/
theorem mem_iff_of_nodup (h : table.names.Nodup) :
    (name, ds) ∈ table ↔ name ∈ table.names ∧ table.find name = ds := by
  induction table with
  | nil => simp [names]
  | cons entry table ih =>
      obtain ⟨n, listed⟩ := entry
      rw [names_cons, List.nodup_cons] at h
      by_cases same : n = name
      · subst same
        have gone : (n, ds) ∉ table := by
          intro inside
          exact h.1 (List.mem_map.2 ⟨_, inside, rfl⟩)
        simp [find, gone, eq_comm]
      · simp [find, same, Ne.symm same, ih h.2]

theorem names_add (table : NameTable) (name : Text) (d : Definition) :
    (table.add name d).names
      = if name ∈ table.names then table.names else table.names ++ [name] := by
  induction table with
  | nil => rfl
  | cons entry table ih =>
      obtain ⟨n, listed⟩ := entry
      rw [add]
      by_cases same : n = name
      · simp [same]
      · rw [if_neg same, names_cons, names_cons, ih]
        by_cases known : name ∈ names table <;> simp [known, Ne.symm same]

/-- One more definition under a name is listed there, at the end, and nowhere else. -/
theorem find_add (table : NameTable) (name other : Text) (d : Definition) :
    (table.add name d).find other = table.find other ++ if name = other then [d] else [] := by
  induction table with
  | nil =>
      rw [add, find, find]
      split <;> rfl
  | cons entry table ih =>
      obtain ⟨n, ds⟩ := entry
      rw [add]
      by_cases same : n = name
      · subst same
        rw [if_pos rfl, find, find]
        split
        · rfl
        · rw [List.append_nil]
      · rw [if_neg same, find, find, ih]
        by_cases here : n = other
        · subst here
          rw [if_pos rfl, if_pos rfl, if_neg (Ne.symm same), List.append_nil]
        · rw [if_neg here, if_neg here]

/-- One more definition is listed, and nothing is lost. -/
theorem flatMap_add_perm (table : NameTable) (name : Text) (d : Definition) :
    ((table.add name d).flatMap Prod.snd).Perm (table.flatMap Prod.snd ++ [d]) := by
  induction table with
  | nil => exact .refl _
  | cons entry table ih =>
      obtain ⟨n, listed⟩ := entry
      rw [add]
      split
      · have moved : ([d] ++ table.flatMap Prod.snd).Perm (table.flatMap Prod.snd ++ [d]) :=
          List.perm_append_comm
        simpa using moved.append_left listed
      · simpa using ih.append_left listed

namespace Sorts

variable {nameOf : Definition → Text} (h : table.Sorts nameOf ds)
include h

/-- A table has no other names than those of its definitions. -/
theorem mem_names (hd : d ∈ ds) : nameOf d ∈ table.names := by
  obtain ⟨entry, listed, here⟩ := List.mem_flatMap.1 (h.perm.mem_iff.2 hd)
  rw [h.listed entry listed] at here
  rw [of_decide_eq_true (List.mem_filter.1 here).2]
  exact List.mem_map_of_mem listed

/-- **Every name is looked up right**, whether the table has it or not. -/
theorem find_eq (name : Text) : table.find name = ds.filter fun d => nameOf d = name := by
  by_cases known : name ∈ table.names
  · exact h.listed (name, _) ((mem_iff_of_nodup h.nodup).2 ⟨known, rfl⟩)
  · rw [find_of_notMem known, eq_comm, List.filter_eq_nil_iff]
    intro d hd same
    apply known
    rw [← of_decide_eq_true same]
    exact h.mem_names hd

/-- **A table goes on sorting** when a definition is added under its name. -/
theorem add (d : Definition) (named : nameOf d ≠ []) :
    (table.add (nameOf d) d).Sorts nameOf (ds ++ [d]) := by
  have nodup : (table.add (nameOf d) d).names.Nodup := by
    rw [names_add]
    split
    · exact h.nodup
    · rename_i new
      refine List.nodup_append.2 ⟨h.nodup, by simp, ?_⟩
      rintro name known other here rfl
      rw [List.mem_singleton.1 here] at known
      exact new known
  have listed (name : Text) : (table.add (nameOf d) d).find name
      = (ds ++ [d]).filter fun d => nameOf d = name := by
    rw [find_add, h.find_eq, List.filter_append, List.filter_singleton]
    by_cases same : nameOf d = name <;> simp [same]
  have entries : ∀ entry ∈ table.add (nameOf d) d,
      entry.1 ∈ (table.add (nameOf d) d).names ∧
        entry.2 = (ds ++ [d]).filter fun d => nameOf d = entry.1 := by
    intro entry inside
    obtain ⟨known, found⟩ := (mem_iff_of_nodup nodup).1 inside
    exact ⟨known, found.symm.trans (listed entry.1)⟩
  refine ⟨nodup, ?_, fun entry inside => (entries entry inside).2, ?_⟩
  · intro entry inside
    obtain ⟨known, content⟩ := entries entry inside
    rw [content]
    rw [names_add] at known
    -- an old name has an old entry, and a new name is that of the definition
    by_cases old : entry.1 ∈ table.names
    · have before := (mem_iff_of_nodup h.nodup).2 ⟨old, rfl⟩
      obtain ⟨name, some⟩ := h.filled _ before
      refine ⟨name, ?_⟩
      rw [h.listed _ before] at some
      simp [some]
    · have new : entry.1 = nameOf d := by
        split at known
        · exact absurd known old
        · simpa [old] using known
      rw [new]
      exact ⟨named, by simp⟩
  · exact (flatMap_add_perm ..).trans (h.perm.append_right [d])

end Sorts

end NameTable

/-! ## The index -/

namespace SymbolIndex

/-- The table of the definitions of a kind. -/
def table (index : SymbolIndex) : DefinitionKind → NameTable
  | .assignment => index.assignments
  | .recipe => index.recipes

theorem table_add (index : SymbolIndex) (name : Text) (d : Definition) (kind : DefinitionKind) :
    (index.add name d).table kind
      = if d.kind = kind then (index.table kind).add name d else index.table kind := by
  unfold add
  cases hd : d.kind <;> cases kind <;> rfl

/-- **The tables of the index** sort all definitions of their kind that have a name. -/
theorem sorts_ofDefinitions (data : Bytes) (ds : List Definition) (kind : DefinitionKind) :
    ((ofDefinitions data ds).table kind).Sorts (fun d => d.name.text data)
      (ds.filter fun d => d.kind = kind ∧ d.name.text data ≠ []) := by
  induction ds using List.reverseRecOn with
  | nil =>
      cases kind <;> exact ⟨List.nodup_nil, fun _ h => (List.not_mem_nil h).elim,
        fun _ h => (List.not_mem_nil h).elim, .refl _⟩
  | append_singleton ds d ih =>
      rw [ofDefinitions, List.foldl_append, ← ofDefinitions, List.foldl_cons, List.foldl_nil,
        List.filter_append, List.filter_singleton]
      dsimp only
      by_cases named : d.name.text data = []
      · simpa [named] using ih
      · rw [if_neg (by simpa using named), table_add]
        by_cases same : d.kind = kind
        · simpa [same, named] using ih.add d named
        · simpa [same] using ih

end SymbolIndex

end JustfileServer
