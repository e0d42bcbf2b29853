/-
Module: GrammarKit.Table
Purpose: Tables from names to values, kept in the order of their names.  Names are compared character by
  character, which is also the order of their bytes.
Main exports: Table, Table.insert, Table.get?, Table.erase, Table.Ordered, ordered_insert, ordered_ofList
-/

namespace GrammarKit

/-- A table from names to values.  Operations keep the entries in ascending order of their names. -/
structure Table (α : Type u) where
  entries : List (String × α)
deriving Repr, DecidableEq

namespace Table

variable {α : Type u} {β : Type v}

/-- The table without entries. -/
def empty : Table α := ⟨[]⟩

instance : Inhabited (Table α) := ⟨empty⟩

/-- The names in order. -/
def names (t : Table α) : List String :=
  t.entries.map (·.1)

/-- The number of entries. -/
def size (t : Table α) : Nat :=
  t.entries.length

/-- Put an entry in its place among ordered entries, instead of one of the same name. -/
def insertEntry (name : String) (value : α) : List (String × α) → List (String × α)
  | [] => [(name, value)]
  | (other, old) :: rest =>
      if name = other then (name, value) :: rest
      else if name < other then (name, value) :: (other, old) :: rest
      else (other, old) :: insertEntry name value rest

/-- Add an entry, instead of one of the same name. -/
def insert (t : Table α) (name : String) (value : α) : Table α :=
  ⟨insertEntry name value t.entries⟩

/-- The value of a name among entries. -/
def lookup (name : String) : List (String × α) → Option α
  | [] => none
  | (other, value) :: rest => if other = name then some value else lookup name rest

/-- The value of a name. -/
def get? (t : Table α) (name : String) : Option α :=
  lookup name t.entries

/-- Whether a name has a value. -/
def contains (t : Table α) (name : String) : Bool :=
  (t.get? name).isSome

/-- Remove the entry of a name. -/
def erase (t : Table α) (name : String) : Table α :=
  ⟨t.entries.filter (·.1 ≠ name)⟩

/-- The table of a list of entries; later ones replace earlier ones of the same name. -/
def ofList (entries : List (String × α)) : Table α :=
  entries.foldl (fun t (name, value) => t.insert name value) empty

/-- The entries stand in strictly ascending order, so that no name occurs twice. -/
def Ordered (t : Table α) : Prop :=
  t.names.Pairwise (· < ·)

/-- The value just inserted is found. -/
theorem lookup_insertEntry_self (name : String) (value : α) (entries : List (String × α)) :
    lookup name (insertEntry name value entries) = some value := by
  induction entries with
  | nil => simp [insertEntry, lookup]
  | cons entry rest ih =>
    obtain ⟨other, old⟩ := entry
    simp only [insertEntry]
    split
    · simp [lookup]
    · split
      · simp [lookup]
      · next h _ => simp [lookup, Ne.symm h, ih]

/-- Inserting a name leaves the others alone. -/
theorem lookup_insertEntry_of_ne {name wanted : String} (h : wanted ≠ name) (value : α)
    (entries : List (String × α)) :
    lookup wanted (insertEntry name value entries) = lookup wanted entries := by
  induction entries with
  | nil => simp [insertEntry, lookup, Ne.symm h]
  | cons entry rest ih =>
    obtain ⟨other, old⟩ := entry
    simp only [insertEntry]
    split
    · next e => subst e; simp [lookup, Ne.symm h]
    · split
      · simp [lookup, Ne.symm h]
      · simp [lookup, ih]

@[simp] theorem get?_insert_self (t : Table α) (name : String) (value : α) :
    (t.insert name value).get? name = some value :=
  lookup_insertEntry_self name value t.entries

theorem get?_insert_of_ne (t : Table α) {name wanted : String} (h : wanted ≠ name) (value : α) :
    (t.insert name value).get? wanted = t.get? wanted :=
  lookup_insertEntry_of_ne h value t.entries

/-! ### Order -/

/-- Inserting adds no name but its own. -/
theorem mem_names_insertEntry {name wanted : String} {value : α} {entries : List (String × α)}
    (h : wanted ∈ (insertEntry name value entries).map (·.1)) :
    wanted = name ∨ wanted ∈ entries.map (·.1) := by
  induction entries with
  | nil => simpa [insertEntry] using h
  | cons entry rest ih =>
    obtain ⟨other, old⟩ := entry
    simp only [insertEntry] at h
    split at h
    · next e => subst e; simpa using h
    · split at h
      · simpa using h
      · rcases List.mem_cons.mp h with h | h
        · exact .inr (List.mem_cons.mpr (.inl h))
        · rcases ih h with h | h
          · exact .inl h
          · exact .inr (List.mem_cons.mpr (.inr h))

/-- Inserting keeps entries in order. -/
theorem pairwise_insertEntry (name : String) (value : α) {entries : List (String × α)}
    (h : (entries.map (·.1)).Pairwise (· < ·)) :
    ((insertEntry name value entries).map (·.1)).Pairwise (· < ·) := by
  induction entries with
  | nil => simp [insertEntry]
  | cons entry rest ih =>
    obtain ⟨other, old⟩ := entry
    obtain ⟨above, ordered⟩ := List.pairwise_cons.mp h
    simp only [insertEntry]
    split
    · next e => subst e; exact h
    · split
      · next less =>
        refine List.pairwise_cons.mpr ⟨fun wanted member => ?_, h⟩
        rcases List.mem_cons.mp member with rfl | member
        · exact less
        · exact String.lt_trans less (above wanted member)
      · next ne notLess =>
        refine List.pairwise_cons.mpr ⟨fun wanted member => ?_, ih ordered⟩
        rcases mem_names_insertEntry member with rfl | member
        · exact Classical.byContradiction fun notAbove =>
            ne (String.le_antisymm (String.not_lt.mp notAbove) (String.not_lt.mp notLess))
        · exact above wanted member

theorem ordered_empty : (empty : Table α).Ordered :=
  List.Pairwise.nil

theorem ordered_insert {t : Table α} (h : t.Ordered) (name : String) (value : α) :
    (t.insert name value).Ordered :=
  pairwise_insertEntry name value h

theorem ordered_erase {t : Table α} (h : t.Ordered) (name : String) : (t.erase name).Ordered :=
  List.Pairwise.sublist (List.Sublist.map _ List.filter_sublist) h

theorem ordered_ofList (entries : List (String × α)) : (ofList entries).Ordered := by
  suffices ∀ t : Table α, t.Ordered →
      (entries.foldl (fun t (name, value) => t.insert name value) t).Ordered from this _ ordered_empty
  induction entries with
  | nil => exact fun _ h => h
  | cons entry rest ih => exact fun t h => ih _ (ordered_insert h entry.1 entry.2)

end Table
end GrammarKit
