/-
Module: GrammarKit.Proofs.Tables
Purpose: Looking up names in tables: what is found is an entry, what is an entry of an ordered table is
  found, and the entries of a table after a change are the old ones and the new one.
Main exports: Table.mem_of_lookup, Table.lookup_isSome, Table.lookup_append, Table.Ordered.get?_of_mem,
  Table.Ordered.ext, Table.EntriesPaired
-/
import Mathlib.Data.List.Nodup
import GrammarKit.Table

namespace GrammarKit.Table

variable {α : Type}

theorem mem_insertEntry {name : String} {value : α} {entry : String × α} {entries : List (String × α)}
    (h : entry ∈ insertEntry name value entries) : entry = (name, value) ∨ entry ∈ entries := by
  induction entries with
  | nil => exact .inl (List.mem_singleton.mp h)
  | cons other rest ih =>
    simp only [insertEntry] at h
    split at h
    · rcases List.mem_cons.mp h with h | h
      · exact .inl h
      · exact .inr (List.mem_cons_of_mem _ h)
    · split at h
      · exact List.mem_cons.mp h
      · rcases List.mem_cons.mp h with h | h
        · exact .inr (List.mem_cons.mpr (.inl h))
        · exact (ih h).imp_right (List.mem_cons_of_mem _)

theorem lookup_append {name : String} (locals outer : List (String × α)) :
    lookup name (locals ++ outer)
      = (lookup name locals).or (lookup name outer) := by
  induction locals with
  | nil => rfl
  | cons entry locals ih =>
    simp only [List.cons_append, lookup, ih]
    split <;> rfl

theorem mem_of_lookup {name : String} {value : α} {entries : List (String × α)}
    (h : lookup name entries = some value) : (name, value) ∈ entries := by
  induction entries with
  | nil => cases h
  | cons entry entries ih =>
    simp only [lookup] at h
    split at h
    · next same =>
      obtain rfl := Option.some.inj h
      exact List.mem_cons.mpr (.inl (Prod.ext same.symm rfl))
    · exact List.mem_cons_of_mem _ (ih h)

theorem lookup_isSome {name : String} {entries : List (String × α)} :
    (lookup name entries).isSome ↔ name ∈ entries.map (·.1) := by
  induction entries with
  | nil => simp [lookup]
  | cons entry entries ih =>
    simp only [lookup, List.map_cons, List.mem_cons]
    split
    · next same => simp [same]
    · next other => simp [ih, Ne.symm other]

/-- Looking up a name among entries whose values were made of the names. -/
theorem lookup_filterMap {β : Type} (find : String → Option β) (name : String) (entries : List (String × α)) :
    lookup name (entries.filterMap fun entry => (find entry.1).map (entry.1, ·))
      = (lookup name entries).bind fun _ => find name := by
  induction entries with
  | nil => rfl
  | cons entry entries ih =>
    obtain ⟨other, value⟩ := entry
    rw [lookup]
    cases here : find other with
    | none =>
      rw [List.filterMap_cons_none (by rw [here]; rfl), ih]
      split
      · next same => rw [← same, here, Option.bind_fun_none, Option.bind_fun_none]
      · rfl
    | some found =>
      rw [List.filterMap_cons_some (b := (other, found)) (by rw [here]; rfl), lookup, ih]
      split
      · next same => rw [← same, here, Option.bind_some]
      · rfl

/-- Looking up a name among entries whose values were passed through a function. -/
theorem lookup_mapValues {β : Type} (g : α → β) (name : String) (entries : List (String × α)) :
    lookup name (entries.map fun entry => (entry.1, g entry.2)) = (lookup name entries).map g := by
  induction entries with
  | nil => rfl
  | cons entry entries ih =>
    rw [List.map_cons, lookup, lookup, ih]
    split <;> rfl

theorem insertEntry_mapValues {β : Type} (g : α → β) (name : String) (value : α) (entries : List (String × α)) :
    insertEntry name (g value) (entries.map fun entry => (entry.1, g entry.2))
      = (insertEntry name value entries).map fun entry => (entry.1, g entry.2) := by
  induction entries with
  | nil => rfl
  | cons entry entries ih =>
    simp only [List.map_cons, insertEntry, ih]
    split
    · rfl
    · split <;> rfl

theorem Ordered.nodup {t : Table α} (h : t.Ordered) : t.names.Nodup :=
  h.imp fun {a b} (less : a < b) (same : a = b) => String.lt_irrefl b (same ▸ less)

theorem lookup_filter_of_ne {name wanted : String} (h : wanted ≠ name) (entries : List (String × α)) :
    lookup wanted (entries.filter (·.1 ≠ name)) = lookup wanted entries := by
  induction entries with
  | nil => rfl
  | cons entry entries ih =>
    obtain ⟨other, value⟩ := entry
    by_cases same : other = name
    · subst same
      rw [List.filter_cons_of_neg (by simp), ih, lookup, if_neg (Ne.symm h)]
    · rw [List.filter_cons_of_pos (by simpa using same), lookup, lookup, ih]

@[simp] theorem get?_erase_self (t : Table α) (name : String) : (t.erase name).get? name = none := by
  rw [← Option.not_isSome_iff_eq_none, get?, lookup_isSome]
  simp [erase]

theorem get?_erase_of_ne (t : Table α) {name wanted : String} (h : wanted ≠ name) :
    (t.erase name).get? wanted = t.get? wanted :=
  lookup_filter_of_ne h t.entries

/-- Taking out what was just put in under a new name. -/
theorem erase_insert {t : Table α} {name : String} (absent : t.get? name = none) (value : α) :
    (t.insert name value).erase name = t := by
  obtain ⟨entries⟩ := t
  suffices same : (insertEntry name value entries).filter (·.1 ≠ name) = entries from
    congrArg Table.mk same
  have missing : ∀ entry ∈ entries, entry.1 ≠ name := by
    intro entry member same
    have present := lookup_isSome.mpr (List.mem_map_of_mem (f := (·.1)) member)
    rw [same, show lookup name entries = none from absent] at present
    cases present
  clear absent
  induction entries with
  | nil => simp [insertEntry]
  | cons entry entries ih =>
    have other := missing entry List.mem_cons_self
    have others := ih fun entry member => missing entry (List.mem_cons_of_mem _ member)
    have kept : entries.filter (·.1 ≠ name) = entries :=
      List.filter_eq_self.mpr fun entry member => by simpa using missing entry (List.mem_cons_of_mem _ member)
    simp only [insertEntry, Ne.symm other, if_false]
    split
    · rw [List.filter_cons_of_neg (by simp), List.filter_cons_of_pos (by simpa using other), kept]
    · rw [List.filter_cons_of_pos (by simpa using other), others]

/-- Where no name occurs twice, every entry is found by its name. -/
theorem lookup_of_nodup {name : String} {value : α} {entries : List (String × α)}
    (nodup : (entries.map (·.1)).Nodup) (member : (name, value) ∈ entries) : lookup name entries = some value := by
  induction entries with
  | nil => cases member
  | cons first entries ih =>
    obtain ⟨new, nodup⟩ := List.nodup_cons.mp nodup
    rw [lookup]
    rcases List.mem_cons.mp member with rfl | member
    · rw [if_pos rfl]
    · rw [if_neg]
      · exact ih nodup member
      · rintro rfl
        exact new (List.mem_map_of_mem (f := (·.1)) member)

/-- Every entry of an ordered table is found by its name. -/
theorem Ordered.get?_of_mem {t : Table α} (h : t.Ordered) {name : String} {value : α}
    (member : (name, value) ∈ t.entries) : t.get? name = some value := by
  obtain ⟨entries⟩ := t
  induction entries with
  | nil => cases member
  | cons first entries ih =>
    obtain ⟨above, ordered⟩ := List.pairwise_cons.mp h
    rw [get?, lookup]
    rcases List.mem_cons.mp member with rfl | member
    · rw [if_pos rfl]
    · rw [if_neg]
      · exact ih ordered member
      · intro same
        have less : first.1 < name := above name (List.mem_map_of_mem member)
        exact String.lt_irrefl name (same ▸ less)

/-- Ordered tables in which every name has the same value are the same. -/
theorem Ordered.ext {t u : Table α} (h : t.Ordered) (h' : u.Ordered) (same : ∀ name, t.get? name = u.get? name) :
    t = u := by
  have inside : ∀ entry, entry ∈ t.entries ↔ entry ∈ u.entries := by
    intro entry
    constructor
    · intro member
      exact mem_of_lookup ((same entry.1).symm.trans (h.get?_of_mem member))
    · intro member
      exact mem_of_lookup ((same entry.1).trans (h'.get?_of_mem member))
  have together : t.entries.Perm u.entries :=
    (List.perm_ext_iff_of_nodup (.of_map _ h.nodup) (.of_map _ h'.nodup)).mpr inside
  have entries : t.entries = u.entries := by
    apply together.eq_of_pairwise _ (List.pairwise_map.mp h) (List.pairwise_map.mp h')
    intro a b _ _ less more
    exact absurd (String.lt_trans less more) (String.lt_irrefl a.1)
  cases t
  cases u
  exact congrArg Table.mk entries

/-! ### Entries that go together -/

/-- Entries of the same names, whose values go together. -/
def EntriesPaired {β : Type} (r : String → α → β → Prop) : List (String × α) → List (String × β) → Prop :=
  List.Forall₂ fun a b => b.1 = a.1 ∧ r a.1 a.2 b.2

namespace EntriesPaired

variable {β : Type} {r : String → α → β → Prop} {entries : List (String × α)} {entries' : List (String × β)}

theorem refl {r : String → α → α → Prop} (same : ∀ name value, r name value value) :
    ∀ entries, EntriesPaired r entries entries
  | [] => .nil
  | (name, value) :: entries => .cons ⟨rfl, same name value⟩ (refl same entries)

theorem mono (h : EntriesPaired r entries entries') {r' : String → α → β → Prop}
    (weaker : ∀ {name a b}, r name a b → r' name a b) : EntriesPaired r' entries entries' :=
  h.imp fun _ _ => And.imp_right weaker

theorem names (h : EntriesPaired r entries entries') : entries'.map (·.1) = entries.map (·.1) := by
  induction h with
  | nil => rfl
  | cons here _ ih => exact congrArg₂ List.cons here.1 ih

theorem lookup (h : EntriesPaired r entries entries') (name : String) :
    Option.Rel (r name) (Table.lookup name entries) (Table.lookup name entries') := by
  induction h with
  | nil => exact .none
  | @cons a b _ _ here _ ih =>
    obtain ⟨_, value⟩ := a
    obtain ⟨other, value'⟩ := b
    obtain ⟨rfl, both⟩ := here
    rw [Table.lookup, Table.lookup]
    split
    · next same => exact .some (same ▸ both)
    · exact ih

theorem insertEntry (h : EntriesPaired r entries entries') {name : String} {a : α} {b : β} (here : r name a b) :
    EntriesPaired r (Table.insertEntry name a entries) (Table.insertEntry name b entries') := by
  induction h with
  | nil => exact .cons ⟨rfl, here⟩ .nil
  | @cons a b _ _ first others ih =>
    obtain ⟨_, old⟩ := a
    obtain ⟨other, old'⟩ := b
    obtain ⟨rfl, both⟩ := first
    rw [Table.insertEntry, Table.insertEntry]
    split
    · exact .cons ⟨rfl, here⟩ others
    · split
      · exact .cons ⟨rfl, here⟩ (.cons ⟨rfl, both⟩ others)
      · exact .cons ⟨rfl, both⟩ ih

end EntriesPaired

end GrammarKit.Table
