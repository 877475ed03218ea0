import Std.Data.TreeMap.Lemmas

/-!
# Tables

Tables from names to entries, for globals, methods, fields and string objects.  The order of a
table is the order of its names by code point, which is also the order of their UTF-8 bytes.
`find?` is the view through which each operation is described.
-/

namespace Lox

/-- A table from names to entries. -/
structure Table (α : Type) where
  entries : Std.TreeMap String α compare

namespace Table

variable {α : Type}

/-- The table without entries. -/
def empty : Table α := ⟨.empty⟩

instance : Inhabited (Table α) := ⟨empty⟩

/-- The entry of a name. -/
def find? (t : Table α) (name : String) : Option α := t.entries[name]?

/-- Has the name an entry? -/
def contains (t : Table α) (name : String) : Bool := t.entries.contains name

/-- Gives a name an entry, in the place of an earlier one. -/
def insert (t : Table α) (name : String) (a : α) : Table α := ⟨t.entries.insert name a⟩

/-- The number of names with an entry. -/
def size (t : Table α) : Nat := t.entries.size

/-- Has no name an entry? -/
def isEmpty (t : Table α) : Bool := t.entries.isEmpty

/-- The entries in the order of their names. -/
def toList (t : Table α) : List (String × α) := t.entries.toList

/-- Gives every name of `other` its entry there. -/
def addAll (t other : Table α) : Table α := ⟨t.entries.insertMany other.toList⟩

/-! ## What the operations do to an entry -/

@[simp] theorem find?_empty (name : String) : (empty : Table α).find? name = none :=
  Std.TreeMap.getElem?_emptyc

theorem find?_insert (t : Table α) (name other : String) (a : α) :
    (t.insert name a).find? other = if name = other then some a else t.find? other := by
  simp only [find?, insert, Std.TreeMap.getElem?_insert, Std.compare_eq_iff_eq]

theorem contains_eq_isSome_find? (t : Table α) (name : String) :
    t.contains name = (t.find? name).isSome :=
  Std.TreeMap.contains_eq_isSome_getElem?

theorem mem_toList_iff {t : Table α} {name : String} {a : α} :
    (name, a) ∈ t.toList ↔ t.find? name = some a :=
  Std.TreeMap.mem_toList_iff_getElem?_eq_some

/-- The entries of the added table shadow those that were there. -/
theorem find?_addAll (t other : Table α) (name : String) :
    (t.addAll other).find? name = (other.find? name).or (t.find? name) := by
  cases h : other.find? name with
  | none =>
    refine Std.TreeMap.getElem?_insertMany_list_of_contains_eq_false ?_
    have hc := contains_eq_isSome_find? other name
    rw [h] at hc
    rw [toList, Std.TreeMap.map_fst_toList_eq_keys, Std.TreeMap.contains_keys]
    exact hc
  | some a =>
    exact Std.TreeMap.getElem?_insertMany_list_of_mem Std.ReflCmp.compare_self
      Std.TreeMap.distinct_keys_toList (mem_toList_iff.2 h)

end Table

end Lox
