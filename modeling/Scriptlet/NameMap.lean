import Scriptlet.Bytes

/-! # Finite maps from names

Bindings in the order in which their names were first bound. Binding a name again keeps its place.
-/
namespace Scriptlet

structure NameMap (α : Type) where
  entries : List (Bytes × α) := []
  deriving Repr

namespace NameMap

variable {α : Type}

def empty : NameMap α := ⟨[]⟩

def get? (m : NameMap α) (name : Bytes) : Option α := m.entries.lookup name

def contains (m : NameMap α) (name : Bytes) : Bool := (m.get? name).isSome

def insertEntry (name : Bytes) (value : α) : List (Bytes × α) → List (Bytes × α)
  | [] => [(name, value)]
  | (other, old) :: rest =>
    if name == other then (other, value) :: rest
    else (other, old) :: insertEntry name value rest

def insert (m : NameMap α) (name : Bytes) (value : α) : NameMap α :=
  ⟨insertEntry name value m.entries⟩

def names (m : NameMap α) : List Bytes := m.entries.map Prod.fst

/-- Bindings made one after the other, a later one replacing an earlier one of the same name. -/
def ofList (bindings : List (Bytes × α)) : NameMap α :=
  bindings.foldl (fun m b => m.insert b.1 b.2) empty

theorem lookup_insertEntry (name key : Bytes) (value : α) (l : List (Bytes × α)) :
    (insertEntry name value l).lookup key = if key == name then some value else l.lookup key := by
  induction l with
  | nil =>
    cases h : key == name <;> simp [insertEntry, List.lookup_cons, h]
  | cons entry rest ih =>
    obtain ⟨other, old⟩ := entry
    cases hn : name == other with
    | true =>
      obtain rfl : name = other := eq_of_beq hn
      cases h : key == name <;> simp [insertEntry, List.lookup_cons, h]
    | false =>
      cases ho : key == other with
      | true =>
        obtain rfl : key = other := eq_of_beq ho
        have hk : (key == name) = false := by rw [BEq.comm]; exact hn
        simp [insertEntry, hn, hk]
      | false => simp [insertEntry, List.lookup_cons, hn, ho, ih]

theorem insertEntry_insertEntry (name : Bytes) (old new : α) (l : List (Bytes × α)) :
    insertEntry name new (insertEntry name old l) = insertEntry name new l := by
  induction l with
  | nil => simp [insertEntry]
  | cons entry rest ih =>
    cases h : name == entry.1 <;> simp [insertEntry, h, ih]

/-- Of two bindings under one name the later one counts. -/
theorem insert_insert (m : NameMap α) (name : Bytes) (old new : α) :
    (m.insert name old).insert name new = m.insert name new := by
  simp [insert, insertEntry_insertEntry]

/-- A map reads back what was bound last under a name and keeps all other names. -/
theorem get?_insert (m : NameMap α) (name key : Bytes) (value : α) :
    (m.insert name value).get? key = if key == name then some value else m.get? key :=
  lookup_insertEntry name key value m.entries

end NameMap

end Scriptlet
