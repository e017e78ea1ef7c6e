import Dialogue.Name
import Dialogue.NameTable
import Dialogue.Value

/-!
# Stores

The variables of a dialogue: values by folded name. A variable that was never set reads as absent,
which conditions take for null.
-/

namespace Dialogue

/-- The variables of a dialogue. -/
structure Store where
  table : NameTable Value

namespace Store

/-- The store without variables. -/
def empty : Store := ⟨.empty⟩

instance : Inhabited Store := ⟨empty⟩

/-- The value of a variable. -/
def get? (s : Store) (name : String) : Option Value := s.table.find? (foldName name)

/-- The store after a variable has been set. -/
def set (s : Store) (name : String) (v : Value) : Store := ⟨s.table.insert (foldName name) v⟩

/-- The store after a variable has been removed. -/
def remove (s : Store) (name : String) : Store := ⟨s.table.erase (foldName name)⟩

/-- The value of a variable, null if it is absent. -/
def read (s : Store) (name : String) : Value := (s.get? name).getD .null

/-- Whether a variable holds anything but null. -/
def has (s : Store) (name : String) : Bool := !(s.read name).isNull

/-- The truth value that a variable holds. -/
def getBool? (s : Store) (name : String) : Option Bool := (s.get? name).bind Value.asBool?

/-- The number that the value of a variable counts as. -/
def getNumber? (s : Store) (name : String) : Option Float := (s.get? name).bind Value.asNumber?

/-- The string that a variable holds. -/
def getString? (s : Store) (name : String) : Option String := (s.get? name).bind Value.asString?

/-- How many variables are set. -/
def size (s : Store) : Nat := s.table.size

/-- The variables with their folded names, in the order of these. -/
def toList (s : Store) : List (String × Value) := s.table.entries

/-- The store after these variables have been set one after the other. -/
def setAll (s : Store) (l : List (String × Value)) : Store :=
  l.foldl (fun s e => s.set e.1 e.2) s

/-! ### Look-ups -/

@[simp] theorem get?_empty (name : String) : empty.get? name = none := rfl

/-- Setting a variable changes it under all names with the same folded form, and no other. -/
theorem get?_set (s : Store) (name other : String) (v : Value) :
    (s.set name v).get? other =
      if foldName other = foldName name then some v else s.get? other :=
  s.table.find?_insert ..

/-- Removing a variable removes it under all names with the same folded form, and no other. -/
theorem get?_remove (s : Store) (name other : String) :
    (s.remove name).get? other =
      if foldName other = foldName name then none else s.get? other :=
  s.table.find?_erase ..

theorem read_set (s : Store) (name other : String) (v : Value) :
    (s.set name v).read other =
      if foldName other = foldName name then v else s.read other := by
  rw [read, get?_set]
  split <;> rfl

theorem read_remove (s : Store) (name other : String) :
    (s.remove name).read other =
      if foldName other = foldName name then .null else s.read other := by
  rw [read, get?_remove]
  split <;> rfl

end Store

end Dialogue
