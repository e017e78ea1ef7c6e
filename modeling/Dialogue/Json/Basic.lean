/-!
# JSON trees

The data form of everything that leaves or enters the library. Whole numbers and other numbers are
told apart, as they are in the text of a document.

A record is an object with named fields; fields that the record does not have are passed over. Most
records may also be given as the array of all their fields in their order (`record?`), some have to
be objects (`fields?`).
-/

namespace Dialogue

/-- A JSON tree. -/
inductive Json where
  | null
  | bool (b : Bool)
  | int (n : Int)
  | float (x : Float)
  | string (s : String)
  | array (items : List Json)
  | object (fields : List (String × Json))

namespace Json

/-! ### Leaves -/

/-- The truth value of a leaf. -/
def bool? : Json → Option Bool
  | .bool b => some b
  | _ => none

/-- The text of a leaf. -/
def string? : Json → Option String
  | .string s => some s
  | _ => none

/-- The number of a leaf; a whole number is a number too. -/
def float? : Json → Option Float
  | .int n => some (Float.ofInt n)
  | .float x => some x
  | _ => none

/-- The whole number of a leaf, if it is not negative and below the bound. -/
def natBelow? (bound : Nat) : Json → Option Nat
  | .int n => if 0 ≤ n ∧ n < bound then some n.toNat else none
  | _ => none

/-- The sixteen-bit number of a leaf. -/
def uint16? (j : Json) : Option UInt16 := (j.natBelow? UInt16.size).map UInt16.ofNat

/-- The thirty-two-bit number of a leaf. -/
def uint32? (j : Json) : Option UInt32 := (j.natBelow? UInt32.size).map UInt32.ofNat

/-- The sixty-four-bit number of a leaf. -/
def uint64? (j : Json) : Option UInt64 := (j.natBelow? UInt64.size).map UInt64.ofNat

/-! ### Records -/

/-- The fields of a record. -/
abbrev Fields := List (String × Json)

/-- The fields of a record that has to be an object. -/
def fields? : Json → Option Fields
  | .object fields => some fields
  | _ => none

/-- The fields of a record whose fields have these names, by name or all in order. -/
def record? (names : List String) : Json → Option Fields
  | .object fields => some fields
  | .array items => if items.length = names.length then some (names.zip items) else none
  | _ => none

/-- The fields of a record that may leave out fields, in the order also the last ones. -/
def partialRecord? (names : List String) : Json → Option Fields
  | .object fields => some fields
  | .array items => if items.length ≤ names.length then some (names.zip items) else none
  | _ => none

/-- A field that has to be there. -/
def Fields.get? {α : Type} (r : Fields) (name : String) (read : Json → Option α) : Option α :=
  (r.lookup name).bind read

/-- A field that may be null or left out. -/
def Fields.nullable? {α : Type} (r : Fields) (name : String) (read : Json → Option α) :
    Option (Option α) :=
  match r.lookup name with
  | none => some none
  | some .null => some none
  | some j => (read j).map some

/-- A field that may be left out, with the value that it has then. -/
def Fields.getD? {α : Type} (r : Fields) (name : String) (read : Json → Option α) (default : α) :
    Option α :=
  match r.lookup name with
  | none => some default
  | some j => read j

/-- The things in an array. -/
def list? {α : Type} (read : Json → Option α) : Json → Option (List α)
  | .array items => items.mapM read
  | _ => none

/-- The name of a variant without data: the name alone, or an object that holds nothing for it. -/
def variant? : Json → Option String
  | .string s => some s
  | .object [(s, .null)] => some s
  | _ => none

/-- The form of something that may be absent. -/
def ofOption {α : Type} (write : α → Json) : Option α → Json
  | none => .null
  | some a => write a

/-! ### Sizes -/

theorem sizeOf_lt_of_lookup {name : String} {r : Fields} {j : Json} (h : r.lookup name = some j) :
    sizeOf j < sizeOf r := by
  induction r with
  | nil => simp at h
  | cons a rest ih =>
    obtain ⟨k, v⟩ := a
    rw [List.lookup_cons] at h
    split at h
    · cases h
      simp only [List.cons.sizeOf_spec, Prod.mk.sizeOf_spec]
      omega
    · have := ih h
      simp only [List.cons.sizeOf_spec]
      omega

theorem sizeOf_lt_of_lookup_zip {name : String} {names : List String} {items : List Json} {j : Json}
    (h : (names.zip items).lookup name = some j) : sizeOf j < sizeOf items := by
  induction names generalizing items with
  | nil => simp at h
  | cons k names ih =>
    cases items with
    | nil => simp at h
    | cons i items =>
      rw [List.zip_cons_cons, List.lookup_cons] at h
      split at h
      · cases h
        simp only [List.cons.sizeOf_spec]
        omega
      · have := ih h
        simp only [List.cons.sizeOf_spec]
        omega

/-- A field is smaller than the tree of its record. -/
theorem sizeOf_lt_of_record {names : List String} {body : Json} {r : Fields} {name : String}
    {j : Json} (hr : record? names body = some r) (h : r.lookup name = some j) :
    sizeOf j < sizeOf body := by
  cases body with
  | object fields =>
    obtain rfl : fields = r := by simpa [record?] using hr
    have := sizeOf_lt_of_lookup h
    simp only [object.sizeOf_spec]
    omega
  | array items =>
    rw [record?] at hr
    split at hr
    · cases hr
      have := sizeOf_lt_of_lookup_zip h
      simp only [array.sizeOf_spec]
      omega
    · contradiction
  | _ => simp [record?] at hr

end Json

end Dialogue
