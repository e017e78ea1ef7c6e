import Dialogue.Store
import Dialogue.Text.Letter

/-!
# Interpolation

A text may hold names in braces, which stand for the values of variables. One pass from left to
right replaces each of them by the text of the value; a name whose variable is absent or null is
left as it is, and so is every brace that belongs to no name. What has been put in is not looked at
again.
-/

namespace Dialogue.Interpolation

/-- The name in braces whose opening brace has just been passed, and what follows its closing
brace: a letter, then word characters up to the brace. -/
def token? : List Char → Option (List Char × List Char)
  | [] => none
  | c :: cs =>
    if Text.isLetter c then
      match cs.dropWhile Text.isWordChar with
      | '}' :: after => some (c :: cs.takeWhile Text.isWordChar, after)
      | _ => none
    else none

theorem length_of_token? {cs name after : List Char} (h : token? cs = some (name, after)) :
    after.length < cs.length := by
  cases cs with
  | nil => simp [token?] at h
  | cons c cs =>
    have hle := (List.dropWhile_suffix (l := cs) Text.isWordChar).length_le
    rw [token?] at h
    split at h
    · split at h
      · next hd =>
        obtain ⟨-, rfl⟩ := by simpa using h
        rw [hd] at hle
        simp only [List.length_cons] at hle ⊢
        omega
      · contradiction
    · contradiction

/-- What stands for a name in braces. -/
def replacement (s : Store) (name : List Char) : List Char :=
  let v := s.read (String.ofList name)
  if v.isNull then '{' :: name ++ ['}'] else v.text.toList

/-- The text with its names replaced. -/
def expand (s : Store) : List Char → List Char
  | [] => []
  | c :: cs =>
    if c = '{' then
      match _h : token? cs with
      | some (name, after) => replacement s name ++ expand s after
      | none => c :: expand s cs
    else c :: expand s cs
termination_by cs => cs.length
decreasing_by
  · have := length_of_token? _h
    simp only [List.length_cons]
    omega
  · simp
  · simp

end Dialogue.Interpolation

namespace Dialogue

/-- A text with the names in braces replaced by the values of the variables. -/
def Store.interpolate (s : Store) (text : String) : String :=
  String.ofList (Interpolation.expand s text.toList)

end Dialogue
