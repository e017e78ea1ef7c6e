import Dialogue.Runner.Event

/-!
# Backlogs

The events that a host has not collected yet. A backlog keeps at most as many as its limit says, and
lets the oldest go; with the limit zero it keeps none.

A backlog is a queue in two lists: events come in at the head of one and leave at the head of the
other, which is filled from the first when it has run out. So an event that comes in costs the same
whether the limit is small or larger than any run of a dialogue.

The view is `toList`, oldest first. `toList_add` says that adding events keeps the latest ones of
the old and the new, and `length_toList_le` that the limit is kept.
-/

namespace Dialogue

/-- The events that are kept, the older ones with the oldest first and the newer ones with the
newest first, and how many there are. -/
structure Backlog where
  limit : UInt64
  older : List Event
  newer : List Event
  size : Nat
  size_eq : size = older.length + newer.length
  size_le_limit : size ≤ limit.toNat

namespace Backlog

/-- The empty backlog of a limit. -/
def empty (limit : UInt64) : Backlog := ⟨limit, [], [], 0, rfl, Nat.zero_le _⟩

/-- The events of a backlog, oldest first. -/
def toList (b : Backlog) : List Event := b.older ++ b.newer.reverse

/-- The backlog after an event has come in. When there is no room, the oldest event goes. -/
def push (b : Backlog) (e : Event) : Backlog :=
  if hroom : b.size < b.limit.toNat then
    ⟨b.limit, b.older, e :: b.newer, b.size + 1, by simp [b.size_eq, Nat.add_assoc], hroom⟩
  else
    match hold : b.older with
    | _ :: rest =>
      ⟨b.limit, rest, e :: b.newer, b.size,
        by simp only [b.size_eq, hold, List.length_cons]; omega, b.size_le_limit⟩
    | [] =>
      match hnew : b.newer.reverse with
      | _ :: rest =>
        ⟨b.limit, rest, [e], b.size, by
          have h := congrArg List.length hnew
          simp only [List.length_reverse, List.length_cons] at h
          simp [b.size_eq, hold, h], b.size_le_limit⟩
      | [] => b

/-- The backlog after some events have come in. -/
def add (b : Backlog) (events : List Event) : Backlog := events.foldl push b

/-- The backlog after its events have been collected. -/
def drain (b : Backlog) : Backlog := empty b.limit

/-! ### What is kept -/

@[simp] theorem length_toList (b : Backlog) : b.toList.length = b.size := by
  simp [toList, b.size_eq]

/-- A backlog never holds more events than its limit. -/
theorem length_toList_le (b : Backlog) : b.toList.length ≤ b.limit.toNat := by
  rw [length_toList]
  exact b.size_le_limit

@[simp] theorem limit_push (b : Backlog) (e : Event) : (b.push e).limit = b.limit := by
  unfold push
  split
  · rfl
  · split
    · rfl
    · split <;> rfl

/-- An event goes behind the others, of which the oldest leaves when there is no room. -/
theorem toList_push (b : Backlog) (e : Event) :
    (b.push e).toList = (b.toList ++ [e]).drop (b.size + 1 - b.limit.toNat) := by
  have hle := b.size_le_limit
  have hsize := b.size_eq
  unfold push
  split
  · next hroom =>
    rw [Nat.sub_eq_zero_of_le hroom]
    simp [toList]
  · next hroom =>
    have hone : b.size + 1 - b.limit.toNat = 1 := by omega
    rw [hone]
    split
    · next hold => simp [toList, hold]
    · next hold =>
      split
      · next hnew => simp [toList, hold, hnew]
      · next hnew => simp [toList, hold, hnew]

/-- Of the old and the new events a backlog keeps the latest. -/
theorem toList_add (b : Backlog) (events : List Event) :
    (b.add events).toList =
      (b.toList ++ events).drop ((b.toList ++ events).length - b.limit.toNat) := by
  induction events generalizing b with
  | nil =>
    have hle := b.length_toList_le
    rw [List.append_nil, Nat.sub_eq_zero_of_le hle]
    rfl
  | cons e rest ih =>
    have hle := b.size_le_limit
    have hdrop : b.size + 1 - b.limit.toNat ≤ (b.toList ++ [e]).length := by
      simp only [List.length_append, length_toList, List.length_singleton]
      omega
    have hstep := ih (b.push e)
    rw [limit_push, toList_push, ← List.drop_append_of_le_length hdrop, List.append_assoc,
      List.drop_drop] at hstep
    rw [add, List.foldl_cons, ← add, hstep, List.singleton_append]
    congr 1
    simp only [List.length_drop, List.length_append, List.length_cons, length_toList]
    omega

end Backlog

end Dialogue
