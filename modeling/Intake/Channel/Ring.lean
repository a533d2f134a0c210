/-
# Ring of slots

Models what a `BoundedChannel` keeps its items in: the vector `slots_` with `head_` and `count_`.
There are `count` items from the slot `head` on.  Slot numbers are words of 32 bits, and the slot
for the next item, `(head_ + count_) % capacity_`, is worked out in that arithmetic.
-/
namespace Intake

/-- A circle of slots. -/
structure Ring (α : Type) where
  capacity : UInt32
  slots : List (Option α)
  head : UInt32
  count : UInt32
  deriving DecidableEq, Repr

namespace Ring

variable {α : Type}

/-- The slot that lies `offset` behind `head`, in words of 32 bits. -/
def slotAt (capacity head offset : UInt32) : UInt32 := (head + offset) % capacity

/-- A ring without items; it has at least one slot. -/
def create (capacity : UInt32) : Ring α :=
  let size := if capacity = 0 then 1 else capacity
  ⟨size, List.replicate size.toNat none, 0, 0⟩

/-- What a slot holds. -/
def slot? (r : Ring α) (i : Nat) : Option α := (r.slots[i]?).join

def isEmpty (r : Ring α) : Bool := r.count == 0

def isFull (r : Ring α) : Bool := r.count == r.capacity

/-- Puts an item behind the last one. -/
def push (r : Ring α) (x : α) : Ring α :=
  { r with
    slots := r.slots.set (slotAt r.capacity r.head r.count).toNat (some x)
    count := r.count + 1 }

/-- The ring without the item at its head. -/
def advance (r : Ring α) : Ring α :=
  { r with
    slots := r.slots.set r.head.toNat none
    head := slotAt r.capacity r.head 1
    count := r.count - 1 }

/-- Takes the item at the head. -/
def pop? (r : Ring α) : Option (α × Ring α) :=
  if r.isEmpty then none
  else (r.slot? r.head.toNat).map fun x => (x, r.advance)

/-- The items from the head on. -/
def toList (r : Ring α) : List α :=
  (List.range r.count.toNat).filterMap fun i =>
    r.slot? ((r.head.toNat + i) % r.capacity.toNat)

theorem create_capacity_pos (capacity : UInt32) :
    (create capacity : Ring α).capacity ≠ 0 := by
  simp only [create]
  split
  · decide
  · assumption

theorem length_slots_create (capacity : UInt32) :
    (create capacity : Ring α).slots.length = (create capacity : Ring α).capacity.toNat := by
  simp [create]

theorem toList_create (capacity : UInt32) : (create capacity : Ring α).toList = [] := rfl

end Ring

end Intake
