import Mathlib.Data.List.Basic

/-! # Circular buffers

The bounded queue keeps its values in a circular buffer of another library. What it uses
of that buffer is a set of operations, and what it may expect of them is that they do to
a list of values what their documentation says.
-/

set_option autoImplicit false
namespace Dwater

/-- The operations of a circular buffer; `front` is undefined where there is no value. -/
structure CircularBuffer (β α : Type) where
  new : ℕ → β
  empty : β → Bool
  full : β → Bool
  size : β → ℕ
  capacity : β → ℕ
  pushBack : β → α → β
  front : β → Option α
  popFront : β → β

namespace CircularBuffer

variable {β α : Type}

/-- The documentation of the operations, for the values that a buffer holds. -/
structure Documented (buffer : CircularBuffer β α) (content : β → List α) : Prop where
  new_content : ∀ n, content (buffer.new n) = []
  new_capacity : ∀ n, buffer.capacity (buffer.new n) = n
  empty_iff : ∀ b, buffer.empty b = true ↔ content b = []
  full_iff : ∀ b, buffer.full b = true ↔ (content b).length = buffer.capacity b
  size_eq : ∀ b, buffer.size b = (content b).length
  pushBack_content : ∀ b x, buffer.full b = false → content (buffer.pushBack b x) = content b ++ [x]
  pushBack_capacity : ∀ b x, buffer.capacity (buffer.pushBack b x) = buffer.capacity b
  front_eq : ∀ b x rest, content b = x :: rest → buffer.front b = some x
  popFront_content : ∀ b x rest, content b = x :: rest → content (buffer.popFront b) = rest
  popFront_capacity : ∀ b x rest, content b = x :: rest →
    buffer.capacity (buffer.popFront b) = buffer.capacity b

/-- A list of values with its capacity. A full buffer overwrites its first value. -/
def ofList : CircularBuffer (ℕ × List α) α where
  new n := (n, [])
  empty b := b.2.isEmpty
  full b := b.2.length = b.1
  size b := b.2.length
  capacity b := b.1
  pushBack b x := (b.1, if b.2.length = b.1 then (b.2 ++ [x]).drop 1 else b.2 ++ [x])
  front b := b.2.head?
  popFront b := (b.1, b.2.tail)

theorem ofList_documented : (ofList : CircularBuffer (ℕ × List α) α).Documented Prod.snd where
  new_content _ := rfl
  new_capacity _ := rfl
  empty_iff _ := List.isEmpty_iff
  full_iff _ := decide_eq_true_iff
  size_eq _ := rfl
  pushBack_content b x h := if_neg (of_decide_eq_false h)
  pushBack_capacity _ _ := rfl
  front_eq b x rest h := by simp [ofList, h]
  popFront_content b x rest h := by simp [ofList, h]
  popFront_capacity _ _ _ _ := rfl

end CircularBuffer

end Dwater
