import Mathlib.Data.List.Basic

/-!
# Bounded queues

`BulkRing` takes and gives several objects at a time, all or nothing; `Buffer` is an
array with a count. Neither ever holds more than it has room for.
-/

namespace Shardb.Rings

/-- A queue with room for `capacity` objects, the oldest first. -/
structure BulkRing (α : Type) where
  capacity : Nat
  items : List α
  fits : items.length ≤ capacity

/-- The first `items.length` slots of an array of `size`. -/
structure Buffer (α : Type) (size : Nat) where
  items : List α
  fits : items.length ≤ size

section BulkRing
variable {α : Type}

def BulkRing.create (capacity : Nat) : BulkRing α := ⟨capacity, [], Nat.zero_le _⟩

/-- All objects are put in, or none. -/
def BulkRing.enqueueBulk (ring : BulkRing α) (objs : List α) : Option (BulkRing α) :=
  if fits : (ring.items ++ objs).length ≤ ring.capacity then some ⟨ring.capacity, ring.items ++ objs, fits⟩ else none

/-- `n` objects are taken out, or none. -/
def BulkRing.dequeueBulk (ring : BulkRing α) (n : Nat) : Option (List α × BulkRing α) :=
  if 0 < n ∧ n ≤ ring.items.length then
    some (ring.items.take n, ⟨ring.capacity, ring.items.drop n, by rw [List.length_drop]; have := ring.fits; omega⟩)
  else none

theorem BulkRing.enqueued {ring ring' : BulkRing α} {objs : List α} (put : ring.enqueueBulk objs = some ring') :
    ring'.items = ring.items ++ objs := by
  rw [BulkRing.enqueueBulk] at put
  split at put
  · cases put
    rfl
  · cases put

theorem BulkRing.dequeued {ring ring' : BulkRing α} {n : Nat} {objs : List α} (taken : ring.dequeueBulk n = some (objs, ring')) :
    ring.items = objs ++ ring'.items := by
  rw [BulkRing.dequeueBulk] at taken
  split at taken
  · cases taken
    exact (List.take_append_drop n ring.items).symm
  · cases taken

/-- What is taken was there, in full. -/
theorem BulkRing.dequeued_all {ring ring' : BulkRing α} {n : Nat} {objs : List α}
    (taken : ring.dequeueBulk n = some (objs, ring')) :
    objs.length = n ∧ n ≤ ring.capacity ∧ ring'.capacity = ring.capacity := by
  rw [BulkRing.dequeueBulk] at taken
  split at taken
  · rename_i there
    cases taken
    have fits := ring.fits
    rw [List.length_take]
    exact ⟨by omega, by omega, rfl⟩
  · cases taken

end BulkRing

section Buffer
variable {α : Type} {size : Nat}

def Buffer.empty : Buffer α size := ⟨[], Nat.zero_le _⟩

/-- Objects are put in the slots behind the last, as long as there are any. -/
def Buffer.push (buffer : Buffer α size) (objs : List α) : Option (Buffer α size) :=
  if fits : (buffer.items ++ objs).length ≤ size then some ⟨buffer.items ++ objs, fits⟩ else none

theorem Buffer.pushed {buffer buffer' : Buffer α size} {objs : List α} (put : buffer.push objs = some buffer') :
    buffer'.items = buffer.items ++ objs := by
  rw [Buffer.push] at put
  split at put
  · cases put
    rfl
  · cases put

theorem Buffer.push_eq_none {buffer : Buffer α size} {objs : List α} :
    buffer.push objs = none ↔ size < buffer.items.length + objs.length := by
  rw [Buffer.push, ← List.length_append]
  by_cases fits : (buffer.items ++ objs).length ≤ size
  · rw [dif_pos fits]
    exact iff_of_false (by simp) (by omega)
  · rw [dif_neg fits]
    exact iff_of_true rfl (by omega)

end Buffer
end Shardb.Rings
