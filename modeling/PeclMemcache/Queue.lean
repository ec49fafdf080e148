import Mathlib

set_option autoImplicit false

/-! # Duplicate-free queues

The operations of `memcache_queue.c` on the list of a queue's items, oldest first: `push` refuses
an item that is already there, `remove` rebuilds the queue without one item. Nothing here knows
what the items are. -/

namespace PeclMemcache

variable {α : Type} [DecidableEq α]

/-- `mmc_queue_push`: append unless the item is already queued. -/
def mmcQueuePush (queue : List α) (ptr : α) : List α :=
  if ptr ∈ queue then queue else queue ++ [ptr]

/-- `mmc_queue_remove`: every item but `ptr`, in the same order. -/
def mmcQueueRemove (queue : List α) (ptr : α) : List α :=
  queue.filter (fun item => item ≠ ptr)

@[simp]
theorem mem_mmcQueuePush (queue : List α) (ptr x : α) :
    x ∈ mmcQueuePush queue ptr ↔ x ∈ queue ∨ x = ptr := by
  unfold mmcQueuePush
  split
  · next h =>
      constructor
      · exact Or.inl
      · rintro (hx | rfl)
        · exact hx
        · exact h
  · simp

theorem mmcQueuePush_of_not_mem {queue : List α} {ptr : α} (h : ptr ∉ queue) :
    mmcQueuePush queue ptr = queue ++ [ptr] := if_neg h

theorem nodup_mmcQueuePush {queue : List α} (h : queue.Nodup) (ptr : α) :
    (mmcQueuePush queue ptr).Nodup := by
  unfold mmcQueuePush
  split
  · exact h
  · next hp => exact h.append (List.nodup_singleton ptr) (by simpa using hp)

theorem length_mmcQueuePush_le (queue : List α) (ptr : α) :
    (mmcQueuePush queue ptr).length ≤ queue.length + 1 := by
  unfold mmcQueuePush
  split
  · exact Nat.le_succ _
  · simp

@[simp]
theorem mem_mmcQueueRemove (queue : List α) (ptr x : α) :
    x ∈ mmcQueueRemove queue ptr ↔ x ∈ queue ∧ x ≠ ptr := by
  simp [mmcQueueRemove]

end PeclMemcache
