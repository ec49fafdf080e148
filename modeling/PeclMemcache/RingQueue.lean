import PeclMemcache.Queue
import PeclMemcache.Ring
import PeclMemcache.Wp

set_option autoImplicit false

/-! # The ring buffers behind the queues

`memcache_queue.c`: a queue is an array of pointers that is read as a ring from `tail` to `head` and
that grows when it is full. The other modules have a queue as the list of its items; here the functions
are those of the source, and every access to a cell is checked against the array. -/

namespace PeclMemcache

open Ring Stateful

/-! ## Cells -/

/-- Why a function does not return: it touches a cell outside of an array, `erealloc` ends the request
    with a fatal error, or the bound of the loop in the model is used up. -/
inductive QueueFault
  | outside
  | outOfMemory
  | fuel
  deriving DecidableEq, Repr

/-- What `erealloc` can get: `room` bytes, which is less than half of the addresses there are. -/
structure QueueMemory where
  room : Nat
  room_lt : room < 2 ^ 63

def MMC_QUEUE_PREALLOC : Nat := 25

/-- The number of bytes `sizeof(*queue->items) * queue->alloc`. An `int` from `2 ^ 31` on is negative,
    and so it is as a `size_t`. -/
def itemsSize (alloc : Nat) : Nat :=
  8 * (if alloc < 2 ^ 31 then alloc else 2 ^ 64 - 2 ^ 32 + alloc) % 2 ^ 64

/-- `mmc_queue_t`. A cell that holds no pointer is `NULL` or was never written. -/
structure MmcQueue (α : Type) where
  items : List (Option α) := []
  alloc : Nat := 0
  head : Nat := 0
  tail : Nat := 0
  len : Nat := 0
  deriving DecidableEq, Repr

variable {α : Type} (memory : QueueMemory)

/-- `erealloc` of an array of cells. -/
def erealloc (items : List (Option α)) (alloc : Nat) : Except QueueFault (List (Option α)) :=
  if itemsSize alloc ≤ memory.room then
    .ok (items.take alloc ++ List.replicate (alloc - items.length) none)
  else .error .outOfMemory

def readCell (items : List (Option α)) (i : Nat) : Except QueueFault (Option α) :=
  match items[i]? with
  | some ptr => .ok ptr
  | none => .error .outside

def writeCell (items : List (Option α)) (i : Nat) (ptr : α) : Except QueueFault (List (Option α)) :=
  if i < items.length then .ok (items.set i (some ptr)) else .error .outside

/-- `memmove` of `n` cells within an array. -/
def moveCells (items : List (Option α)) (target source n : Nat) :
    Except QueueFault (List (Option α)) :=
  if target + n ≤ items.length ∧ source + n ≤ items.length then
    .ok (items.take target ++ (items.drop source).take n ++ items.drop (target + n))
  else .error .outside

/-- `memcpy` of the first `n` cells of another array. -/
def copyCells (target source : List (Option α)) (n : Nat) : Except QueueFault (List (Option α)) :=
  if n ≤ target.length ∧ n ≤ source.length then .ok (source.take n ++ target.drop n)
  else .error .outside

/-! ## The functions -/

namespace MmcQueue

/-- `mmc_queue_item`. -/
def mmcQueueItem (queue : MmcQueue α) (i : Nat) : Except QueueFault (Option α) :=
  readCell queue.items (place queue.alloc queue.tail i)

/-- `mmc_queue_reset`. -/
def mmcQueueReset (queue : MmcQueue α) : MmcQueue α := { queue with len := 0, head := 0, tail := 0 }

/-- `mmc_queue_free`; `mmc_queue_release` leaves the array to somebody else. -/
def mmcQueueFree (_ : MmcQueue α) : MmcQueue α := {}

/-- `mmc_queue_pop`; `NULL` is `none`. -/
def mmcQueuePop (queue : MmcQueue α) : Except QueueFault (Option α × MmcQueue α) :=
  if queue.len ≠ 0 then do
    let ptr ← readCell queue.items queue.tail
    let len := queue.len - 1
    if len ≠ 0 then return (ptr, { queue with len, tail := next queue.alloc queue.tail })
    else return (ptr, { queue with len })
  else return (none, queue)

/-- `mmc_queue_copy`. -/
def mmcQueueCopy (target source : MmcQueue α) : Except QueueFault (MmcQueue α) := do
  let items ←
    if target.alloc ≠ source.alloc then erealloc memory target.items source.alloc
    else pure target.items
  let items ← copyCells items source.items source.alloc
  return { items, alloc := source.alloc, head := source.head, tail := source.tail, len := source.len }

/-- The array is full: it gets more cells, and what lies behind the head moves to its end. -/
def grow (queue : MmcQueue α) : Except QueueFault (MmcQueue α) := do
  let increase := 1 + MMC_QUEUE_PREALLOC
  let alloc := queue.alloc + increase
  let items ← erealloc memory queue.items alloc
  if queue.head < queue.tail then
    let items ← moveCells items (queue.tail + increase) queue.tail (alloc - queue.tail - increase)
    return { queue with items, alloc, tail := queue.tail + increase }
  else return { queue with items, alloc }

variable [DecidableEq α]

/-- The loop of `mmc_queue_contains` with `left` items to go. -/
def containsFrom (queue : MmcQueue α) (ptr : α) : Nat → Nat → Except QueueFault Bool
  | 0, _ => return false
  | left + 1, i => do
    let item ← queue.mmcQueueItem i
    if item = some ptr then return true else containsFrom queue ptr left (i + 1)

/-- `mmc_queue_contains`. -/
def mmcQueueContains (queue : MmcQueue α) (ptr : α) : Except QueueFault Bool :=
  queue.containsFrom ptr queue.len 0

/-- `mmc_queue_push`. -/
def mmcQueuePush (queue : MmcQueue α) (ptr : α) : Except QueueFault (MmcQueue α) := do
  let found ← queue.mmcQueueContains ptr
  if found then return queue
  else
    let queue ← if queue.alloc ≤ queue.len then queue.grow memory else pure queue
    let head := if queue.len ≠ 0 then next queue.alloc queue.head else queue.head
    let items ← writeCell queue.items head ptr
    return { queue with items, head, len := queue.len + 1 }

/-- The loop of `mmc_queue_remove`: `original` is emptied into `queue`. -/
def removeFrom (ptr : α) : Nat → MmcQueue α → MmcQueue α → Except QueueFault (MmcQueue α)
  | 0, _, _ => .error .fuel
  | fuel + 1, original, queue => do
    let (item, original) ← original.mmcQueuePop
    match item with
    | none => return queue
    | some item =>
      let queue ← if item ≠ ptr then queue.mmcQueuePush memory item else pure queue
      removeFrom ptr fuel original queue

/-- `mmc_queue_remove`. -/
def mmcQueueRemove (queue : MmcQueue α) (ptr : α) : Except QueueFault (MmcQueue α) :=
  removeFrom memory ptr (queue.len + 1) queue {}

end MmcQueue

/-! ## Runs -/

/-- A call of one of the functions; queues are numbered. -/
inductive QueueOp (α : Type)
  | push (queue : Nat) (ptr : α)
  | pop (queue : Nat)
  | remove (queue : Nat) (ptr : α)
  | contains (queue : Nat) (ptr : α)
  | copy (target source : Nat)
  | reset (queue : Nat)
  | free (queue : Nat)
  deriving DecidableEq, Repr

/-- What a call returns. -/
inductive QueueResult (α : Type)
  | void
  | pointer (ptr : Option α)
  | found (b : Bool)
  deriving DecidableEq, Repr

variable [DecidableEq α]

/-- One call. -/
def QueueOp.exec (queues : Nat → MmcQueue α) :
    QueueOp α → Except QueueFault (QueueResult α × (Nat → MmcQueue α))
  | .push q ptr => do
    let queue ← (queues q).mmcQueuePush memory ptr
    return (.void, Function.update queues q queue)
  | .pop q => do
    let (ptr, queue) ← (queues q).mmcQueuePop
    return (.pointer ptr, Function.update queues q queue)
  | .remove q ptr => do
    let queue ← (queues q).mmcQueueRemove memory ptr
    return (.void, Function.update queues q queue)
  | .contains q ptr => do
    let found ← (queues q).mmcQueueContains ptr
    return (.found found, queues)
  | .copy target source => do
    let queue ← (queues target).mmcQueueCopy memory (queues source)
    return (.void, Function.update queues target queue)
  | .reset q => return (.void, Function.update queues q (queues q).mmcQueueReset)
  | .free q => return (.void, Function.update queues q (queues q).mmcQueueFree)

/-- A sequence of calls: their results and the queues behind them. -/
def execQueueOps (queues : Nat → MmcQueue α) :
    List (QueueOp α) → Except QueueFault (List (QueueResult α) × (Nat → MmcQueue α))
  | [] => return ([], queues)
  | op :: ops => do
    let (result, queues) ← op.exec memory queues
    let (results, queues) ← execQueueOps queues ops
    return (result :: results, queues)

/-- What a call does to the lists of items the queues stand for. -/
def QueueOp.onLists (lists : Nat → List α) : QueueOp α → QueueResult α × (Nat → List α)
  | .push q ptr => (.void, Function.update lists q (mmcQueuePush (lists q) ptr))
  | .pop q => (.pointer (lists q).head?, Function.update lists q (lists q).tail)
  | .remove q ptr => (.void, Function.update lists q (mmcQueueRemove (lists q) ptr))
  | .contains q ptr => (.found (decide (ptr ∈ lists q)), lists)
  | .copy target source => (.void, Function.update lists target (lists source))
  | .reset q => (.void, Function.update lists q [])
  | .free q => (.void, Function.update lists q [])

def queueOpsOnLists (lists : Nat → List α) : List (QueueOp α) → List (QueueResult α) × (Nat → List α)
  | [] => ([], lists)
  | op :: ops =>
    let (result, lists) := op.onLists lists
    let (results, lists) := queueOpsOnLists lists ops
    (result :: results, lists)

/-! ## Memory -/

/-- An array of `n` cells cannot be had. -/
def QueueMemory.Lacks (memory : QueueMemory) (n : Nat) : Prop := 2 ^ 31 ≤ n ∨ memory.room < 8 * n

theorem QueueMemory.Lacks.mono {memory : QueueMemory} {n n' : Nat} (h : memory.Lacks n)
    (hle : n ≤ n') : memory.Lacks n' := by
  rcases h with h | h
  · exact Or.inl (by omega)
  · exact Or.inr (by omega)

omit [DecidableEq α] in
/-- An array whose size overflows the `int` is never handed out. -/
theorem erealloc_yields (items : List (Option α)) {alloc : Nat} (hint : alloc < 2 ^ 32) :
    Yields (erealloc memory items alloc)
      (fun cells => cells = items.take alloc ++ List.replicate (alloc - items.length) none ∧
        alloc < 2 ^ 31)
      (fun fault => fault = .outOfMemory ∧ memory.Lacks alloc) := by
  have hroom := memory.room_lt
  refine yields_ite (fun h => ⟨rfl, ?_⟩) fun h => ⟨rfl, ?_⟩
  · unfold itemsSize at h
    split at h
    · assumption
    · omega
  · unfold itemsSize at h
    unfold QueueMemory.Lacks
    split at h <;> omega

omit [DecidableEq α] in
theorem readCell_eq_ok {items : List (Option α)} {i : Nat} {ptr : Option α} :
    readCell items i = .ok ptr ↔ items[i]? = some ptr := by
  unfold readCell
  cases items[i]? <;> simp

/-! ## What a queue holds -/

namespace MmcQueue

/-- The queue holds the items of the list, the oldest one first, and its fields fit together. -/
structure Holds (queue : MmcQueue α) (l : List α) : Prop where
  nodup : l.Nodup
  len : queue.len = l.length
  items : ∀ i x, l[i]? = some x → queue.mmcQueueItem i = .ok (some x)
  head : queue.head = place queue.alloc queue.tail (queue.len - 1)
  tail : queue.tail < queue.alloc ∨ queue.alloc = 0 ∧ queue.tail = 0
  room : queue.len ≤ queue.alloc
  size : queue.items.length = queue.alloc
  chunks : 1 + MMC_QUEUE_PREALLOC ∣ queue.alloc
  int : queue.alloc < 2 ^ 31

variable {memory} {queue source : MmcQueue α} {l l' : List α} {ptr : α}

omit [DecidableEq α] in
theorem holds_empty : ({} : MmcQueue α).Holds [] where
  nodup := List.nodup_nil
  len := rfl
  items i x h := by simp at h
  head := rfl
  tail := Or.inr ⟨rfl, rfl⟩
  room := Nat.le_refl 0
  size := rfl
  chunks := Nat.dvd_zero _
  int := Nat.two_pow_pos 31

omit [DecidableEq α] in
/-- The items as the ring they lie in. -/
theorem Holds.reads (h : queue.Holds l) : Reads queue.items queue.tail (l.map some) := by
  intro i x hx
  rw [List.getElem?_map, Option.map_eq_some_iff] at hx
  obtain ⟨y, hy, rfl⟩ := hx
  rw [h.size]
  exact readCell_eq_ok.mp (h.items i y hy)

omit [DecidableEq α] in
theorem items_of_reads (hsize : queue.items.length = queue.alloc)
    (h : Reads queue.items queue.tail (l.map some)) (i : Nat) (x : α) (hx : l[i]? = some x) :
    queue.mmcQueueItem i = .ok (some x) := by
  have hread := h i (some x) (by rw [List.getElem?_map, hx]; rfl)
  rw [hsize] at hread
  exact readCell_eq_ok.mpr hread

omit [DecidableEq α] in
/-- The head is inside of the array. -/
theorem Holds.head_lt (h : queue.Holds l) (hne : queue.alloc ≠ 0) : queue.head < queue.alloc := by
  have hroom := h.room
  rw [h.head]
  rcases h.tail with htail | ⟨hzero, _⟩
  · exact place_lt htail (by omega)
  · exact absurd hzero hne

/-- The loop looks at the items from `i` on. -/
theorem Holds.containsFrom_eq (h : queue.Holds l) :
    ∀ left i, i + left = l.length →
      queue.containsFrom ptr left i = .ok (decide (ptr ∈ l.drop i)) := by
  intro left
  induction left with
  | zero =>
    intro i hi
    rw [List.drop_of_length_le (by omega)]
    simp [containsFrom, pure, Except.pure]
  | succ left ih =>
    intro i hi
    have hlt : i < l.length := by omega
    have hitem := h.items i l[i] (List.getElem?_eq_getElem hlt)
    rw [containsFrom, hitem, List.drop_eq_getElem_cons hlt]
    change (if some l[i] = some ptr then Except.ok true else queue.containsFrom ptr left (i + 1)) = _
    by_cases heq : l[i] = ptr
    · simp [heq]
    · rw [if_neg (by simpa using heq), ih (i + 1) (by omega)]
      refine congrArg Except.ok (decide_eq_decide.mpr ?_)
      rw [List.mem_cons, or_iff_right (Ne.symm heq)]

theorem Holds.contains_eq (h : queue.Holds l) (ptr : α) :
    queue.mmcQueueContains ptr = .ok (decide (ptr ∈ l)) := by
  rw [mmcQueueContains, h.containsFrom_eq queue.len 0 (by rw [h.len, Nat.zero_add]), List.drop_zero]

omit [DecidableEq α] in
/-- The oldest item is handed out. -/
theorem Holds.pop_eq (h : queue.Holds l) :
    ∃ queue', queue.mmcQueuePop = .ok (l.head?, queue') ∧ queue'.Holds l.tail ∧
      queue'.alloc = queue.alloc := by
  cases l with
  | nil =>
    have hlen : queue.len = 0 := h.len
    exact ⟨queue, by rw [mmcQueuePop, if_neg (not_not_intro hlen)]; rfl, h, rfl⟩
  | cons x l =>
    have hlen : queue.len = l.length + 1 := h.len
    have hroom := h.room
    have htail : queue.tail < queue.alloc := by
      rcases h.tail with htail | ⟨hzero, _⟩
      · exact htail
      · omega
    have hfirst : readCell queue.items queue.tail = .ok (some x) := by
      have := h.items 0 x rfl
      rwa [mmcQueueItem, place_zero htail] at this
    have hsub : queue.len - 1 = l.length := by omega
    have hpop : queue.mmcQueuePop = .ok (some x, if l.length ≠ 0 then
        { queue with len := l.length, tail := next queue.alloc queue.tail }
        else { queue with len := l.length }) := by
      rw [mmcQueuePop, if_pos (by omega), hfirst, hsub]
      change (if l.length ≠ 0 then _ else _) = _
      split <;> rfl
    refine ⟨_, hpop, ?_, by split <;> rfl⟩
    by_cases hne : l.length ≠ 0
    · rw [if_pos hne]
      have hhead := h.head
      refine { h with
        nodup := h.nodup.of_cons, len := rfl, room := by dsimp only; omega,
        tail := Or.inl (next_lt htail), items := ?_, head := ?_ }
      · refine items_of_reads h.size ?_
        have hread := h.reads.pop (h.size ▸ htail) (by rw [h.size, List.length_map]; omega)
        rwa [h.size] at hread
      · dsimp only
        rw [hhead, hsub, place_next htail (by omega)]
        congr 1
        omega
    · rw [if_neg hne]
      obtain rfl : l = [] := List.length_eq_zero_iff.mp (not_not.mp hne)
      exact { h with
        nodup := List.nodup_nil, len := rfl, room := Nat.zero_le _,
        items := fun i y hy => by simp at hy,
        head := by rw [h.head, hlen]; rfl }

omit [DecidableEq α] in
theorem Holds.reset (queue : MmcQueue α) (h : queue.Holds l) : queue.mmcQueueReset.Holds [] where
  nodup := List.nodup_nil
  len := rfl
  items i x hx := by simp at hx
  head := by
    unfold mmcQueueReset place
    split
    · rfl
    · exact (Nat.zero_sub _).symm
  tail := by
    rcases Nat.eq_zero_or_pos queue.alloc with hzero | hpos
    · exact Or.inr ⟨hzero, rfl⟩
    · exact Or.inl hpos
  room := Nat.zero_le _
  size := h.size
  chunks := h.chunks
  int := h.int

omit [DecidableEq α] in
/-- The copy has the cells of the source. -/
theorem Holds.copy_yields (htarget : queue.Holds l') (h : source.Holds l) :
    Yields (queue.mmcQueueCopy memory source)
      (fun copy => copy.Holds l ∧ copy.alloc = source.alloc)
      (fun fault => fault = .outOfMemory ∧ memory.Lacks source.alloc) := by
  have hcopy {items : List (Option α)} (hlen : items.length = source.alloc) :
      copyCells items source.items source.alloc = .ok source.items := by
    rw [copyCells, if_pos ⟨Nat.le_of_eq hlen.symm, Nat.le_of_eq h.size.symm⟩, ← h.size,
      List.take_length, h.size, ← hlen, List.drop_length, List.append_nil]
  have hrest {items : List (Option α)} (hlen : items.length = source.alloc) :
      Yields (copyCells items source.items source.alloc >>= fun items =>
          pure { source with items : MmcQueue α })
        (fun copy => copy.Holds l ∧ copy.alloc = source.alloc)
        (fun fault => fault = .outOfMemory ∧ memory.Lacks source.alloc) := by
    rw [hcopy hlen]
    exact ⟨h, rfl⟩
  rw [mmcQueueCopy]
  refine yields_ite (fun _ => ?_) fun heq => ?_
  · have hint := h.int
    rw [yields_bind]
    refine (erealloc_yields memory queue.items (by omega)).mono (fun cells ⟨hcells, _⟩ => ?_)
      fun _ => id
    exact hrest (by simp [hcells]; omega)
  · exact hrest (htarget.size.trans (not_not.mp heq))

/-! ## A full queue grows -/

omit [DecidableEq α] in
/-- The cells from the tail on are moved to the end of the longer array. -/
theorem moveCells_eq {items : List (Option α)} {tail k : Nat} (htail : tail ≤ items.length) :
    ∃ cells, moveCells (items ++ List.replicate k none) (tail + k) tail (items.length - tail)
        = .ok cells ∧ cells.length = items.length + k ∧
      (∀ j, j < tail → cells[j]? = items[j]?) ∧
      ∀ j, tail ≤ j → j < items.length → cells[j + k]? = items[j]? := by
  have hlen : (items ++ List.replicate k none).length = items.length + k := by simp
  have hmove : moveCells (items ++ List.replicate k none) (tail + k) tail (items.length - tail)
      = .ok ((items ++ List.replicate k none).take (tail + k) ++ items.drop tail) := by
    have hdrop : (items ++ List.replicate k none).drop (tail + k + (items.length - tail)) = [] :=
      List.drop_of_length_le (by omega)
    have htake : ((items ++ List.replicate k none).drop tail).take (items.length - tail)
        = items.drop tail := by
      rw [List.drop_append_of_le_length htail, ← List.length_drop, List.take_left]
    rw [moveCells, if_pos (by omega), hdrop, htake, List.append_nil]
  have hfirst : ((items ++ List.replicate k none).take (tail + k)).length = tail + k := by
    rw [List.length_take, hlen]
    omega
  refine ⟨_, hmove, ?_, fun j hj => ?_, fun j hj hlt => ?_⟩
  · rw [List.length_append, hfirst, List.length_drop]
    omega
  · rw [List.getElem?_append_left (by omega), List.getElem?_take_of_lt (by omega),
      List.getElem?_append_left (by omega)]
  · rw [List.getElem?_append_right (by omega), hfirst, List.getElem?_drop]
    congr 1
    omega

omit [DecidableEq α] in
/-- In a full queue the head lies directly before the tail, or the tail is the first cell. -/
theorem Holds.head_of_full (h : queue.Holds l) (hfull : queue.len = queue.alloc) :
    queue.tail = 0 ∧ queue.head = queue.len - 1 ∨
      0 < queue.tail ∧ queue.tail < queue.alloc ∧ queue.head = queue.tail - 1 := by
  have hhead := h.head
  unfold place at hhead
  rcases h.tail with htail | ⟨hzero, htail⟩
  · split at hhead <;> omega
  · split at hhead <;> omega

omit [DecidableEq α] in
theorem Holds.grow_yields (h : queue.Holds l) (hfull : queue.len = queue.alloc) :
    Yields (queue.grow memory)
      (fun longer => longer.Holds l ∧ longer.alloc = queue.alloc + (1 + MMC_QUEUE_PREALLOC))
      (fun fault => fault = .outOfMemory ∧
        memory.Lacks (queue.alloc + (1 + MMC_QUEUE_PREALLOC))) := by
  have hint := h.int
  have hsize := h.size
  have hlen := h.len
  have hcount : (l.map some).length = queue.alloc := by rw [List.length_map]; omega
  have hk : queue.alloc + (1 + MMC_QUEUE_PREALLOC) < 2 ^ 32 := by
    simp only [MMC_QUEUE_PREALLOC]
    omega
  rw [grow, yields_bind]
  refine (erealloc_yields memory queue.items hk).mono (fun cells ⟨hcells, hfits⟩ => ?_) fun _ => id
  generalize hkdef : 1 + MMC_QUEUE_PREALLOC = k at hfits hcells ⊢
  have hcells' : cells = queue.items ++ List.replicate k none := by
    rw [hcells, List.take_of_length_le (by omega), hsize, Nat.add_sub_cancel_left]
  have hchunks : k ∣ queue.alloc + k := by
    rw [← hkdef]
    exact (Nat.dvd_add_self_right).mpr h.chunks
  -- a full queue wraps around exactly if its tail is not the first cell
  rcases h.head_of_full hfull with ⟨htail, hhead⟩ | ⟨hpos, htail, hhead⟩
  · refine yields_ite (fun hlt => by omega) fun _ => ⟨?_, rfl⟩
    have hlonger : cells.length = queue.alloc + k := by simp [hcells', hsize]
    refine { h with
      size := hlonger, int := hfits, chunks := hkdef ▸ hchunks, room := by dsimp only; omega,
      tail := by dsimp only; omega, head := ?_, items := items_of_reads hlonger ?_ }
    · have hread := h.reads
      rw [htail] at hread
      rw [htail, hcells']
      exact hread.extend (by omega) _
    · dsimp only
      unfold place
      rw [htail, hhead, if_pos (by omega), Nat.zero_add]
  · obtain ⟨moved, hmove, hmovedLen, hbefore, hbehind⟩ :=
      @moveCells_eq α queue.items queue.tail k (by omega)
    have hamount : queue.alloc + k - queue.tail - k = queue.items.length - queue.tail := by omega
    refine yields_ite (fun _ => ?_) fun hge => by omega
    rw [hamount, hcells', hmove]
    have hlonger : moved.length = queue.alloc + k := by omega
    refine ⟨{ h with
      size := hlonger, int := hfits, chunks := hkdef ▸ hchunks, room := by dsimp only; omega,
      tail := by dsimp only; omega, head := ?_, items := items_of_reads hlonger ?_ }, rfl⟩
    · exact h.reads.cutOpen (by omega) (by omega) hmovedLen hbefore hbehind
    · dsimp only
      unfold place
      rw [hhead, if_neg (by omega)]
      omega

/-! ## Pushing and removing -/

omit [DecidableEq α] in
/-- Behind the head there is room for one more item. -/
theorem Holds.write_eq (h : queue.Holds l) (hroom : queue.len < queue.alloc) (hnew : ptr ∉ l) :
    ∃ items, writeCell queue.items
        (if queue.len ≠ 0 then next queue.alloc queue.head else queue.head) ptr = .ok items ∧
      { queue with
        items, head := if queue.len ≠ 0 then next queue.alloc queue.head else queue.head,
        len := queue.len + 1 : MmcQueue α }.Holds (l ++ [ptr]) := by
  have hlen := h.len
  have hsize := h.size
  have htail : queue.tail < queue.alloc := by
    rcases h.tail with htail | ⟨hzero, _⟩ <;> omega
  have hhead : (if queue.len ≠ 0 then next queue.alloc queue.head else queue.head)
      = place queue.alloc queue.tail queue.len := by
    rw [h.head]
    split
    · rw [next_place htail (by omega)]
      congr 1
      omega
    · next hzero => rw [not_not.mp hzero]
  have hlt := place_lt htail hroom
  rw [hhead]
  refine ⟨_, if_pos (hsize ▸ hlt), ?_⟩
  have hread := h.reads.push (hsize ▸ htail) (by rw [List.length_map]; omega) (some ptr)
  rw [hsize, List.length_map, ← hlen] at hread
  refine { h with
    nodup := h.nodup.append (List.nodup_singleton ptr) (by simpa using hnew),
    len := by simp [hlen], room := hroom, head := rfl,
    size := by rw [List.length_set]; exact hsize, items := items_of_reads ?_ ?_ }
  · rw [List.length_set]
    exact hsize
  · rw [List.map_append]
    exact hread

/-- A push appends the pointer, or leaves the queue alone. It takes more cells only if all are in
    use. -/
theorem Holds.push_yields (h : queue.Holds l) (ptr : α) :
    Yields (queue.mmcQueuePush memory ptr)
      (fun pushed => pushed.Holds (PeclMemcache.mmcQueuePush l ptr) ∧
        (pushed.alloc = queue.alloc ∨ queue.len = queue.alloc ∧
          pushed.alloc = queue.alloc + (1 + MMC_QUEUE_PREALLOC)))
      (fun fault => fault = .outOfMemory ∧ queue.len = queue.alloc ∧
        memory.Lacks (queue.alloc + (1 + MMC_QUEUE_PREALLOC))) := by
  have hroom := h.room
  rw [mmcQueuePush, h.contains_eq]
  by_cases hmem : ptr ∈ l
  · rw [decide_eq_true hmem]
    exact ⟨by rw [PeclMemcache.mmcQueuePush, if_pos hmem]; exact h, Or.inl rfl⟩
  · rw [decide_eq_false hmem, mmcQueuePush_of_not_mem hmem]
    have hwrite {longer : MmcQueue α} (hlonger : longer.Holds l) (hlt : longer.len < longer.alloc)
        {P : MmcQueue α → Prop} {F : QueueFault → Prop}
        (hP : ∀ pushed : MmcQueue α, pushed.Holds (l ++ [ptr]) → pushed.alloc = longer.alloc → P pushed) :
        Yields (writeCell longer.items
            (if longer.len ≠ 0 then next longer.alloc longer.head else longer.head) ptr >>=
          fun items => pure { longer with
            items, head := if longer.len ≠ 0 then next longer.alloc longer.head else longer.head,
            len := longer.len + 1 : MmcQueue α }) P F := by
      obtain ⟨items, hok, hholds⟩ := hlonger.write_eq hlt hmem
      rw [hok]
      exact hP _ hholds rfl
    refine yields_ite (fun hfull => ?_) fun hspace => ?_
    · have hfull : queue.len = queue.alloc := by omega
      rw [yields_bind]
      refine (h.grow_yields hfull).mono (fun longer ⟨hlonger, halloc⟩ => ?_)
        fun fault ⟨hfault, hlacks⟩ => ⟨hfault, hfull, hlacks⟩
      refine hwrite hlonger ?_ fun pushed hpushed hsame =>
        ⟨hpushed, Or.inr ⟨hfull, hsame.trans halloc⟩⟩
      rw [hlonger.len, ← h.len, halloc]
      omega
    · exact hwrite h (by omega) fun pushed hpushed hsame => ⟨hpushed, Or.inl hsame⟩

/-- The loop moves the other items over, by induction on those that are left. The new array is never
    longer than the old one: both grow in the same steps, and there are no more items. -/
theorem Holds.removeFrom_yields (ptr : α) :
    ∀ (fuel : Nat) {original queue : MmcQueue α} {rest l : List α}, original.Holds rest →
      queue.Holds l → rest.length < fuel → (l ++ rest).Nodup → queue.alloc ≤ original.alloc →
      l.length + rest.length ≤ original.alloc →
      Yields (removeFrom memory ptr fuel original queue)
        (fun removed => removed.Holds (l ++ PeclMemcache.mmcQueueRemove rest ptr) ∧
          removed.alloc ≤ original.alloc)
        (fun fault => fault = .outOfMemory ∧ memory.Lacks original.alloc) := by
  intro fuel
  induction fuel with
  | zero => intro _ _ _ _ _ _ hfuel; exact absurd hfuel (Nat.not_lt_zero _)
  | succ fuel ih =>
    intro original queue rest l horiginal hqueue hfuel hnodup halloc hcount
    obtain ⟨popped, hpop, hpopped, hsame⟩ := horiginal.pop_eq
    rw [removeFrom, hpop]
    cases rest with
    | nil => exact ⟨by rw [PeclMemcache.mmcQueueRemove, List.filter_nil, List.append_nil]; exact hqueue, halloc⟩
    | cons item rest =>
      rw [List.length_cons] at hfuel hcount
      have hitem : item ∉ l := fun hmem =>
        (List.nodup_append.mp hnodup).2.2 item hmem item List.mem_cons_self rfl
      have hmoved : (l ++ [item] ++ rest).Nodup := by rwa [List.append_assoc]
      have hkept : (l ++ rest).Nodup := hnodup.sublist ((List.sublist_cons_self item rest).append_left l)
      rw [← hsame]
      rw [← hsame] at halloc hcount
      refine yields_ite (fun hne => ?_) fun heq => ?_
      · have hfilter : PeclMemcache.mmcQueueRemove (item :: rest) ptr
            = item :: PeclMemcache.mmcQueueRemove rest ptr :=
          List.filter_cons_of_pos (by simpa using hne)
        have hsteps : queue.len = queue.alloc →
            queue.alloc + (1 + MMC_QUEUE_PREALLOC) ≤ popped.alloc := by
          intro hfull
          have hlen := hqueue.len
          obtain ⟨a, ha⟩ := hqueue.chunks
          obtain ⟨b, hb⟩ := hpopped.chunks
          simp only [MMC_QUEUE_PREALLOC] at ha hb ⊢
          omega
        rw [yields_bind, hfilter, List.append_cons]
        refine (hqueue.push_yields item).mono (fun pushed hpush => ?_) fun fault hfault =>
          ⟨hfault.1, hfault.2.2.mono (hsteps hfault.2.1)⟩
        obtain ⟨hpushed, hgrown⟩ := hpush
        rw [mmcQueuePush_of_not_mem hitem] at hpushed
        refine ih hpopped hpushed (by omega) hmoved ?_ (by simp; omega)
        rcases hgrown with hgrown | ⟨hfull, hgrown⟩
        · omega
        · have := hsteps hfull
          omega
      · have hfilter : PeclMemcache.mmcQueueRemove (item :: rest) ptr
            = PeclMemcache.mmcQueueRemove rest ptr :=
          List.filter_cons_of_neg (by simpa using heq)
        rw [hfilter]
        exact ih hpopped hqueue (by omega) hkept halloc (by omega)

theorem Holds.remove_yields (h : queue.Holds l) (ptr : α) :
    Yields (queue.mmcQueueRemove memory ptr)
      (fun removed => removed.Holds (PeclMemcache.mmcQueueRemove l ptr) ∧
        removed.alloc ≤ queue.alloc)
      (fun fault => fault = .outOfMemory ∧ memory.Lacks queue.alloc) := by
  have hroom := h.room
  have hlen := h.len
  exact Holds.removeFrom_yields ptr _ h holds_empty (by omega) h.nodup (Nat.zero_le _)
    (by rw [List.length_nil]; omega)

end MmcQueue

/-! ## The queues behave as lists -/

/-- All queues hold their lists in at most `n` cells. -/
structure StandFor (n : Nat) (queues : Nat → MmcQueue α) (lists : Nat → List α) : Prop where
  holds : ∀ q, (queues q).Holds (lists q)
  alloc_le : ∀ q, (queues q).alloc ≤ n

section StandFor

variable {memory} {n : Nat} {queues : Nat → MmcQueue α} {lists : Nat → List α}

omit [DecidableEq α] in
theorem StandFor.update (h : StandFor n queues lists) (q : Nat) {n' : Nat} (hle : n ≤ n')
    {queue : MmcQueue α} {l : List α} (hqueue : queue.Holds l) (halloc : queue.alloc ≤ n') :
    StandFor n' (Function.update queues q queue) (Function.update lists q l) where
  holds p := by
    by_cases hp : p = q
    · subst hp
      simpa using hqueue
    · simpa [hp] using h.holds p
  alloc_le p := by
    by_cases hp : p = q
    · subst hp
      simpa using halloc
    · simpa [hp] using (h.alloc_le p).trans hle

omit [DecidableEq α] in
theorem StandFor.mono (h : StandFor n queues lists) {n' : Nat} (hle : n ≤ n') :
    StandFor n' queues lists := ⟨h.holds, fun q => (h.alloc_le q).trans hle⟩

/-- One call does to the queues what it does to the lists, unless memory runs out. -/
theorem StandFor.exec_yields (h : StandFor n queues lists) (op : QueueOp α) :
    Yields (op.exec memory queues)
      (fun out => out.1 = (op.onLists lists).1 ∧
        StandFor (n + (1 + MMC_QUEUE_PREALLOC)) out.2 (op.onLists lists).2)
      (fun fault => fault = .outOfMemory ∧ memory.Lacks (n + (1 + MMC_QUEUE_PREALLOC))) := by
  have hle : n ≤ n + (1 + MMC_QUEUE_PREALLOC) := Nat.le_add_right _ _
  cases op with
  | push q ptr =>
    have halloc := h.alloc_le q
    rw [QueueOp.exec, yields_bind]
    refine ((h.holds q).push_yields ptr).mono (fun queue hpush => ⟨rfl, ?_⟩)
      fun fault hfault => ⟨hfault.1, hfault.2.2.mono (by omega)⟩
    obtain ⟨hqueue, hgrown⟩ := hpush
    exact h.update q hle hqueue (by omega)
  | pop q =>
    obtain ⟨queue, hpop, hqueue, hsame⟩ := (h.holds q).pop_eq
    rw [QueueOp.exec, hpop]
    exact ⟨rfl, h.update q hle hqueue (hsame ▸ (h.alloc_le q).trans hle)⟩
  | remove q ptr =>
    have halloc := h.alloc_le q
    rw [QueueOp.exec, yields_bind]
    refine ((h.holds q).remove_yields ptr).mono (fun queue ⟨hqueue, hshort⟩ => ⟨rfl, ?_⟩)
      fun fault ⟨hfault, hlacks⟩ => ⟨hfault, hlacks.mono (by omega)⟩
    exact h.update q hle hqueue (by omega)
  | contains q ptr =>
    rw [QueueOp.exec, (h.holds q).contains_eq]
    exact ⟨rfl, h.mono hle⟩
  | copy target source =>
    have halloc := h.alloc_le source
    rw [QueueOp.exec, yields_bind]
    refine ((h.holds target).copy_yields (h.holds source)).mono
      (fun queue ⟨hqueue, hsame⟩ => ⟨rfl, ?_⟩) fun fault ⟨hfault, hlacks⟩ =>
        ⟨hfault, hlacks.mono (by omega)⟩
    exact h.update target hle hqueue (by omega)
  | reset q =>
    exact ⟨rfl, h.update q hle ((h.holds q).reset _) ((h.alloc_le q).trans hle)⟩
  | free q => exact ⟨rfl, h.update q hle MmcQueue.holds_empty (Nat.zero_le _)⟩

/-- What every call does, a run does, by induction on the calls. -/
theorem StandFor.run_yields (h : StandFor n queues lists) (ops : List (QueueOp α)) :
    Yields (execQueueOps memory queues ops)
      (fun out => out.1 = (queueOpsOnLists lists ops).1 ∧
        StandFor (n + (1 + MMC_QUEUE_PREALLOC) * ops.length) out.2 (queueOpsOnLists lists ops).2)
      (fun fault => fault = .outOfMemory ∧
        memory.Lacks (n + (1 + MMC_QUEUE_PREALLOC) * ops.length)) := by
  induction ops generalizing n queues lists with
  | nil => exact ⟨rfl, h.mono (Nat.le_add_right _ _)⟩
  | cons op ops ih =>
    have hlength : n + (1 + MMC_QUEUE_PREALLOC) + (1 + MMC_QUEUE_PREALLOC) * ops.length
        = n + (1 + MMC_QUEUE_PREALLOC) * (op :: ops).length := by
      rw [List.length_cons]
      ring
    rw [execQueueOps, yields_bind]
    refine (h.exec_yields op).mono (fun out ⟨hresult, hout⟩ => ?_) fun fault ⟨hfault, hlacks⟩ =>
      ⟨hfault, hlacks.mono (hlength ▸ Nat.le_add_right _ _)⟩
    rw [yields_bind]
    refine (ih hout).mono (fun rest ⟨hresults, hrest⟩ => ?_) fun fault hfault => hlength ▸ hfault
    exact ⟨congrArg₂ List.cons hresult hresults, hlength ▸ hrest⟩

end StandFor

/-- A pointer that is queued already is not pushed again. -/
example : (execQueueOps ⟨2 ^ 20, by decide⟩ (fun _ => ({} : MmcQueue Nat))
    [.push 0 7, .push 0 8, .push 0 7, .remove 0 7, .pop 0, .pop 0]).map Prod.fst
      = .ok [.void, .void, .void, .void, .pointer (some 8), .pointer none] := by decide

end PeclMemcache
