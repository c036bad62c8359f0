/-
# EmWinDemo.Kernel.Queue -- the queue of the kernel as a ring of bytes

`queue.c` keeps `uxLength` items of `uxItemSize` bytes in one storage area and moves two pointers
around it.  The model has the storage as a list of bytes and the pointers as offsets from its
beginning; a copy that would leave the area, an item that is shorter than what `memcpy` reads and a
failed `configASSERT` are `none`.  The operations here are those of one pass through a critical
section, as a call with no block time makes it; the lists of waiting tasks are in `Kernel.Blocking`.

Above it stands a bounded deque, a plain list with a capacity.  `queue_refines_deque` says that the
queue gives the answers of the deque in every sequence of operations, and never copies a byte
outside of its storage.  Sizes are 32 bits wide: the size of the storage is computed modulo 2^32, and
a queue that is longer than its storage is no deque.

Mutexes, which are queues without storage and with a holder, are left out.
-/
import EmWinDemo.Lib.CText
import EmWinDemo.Lib.Ring

namespace EmWinDemo.Kernel

open Lib.CMemory (Bytes)
open Lib.Ring

/-! ## The queue -/

/-- Where `xQueueGenericSend` puts an item. -/
inductive CopyPosition where
  | sendToBack
  | sendToFront
  | overwrite
  deriving DecidableEq, Repr

def queueUNLOCKED : Int := -1

def queueLOCKED_UNMODIFIED : Int := 0

/-- `Queue_t`; the lists of waiting tasks are kept apart. -/
structure Queue where
  storage : Bytes
  pcHead : Int
  pcTail : Int
  pcWriteTo : Int
  /-- the item read last, not the next one -/
  pcReadFrom : Int
  uxMessagesWaiting : Nat
  uxLength : Nat
  uxItemSize : Nat
  cRxLock : Int
  cTxLock : Int
  deriving DecidableEq, Repr

/-- `xQueueGenericReset`, without its effect on waiting tasks. -/
def xQueueGenericReset (pxQueue : Queue) : Queue :=
  { pxQueue with
    pcTail := pxQueue.pcHead + pxQueue.uxLength * pxQueue.uxItemSize
    uxMessagesWaiting := 0
    pcWriteTo := pxQueue.pcHead
    pcReadFrom := pxQueue.pcHead + (pxQueue.uxLength - 1 : Nat) * pxQueue.uxItemSize
    cRxLock := queueUNLOCKED
    cTxLock := queueUNLOCKED }

def prvInitialiseNewQueue (uxQueueLength uxItemSize : Nat) (pucQueueStorage : Bytes) : Queue :=
  xQueueGenericReset
    { storage := pucQueueStorage, pcHead := 0, pcTail := 0, pcWriteTo := 0, pcReadFrom := 0,
      uxMessagesWaiting := 0, uxLength := uxQueueLength, uxItemSize := uxItemSize,
      cRxLock := queueUNLOCKED, cTxLock := queueUNLOCKED }

/-- `xQueueGenericCreate`; the storage is what the block has behind the `Queue_t`. -/
def xQueueGenericCreate (sizeofQueue : Nat) (pvPortMalloc : Nat → Option Bytes)
    (uxQueueLength uxItemSize : Nat) : Option Queue :=
  -- `configASSERT`
  if uxQueueLength = 0 then none
  else
    let xQueueSizeInBytes := uxQueueLength * uxItemSize % 2 ^ 32
    (pvPortMalloc ((sizeofQueue + xQueueSizeInBytes) % 2 ^ 32)).map fun pxNewQueue =>
      prvInitialiseNewQueue uxQueueLength uxItemSize (pxNewQueue.drop sizeofQueue)

/-! ## Copying -/

/-- `memcpy` of `n` bytes of the caller's memory to `p` in the storage area. -/
def memcpyIn (storage : Bytes) (p : Int) (source : Bytes) (n : Nat) : Option Bytes :=
  if 0 ≤ p ∧ p + n ≤ storage.length ∧ n ≤ source.length then
    some (splice storage p.toNat (source.take n))
  else none

/-- `memcpy` of `n` bytes from `p` in the storage area. -/
def memcpyOut (storage : Bytes) (p : Int) (n : Nat) : Option Bytes :=
  if 0 ≤ p ∧ p + n ≤ storage.length then some ((storage.drop p.toNat).take n) else none

def prvCopyDataToQueue (pxQueue : Queue) (pvItemToQueue : Bytes) (xPosition : CopyPosition) :
    Option Queue :=
  let uxMessagesWaiting := pxQueue.uxMessagesWaiting
  if pxQueue.uxItemSize = 0 then
    some { pxQueue with uxMessagesWaiting := uxMessagesWaiting + 1 }
  else if xPosition = .sendToBack then
    (memcpyIn pxQueue.storage pxQueue.pcWriteTo pvItemToQueue pxQueue.uxItemSize).map
      fun storage =>
        let pcWriteTo := pxQueue.pcWriteTo + pxQueue.uxItemSize
        { pxQueue with
          storage
          pcWriteTo := if pxQueue.pcTail ≤ pcWriteTo then pxQueue.pcHead else pcWriteTo
          uxMessagesWaiting := uxMessagesWaiting + 1 }
  else
    (memcpyIn pxQueue.storage pxQueue.pcReadFrom pvItemToQueue pxQueue.uxItemSize).map
      fun storage =>
        let pcReadFrom := pxQueue.pcReadFrom - pxQueue.uxItemSize
        -- an item is not added but overwritten
        let uxMessagesWaiting :=
          if xPosition = .overwrite ∧ 0 < uxMessagesWaiting then uxMessagesWaiting - 1
          else uxMessagesWaiting
        { pxQueue with
          storage
          pcReadFrom :=
            if pcReadFrom < pxQueue.pcHead then pxQueue.pcTail - pxQueue.uxItemSize else pcReadFrom
          uxMessagesWaiting := uxMessagesWaiting + 1 }

/-- The queue and what has been copied to the caller's buffer. -/
def prvCopyDataFromQueue (pxQueue : Queue) : Option (Queue × Bytes) :=
  if pxQueue.uxItemSize ≠ 0 then
    let pcReadFrom := pxQueue.pcReadFrom + pxQueue.uxItemSize
    let pcReadFrom := if pxQueue.pcTail ≤ pcReadFrom then pxQueue.pcHead else pcReadFrom
    (memcpyOut pxQueue.storage pcReadFrom pxQueue.uxItemSize).map
      fun item => ({ pxQueue with pcReadFrom }, item)
  else some (pxQueue, [])

/-! ## Operations -/

inductive Op where
  | send (pvItemToQueue : Bytes) (xCopyPosition : CopyPosition)
  | receive
  | peek
  | reset
  | messagesWaiting
  | spacesAvailable
  /-- a send that has waited in vain -/
  | sendTimedOut
  deriving DecidableEq, Repr

inductive Reply where
  | pdPASS
  | errQUEUE_FULL
  | errQUEUE_EMPTY
  /-- `pdPASS`, with the item in the caller's buffer -/
  | item (bytes : Bytes)
  | count (n : Nat)
  deriving DecidableEq, Repr

/-- `xQueueGenericSend` with no block time, and `xQueueGenericSendFromISR`. -/
def xQueueGenericSend (pxQueue : Queue) (pvItemToQueue : Bytes) (xCopyPosition : CopyPosition) :
    Option (Queue × Reply) :=
  -- `configASSERT`
  if xCopyPosition = .overwrite ∧ pxQueue.uxLength ≠ 1 then none
  else if pxQueue.uxMessagesWaiting < pxQueue.uxLength ∨ xCopyPosition = .overwrite then
    (prvCopyDataToQueue pxQueue pvItemToQueue xCopyPosition).map fun q => (q, .pdPASS)
  else some (pxQueue, .errQUEUE_FULL)

/-- `xQueueReceive` with no block time, `xQueueReceiveFromISR`, and `xQueueSemaphoreTake` for items
without bytes. -/
def xQueueReceive (pxQueue : Queue) : Option (Queue × Reply) :=
  if 0 < pxQueue.uxMessagesWaiting then
    (prvCopyDataFromQueue pxQueue).map fun x =>
      ({ x.1 with uxMessagesWaiting := pxQueue.uxMessagesWaiting - 1 }, .item x.2)
  else some (pxQueue, .errQUEUE_EMPTY)

/-- `xQueuePeek` with no block time, and `xQueuePeekFromISR`. -/
def xQueuePeek (pxQueue : Queue) : Option (Queue × Reply) :=
  if 0 < pxQueue.uxMessagesWaiting then
    let pcOriginalReadPosition := pxQueue.pcReadFrom
    (prvCopyDataFromQueue pxQueue).map fun x =>
      ({ x.1 with pcReadFrom := pcOriginalReadPosition }, .item x.2)
  else some (pxQueue, .errQUEUE_EMPTY)

def uxQueueMessagesWaiting (pxQueue : Queue) : Nat := pxQueue.uxMessagesWaiting

def uxQueueSpacesAvailable (pxQueue : Queue) : Nat := pxQueue.uxLength - pxQueue.uxMessagesWaiting

def perform (pxQueue : Queue) : Op → Option (Queue × Reply)
  | .send pvItemToQueue xCopyPosition => xQueueGenericSend pxQueue pvItemToQueue xCopyPosition
  | .receive => xQueueReceive pxQueue
  | .peek => xQueuePeek pxQueue
  | .reset => some (xQueueGenericReset pxQueue, .pdPASS)
  | .messagesWaiting => some (pxQueue, .count (uxQueueMessagesWaiting pxQueue))
  | .spacesAvailable => some (pxQueue, .count (uxQueueSpacesAvailable pxQueue))
  -- `xQueueGenericSend` does not look at the queue again when its block time has expired
  | .sendTimedOut => some (pxQueue, .errQUEUE_FULL)

/-- A sequence of operations and their replies. -/
def performAll (pxQueue : Queue) : List Op → Option (Queue × List Reply)
  | [] => some (pxQueue, [])
  | op :: ops =>
    (perform pxQueue op).bind fun x =>
      (performAll x.1 ops).map fun y => (y.1, x.2 :: y.2)

/-! ## A bounded deque -/

namespace Deque

/-- One operation on a list of at most `n` items of `size` bytes. -/
def perform (n size : Nat) (items : List Bytes) : Op → List Bytes × Reply
  | .send item .sendToBack =>
    if items.length < n then (items ++ [item.take size], .pdPASS) else (items, .errQUEUE_FULL)
  | .send item .sendToFront =>
    if items.length < n then (item.take size :: items, .pdPASS) else (items, .errQUEUE_FULL)
  | .send item .overwrite => (item.take size :: items.drop 1, .pdPASS)
  | .receive =>
    match items with
    | [] => ([], .errQUEUE_EMPTY)
    | item :: items => (items, .item item)
  | .peek =>
    match items with
    | [] => ([], .errQUEUE_EMPTY)
    | item :: items => (item :: items, .item item)
  | .reset => ([], .pdPASS)
  | .messagesWaiting => (items, .count items.length)
  | .spacesAvailable => (items, .count (n - items.length))
  | .sendTimedOut => (items, .errQUEUE_FULL)

def performAll (n size : Nat) (items : List Bytes) : List Op → List Bytes × List Reply
  | [] => (items, [])
  | op :: ops =>
    let x := perform n size items op
    let y := performAll n size x.1 ops
    (y.1, x.2 :: y.2)

end Deque

/-! ## The representation -/

/-- The storage is a ring of blocks; the items stand behind the block read last. -/
structure Holds (n size : Nat) (q : Queue) (items : List Bytes) : Prop where
  uxLength : q.uxLength = n
  uxItemSize : q.uxItemSize = size
  storage : q.storage.length = n * size
  pcHead : q.pcHead = 0
  pcTail : q.pcTail = (n * size : Nat)
  count : q.uxMessagesWaiting = items.length
  bound : items.length ≤ n
  ring : ∃ r < n, q.pcReadFrom = (r * size : Nat) ∧
    q.pcWriteTo = (slot n r items.length * size : Nat) ∧
    items = contents (block size q.storage) n r items.length

variable {n size : Nat} {q q' : Queue} {item : Bytes} {items : List Bytes}

/-- What the callers promise and `configASSERT` checks.  An item of no bytes cannot be overwritten:
it would be counted once more. -/
def Allowed (n size : Nat) : Op → Prop
  | .send item pos => size ≤ item.length ∧ (pos = .overwrite → n = 1 ∧ size ≠ 0)
  | _ => True

instance : (op : Op) → Decidable (Allowed n size op)
  | .send _ _ => inferInstanceAs (Decidable (_ ∧ _))
  | .receive | .peek | .reset | .messagesWaiting | .spacesAvailable | .sendTimedOut =>
    isTrue trivial

/-- Only the storage, the two pointers and the count are read. -/
theorem Holds.congr (h : Holds n size q items) (hstorage : q'.storage = q.storage)
    (hhead : q'.pcHead = q.pcHead) (htail : q'.pcTail = q.pcTail)
    (hwrite : q'.pcWriteTo = q.pcWriteTo) (hread : q'.pcReadFrom = q.pcReadFrom)
    (hcount : q'.uxMessagesWaiting = q.uxMessagesWaiting) (hlength : q'.uxLength = q.uxLength)
    (hsize : q'.uxItemSize = q.uxItemSize) : Holds n size q' items where
  uxLength := hlength.trans h.uxLength
  uxItemSize := hsize.trans h.uxItemSize
  storage := by rw [hstorage, h.storage]
  pcHead := hhead.trans h.pcHead
  pcTail := htail.trans h.pcTail
  count := hcount.trans h.count
  bound := h.bound
  ring := by
    rw [hread, hwrite, hstorage]
    exact h.ring

theorem holds_reset (hn : 0 < n) (hlength : q.uxLength = n) (hsize : q.uxItemSize = size)
    (hstorage : q.storage.length = n * size) (hhead : q.pcHead = 0) :
    Holds n size (xQueueGenericReset q) [] where
  uxLength := hlength
  uxItemSize := hsize
  storage := hstorage
  pcHead := hhead
  pcTail := by simp [xQueueGenericReset, hhead, hlength, hsize]
  count := rfl
  bound := Nat.zero_le n
  ring := by
    refine ⟨n - 1, by omega, ?_, ?_, rfl⟩
    · simp [xQueueGenericReset, hhead, hlength, hsize]
    · have hfirst : slot n (n - 1) 0 = 0 := by
        rw [slot_zero, next_eq (by omega), if_pos (by omega)]
      show q.pcHead = (slot n (n - 1) 0 * size : Nat)
      rw [hfirst, hhead, Nat.zero_mul]
      rfl

/-- A new queue is empty. -/
theorem holds_create (hn : 0 < n) {storage : Bytes} (hstorage : storage.length = n * size) :
    Holds n size (prvInitialiseNewQueue n size storage) [] :=
  holds_reset hn rfl rfl hstorage rfl

/-- A created queue has all of its storage, if its size is one that can be computed. -/
theorem create_eq {sizeofQueue : Nat} {pvPortMalloc : Nat → Option Bytes}
    (hmalloc : ∀ k block, pvPortMalloc k = some block → block.length = k)
    (hbytes : sizeofQueue + n * size < 2 ^ 32)
    (h : xQueueGenericCreate sizeofQueue pvPortMalloc n size = some q) :
    0 < n ∧ ∃ storage : Bytes, storage.length = n * size ∧ q = prvInitialiseNewQueue n size storage := by
  unfold xQueueGenericCreate at h
  split at h
  · cases h
  next hn =>
  obtain ⟨block, hblock, rfl⟩ := Option.map_eq_some_iff.mp h
  refine ⟨Nat.pos_of_ne_zero hn, block.drop sizeofQueue, ?_, rfl⟩
  have hlength := hmalloc _ _ hblock
  rw [Nat.mod_eq_of_lt (show n * size < 2 ^ 32 by omega), Nat.mod_eq_of_lt hbytes] at hlength
  rw [List.length_drop]
  omega

/-! ## Pointers and slots -/

theorem block_zero (storage : Bytes) : block 0 storage = fun _ => [] := by
  funext i
  exact List.take_zero

theorem memcpyIn_slot {storage source : Bytes} (hstorage : storage.length = n * size) {i : Nat}
    (hi : i < n) (hsource : size ≤ source.length) :
    memcpyIn storage (i * size : Nat) source size =
      some (splice storage (i * size) (source.take size)) := by
  have hle : i * size + size ≤ n * size := mul_bound hi
  rw [memcpyIn, if_pos ⟨Int.natCast_nonneg _, by omega, hsource⟩, Int.toNat_natCast]

theorem memcpyOut_slot {storage : Bytes} (hstorage : storage.length = n * size) {i : Nat}
    (hi : i < n) : memcpyOut storage (i * size : Nat) size = some (block size storage i) := by
  have hle : i * size + size ≤ n * size := mul_bound hi
  rw [memcpyOut, if_pos ⟨Int.natCast_nonneg _, by omega⟩, Int.toNat_natCast]
  rfl

/-- A pointer moved on by one item, back to the head at the tail. -/
theorem advance_eq (hsize : size ≠ 0) {i : Nat} (hi : i < n) :
    (if ((n * size : Nat) : Int) ≤ (i * size : Nat) + (size : Nat) then 0
      else ((i * size : Nat) : Int) + (size : Nat)) = (next n i * size : Nat) := by
  have hle : i * size + size ≤ n * size := mul_bound hi
  rw [next_eq hi]
  by_cases hlast : i + 1 = n
  · have heq : n * size = i * size + size := by rw [← hlast, Nat.succ_mul]
    rw [if_pos (by omega), if_pos hlast, Nat.zero_mul]
    rfl
  · have hlt : (i + 1) * size + size ≤ n * size := mul_bound (by omega)
    rw [Nat.succ_mul] at hlt
    rw [if_neg (by omega), if_neg hlast, Nat.succ_mul]
    rfl

/-- A pointer moved back by one item, to the last one from the head. -/
theorem retreat_eq (hsize : size ≠ 0) {i : Nat} (hi : i < n) :
    (if ((i * size : Nat) : Int) - (size : Nat) < 0 then ((n * size : Nat) : Int) - (size : Nat)
      else ((i * size : Nat) : Int) - (size : Nat)) = (prev n i * size : Nat) := by
  rw [prev_eq hi]
  by_cases hfirst : i = 0
  · subst hfirst
    have hle : size ≤ n * size := by simpa using mul_bound hi
    rw [if_pos (by omega), if_pos rfl, Nat.sub_mul, Nat.one_mul]
    omega
  · have hle : 1 * size ≤ i * size := Nat.mul_le_mul_right size (Nat.pos_of_ne_zero hfirst)
    rw [if_neg (by omega), if_neg hfirst, Nat.sub_mul]
    omega

/-! ## The operations keep the representation -/

/-- `queueSEND_TO_BACK`. -/
theorem copy_back (h : Holds n size q items) (hroom : items.length < n) {item : Bytes}
    (hitem : size ≤ item.length) :
    ∃ q', prvCopyDataToQueue q item .sendToBack = some q' ∧
      Holds n size q' (items ++ [item.take size]) := by
  obtain ⟨r, hr, hread, hwrite, hcontents⟩ := h.ring
  have hlen : (items ++ [item.take size]).length = items.length + 1 := by simp
  by_cases hsize : size = 0
  · refine ⟨{ q with uxMessagesWaiting := q.uxMessagesWaiting + 1 }, ?_, ?_⟩
    · rw [prvCopyDataToQueue, if_pos (h.uxItemSize.trans hsize)]
    · subst hsize
      refine { h with count := ?_, bound := by omega, ring := ⟨r, hr, hread, ?_, ?_⟩ }
      · rw [hlen, ← h.count]
      · show q.pcWriteTo = _
        rw [hwrite, Nat.mul_zero, Nat.mul_zero]
      · rw [hlen]
        simp only [block_zero] at hcontents ⊢
        rw [← Function.update_eq_self (slot n r items.length) fun _ : Nat => ([] : Bytes),
          contents_push hroom, ← hcontents, List.take_zero]
  · have hslot : slot n r items.length < n := slot_lt hr _
    have hin := memcpyIn_slot h.storage hslot hitem
    have htake : (item.take size).length = size := List.length_take_of_le hitem
    have hbound : slot n r items.length * size + size ≤ q.storage.length := by
      rw [h.storage]
      exact mul_bound hslot
    refine ⟨{ q with
      storage := splice q.storage (slot n r items.length * size) (item.take size)
      pcWriteTo := (next n (slot n r items.length) * size : Nat)
      uxMessagesWaiting := q.uxMessagesWaiting + 1 }, ?_, ?_⟩
    · rw [prvCopyDataToQueue, if_neg (by rwa [h.uxItemSize]), if_pos rfl, hwrite, h.uxItemSize,
        hin, Option.map_some, h.pcTail, h.pcHead]
      dsimp only
      rw [advance_eq hsize hslot]
    · refine ⟨h.uxLength, h.uxItemSize, ?_, h.pcHead, h.pcTail, ?_, by omega, r, hr, hread, ?_, ?_⟩
      · rw [length_splice (by rwa [htake]), h.storage]
      · rw [hlen, ← h.count]
      · rw [next_slot, hlen]
      · rw [hlen, block_splice htake hbound, contents_push hroom, ← hcontents]

/-- `queueSEND_TO_FRONT` and `queueOVERWRITE`: the item goes before the `kept` newest ones. -/
theorem copy_front (h : Holds n size q items) {pos : CopyPosition} (hpos : pos ≠ .sendToBack)
    {kept : List Bytes} (hroom : kept.length < n) {item : Bytes} (hitem : size ≤ item.length)
    (hkept : kept = items ∧ pos = .sendToFront ∨
      kept = items.drop 1 ∧ pos = .overwrite ∧ n = 1 ∧ size ≠ 0) :
    ∃ q', prvCopyDataToQueue q item pos = some q' ∧
      Holds n size q' (item.take size :: kept) := by
  obtain ⟨r, hr, hread, hwrite, hcontents⟩ := h.ring
  have hlen : (item.take size :: kept).length = kept.length + 1 := rfl
  by_cases hsize : size = 0
  · obtain ⟨rfl, -⟩ : kept = items ∧ pos = .sendToFront := by
      rcases hkept with hfront | ⟨-, -, -, hne⟩
      · exact hfront
      · exact absurd hsize hne
    refine ⟨{ q with uxMessagesWaiting := q.uxMessagesWaiting + 1 }, ?_, ?_⟩
    · rw [prvCopyDataToQueue, if_pos (h.uxItemSize.trans hsize)]
    · subst hsize
      refine { h with count := ?_, bound := hroom, ring := ⟨r, hr, hread, ?_, ?_⟩ }
      · rw [hlen, ← h.count]
      · show q.pcWriteTo = _
        rw [hwrite, Nat.mul_zero, Nat.mul_zero]
      · rw [hlen]
        simp only [block_zero] at hcontents ⊢
        rw [contents_pop, List.take_zero, hcontents, length_contents]
        rfl
  · have htake : (item.take size).length = size := List.length_take_of_le hitem
    have hbound : r * size + size ≤ q.storage.length := by
      rw [h.storage]
      exact mul_bound hr
    have hold : kept = contents (block size q.storage) n r kept.length := by
      rcases hkept with ⟨rfl, -⟩ | ⟨rfl, -, hone, -⟩
      · exact hcontents
      · -- the only item is the one that is overwritten
        have hnone : items.drop 1 = [] := List.drop_eq_nil_of_le (hone ▸ h.bound)
        rw [hnone]
        rfl
    have hcount : (if pos = .overwrite ∧ 0 < q.uxMessagesWaiting then q.uxMessagesWaiting - 1
        else q.uxMessagesWaiting) = kept.length := by
      rw [h.count]
      rcases hkept with ⟨rfl, rfl⟩ | ⟨rfl, rfl, -⟩
      · rw [if_neg (by simp)]
      · rw [List.length_drop]
        split
        · rfl
        · next hnone => simp only [true_and, not_lt] at hnone; omega
    refine ⟨{ q with
      storage := splice q.storage (r * size) (item.take size)
      pcReadFrom := (prev n r * size : Nat)
      uxMessagesWaiting := kept.length + 1 }, ?_, ?_⟩
    · rw [prvCopyDataToQueue, if_neg (by rwa [h.uxItemSize]), if_neg hpos, hread, h.uxItemSize,
        memcpyIn_slot h.storage hr hitem, Option.map_some, h.pcHead, h.pcTail]
      dsimp only
      rw [retreat_eq hsize hr, hcount]
    · refine ⟨h.uxLength, h.uxItemSize, ?_, h.pcHead, h.pcTail, rfl, hroom, prev n r, prev_lt hr,
        rfl, ?_, ?_⟩
      · rw [length_splice (by rwa [htake]), h.storage]
      · show q.pcWriteTo = _
        rw [hlen, slot_prev hr, hwrite]
        rcases hkept with ⟨rfl, -⟩ | ⟨rfl, -, rfl, -⟩
        · rfl
        · -- a ring of one slot
          rw [Nat.lt_one_iff.mp (slot_lt hr _), Nat.lt_one_iff.mp (slot_lt hr _)]
      · rw [hlen, block_splice htake hbound, contents_unpop hr hroom, ← hold]

/-- What is copied out of a queue that is not empty. -/
theorem copy_from (h : Holds n size q (item :: items)) :
    ∃ q', prvCopyDataFromQueue q = some (q', item) ∧
      Holds n size { q' with uxMessagesWaiting := q.uxMessagesWaiting - 1 } items ∧
      { q' with pcReadFrom := q.pcReadFrom } = q := by
  obtain ⟨r, hr, hread, hwrite, hcontents⟩ := h.ring
  have hlen : (item :: items).length = items.length + 1 := rfl
  have hbound : items.length + 1 ≤ n := h.bound
  rw [hlen, contents_pop] at hcontents
  obtain ⟨hitem, hitems⟩ := List.cons.inj hcontents
  have hcount : q.uxMessagesWaiting - 1 = items.length := by rw [h.count, hlen]; rfl
  have hslot : slot n r (items.length + 1) = slot n (next n r) items.length := (slot_next _ _ _).symm
  by_cases hsize : size = 0
  · refine ⟨q, ?_, ?_, rfl⟩
    · rw [prvCopyDataFromQueue, if_neg (not_not.mpr (h.uxItemSize.trans hsize)), hitem, hsize,
        block_zero]
    · refine { h with count := hcount, bound := by omega, ring := ⟨next n r, next_lt hr, ?_, ?_, ?_⟩ }
      · rw [hread, hsize, Nat.mul_zero, Nat.mul_zero]
      · rw [hwrite, hlen, hslot]
      · exact hitems
  · have hadvance := advance_eq hsize hr
    refine ⟨{ q with pcReadFrom := (next n r * size : Nat) }, ?_, ?_, rfl⟩
    · rw [prvCopyDataFromQueue, if_pos (by rwa [h.uxItemSize]), hread, h.uxItemSize, h.pcTail,
        h.pcHead]
      dsimp only
      rw [hadvance, memcpyOut_slot h.storage (next_lt hr), ← hitem]
      rfl
    · refine ⟨h.uxLength, h.uxItemSize, h.storage, h.pcHead, h.pcTail, hcount, by omega, next n r,
        next_lt hr, rfl, ?_, hitems⟩
      show q.pcWriteTo = _
      rw [hwrite, hlen, hslot]

/-- One operation, on the ring and on the list. -/
theorem perform_refines (h : Holds n size q items) (hn : 0 < n) {op : Op}
    (hop : Allowed n size op) :
    ∃ q', perform q op = some (q', (Deque.perform n size items op).2) ∧
      Holds n size q' (Deque.perform n size items op).1 := by
  have hlength := h.uxLength
  have hcount := h.count
  cases op with
  | send item pos =>
    obtain ⟨hitem, hover⟩ := hop
    show ∃ q', xQueueGenericSend q item pos = _ ∧ _
    rw [xQueueGenericSend, hlength, hcount]
    cases pos with
    | sendToBack =>
      rw [if_neg (by simp)]
      simp only [reduceCtorEq, or_false, Deque.perform]
      split
      · next hroom =>
        obtain ⟨q', hcopy, hq'⟩ := copy_back h hroom hitem
        exact ⟨q', by rw [hcopy]; rfl, hq'⟩
      · exact ⟨q, rfl, h⟩
    | sendToFront =>
      rw [if_neg (by simp)]
      simp only [reduceCtorEq, or_false, Deque.perform]
      split
      · next hroom =>
        obtain ⟨q', hcopy, hq'⟩ := copy_front h (by decide) hroom hitem (Or.inl ⟨rfl, rfl⟩)
        exact ⟨q', by rw [hcopy]; rfl, hq'⟩
      · exact ⟨q, rfl, h⟩
    | overwrite =>
      obtain ⟨hone, hsize⟩ := hover rfl
      have hroom : (items.drop 1).length < n := by
        have := h.bound
        rw [List.length_drop]
        omega
      obtain ⟨q', hcopy, hq'⟩ :=
        copy_front h (by decide) hroom hitem (Or.inr ⟨rfl, rfl, hone, hsize⟩)
      rw [if_neg (by simp [hone]), if_pos (Or.inr rfl)]
      exact ⟨q', by rw [hcopy]; rfl, hq'⟩
  | receive =>
    show ∃ q', xQueueReceive q = _ ∧ _
    rw [xQueueReceive, hcount]
    cases items with
    | nil => exact ⟨q, rfl, h⟩
    | cons item items =>
      obtain ⟨q', hcopy, hq', -⟩ := copy_from h
      rw [hcount] at hq'
      exact ⟨_, by rw [if_pos (List.length_pos_of_ne_nil (List.cons_ne_nil _ _)), hcopy]; rfl, hq'⟩
  | peek =>
    show ∃ q', xQueuePeek q = _ ∧ _
    rw [xQueuePeek, hcount]
    cases items with
    | nil => exact ⟨q, rfl, h⟩
    | cons item items =>
      obtain ⟨q', hcopy, -, hsame⟩ := copy_from h
      refine ⟨q, ?_, h⟩
      rw [if_pos (List.length_pos_of_ne_nil (List.cons_ne_nil _ _)), hcopy]
      simp only [Option.map_some, hsame]
      rfl
  | reset => exact ⟨_, rfl, holds_reset hn hlength h.uxItemSize h.storage h.pcHead⟩
  | messagesWaiting =>
    refine ⟨q, ?_, h⟩
    rw [perform, uxQueueMessagesWaiting, hcount]
    rfl
  | spacesAvailable =>
    refine ⟨q, ?_, h⟩
    rw [perform, uxQueueSpacesAvailable, hcount, hlength]
    rfl
  | sendTimedOut => exact ⟨q, rfl, h⟩

theorem performAll_refines (h : Holds n size q items) (hn : 0 < n) {ops : List Op}
    (hops : ∀ op ∈ ops, Allowed n size op) :
    ∃ q', performAll q ops = some (q', (Deque.performAll n size items ops).2) ∧
      Holds n size q' (Deque.performAll n size items ops).1 := by
  induction ops generalizing q items with
  | nil => exact ⟨q, rfl, h⟩
  | cons op ops ih =>
    rw [List.forall_mem_cons] at hops
    obtain ⟨q₁, hfirst, hq₁⟩ := perform_refines h hn hops.1
    obtain ⟨q₂, hrest, hq₂⟩ := ih hq₁ hops.2
    refine ⟨q₂, ?_, hq₂⟩
    rw [performAll, hfirst, Option.bind_some, hrest]
    rfl

/-- **The queue is a bounded deque.** From its creation on, every sequence of operations that the
assertions allow runs without a copy outside the storage area, and its replies are those of a list
of at most `uxQueueLength` items. -/
theorem queue_refines_deque {sizeofQueue : Nat} {pvPortMalloc : Nat → Option Bytes}
    (hmalloc : ∀ k block, pvPortMalloc k = some block → block.length = k)
    {uxQueueLength uxItemSize : Nat} (hbytes : sizeofQueue + uxQueueLength * uxItemSize < 2 ^ 32)
    {q : Queue} (hq : xQueueGenericCreate sizeofQueue pvPortMalloc uxQueueLength uxItemSize = some q)
    (ops : List Op) (hops : ∀ op ∈ ops, Allowed uxQueueLength uxItemSize op) :
    (performAll q ops).map (fun x => x.2) =
      some (Deque.performAll uxQueueLength uxItemSize [] ops).2 := by
  obtain ⟨hlength, storage, hstorage, rfl⟩ := create_eq hmalloc hbytes hq
  obtain ⟨q', hrun, -⟩ := performAll_refines (holds_create hlength hstorage) hlength hops
  rw [hrun]
  rfl

/-- Two items of two bytes; the third does not fit, and the front overtakes. -/
theorem queue_refines_deque_two :
    ∃ q, xQueueGenericCreate 72 (fun k => some (List.replicate k 0)) 2 2 = some q ∧
      (performAll q
        [.send [1, 2] .sendToBack, .send [3, 4, 9] .sendToFront, .send [5, 6] .sendToBack,
          .receive, .receive, .peek]).map (fun x => x.2) =
      some [.pdPASS, .pdPASS, .errQUEUE_FULL, .item [3, 4], .item [1, 2], .errQUEUE_EMPTY] := by
  have hmalloc : ∀ k block, some (List.replicate k (0 : UInt8)) = some block → block.length = k := by
    intro k block hblock
    rw [← Option.some.inj hblock, List.length_replicate]
  exact ⟨_, rfl, @queue_refines_deque 72 _ hmalloc 2 2 (by decide) _ rfl _ (by decide)⟩

/-- Sixty-five thousand items of as many bytes get no storage at all. -/
example : (xQueueGenericCreate 0 (fun k => some (List.replicate k 0)) 65536 65536).map
    (fun q => q.storage) = some [] := rfl

end EmWinDemo.Kernel
