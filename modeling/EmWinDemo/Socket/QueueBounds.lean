/-
# EmWinDemo.Socket.QueueBounds -- which arrays a round of the queue reader stays in

An item of `Socket_Queue` has 135 bytes (`xQueueCreate` in AppTask.c) and `xQueueReceive` copies
all of them, into an array of 134.  `not_roundOk` says that no item is received in bounds.
`copiesOk_iff` is about the rest of the round: the scan and the copies are right exactly for the
items with a NUL among the 133 bytes behind the id.
-/
import EmWinDemo.Socket.ClientRead
import EmWinDemo.Socket.QueueRead

namespace EmWinDemo.Socket.QueueBounds

open EmWinDemo.Lib.CMemory EmWinDemo.Socket.ClientRead EmWinDemo.Socket.QueueRead

/-! ## What a round writes -/

/-- The arrays that a round writes to, each of `MSG_NUM` bytes. -/
inductive Target where
  | msgBuffer
  | socketString
  | stringOf (k : Nat)
  deriving Repr, DecidableEq

/-- `count` bytes are written from the start of the array on. -/
structure Write where
  target : Target
  count : Nat
  deriving Repr, DecidableEq

/-- The conversion of an `int` to the unsigned length of a copy. -/
def toSize (n : Int) : Nat := (n % 4294967296).toNat

/-- The calls of `GUI__memcpy` in the `switch`. -/
def copyWrites (f : Frame) (len : Int) : List Write :=
  match f.msgBuffer.head? with
  | some 1 => [⟨.stringOf 1, toSize len⟩, ⟨.socketString, msgNum⟩]
  | some 2 => [⟨.stringOf 2, toSize len⟩]
  | some 3 => [⟨.stringOf 3, toSize len⟩]
  | _ => []

/-- A whole round: `xQueueReceive` writes as many bytes as an item has. -/
def roundWrites (junk : Int) (item : Bytes) : List Write :=
  let f := xQueueReceive item
  ⟨.msgBuffer, item.length⟩ :: copyWrites f (msgLen junk f)

/-! ## What a round should do -/

/-- The strings after the round: that of client `k` is terminated and holds the bytes behind the
id up to the first NUL, or as many as fit; the other clients keep theirs. -/
def Shows (k : Nat) (item : Bytes) (s t : Strings) : Prop :=
  readCstr (t.ofClient k) = some ((cstr (item.drop 1)).take (msgNum - 1)) ∧
    ∀ j, j ≠ k → t.ofClient j = s.ofClient j

/-- The scan and the copies of a round, whatever is used as a length where the scan has none. -/
structure CopiesOk (k : Nat) (item : Bytes) (s : Strings) : Prop where
  defined : (findQueueEnd (some (xQueueReceive item).msgBuffer)).isSome
  inBounds : ∀ junk, ∀ w ∈ copyWrites (xQueueReceive item) (msgLen junk (xQueueReceive item)),
    w.count ≤ msgNum
  shows : ∀ junk, ∃ t, copyMessage (xQueueReceive item) (msgLen junk (xQueueReceive item)) s =
    some t ∧ Shows k item s t

/-- A round on one item. -/
structure RoundOk (k : Nat) (item : Bytes) (s : Strings) : Prop where
  inBounds : ∀ junk, ∀ w ∈ roundWrites junk item, w.count ≤ msgNum
  copies : CopiesOk k item s

/-! ## The scan and the copies -/

theorem findQueueEndFrom_of_not_mem {pMsg : Bytes} {i n : Nat} (hlen : i + n ≤ pMsg.length)
    (h : (0 : UInt8) ∉ (pMsg.drop i).take n) : findQueueEndFrom pMsg i n = none := by
  induction n generalizing i with
  | zero => rfl
  | succ n ih =>
    have hi : i < pMsg.length := by omega
    rw [List.drop_eq_getElem_cons hi, List.take_succ_cons, List.mem_cons, not_or] at h
    have hget : pMsg.getD i 0 = pMsg[i] := by
      rw [List.getD_eq_getElem?_getD, List.getElem?_eq_getElem hi, Option.getD_some]
    rw [findQueueEndFrom, hget, if_neg fun h0 => h.1 h0.symm, ih (by omega) h.2]

/-- The array after the reception of an item of client `k`. -/
theorem msgBuffer_of_item {k : Nat} {payload : Bytes} (hlen : payload.length = readSize) :
    (xQueueReceive (UInt8.ofNat k :: payload)).msgBuffer =
        UInt8.ofNat k :: payload.take (msgNum - 1) ∧
      (payload.take (msgNum - 1)).length = 133 := by
  refine ⟨rfl, ?_⟩
  rw [List.length_take, hlen]
  rfl

/-- Without a NUL behind the id the scan runs off its end. -/
theorem zero_mem_of_defined {k : Nat} {payload : Bytes} (hk : k = 1 ∨ k = 2 ∨ k = 3)
    (hlen : payload.length = readSize)
    (h : (findQueueEnd (some (xQueueReceive (UInt8.ofNat k :: payload)).msgBuffer)).isSome) :
    (0 : UInt8) ∈ payload.take (msgNum - 1) := by
  obtain ⟨hbuffer, hsize⟩ := msgBuffer_of_item (k := k) hlen
  by_contra hmem
  have hnone : (0 : UInt8) ∉ UInt8.ofNat k :: payload.take (msgNum - 1) := by
    rw [List.mem_cons, not_or]
    exact ⟨fun h0 => ofNat_ne_zero hk h0.symm, hmem⟩
  have hscan : findQueueEnd (some (xQueueReceive (UInt8.ofNat k :: payload)).msgBuffer) = none := by
    rw [hbuffer]
    apply findQueueEndFrom_of_not_mem
    · rw [List.length_cons, hsize]
      decide
    · rw [List.drop_zero]
      exact fun h0 => hnone (List.mem_of_mem_take h0)
  rw [hscan] at h
  cases h

theorem copyWrites_le {f : Frame} {n : Nat} (hn : n ≤ msgNum) :
    ∀ w ∈ copyWrites f n, w.count ≤ msgNum := by
  have hsize : toSize n ≤ msgNum := by
    have h134 : msgNum = 134 := rfl
    unfold toSize
    omega
  unfold copyWrites
  split <;> simp [hsize]

theorem ofClient_length {k : Nat} {s : Strings} (hk : k = 1 ∨ k = 2 ∨ k = 3) (hs : s.Sized) :
    (s.ofClient k).length = msgNum := by
  rcases hk with rfl | rfl | rfl
  · exact hs.one
  · exact hs.two
  · exact hs.three

/-- **The scan and the copies.** They are right exactly for the items with a NUL among the 133
bytes behind the id that the array has room for. -/
theorem copiesOk_iff {k : Nat} {payload : Bytes} {s : Strings} (hk : k = 1 ∨ k = 2 ∨ k = 3)
    (hlen : payload.length = readSize) (hs : s.Sized) :
    CopiesOk k (UInt8.ofNat k :: payload) s ↔ (0 : UInt8) ∈ payload.take (msgNum - 1) := by
  constructor
  · intro h
    exact zero_mem_of_defined hk hlen h.defined
  · intro hzero
    obtain ⟨hbuffer, hsize⟩ := msgBuffer_of_item (k := k) hlen
    have hmsg := fun junk => msgLen_terminated junk hk hbuffer hsize hzero
    have hshort := length_cstr_lt hzero
    constructor
    · rw [findQueueEnd_terminated hk hbuffer hsize hzero]
      rfl
    · intro junk
      rw [hmsg]
      apply copyWrites_le
      have h134 : msgNum = 134 := rfl
      rw [hsize] at hshort
      omega
    · intro junk
      obtain ⟨t, ht, hsized, hstr, hother⟩ := copyMessage_terminated junk hk hbuffer hsize hzero hs
      refine ⟨t, ht, ?_, hother⟩
      have hmem : (0 : UInt8) ∈ t.ofClient k := by
        apply zero_mem_of_length_cstr_lt
        rw [hstr, ofClient_length hk hsized]
        rw [hsize] at hshort
        exact Nat.lt_succ_of_lt hshort
      have hall : (cstr payload).length ≤ msgNum - 1 :=
        Nat.le_of_lt (zero_mem_take_iff.mp hzero).2
      rw [readCstr, if_pos hmem, hstr, cstr_take hzero]
      show some (cstr payload) = some ((cstr payload).take (msgNum - 1))
      rw [List.take_of_length_le hall]

/-! ## A whole round -/

/-- **No round stays in bounds**: an item is one byte longer than the array it is received into. -/
theorem not_roundOk (k : Nat) (item : Bytes) (s : Strings) (hlen : item.length = itemSize) :
    ¬RoundOk k item s := by
  intro h
  have hle := h.inBounds 0 ⟨.msgBuffer, item.length⟩ List.mem_cons_self
  have hitem : item.length ≤ msgNum := hle
  rw [hlen] at hitem
  exact absurd hitem (by decide)

/-- The text "hi" of client 1. -/
def hiItem : Bytes := [1, 104, 105] ++ List.replicate 132 0

theorem not_roundOk_hiItem : ¬RoundOk 1 hiItem Strings.init :=
  not_roundOk 1 hiItem Strings.init rfl

/-- The last byte of the item lies behind the array. -/
theorem hiItem_past_array :
    ¬∀ (k : Nat) (payload : Bytes) (s : Strings), (k = 1 ∨ k = 2 ∨ k = 3) →
      payload.length = readSize → s.Sized → RoundOk k (UInt8.ofNat k :: payload) s := by
  intro hall
  have hround := hall 1 (hiItem.drop 1) .init (.inl rfl) rfl Strings.init_sized
  have hle := hround.inBounds 0 ⟨.msgBuffer, 135⟩ List.mem_cons_self
  exact absurd hle (by decide)

end EmWinDemo.Socket.QueueBounds
