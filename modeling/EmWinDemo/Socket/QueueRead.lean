/-
# EmWinDemo.Socket.QueueRead -- one round of the queue reader

`vTaskQueueRead` (SocketActivity.c) receives an item of `Socket_Queue` into a local array, looks
for its end with `FindQueueEnd` and copies it into the string of the client named by byte 0.

Two of its sizes disagree with the item: the local array has 134 bytes where an item has 135, so
the last byte lands behind the array, and `FindQueueEnd` scans 134 bytes and comes back without a
value when none of them is NUL.  `Frame.past` is the byte behind the array; `findQueueEnd` is
`none` where the function runs off its end, and the length used then is whatever the caller finds
in the return register, here the parameter `junk`.
-/
import EmWinDemo.Lib.CMemory

namespace EmWinDemo.Socket.QueueRead

open EmWinDemo.Lib.CMemory

/-- `MSG_NUM`: the size of the local array and of each display string. -/
def msgNum : Nat := 134

/-! ## `FindQueueEnd` -/

/-- The loop from index `i` on with `n` rounds left. -/
def findQueueEndFrom (pMsg : Bytes) : Nat → Nat → Option Int
  | _, 0 => none
  | i, n + 1 => if pMsg.getD i 0 = 0 then some i else findQueueEndFrom pMsg (i + 1) n

/-- `FindQueueEnd`: `-1` for a null pointer, else the index of the first NUL among the first
`MSG_NUM` bytes; no value is returned when there is none. -/
def findQueueEnd : Option Bytes → Option Int
  | none => some (-1)
  | some pMsg => findQueueEndFrom pMsg 0 msgNum

theorem findQueueEndFrom_of_mem {pMsg : Bytes} {i n : Nat}
    (h : (0 : UInt8) ∈ (pMsg.drop i).take n) :
    findQueueEndFrom pMsg i n = some ((i + (cstr (pMsg.drop i)).length : Nat) : Int) := by
  induction n generalizing i with
  | zero => simp at h
  | succ n ih =>
    cases hd : pMsg.drop i with
    | nil => simp [hd] at h
    | cons b rest =>
      have hget : pMsg.getD i 0 = b := by
        rw [List.getD_eq_getElem?_getD, ← List.head?_drop, hd]
        rfl
      have htail : pMsg.drop (i + 1) = rest := by
        rw [← List.tail_drop, hd]
        rfl
      by_cases hb : b = 0
      · rw [findQueueEndFrom, hget, if_pos hb, hb, cstr_zero]
        rfl
      · have hmem : (0 : UInt8) ∈ (pMsg.drop (i + 1)).take n := by
          rw [hd, List.take_succ_cons, List.mem_cons] at h
          rw [htail]
          exact h.resolve_left fun h0 => hb h0.symm
        have hlen : (cstr (b :: rest)).length = (cstr rest).length + 1 := by
          rw [cstr_cons hb, List.length_cons]
        rw [findQueueEndFrom, hget, if_neg hb, ih hmem, htail, hlen]
        congr 2
        omega

/-- The defined results of the scan: a NUL within the first `MSG_NUM` bytes. -/
theorem findQueueEnd_of_mem {pMsg : Bytes} (h : (0 : UInt8) ∈ pMsg.take msgNum) :
    findQueueEnd (some pMsg) = some ((cstr pMsg).length : Int) := by
  have hdrop : (0 : UInt8) ∈ (pMsg.drop 0).take msgNum := by simpa using h
  simpa [findQueueEnd] using findQueueEndFrom_of_mem hdrop

/-! ## The copies -/

/-- `memcpy(dst, src, n)` between arrays; `none` when it leaves one of them.  A negative length
is a huge unsigned one. -/
def memcpy (dst src : Bytes) (n : Int) : Option Bytes :=
  if 0 ≤ n ∧ n ≤ src.length ∧ n ≤ dst.length then some (store dst 0 (src.take n.toNat)) else none

/-- The display strings of the socket window. -/
structure Strings where
  socketString : Bytes
  socketString1 : Bytes
  socketString2 : Bytes
  socketString3 : Bytes
  deriving Repr, DecidableEq

/-- The static initialisers: `MSG_NUM` zero bytes each. -/
def Strings.init : Strings :=
  let zeros := List.replicate msgNum 0
  ⟨zeros, zeros, zeros, zeros⟩

/-- `SocketString_k`. -/
def Strings.ofClient (s : Strings) : Nat → Bytes
  | 1 => s.socketString1
  | 2 => s.socketString2
  | 3 => s.socketString3
  | _ => []

/-- Each string has the declared size. -/
structure Strings.Sized (s : Strings) : Prop where
  shown : s.socketString.length = msgNum
  one : s.socketString1.length = msgNum
  two : s.socketString2.length = msgNum
  three : s.socketString3.length = msgNum

theorem Strings.init_sized : Strings.init.Sized := ⟨rfl, rfl, rfl, rfl⟩

/-- The local array `msg_buffer` and the byte of the stack behind it. -/
structure Frame where
  msgBuffer : Bytes
  past : UInt8
  deriving Repr, DecidableEq

def Frame.init : Frame := ⟨List.replicate msgNum 0, 0⟩

/-- `xQueueReceive`: the whole item is copied, whatever the size of the array. -/
def xQueueReceive (item : Bytes) : Frame := ⟨item.take msgNum, item.getD msgNum 0⟩

/-- The length handed to the copies. -/
def msgLen (junk : Int) (f : Frame) : Int := (findQueueEnd (some f.msgBuffer)).getD junk

/-- The `switch` over byte 0; `none` when a copy leaves its arrays. -/
def copyMessage (f : Frame) (len : Int) (s : Strings) : Option Strings :=
  match f.msgBuffer.head? with
  | some 1 => do
    let one ← memcpy s.socketString1 (f.msgBuffer.drop 1) len
    let shown ← memcpy s.socketString one msgNum
    some { s with socketString1 := one, socketString := shown }
  | some 2 => do
    let two ← memcpy s.socketString2 (f.msgBuffer.drop 1) len
    some { s with socketString2 := two }
  | some 3 => do
    let three ← memcpy s.socketString3 (f.msgBuffer.drop 1) len
    some { s with socketString3 := three }
  | _ => some s

/-! ## What a round leaves in the strings -/

/-- Copying one byte more than the C string at `src` leaves that C string in `dst`. -/
theorem memcpy_cstr {dst src : Bytes} (hsrc : (0 : UInt8) ∈ src)
    (hlen : src.length ≤ dst.length) :
    ∃ m, memcpy dst src ((cstr src).length + 1) = some m ∧
      m.length = dst.length ∧ cstr m = cstr src := by
  have hlt : (cstr src).length < src.length := length_cstr_lt hsrc
  obtain ⟨rest, hrest⟩ := eq_cstr_append hsrc
  have htake : src.take ((cstr src).length + 1) = cstr src ++ [0] := by
    generalize cstr src = c at hrest ⊢
    rw [hrest, List.take_length_add_append]
    rfl
  refine ⟨store dst 0 (cstr src ++ [0]), ?_, ?_, ?_⟩
  · have hn : ((cstr src).length + 1 : Int).toNat = (cstr src).length + 1 := by omega
    rw [memcpy, if_pos (by omega), hn, htake]
  · exact length_store (by simp; omega)
  · rw [store_zero, List.append_assoc, List.singleton_append,
      cstr_append_zero (zero_not_mem_cstr src)]

theorem memcpy_whole {dst src : Bytes} (hs : src.length = msgNum) (hd : dst.length = msgNum) :
    ∃ m, memcpy dst src msgNum = some m ∧ m.length = msgNum := by
  refine ⟨store dst 0 (src.take msgNum), ?_, ?_⟩
  · rw [memcpy, if_pos (by omega), Int.toNat_natCast]
  · rw [length_store (by simp; omega), hd]

theorem ofNat_ne_zero {k : Nat} (hk : k = 1 ∨ k = 2 ∨ k = 3) : UInt8.ofNat k ≠ 0 := by
  rcases hk with rfl | rfl | rfl <;> decide

/-- The scan of a terminated item ends at its NUL. -/
theorem findQueueEnd_terminated {k : Nat} {msgBuffer payload : Bytes}
    (hk : k = 1 ∨ k = 2 ∨ k = 3) (hf : msgBuffer = UInt8.ofNat k :: payload)
    (hlen : payload.length = 133) (hzero : (0 : UInt8) ∈ payload) :
    findQueueEnd (some msgBuffer) = some (((cstr payload).length + 1 : Nat) : Int) := by
  have hmem : (0 : UInt8) ∈ msgBuffer.take msgNum := by
    rw [hf, List.take_of_length_le (by simp [hlen, msgNum])]
    exact List.mem_cons_of_mem _ hzero
  rw [findQueueEnd_of_mem hmem, hf, cstr_cons (ofNat_ne_zero hk), List.length_cons]

theorem msgLen_terminated {k : Nat} {f : Frame} {payload : Bytes} (junk : Int)
    (hk : k = 1 ∨ k = 2 ∨ k = 3) (hf : f.msgBuffer = UInt8.ofNat k :: payload)
    (hlen : payload.length = 133) (hzero : (0 : UInt8) ∈ payload) :
    msgLen junk f = ((cstr payload).length + 1 : Nat) := by
  rw [msgLen, findQueueEnd_terminated hk hf hlen hzero, Option.getD_some]

/-- **A round on a terminated item.** If byte 0 names client `k` and there is a NUL among the 133
bytes after it that the array holds, the copy succeeds, `SocketString_k` becomes those bytes up to
the NUL and the strings of the other clients keep their contents. -/
theorem copyMessage_terminated {k : Nat} {f : Frame} {payload : Bytes} {s : Strings} (junk : Int)
    (hk : k = 1 ∨ k = 2 ∨ k = 3) (hf : f.msgBuffer = UInt8.ofNat k :: payload)
    (hlen : payload.length = 133) (hzero : (0 : UInt8) ∈ payload) (hs : s.Sized) :
    ∃ s', copyMessage f (msgLen junk f) s = some s' ∧ s'.Sized ∧
      cstr (s'.ofClient k) = cstr payload ∧ ∀ j, j ≠ k → s'.ofClient j = s.ofClient j := by
  have hmsg : msgLen junk f = (cstr payload).length + 1 :=
    msgLen_terminated junk hk hf hlen hzero
  have hdrop : f.msgBuffer.drop 1 = payload := by rw [hf]; rfl
  have hhead : f.msgBuffer.head? = some (UInt8.ofNat k) := by rw [hf]; rfl
  have hfit : ∀ d : Bytes, d.length = msgNum → payload.length ≤ d.length := by
    intro d hd
    rw [hd, hlen]
    decide
  rw [hmsg]
  rcases hk with rfl | rfl | rfl
  · obtain ⟨one, hone, hsz, hstr⟩ := memcpy_cstr hzero (hfit _ hs.one)
    obtain ⟨all, hall, hallsz⟩ := memcpy_whole (hsz.trans hs.one) hs.shown
    refine ⟨{ s with socketString1 := one, socketString := all }, ?_, ?_, hstr, ?_⟩
    · simp only [copyMessage, hhead, hdrop]
      show (do let one ← memcpy s.socketString1 payload _; _) = _
      rw [hone]
      show (do let shown ← memcpy s.socketString one _; _) = _
      rw [hall]
      rfl
    · exact ⟨hallsz, hsz.trans hs.one, hs.two, hs.three⟩
    · intro j hj
      match j, hj with
      | 0, _ | 2, _ | 3, _ | _ + 4, _ => rfl
  · obtain ⟨two, htwo, hsz, hstr⟩ := memcpy_cstr hzero (hfit _ hs.two)
    refine ⟨{ s with socketString2 := two }, ?_, ?_, hstr, ?_⟩
    · simp only [copyMessage, hhead, hdrop]
      show (do let two ← memcpy s.socketString2 payload _; _) = _
      rw [htwo]
      rfl
    · exact ⟨hs.shown, hs.one, hsz.trans hs.two, hs.three⟩
    · intro j hj
      match j, hj with
      | 0, _ | 1, _ | 3, _ | _ + 4, _ => rfl
  · obtain ⟨three, hthree, hsz, hstr⟩ := memcpy_cstr hzero (hfit _ hs.three)
    refine ⟨{ s with socketString3 := three }, ?_, ?_, hstr, ?_⟩
    · simp only [copyMessage, hhead, hdrop]
      show (do let three ← memcpy s.socketString3 payload _; _) = _
      rw [hthree]
      rfl
    · exact ⟨hs.shown, hs.one, hs.two, hsz.trans hs.three⟩
    · intro j hj
      match j, hj with
      | 0, _ | 1, _ | 2, _ | _ + 4, _ => rfl

end EmWinDemo.Socket.QueueRead
