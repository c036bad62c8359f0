/-
# EmWinDemo.Lib.WebSocket -- frames, masks and messages of the WebSocket protocol

A frame is a final bit, an opcode and a payload.  `encode` writes it, with a mask if there is a key,
as clients write theirs; `decodeFrames` reads the frames of a server.  `assemble` puts frames
together to messages: a message begins with a data frame that has its type, goes on in frames with
opcode 0 and ends with the first that is final, and control frames may stand between them.

`decodeFrames_encode` is the round trip for the frames of a server.  For the other direction there
are the laws of masking: a mask is undone by itself (`masked_masked`), and a payload may be masked
in pieces (`masked_append`), where only the place in the key counts (`masked_add_four`).
-/
import Mathlib.Data.List.Basic
import Mathlib.Algebra.Order.Ring.Nat
import Mathlib.Tactic.Common
import EmWinDemo.Lib.CMemory

namespace EmWinDemo.Lib.WebSocket

open Lib.CMemory

/-! ## Masks -/

/-- A masking key. -/
structure Key where
  k0 : UInt8
  k1 : UInt8
  k2 : UInt8
  k3 : UInt8
  deriving Repr, DecidableEq

/-- The byte of the key for the `i`th byte of a payload. -/
def Key.byte (key : Key) (i : Nat) : UInt8 :=
  match i % 4 with
  | 0 => key.k0
  | 1 => key.k1
  | 2 => key.k2
  | _ => key.k3

def Key.bytes (key : Key) : Bytes := [key.k0, key.k1, key.k2, key.k3]

/-- A piece of a payload that begins with its `i`th byte, masked or unmasked. -/
def masked (key : Key) : Nat → Bytes → Bytes
  | _, [] => []
  | i, b :: bs => (b ^^^ key.byte i) :: masked key (i + 1) bs

theorem length_masked (key : Key) (i : Nat) (s : Bytes) : (masked key i s).length = s.length := by
  induction s generalizing i with
  | nil => rfl
  | cons b s ih => rw [masked, List.length_cons, List.length_cons, ih]

theorem masked_append (key : Key) (i : Nat) (s t : Bytes) :
    masked key i (s ++ t) = masked key i s ++ masked key (i + s.length) t := by
  induction s generalizing i with
  | nil => rfl
  | cons b s ih =>
    rw [List.cons_append, masked, masked, ih, List.cons_append, List.length_cons, Nat.add_right_comm,
      Nat.add_assoc]

theorem masked_masked (key : Key) (i : Nat) (s : Bytes) : masked key i (masked key i s) = s := by
  induction s generalizing i with
  | nil => rfl
  | cons b s ih => rw [masked, masked, ih, UInt8.xor_assoc, UInt8.xor_self, UInt8.xor_zero]

theorem Key.byte_congr (key : Key) {i j : Nat} (h : i % 4 = j % 4) : key.byte i = key.byte j := by
  rw [Key.byte, Key.byte, h]

/-- Only the place in the key counts. -/
theorem masked_congr (key : Key) {i j : Nat} (h : i % 4 = j % 4) (s : Bytes) :
    masked key i s = masked key j s := by
  induction s generalizing i j with
  | nil => rfl
  | cons b s ih =>
    have hnext : (i + 1) % 4 = (j + 1) % 4 := by omega
    rw [masked, masked, key.byte_congr h, ih hnext]

/-- A key that is another one from its `r`th byte on. -/
theorem masked_shift {key key' : Key} {r : Nat} (h : ∀ i, key.byte i = key'.byte (i + r)) (i : Nat)
    (s : Bytes) : masked key i s = masked key' (i + r) s := by
  induction s generalizing i with
  | nil => rfl
  | cons b s ih => rw [masked, masked, h, ih, Nat.add_right_comm]

/-! ## Numbers in network order -/

/-- A number in `k` bytes, the highest first. -/
def bigEndian : Nat → Nat → Bytes
  | 0, _ => []
  | k + 1, n => bigEndian k (n / 256) ++ [UInt8.ofNat n]

def ofBigEndian (s : Bytes) : Nat := s.foldl (fun n b => n * 256 + b.toNat) 0

theorem length_bigEndian (k n : Nat) : (bigEndian k n).length = k := by
  induction k generalizing n with
  | zero => rfl
  | succ k ih => rw [bigEndian, List.length_append, ih, List.length_singleton]

/-- The lower bytes of a number stand behind the higher ones. -/
theorem bigEndian_add (j k n : Nat) :
    bigEndian (j + k) n = bigEndian j (n / 256 ^ k) ++ bigEndian k n := by
  induction k generalizing n with
  | zero => rw [Nat.pow_zero, Nat.div_one, bigEndian, List.append_nil, Nat.add_zero]
  | succ k ih =>
    rw [← Nat.add_assoc, bigEndian, ih, bigEndian, List.append_assoc, Nat.div_div_eq_div_mul,
      Nat.pow_succ, Nat.mul_comm 256]

theorem ofBigEndian_bigEndian {k n : Nat} (hn : n < 256 ^ k) : ofBigEndian (bigEndian k n) = n := by
  induction k generalizing n with
  | zero => rw [bigEndian, Nat.lt_one_iff.mp hn]; rfl
  | succ k ih =>
    have hhigh : n / 256 < 256 ^ k := by
      rw [Nat.div_lt_iff_lt_mul (by omega), ← Nat.pow_succ]
      exact hn
    have hlow : (UInt8.ofNat n).toNat = n % 256 := UInt8.toNat_ofNat'
    rw [ofBigEndian, bigEndian, List.foldl_append]
    show ofBigEndian (bigEndian k (n / 256)) * 256 + (UInt8.ofNat n).toNat = n
    rw [ih hhigh, hlow]
    omega

/-! ## Frames -/

structure Frame where
  fin : Bool
  opcode : Nat
  payload : Bytes
  deriving Repr, DecidableEq

def Frame.isControl (f : Frame) : Bool := 8 ≤ f.opcode

/-- The seven bits for the length of a payload, and what follows them. -/
def lengthField (n : Nat) : Nat × Bytes :=
  if n ≤ 125 then (n, [])
  else if n < 65536 then (126, bigEndian 2 n)
  else (127, bigEndian 8 n)

/-- What stands in front of the payload. -/
def header (key : Option Key) (f : Frame) : Bytes :=
  let (short, extended) := lengthField f.payload.length
  UInt8.ofNat ((if f.fin then 128 else 0) + f.opcode) ::
    UInt8.ofNat ((if key.isSome then 128 else 0) + short) ::
    (extended ++ (key.map Key.bytes).getD [])

def encode (key : Option Key) (f : Frame) : Bytes :=
  header key f ++ match key with
    | some key => masked key 0 f.payload
    | none => f.payload

/-- What both sides keep to: an opcode has four bits, and a length 63. -/
structure Frame.Encodable (f : Frame) : Prop where
  opcode : f.opcode < 16
  length : f.payload.length < 2 ^ 63

/-- The payload of a frame, and what follows it. -/
def decodePayload (first : UInt8) (n : Nat) (rest : Bytes) : Option (Frame × Bytes) :=
  if n ≤ rest.length then
    some (⟨decide (128 ≤ first.toNat), first.toNat % 16, rest.take n⟩, rest.drop n)
  else none

/-- A frame without a mask at the beginning of a text. -/
def decodeFrame : Bytes → Option (Frame × Bytes)
  | first :: second :: rest =>
    if first.toNat / 16 % 8 ≠ 0 ∨ 128 ≤ second.toNat then none
    else if second.toNat = 126 then
      decodePayload first (ofBigEndian (rest.take 2)) (rest.drop 2)
    else if second.toNat = 127 then
      decodePayload first (ofBigEndian (rest.take 8)) (rest.drop 8)
    else decodePayload first second.toNat rest
  | _ => none

/-- The frames of a text. -/
def decodeLoop : Nat → Bytes → Option (List Frame)
  | 0, _ => none
  | rounds + 1, s =>
    if s = [] then some []
    else do
      let (f, rest) ← decodeFrame s
      (decodeLoop rounds rest).map (f :: ·)

def decodeFrames (s : Bytes) : Option (List Frame) := decodeLoop (s.length + 1) s

theorem firstByte {fin : Bool} {opcode : Nat} (h : opcode < 16) :
    (UInt8.ofNat ((if fin then 128 else 0) + opcode)).toNat = (if fin then 128 else 0) + opcode := by
  rw [UInt8.toNat_ofNat']
  cases fin <;> simp only [if_true, Bool.false_eq_true, if_false] <;> omega

theorem decodePayload_append {f : Frame} {rest : Bytes} (hop : f.opcode < 16) :
    decodePayload (UInt8.ofNat ((if f.fin then 128 else 0) + f.opcode)) f.payload.length
      (f.payload ++ rest) = some (f, rest) := by
  have hfin : decide (128 ≤ (if f.fin then 128 else 0) + f.opcode) = f.fin := by
    cases f.fin <;> simp only [if_true, Bool.false_eq_true, if_false, decide_eq_true_eq,
      decide_eq_false_iff_not] <;> omega
  have hcode : ((if f.fin then 128 else 0) + f.opcode) % 16 = f.opcode := by
    cases f.fin <;> simp only [if_true, Bool.false_eq_true, if_false] <;> omega
  rw [decodePayload, firstByte hop, if_pos (by simp), hfin, hcode, List.take_left, List.drop_left]

theorem encode_none (f : Frame) : encode none f =
    UInt8.ofNat ((if f.fin then 128 else 0) + f.opcode) ::
      UInt8.ofNat (lengthField f.payload.length).1 ::
      ((lengthField f.payload.length).2 ++ f.payload) := by
  simp [encode, header]

theorem lengthField_cases (n : Nat) :
    (n ≤ 125 ∧ lengthField n = (n, [])) ∨
    (125 < n ∧ n < 65536 ∧ lengthField n = (126, bigEndian 2 n)) ∨
    (65536 ≤ n ∧ lengthField n = (127, bigEndian 8 n)) := by
  unfold lengthField
  by_cases hshort : n ≤ 125
  · exact Or.inl ⟨hshort, if_pos hshort⟩
  · rw [if_neg hshort]
    by_cases hlong : n < 65536
    · exact Or.inr (Or.inl ⟨by omega, hlong, if_pos hlong⟩)
    · exact Or.inr (Or.inr ⟨by omega, if_neg hlong⟩)

/-- A frame is read back, whatever follows it. -/
theorem decodeFrame_encode {f : Frame} (h : f.Encodable) (rest : Bytes) :
    decodeFrame (encode none f ++ rest) = some (f, rest) := by
  obtain ⟨hop, hlen⟩ := h
  have hreserved : ((if f.fin then 128 else 0) + f.opcode) / 16 % 8 = 0 := by
    cases f.fin <;> simp only [if_true, Bool.false_eq_true, if_false] <;> omega
  have hsecond : ∀ n < 128, (UInt8.ofNat n).toNat = n := by
    intro n hn
    rw [UInt8.toNat_ofNat', Nat.mod_eq_of_lt (by omega)]
  rw [encode_none, List.cons_append, List.cons_append, List.append_assoc, decodeFrame,
    firstByte hop, hreserved]
  rcases lengthField_cases f.payload.length with ⟨hn, hfield⟩ | ⟨-, hn, hfield⟩ | ⟨-, hfield⟩
  · rw [hfield, hsecond _ (by omega), if_neg (by omega), if_neg (by omega), if_neg (by omega)]
    exact decodePayload_append hop
  · rw [hfield, hsecond _ (by omega), if_neg (by omega), if_pos rfl,
      List.take_left' (length_bigEndian 2 _), List.drop_left' (length_bigEndian 2 _),
      ofBigEndian_bigEndian (by omega)]
    exact decodePayload_append hop
  · rw [hfield, hsecond _ (by omega), if_neg (by omega), if_neg (by omega), if_pos rfl,
      List.take_left' (length_bigEndian 8 _), List.drop_left' (length_bigEndian 8 _),
      ofBigEndian_bigEndian (by omega)]
    exact decodePayload_append hop

theorem encode_ne_nil (key : Option Key) (f : Frame) : encode key f ≠ [] := by
  unfold encode header
  exact List.cons_ne_nil _ _

theorem decodeLoop_encode {fs : List Frame} (h : ∀ f ∈ fs, f.Encodable) {rounds : Nat}
    (hrounds : fs.length < rounds) :
    decodeLoop rounds (fs.flatMap (encode none)) = some fs := by
  induction fs generalizing rounds with
  | nil =>
    obtain ⟨rounds, rfl⟩ := Nat.exists_eq_add_of_lt hrounds
    rfl
  | cons f fs ih =>
    obtain ⟨rounds, rfl⟩ : ∃ k, rounds = k + 1 := ⟨rounds - 1, by omega⟩
    rw [List.length_cons] at hrounds
    rw [decodeLoop, List.flatMap_cons, if_neg (by simp [encode_ne_nil]),
      decodeFrame_encode (h f List.mem_cons_self)]
    show (decodeLoop rounds _).map _ = _
    rw [ih (fun g hg => h g (List.mem_cons_of_mem f hg)) (by omega)]
    rfl

theorem length_le_encode (key : Option Key) (fs : List Frame) :
    fs.length ≤ (fs.flatMap (encode key)).length := by
  induction fs with
  | nil => exact Nat.zero_le _
  | cons f fs ih =>
    have hpos : 0 < (encode key f).length := List.length_pos_of_ne_nil (encode_ne_nil key f)
    rw [List.flatMap_cons, List.length_append, List.length_cons]
    omega

/-- **The frames of a server are read back.** -/
theorem decodeFrames_encode {fs : List Frame} (h : ∀ f ∈ fs, f.Encodable) :
    decodeFrames (fs.flatMap (encode none)) = some fs :=
  decodeLoop_encode h (Nat.lt_succ_of_le (length_le_encode none fs))

/-! ## Messages -/

inductive Event where
  | message (type : Nat) (payload : Bytes)
  | control (opcode : Nat) (payload : Bytes)
  deriving Repr, DecidableEq

/-- The message that is open behind a data frame, if the frame may stand there. -/
def extend (opened : Option (Nat × Bytes)) (f : Frame) : Option (Nat × Bytes) :=
  match opened with
  | none => if f.opcode = 0 then none else some (f.opcode, f.payload)
  | some (type, payload) => if f.opcode = 0 then some (type, payload ++ f.payload) else none

/-- What frames say behind an open message. -/
def assemble : Option (Nat × Bytes) → List Frame → Option (List Event)
  | opened, [] => if opened = none then some [] else none
  | opened, f :: fs =>
    if f.isControl then
      if f.fin ∧ f.payload.length ≤ 125 then
        (assemble opened fs).map (.control f.opcode f.payload :: ·)
      else none
    else do
      let (type, payload) ← extend opened f
      if f.fin then (assemble none fs).map (.message type payload :: ·)
      else assemble (some (type, payload)) fs

example : (decodeFrames (encode none ⟨false, 1, [104]⟩ ++ encode none ⟨true, 10, []⟩ ++
    encode none ⟨true, 0, [105]⟩)).bind (assemble none) =
      some [.control 10 [], .message 1 [104, 105]] := by decide

end EmWinDemo.Lib.WebSocket
