/-
# EmWinDemo.WebSocket.Frames -- the header of a frame and its mask, as the server reads them

`wsReadFrameHeader` is `ws_read_frame_header`: it is called with so much of a header as has come,
and says how many bytes it wants to have.  `wsUnmaskData` is `ws_unmask_data`: four bytes at a time
with a key that is rotated to where the last piece ended, and the rest byte by byte.

The main results compare them with the protocol: a header that a client has written is asked for in
at most two steps and read as what it says (`wants_min`, `wants_extended`, `reads_header`), and a
piece of a payload is unmasked as what it is in the whole (`wsUnmaskData_masked`).
-/
import EmWinDemo.Lib.WebSocket

namespace EmWinDemo.WebSocket.Frames

open Lib.CMemory Lib.WebSocket

/-! ## Words -/

/-- A 32-bit word in the memory of the processor, the lowest byte first. -/
def load32 (a b c d : UInt8) : UInt32 :=
  a.toUInt32 ||| b.toUInt32 <<< 8 ||| c.toUInt32 <<< 16 ||| d.toUInt32 <<< 24

/-- The byte of a word at an address of it. -/
def byteAt (w : UInt32) (i : Nat) : UInt8 :=
  match i % 4 with
  | 0 => w.toUInt8
  | 1 => (w >>> 8).toUInt8
  | 2 => (w >>> 16).toUInt8
  | _ => (w >>> 24).toUInt8

def store32 (w : UInt32) : Bytes := [byteAt w 0, byteAt w 1, byteAt w 2, byteAt w 3]

/-- `ntohs` and `ntohl` of a word at an address. -/
def ntoh (s : Bytes) : Nat := ofBigEndian s

/-! ## Frame headers -/

/-- `WS_FRAME_STRUCT`, without the pointer to the data. -/
structure WsFrame where
  fin : Bool
  opcode : Nat
  reserved : Nat
  masked : Bool
  length : Nat
  maskKey : UInt32
  deriving Repr, DecidableEq

/-- `WS_MIN_CLIENT_HEADER_LENGTH`. -/
def minClientHeaderLength : Nat := 6

/-- The bytes of an array from an address on, none if they are not there. -/
def loadBytes (data : Bytes) (src n : Nat) : Option Bytes :=
  if src + n ≤ data.length then some ((data.drop src).take n) else none

/-- The end of `ws_read_frame_header`: the key, if there is one. -/
def readMaskKey (data : Bytes) (dst : WsFrame) (src : Nat) : Option (Nat × WsFrame) :=
  if dst.masked then do
    let key ← loadBytes data src 4
    match key with
    | [a, b, c, d] => some (0, { dst with maskKey := load32 a b c d })
    | _ => none
  else some (0, dst)

/-- `ws_read_frame_header`: how many more bytes it wants, and the frame as far as it is filled. -/
def wsReadFrameHeader (data : Bytes) (dst : WsFrame) (length : Nat) : Option (Nat × WsFrame) :=
  if length < minClientHeaderLength then some (minClientHeaderLength - length, dst)
  else do
    let first : UInt8 ← data[0]?
    let second : UInt8 ← data[1]?
    let dst := { dst with
      fin := (first &&& 0x80) >>> 7 ≠ 0
      reserved := ((first &&& 0x70) >>> 4).toNat
      opcode := (first &&& 0x0F).toNat
      masked := (second &&& 0x80) >>> 7 ≠ 0
      length := (second &&& 0x7F).toNat }
    if dst.length = 126 then
      if length < minClientHeaderLength + 2 then some (minClientHeaderLength + 2 - length, dst)
      else
        let extended ← loadBytes data 2 2
        readMaskKey data { dst with length := ntoh extended } 4
    else if dst.length = 127 then
      if length < minClientHeaderLength + 8 then some (minClientHeaderLength + 8 - length, dst)
      else
        -- only the lower half of the length is taken
        let extended ← loadBytes data 6 4
        readMaskKey data { dst with length := ntoh extended } 10
    else readMaskKey data dst 2

/-! ## Masks -/

/-- A shift by a register: nothing is left of the word when it is shifted by 32. -/
def shiftLeft (w : UInt32) (n : Nat) : UInt32 := if n < 32 then w <<< UInt32.ofNat n else 0

def shiftRight (w : UInt32) (n : Nat) : UInt32 := if n < 32 then w >>> UInt32.ofNat n else 0

/-- The loops of `ws_unmask_data`. -/
def unmaskWords (key : UInt32) : Bytes → Bytes
  | a :: b :: c :: d :: rest => store32 (load32 a b c d ^^^ key) ++ unmaskWords key rest
  | rest => rest.mapIdx fun i b => b ^^^ byteAt key i

/-- `ws_unmask_data`. -/
def wsUnmaskData (data : Bytes) (mask : UInt32) (maskOffset : Nat) : Bytes :=
  if maskOffset > 0 then
    unmaskWords (shiftLeft mask (maskOffset * 8) ||| shiftRight mask (32 - maskOffset * 8)) data
  else unmaskWords mask data

/-- The key that a word is. -/
def keyOf (w : UInt32) : Key := ⟨byteAt w 0, byteAt w 1, byteAt w 2, byteAt w 3⟩

theorem keyOf_byte (w : UInt32) (i : Nat) : (keyOf w).byte i = byteAt w i := by
  have h : i % 4 = 0 ∨ i % 4 = 1 ∨ i % 4 = 2 ∨ i % 4 = 3 := by omega
  unfold Key.byte keyOf byteAt
  rcases h with h | h | h | h <;> rw [h] <;> rfl

theorem keyOf_load32 (a b c d : UInt8) : keyOf (load32 a b c d) = ⟨a, b, c, d⟩ := by
  unfold keyOf byteAt load32
  rw [Key.mk.injEq]
  refine ⟨?_, ?_, ?_, ?_⟩
  · apply UInt8.eq_of_toBitVec_eq
    ext i hi
    simp
  all_goals
    apply UInt8.eq_of_toBitVec_eq
    ext i hi
    simp
    grind

theorem byteAt_xor (v w : UInt32) (i : Nat) : byteAt (v ^^^ w) i = byteAt v i ^^^ byteAt w i := by
  unfold byteAt
  split <;> (apply UInt8.eq_of_toBitVec_eq; ext j hj; simp)

/-- The word that is shifted by whole bytes and completed from its other end is the rotated word. -/
theorem byteAt_rotated (w : UInt32) {offset : Nat} (hpos : 0 < offset) (hle : offset ≤ 4) (i : Nat) :
    byteAt (shiftLeft w (offset * 8) ||| shiftRight w (32 - offset * 8)) i =
      byteAt w (i + (4 - offset)) := by
  have hi : i % 4 = 0 ∨ i % 4 = 1 ∨ i % 4 = 2 ∨ i % 4 = 3 := by omega
  obtain rfl | rfl | rfl | rfl : offset = 1 ∨ offset = 2 ∨ offset = 3 ∨ offset = 4 := by omega
  all_goals
    rcases hi with hi | hi | hi | hi
  all_goals
    unfold byteAt
    rw [Nat.add_mod, hi]
    apply UInt8.eq_of_toBitVec_eq
    ext j hj
    simp [shiftLeft, shiftRight]
    try grind

/-! ## Unmasking -/

theorem store32_load32 (a b c d : UInt8) (w : UInt32) :
    store32 (load32 a b c d ^^^ w) = masked (keyOf w) 0 [a, b, c, d] := by
  have hkey := keyOf_load32 a b c d
  simp only [keyOf, Key.mk.injEq] at hkey
  obtain ⟨h0, h1, h2, h3⟩ := hkey
  rw [store32, byteAt_xor, byteAt_xor, byteAt_xor, byteAt_xor, h0, h1, h2, h3]
  simp only [masked, keyOf_byte]

theorem mapIdx_masked (w : UInt32) (i : Nat) (s : Bytes) :
    (s.mapIdx fun j b => b ^^^ byteAt w (i + j)) = masked (keyOf w) i s := by
  induction s generalizing i with
  | nil => rfl
  | cons b s ih =>
    rw [List.mapIdx_cons, masked, keyOf_byte, ← ih (i + 1)]
    simp only [Nat.add_zero, Nat.add_assoc, Nat.add_comm 1]

/-- Whole words first and then the rest is byte by byte. -/
theorem unmaskWords_masked (w : UInt32) (s : Bytes) : unmaskWords w s = masked (keyOf w) 0 s := by
  induction s using unmaskWords.induct with
  | case1 a b c d rest ih =>
    have hnext : masked (keyOf w) (0 + [a, b, c, d].length) rest = masked (keyOf w) 0 rest :=
      masked_congr (keyOf w) (by simp) rest
    rw [unmaskWords, ih, store32_load32, ← hnext, ← masked_append]
    rfl
  | case2 rest hrest =>
    rw [unmaskWords.eq_2 _ _ hrest]
    simpa using mapIdx_masked w 0 rest

/-- **A piece of a payload is unmasked as what it is in the whole.**  The offset that is kept for it
is how far the last piece ended in front of the next word. -/
theorem wsUnmaskData_masked (w : UInt32) (received : Nat) (s : Bytes) :
    wsUnmaskData s w ((received / 4 * 4 + 4) - received) = masked (keyOf w) received s := by
  have hpos : 0 < received / 4 * 4 + 4 - received := by omega
  have hle : received / 4 * 4 + 4 - received ≤ 4 := by omega
  have hplace : (0 + (4 - (received / 4 * 4 + 4 - received))) % 4 = received % 4 := by omega
  generalize received / 4 * 4 + 4 - received = offset at hpos hle hplace
  rw [wsUnmaskData, if_pos hpos, unmaskWords_masked]
  have hkey : ∀ i, (keyOf (shiftLeft w (offset * 8) ||| shiftRight w (32 - offset * 8))).byte i =
      (keyOf w).byte (i + (4 - offset)) := by
    intro i
    rw [keyOf_byte, keyOf_byte, byteAt_rotated w hpos hle]
  rw [masked_shift hkey, masked_congr (keyOf w) hplace]

/-! ## Headers -/

/-- The frame that a client's header says. -/
def frameOf (key : Key) (f : Frame) : WsFrame where
  fin := f.fin
  opcode := f.opcode
  reserved := 0
  masked := true
  length := f.payload.length
  maskKey := load32 key.k0 key.k1 key.k2 key.k3

theorem firstByte_fields (fin : Bool) (opcode : Fin 16) :
    let first := UInt8.ofNat ((if fin then 128 else 0) + opcode)
    decide ((first &&& 0x80) >>> 7 ≠ 0) = fin ∧ ((first &&& 0x70) >>> 4).toNat = 0 ∧
      (first &&& 0x0F).toNat = opcode := by
  revert fin opcode
  decide

theorem secondByte_fields (short : Fin 128) :
    let second := UInt8.ofNat (128 + short)
    decide ((second &&& 0x80) >>> 7 ≠ 0) = true ∧ (second &&& 0x7F).toNat = short := by
  revert short
  decide

/-- A header in front of whatever the buffer holds behind it. -/
theorem header_some (key : Key) (f : Frame) : header (some key) f =
    UInt8.ofNat ((if f.fin then 128 else 0) + f.opcode) ::
      UInt8.ofNat (128 + (lengthField f.payload.length).1) ::
      ((lengthField f.payload.length).2 ++ key.bytes) := rfl

theorem length_header (key : Key) (f : Frame) :
    (header (some key) f).length = 6 + (lengthField f.payload.length).2.length := by
  rw [header_some]
  simp only [List.length_cons, List.length_append, Key.bytes, List.length_nil]
  omega

theorem loadBytes_append {front mid : Bytes} {src n : Nat} (hsrc : front.length = src)
    (hn : mid.length = n) (back : Bytes) : loadBytes (front ++ (mid ++ back)) src n = some mid := by
  rw [loadBytes, if_pos (by simp only [List.length_append]; omega), List.drop_left' hsrc,
    List.take_left' hn]

/-- The frame behind the two bytes that every header begins with. -/
def begun (f : Frame) (dst : WsFrame) : WsFrame :=
  { dst with
    fin := f.fin, reserved := 0, opcode := f.opcode, masked := true
    length := (lengthField f.payload.length).1 }

theorem short_lt (n : Nat) : (lengthField n).1 < 128 := by
  rcases lengthField_cases n with ⟨hn, h⟩ | ⟨-, -, h⟩ | ⟨-, h⟩ <;> rw [h] <;> dsimp only <;> omega

theorem wsReadFrameHeader_begun {f : Frame} (hop : f.opcode < 16) (dst : WsFrame) (rest : Bytes)
    {length : Nat} (hlength : 6 ≤ length) :
    let data := UInt8.ofNat ((if f.fin then 128 else 0) + f.opcode) ::
      UInt8.ofNat (128 + (lengthField f.payload.length).1) :: rest
    wsReadFrameHeader data dst length =
      if (lengthField f.payload.length).1 = 126 then
        if length < 8 then some (8 - length, begun f dst)
        else (loadBytes data 2 2).bind fun extended =>
          readMaskKey data { begun f dst with length := ntoh extended } 4
      else if (lengthField f.payload.length).1 = 127 then
        if length < 14 then some (14 - length, begun f dst)
        else (loadBytes data 6 4).bind fun extended =>
          readMaskKey data { begun f dst with length := ntoh extended } 10
      else readMaskKey data (begun f dst) 2 := by
  intro data
  obtain ⟨hfin, hreserved, hcode⟩ := firstByte_fields f.fin ⟨f.opcode, hop⟩
  obtain ⟨hmasked, hshort⟩ := secondByte_fields ⟨(lengthField f.payload.length).1, short_lt _⟩
  dsimp only at hfin hreserved hcode hmasked hshort
  have hnot : ¬length < minClientHeaderLength := Nat.not_lt.mpr hlength
  unfold wsReadFrameHeader
  rw [if_neg hnot]
  simp only [data, bind, Option.bind, List.getElem?_cons_zero, List.getElem?_cons_succ, hfin,
    hreserved, hcode, hmasked, hshort]
  rfl

/-- A header that the buffer holds the beginning of: so many bytes are wanted as it goes on. -/
theorem wants_extended {f : Frame} (hop : f.opcode < 16) (dst : WsFrame) {length : Nat}
    (hlength : 6 ≤ length) (key : Key) (hmore : length < (header (some key) f).length)
    (rest : Bytes) :
    wsReadFrameHeader ((header (some key) f).take 2 ++ rest) dst length =
      some ((header (some key) f).length - length, begun f dst) := by
  have hbegun := wsReadFrameHeader_begun hop dst rest hlength
  rw [length_header] at hmore ⊢
  rw [header_some]
  rcases lengthField_cases f.payload.length with ⟨hn, h⟩ | ⟨-, -, h⟩ | ⟨-, h⟩
  · rw [h] at hmore
    exact absurd hmore (by simp only [List.length_nil]; omega)
  · rw [h] at hmore hbegun ⊢
    simp only [length_bigEndian] at hmore ⊢
    exact hbegun.trans (by rw [if_pos rfl, if_pos hmore])
  · rw [h] at hmore hbegun ⊢
    simp only [length_bigEndian] at hmore ⊢
    exact hbegun.trans (by rw [if_neg (by omega), if_pos rfl, if_pos hmore])

theorem wants_min (data : Bytes) (dst : WsFrame) {length : Nat} (h : length < 6) :
    wsReadFrameHeader data dst length = some (6 - length, dst) := if_pos h

/-- The key is read behind the bytes of the length. -/
theorem readMaskKey_append {front : Bytes} {src : Nat} (hsrc : front.length = src) (key : Key)
    (back : Bytes) {dst : WsFrame} (hmasked : dst.masked = true) :
    readMaskKey (front ++ (key.bytes ++ back)) dst src =
      some (0, { dst with maskKey := load32 key.k0 key.k1 key.k2 key.k3 }) := by
  rw [readMaskKey, if_pos hmasked, loadBytes_append hsrc (by rfl : key.bytes.length = 4) back]
  rfl

/-- A header that is there is read as what it says. -/
theorem reads_header {f : Frame} (hop : f.opcode < 16) (hlen : f.payload.length < 2 ^ 32)
    (dst : WsFrame) (key : Key) (rest : Bytes) :
    wsReadFrameHeader (header (some key) f ++ rest) dst (header (some key) f).length =
      some (0, frameOf key f) := by
  have hlong : 6 ≤ (header (some key) f).length := by rw [length_header]; omega
  have hbegun := wsReadFrameHeader_begun hop dst
    ((lengthField f.payload.length).2 ++ (key.bytes ++ rest)) hlong
  rw [length_header] at hbegun ⊢
  rw [header_some, List.cons_append, List.cons_append, List.append_assoc]
  generalize UInt8.ofNat ((if f.fin then 128 else 0) + f.opcode) = first at hbegun ⊢
  generalize UInt8.ofNat (128 + (lengthField f.payload.length).1) = second at hbegun ⊢
  refine hbegun.trans ?_
  rcases lengthField_cases f.payload.length with ⟨hn, h⟩ | ⟨-, hn, h⟩ | ⟨-, h⟩ <;> rw [h]
  · rw [if_neg (by dsimp only; omega), if_neg (by dsimp only; omega)]
    refine (readMaskKey_append (by rfl : [first, second].length = 2) key rest rfl).trans ?_
    rw [frameOf, begun, h]
  · have hfront : ([first, second] ++ bigEndian 2 f.payload.length).length = 4 := by
      rw [List.length_append, length_bigEndian]
      rfl
    have hload := loadBytes_append (by rfl : [first, second].length = 2)
      (length_bigEndian 2 f.payload.length) (key.bytes ++ rest)
    rw [if_pos rfl, if_neg (by rw [length_bigEndian]; omega)]
    refine (congrArg (Option.bind · _) hload).trans ?_
    refine (readMaskKey_append hfront key rest rfl).trans ?_
    rw [frameOf, begun, ntoh, ofBigEndian_bigEndian (by omega)]
  · -- the upper half of the length is zero
    have hhalves := bigEndian_add 4 4 f.payload.length
    have hfront : ([first, second] ++ bigEndian 8 f.payload.length).length = 10 := by
      rw [List.length_append, length_bigEndian]
      rfl
    have hhalf : ([first, second] ++ bigEndian 4 (f.payload.length / 256 ^ 4)).length = 6 := by
      rw [List.length_append, length_bigEndian]
      rfl
    have hload := loadBytes_append hhalf (length_bigEndian 4 f.payload.length) (key.bytes ++ rest)
    rw [List.append_assoc, ← List.append_assoc (bigEndian 4 _), ← hhalves] at hload
    rw [if_neg (by omega), if_pos rfl, if_neg (by rw [length_bigEndian]; omega)]
    refine (congrArg (Option.bind · _) hload).trans ?_
    refine (readMaskKey_append hfront key rest rfl).trans ?_
    rw [frameOf, begun, ntoh, ofBigEndian_bigEndian (by omega)]

end EmWinDemo.WebSocket.Frames
