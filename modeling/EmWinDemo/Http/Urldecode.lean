/-
# EmWinDemo.Http.Urldecode -- what `cgi_urldecode` touches

The loop of `cgi_urldecode` (http_server.c) overwrites the text that it reads: each decoded byte is
stored in front of the unread text, and an escape is first turned into a string of its own, with a
terminator in the middle of the array.

Here a round of the loop is a program of single accesses to the array.  `urldecode_inPlace` says
that the rounds stay within the text and its terminator, never let the write position pass the read
position, come to an end and leave what the reference decoder says.  `cgiUrldecode` is the function
without the log; the invariant carries it along.  A `char` is an unsigned byte, as on the target.
-/
import EmWinDemo.Lib.Checked
import EmWinDemo.Http.Cgi

namespace EmWinDemo.Http.Urldecode

open EmWinDemo.Lib.CMemory EmWinDemo.Lib.CText EmWinDemo.Lib.FormUrl EmWinDemo.Lib.Checked
open EmWinDemo.Lib.Runs EmWinDemo.Http.Cgi

/-! ## The function, access by access -/

/-- `(*src == '%') && isxdigit(*(src + 1)) && isxdigit(*(src + 2))`. -/
def isEscape (src : Nat) : Program Bool := do
  if (← load src) = 37 then
    if isXDigit (← load (src + 1)) then
      return isXDigit (← load (src + 2))
    else return false
  else return false

/-- The digits from the index `i` on; the byte behind them is read, too. -/
def strtolFrom (acc : Nat) : Nat → Nat → Program Nat
  | 0, _ => failure
  | fuel + 1, i => do
    let b ← load i
    if isXDigit b then strtolFrom (16 * acc + xdigitValue b) fuel (i + 1) else return acc

/-- `strtol(src, NULL, 16)`, for a text that starts with a digit and has no `0x` in front. -/
def strtol (src : Nat) : Program Nat := fun m => strtolFrom 0 (m.bytes.length + 1) src m

/-- One round of the loop: the positions for the next one, if there is a next one. -/
def round (src dst : Nat) : Program (Option (Nat × Nat)) := do
  if (← load src) = 0 then
    put dst 0
    return none
  else if ← isEscape src then
    put src (← load (src + 1))
    put (src + 1) (← load (src + 2))
    put (src + 2) 0
    let value ← strtol src
    put dst (UInt8.ofNat value)
    return some (src + 3, dst + 1)
  else
    put dst (← load src)
    return some (src + 1, dst + 1)

/-- The array and the two pointers between two rounds. -/
structure Decoder where
  mem : Logged
  src : Nat
  dst : Nat
  running : Bool
  deriving Repr, DecidableEq

def start (url : Bytes) : Decoder := ⟨⟨url, []⟩, 0, 0, true⟩

def step (d : Decoder) (_ : Unit) : Option Decoder :=
  if d.running then
    (round d.src d.dst d.mem).map fun (next, mem) =>
      match next with
      | some (src, dst) => ⟨mem, src, dst, true⟩
      | none => ⟨mem, d.src, d.dst, false⟩
  else none

/-! ## One round -/

section Round

variable {m : Bytes} {src n : Nat}

/-- Whatever stands behind, a byte other than a percent sign starts no escape. -/
theorem isEscape_byte {c : UInt8} (h : m[src]? = some c) (hc : c ≠ 37) (hn : src ≤ n) :
    Computes (isEscape src) m false m n := by
  apply Computes.bind (Computes.load h hn)
  rw [if_neg hc]
  exact Computes.pure false m n

theorem isEscape_percent {a : UInt8} (h : m[src]? = some 37) (h1 : m[src + 1]? = some a)
    (ha : isXDigit a = false) (hn : src + 1 ≤ n) : Computes (isEscape src) m false m n := by
  apply Computes.bind (Computes.load h (Nat.le_of_succ_le hn))
  rw [if_pos rfl]
  apply Computes.bind (Computes.load h1 hn)
  rw [ha]
  exact Computes.pure false m n

theorem isEscape_digit {a b : UInt8} (h : m[src]? = some 37) (h1 : m[src + 1]? = some a)
    (ha : isXDigit a = true) (h2 : m[src + 2]? = some b) (hn : src + 2 ≤ n) :
    Computes (isEscape src) m (isXDigit b) m n := by
  have hn1 : src + 1 ≤ n := Nat.le_of_succ_le hn
  apply Computes.bind (Computes.load h (Nat.le_of_succ_le hn1))
  rw [if_pos rfl]
  apply Computes.bind (Computes.load h1 hn1)
  rw [ha]
  exact Computes.bind (Computes.load h2 hn) (Computes.pure _ m n)

theorem strtolFrom_digit {b : UInt8} {acc fuel value : Nat} (h : m[src]? = some b)
    (hb : isXDigit b = true) (hn : src ≤ n)
    (hrest : Computes (strtolFrom (16 * acc + xdigitValue b) fuel (src + 1)) m value m n) :
    Computes (strtolFrom acc (fuel + 1) src) m value m n := by
  apply Computes.bind (Computes.load h hn)
  rw [if_pos hb]
  exact hrest

theorem strtolFrom_end {b : UInt8} (acc fuel : Nat) (h : m[src]? = some b)
    (hb : isXDigit b = false) (hn : src ≤ n) :
    Computes (strtolFrom acc (fuel + 1) src) m acc m n := by
  apply Computes.bind (Computes.load h hn)
  rw [hb]
  exact Computes.pure acc m n

/-- The string of two digits that an escape is turned into. -/
theorem strtol_pair {front rest : Bytes} {a b : UInt8} (ha : isXDigit a = true)
    (hb : isXDigit b = true) :
    Computes (strtol front.length) (front ++ a :: b :: 0 :: rest)
      (16 * xdigitValue a + xdigitValue b) (front ++ a :: b :: 0 :: rest) (front.length + 2) := by
  have hlen : (front ++ a :: b :: 0 :: rest).length + 1 =
      front.length + rest.length + 1 + 1 + 1 + 1 := by
    simp only [List.length_append, List.length_cons]
    omega
  have h0 : (front ++ a :: b :: 0 :: rest)[front.length]? = some a := by simp
  have h1 : (front ++ a :: b :: 0 :: rest)[front.length + 1]? = some b := by simp
  have h2 : (front ++ a :: b :: 0 :: rest)[front.length + 2]? = some 0 := by simp
  have hdigits : Computes (strtolFrom 0 ((front ++ a :: b :: 0 :: rest).length + 1) front.length)
      (front ++ a :: b :: 0 :: rest) (16 * xdigitValue a + xdigitValue b)
      (front ++ a :: b :: 0 :: rest) (front.length + 2) := by
    rw [hlen]
    apply strtolFrom_digit h0 ha (Nat.le_add_right _ 2)
    apply strtolFrom_digit h1 hb (Nat.le_succ _)
    rw [Nat.mul_zero, Nat.zero_add]
    exact strtolFrom_end _ _ h2 rfl (Nat.le_refl _)
  intro log
  exact hdigits log

end Round

/-- Before a terminator the test reads no further than it. -/
theorem isEscape_plain {c : UInt8} {s : Bytes} (tail front : Bytes) (h : Plain c s) :
    Computes (isEscape front.length) (front ++ c :: (s ++ 0 :: tail)) false
      (front ++ c :: (s ++ 0 :: tail)) (front.length + (s.length + 1)) := by
  by_cases hc : c = 37
  · rw [hc]
    match s with
    | [] => exact isEscape_percent (by simp) (by simp) (a := 0) rfl (Nat.le_refl _)
    | [a] =>
      cases ha : isXDigit a with
      | false => exact isEscape_percent (by simp) (by simp) ha (Nat.le_succ _)
      | true => exact isEscape_digit (by simp) (by simp) ha (b := 0) (by simp) (Nat.le_refl _)
    | a :: b :: rest =>
      have hab := h a b rest rfl
      have hbound : front.length + 2 ≤ front.length + ((a :: b :: rest).length + 1) := by
        simp only [List.length_cons]
        omega
      cases ha : isXDigit a with
      | false => exact isEscape_percent (by simp) (by simp) ha (Nat.le_of_succ_le hbound)
      | true =>
        have hb : isXDigit b = false := Bool.eq_false_iff.mpr fun hb => hab ⟨hc, ha, hb⟩
        rw [← hb]
        exact isEscape_digit (by simp) (by simp) ha (by simp) hbound
  · exact isEscape_byte (by simp) hc (Nat.le_add_right _ _)

theorem isEscape_escape {a b : UInt8} (ha : isXDigit a = true) (hb : isXDigit b = true)
    (front rest : Bytes) :
    Computes (isEscape front.length) (front ++ 37 :: a :: b :: rest) true
      (front ++ 37 :: a :: b :: rest) (front.length + 2) := by
  rw [← hb]
  exact isEscape_digit (by simp) (by simp) ha (by simp) (Nat.le_refl _)

theorem round_end (front tail : Bytes) {dst : Nat} (hdst : dst ≤ front.length) :
    Computes (round front.length dst) (front ++ 0 :: tail) none ((front ++ 0 :: tail).set dst 0)
      front.length := by
  have hroom : dst < (front ++ 0 :: tail).length := by
    simp only [List.length_append, List.length_cons]
    omega
  apply Computes.bind (Computes.load (c := 0) (by simp) (Nat.le_refl _))
  rw [if_pos rfl]
  exact Computes.bind (Computes.put hroom hdst 0) (Computes.pure none _ _)

theorem round_plain {c : UInt8} {s : Bytes} (hc : c ≠ 0) (tail front : Bytes) (h : Plain c s)
    {dst : Nat} (hdst : dst ≤ front.length) :
    Computes (round front.length dst) (front ++ c :: (s ++ 0 :: tail))
      (some (front.length + 1, dst + 1)) ((front ++ c :: (s ++ 0 :: tail)).set dst c)
      (front.length + (s.length + 1)) := by
  have hbyte : (front ++ c :: (s ++ 0 :: tail))[front.length]? = some c := by simp
  have hroom : dst < (front ++ c :: (s ++ 0 :: tail)).length := by
    simp only [List.length_append, List.length_cons]
    omega
  have hle : front.length ≤ front.length + (s.length + 1) := Nat.le_add_right _ _
  apply Computes.bind (Computes.load hbyte hle)
  rw [if_neg hc]
  apply Computes.bind (isEscape_plain tail front h)
  apply Computes.bind (Computes.load hbyte hle)
  exact Computes.bind (Computes.put hroom (hdst.trans hle) c) (Computes.pure _ _ _)

theorem round_escape {a b : UInt8} (ha : isXDigit a = true) (hb : isXDigit b = true)
    (front rest : Bytes) {dst : Nat} (hdst : dst ≤ front.length) :
    Computes (round front.length dst) (front ++ 37 :: a :: b :: rest)
      (some (front.length + 3, dst + 1)) ((front ++ a :: b :: 0 :: rest).set dst (escaped a b))
      (front.length + 2) := by
  have hle : front.length ≤ front.length + 2 := Nat.le_add_right _ 2
  have hle1 : front.length + 1 ≤ front.length + 2 := Nat.le_succ _
  have hfirst : Computes (put front.length a) (front ++ 37 :: a :: b :: rest) ()
      (front ++ a :: a :: b :: rest) (front.length + 2) := by
    have hroom : front.length < (front ++ 37 :: a :: b :: rest).length := by simp
    have hput := Computes.put hroom hle a
    simpa using hput
  have hsecond : Computes (put (front.length + 1) b) (front ++ a :: a :: b :: rest) ()
      (front ++ a :: b :: b :: rest) (front.length + 2) := by
    have hroom : front.length + 1 < (front ++ a :: a :: b :: rest).length := by simp
    have hput := Computes.put hroom hle1 b
    simpa using hput
  have hthird : Computes (put (front.length + 2) 0) (front ++ a :: b :: b :: rest) ()
      (front ++ a :: b :: 0 :: rest) (front.length + 2) := by
    have hroom : front.length + 2 < (front ++ a :: b :: b :: rest).length := by simp
    have hput := Computes.put hroom (Nat.le_refl _) 0
    simpa using hput
  have hroom : dst < (front ++ a :: b :: 0 :: rest).length := by
    simp only [List.length_append, List.length_cons]
    omega
  apply Computes.bind (Computes.load (c := 37) (by simp) hle)
  rw [if_neg (by decide)]
  apply Computes.bind (isEscape_escape ha hb front rest)
  apply Computes.bind (Computes.load (c := a) (by simp) hle1)
  apply Computes.bind hfirst
  apply Computes.bind (Computes.load (c := b) (by simp) (Nat.le_refl _))
  apply Computes.bind hsecond
  apply Computes.bind hthird
  apply Computes.bind (strtol_pair ha hb)
  exact Computes.bind (Computes.put hroom (hdst.trans hle) _) (Computes.pure _ _ _)

/-! ## The invariant of the loop -/

/-- Between two rounds: `front` is what the rounds so far have passed, `rest` the unread text.
From here `cgiUrldecode` goes on as it does from the start. -/
structure Pending (s tail front rest : Bytes) (dst : Nat) : Prop where
  text : (0 : UInt8) ∉ rest
  length : front.length + rest.length = s.length
  behind : dst ≤ front.length
  agrees : ∃ fuel, rest.length < fuel ∧ cgiUrldecode (s ++ 0 :: tail) =
    urldecodeLoop fuel (front ++ (rest ++ 0 :: tail)) front.length dst

/-- A write into what the rounds have passed leaves the unread text alone. -/
theorem set_front (front new rest : Bytes) {dst : Nat} (v : UInt8) (h : dst ≤ front.length)
    (hnew : 0 < new.length) :
    (front ++ (new ++ rest)).set dst v = (front ++ new).set dst v ++ rest := by
  have hlt : dst < (front ++ new).length := by
    rw [List.length_append]
    omega
  rw [← List.append_assoc, List.set_append_left _ _ hlt]

namespace Pending

variable {s tail front rest : Bytes} {dst : Nat}

theorem init (hs : (0 : UInt8) ∉ s) (tail : Bytes) : Pending s tail [] s 0 where
  text := hs
  length := Nat.zero_add _
  behind := Nat.le_refl 0
  agrees := by
    refine ⟨(s ++ 0 :: tail).length + 1, ?_, rfl⟩
    simp only [List.length_append, List.length_cons]
    omega

theorem finish (h : Pending s tail front [] dst) :
    cgiUrldecode (s ++ 0 :: tail) = some ((front ++ 0 :: tail).set dst 0) := by
  obtain ⟨fuel, hfuel, hagrees⟩ := h.agrees
  obtain ⟨k, rfl⟩ := Nat.exists_eq_add_of_lt hfuel
  rw [hagrees]
  exact urldecodeLoop_end _ front tail dst

/-- A round that turns the bytes `old` into `new` and then stores `v`. -/
theorem next (old : Bytes) {new : Bytes} {v : UInt8} (h : Pending s tail front (old ++ rest) dst)
    (hlen : new.length = old.length) (hpos : 0 < new.length)
    (hloop : ∀ fuel, urldecodeLoop (fuel + 1) (front ++ (old ++ (rest ++ 0 :: tail))) front.length
      dst = urldecodeLoop fuel ((front ++ (new ++ (rest ++ 0 :: tail))).set dst v)
        (front.length + new.length) (dst + 1)) :
    Pending s tail ((front ++ new).set dst v) rest (dst + 1) where
  text := fun hz => h.text (List.mem_append_right old hz)
  length := by
    have hlength := h.length
    simp only [List.length_append, List.length_set] at hlength ⊢
    omega
  behind := by
    have hbehind := h.behind
    simp only [List.length_append, List.length_set]
    omega
  agrees := by
    obtain ⟨fuel, hfuel, hagrees⟩ := h.agrees
    rw [List.length_append] at hfuel
    obtain ⟨k, rfl⟩ : ∃ k, fuel = k + 1 := Nat.exists_eq_add_one.mpr (by omega)
    refine ⟨k, by omega, ?_⟩
    rw [hagrees, List.append_assoc, hloop, set_front front new _ v h.behind hpos, List.length_set,
      List.length_append]

theorem plain {c : UInt8} (h : Pending s tail front (c :: rest) dst) (hno : Plain c rest) :
    Pending s tail ((front ++ [c]).set dst c) rest (dst + 1) := by
  have hc : c ≠ 0 := fun hz => h.text (hz ▸ List.mem_cons_self)
  apply next [c] h rfl Nat.one_pos
  intro fuel
  exact urldecodeLoop_plain hc tail (startsEscape_plain tail hno) fuel front dst

theorem escape {a b : UInt8} (h : Pending s tail front (37 :: a :: b :: rest) dst)
    (ha : isXDigit a = true) (hb : isXDigit b = true) :
    Pending s tail ((front ++ [a, b, 0]).set dst (escaped a b)) rest (dst + 1) := by
  have hlen : [a, b, 0].length = [37, a, b].length := rfl
  apply next [37, a, b] h hlen (Nat.succ_pos 2)
  intro fuel
  exact urldecodeLoop_escape ha hb (rest ++ 0 :: tail) fuel front dst

end Pending

/-- What holds between any two rounds, and after the last one. -/
structure Inv (s tail : Bytes) (d : Decoder) : Prop where
  behind : d.dst ≤ d.src
  touched : ∀ access ∈ d.mem.log, access.index ≤ s.length
  running : d.running = true → ∃ front rest, Pending s tail front rest d.dst ∧
    d.mem.bytes = front ++ (rest ++ 0 :: tail) ∧ d.src = front.length
  stopped : d.running = false → cgiUrldecode (s ++ 0 :: tail) = some d.mem.bytes

theorem inv_start {s : Bytes} (hs : (0 : UInt8) ∉ s) (tail : Bytes) :
    Inv s tail (start (s ++ 0 :: tail)) where
  behind := Nat.le_refl 0
  touched := fun _ h => absurd h List.not_mem_nil
  running := fun _ => ⟨[], s, Pending.init hs tail, rfl, rfl⟩
  stopped := fun h => by cases h

/-- What a round computes is what the step does; the log grows within the same bound. -/
theorem step_of_computes {d : Decoder} {next : Option (Nat × Nat)} {m : Bytes} {n : Nat}
    (hrunning : d.running = true) (h : Computes (round d.src d.dst) d.mem.bytes next m n)
    (hlog : ∀ access ∈ d.mem.log, access.index ≤ n) :
    ∃ log, (∀ access ∈ log, access.index ≤ n) ∧ step d () = some (match next with
      | some (src, dst) => ⟨⟨m, log⟩, src, dst, true⟩
      | none => ⟨⟨m, log⟩, d.src, d.dst, false⟩) := by
  obtain ⟨new, hrun, hnew⟩ := h d.mem.log
  refine ⟨d.mem.log ++ new, ?_, ?_⟩
  · intro access hmem
    rcases List.mem_append.mp hmem with hmem | hmem
    · exact hlog access hmem
    · exact hnew access hmem
  · rw [step, if_pos hrunning]
    show (round d.src d.dst ⟨d.mem.bytes, d.mem.log⟩).map _ = _
    rw [hrun]
    rfl

/-- A round that goes on: it keeps the invariant, and there is less text to read. -/
theorem step_next {s tail front rest m : Bytes} {d : Decoder} {src : Nat} (h : Inv s tail d)
    (hrunning : d.running = true)
    (hround : Computes (round d.src d.dst) d.mem.bytes (some (src, d.dst + 1)) m s.length)
    (hpending : Pending s tail front rest (d.dst + 1)) (hm : m = front ++ (rest ++ 0 :: tail))
    (hsrc : src = front.length) (hlt : d.src < src) :
    ∃ t, step d () = some t ∧ Inv s tail t ∧
      (t.running = false ∨ s.length - t.src < s.length - d.src) := by
  obtain ⟨log, hlog, hstep⟩ := step_of_computes hrunning hround h.touched
  have hlength := hpending.length
  refine ⟨⟨⟨m, log⟩, src, d.dst + 1, true⟩, hstep, ?_, ?_⟩
  · refine ⟨?_, hlog, fun _ => ⟨front, rest, hpending, hm, hsrc⟩, fun hstop => ?_⟩
    · rw [hsrc]
      exact hpending.behind
    · cases hstop
  · right
    show s.length - src < s.length - d.src
    omega

/-- **One round.**  While the loop runs there is a step; it keeps the invariant, and it ends the
loop or leaves less text to read. -/
theorem step_inv {s tail : Bytes} {d : Decoder} (h : Inv s tail d) (hrunning : d.running = true) :
    ∃ t, step d () = some t ∧ Inv s tail t ∧
      (t.running = false ∨ s.length - t.src < s.length - d.src) := by
  obtain ⟨front, rest, hpending, hbytes, hsrc⟩ := h.running hrunning
  have hlength := hpending.length
  have hbehind := hpending.behind
  match rest with
  | [] =>
    have hround : Computes (round d.src d.dst) d.mem.bytes none ((front ++ 0 :: tail).set d.dst 0)
        s.length := by
      rw [hbytes, hsrc]
      exact (round_end front tail hbehind).mono (Nat.le.intro hlength)
    obtain ⟨log, hlog, hstep⟩ := step_of_computes hrunning hround h.touched
    refine ⟨_, hstep, ⟨h.behind, hlog, fun hrun => ?_, fun _ => hpending.finish⟩, Or.inl rfl⟩
    cases hrun
  | c :: rest =>
    rcases escape_or_plain c rest with ⟨a, b, r, rfl, rfl, ha, hb⟩ | hno
    · simp only [List.length_cons] at hlength
      have hround : Computes (round d.src d.dst) d.mem.bytes (some (front.length + 3, d.dst + 1))
          ((front ++ ([a, b, 0] ++ (r ++ 0 :: tail))).set d.dst (escaped a b)) s.length := by
        rw [hbytes, hsrc]
        exact (round_escape ha hb front (r ++ 0 :: tail) hbehind).mono (by omega)
      have hset := set_front front [a, b, 0] (r ++ 0 :: tail) (escaped a b) hbehind
        (Nat.succ_pos 2)
      apply step_next h hrunning hround (hpending.escape ha hb) hset
      · simp
      · omega
    · have hc : c ≠ 0 := fun hz => hpending.text (hz ▸ List.mem_cons_self)
      have hround : Computes (round d.src d.dst) d.mem.bytes (some (front.length + 1, d.dst + 1))
          ((front ++ ([c] ++ (rest ++ 0 :: tail))).set d.dst c) s.length := by
        rw [hbytes, hsrc, ← hlength]
        exact round_plain hc tail front hno hbehind
      have hset := set_front front [c] (rest ++ 0 :: tail) c hbehind Nat.one_pos
      apply step_next h hrunning hround (hpending.plain hno) hset
      · simp
      · omega

/-- What no state of the loop breaks.  `dst` is where the next round will write; when it writes,
the bytes from `src` on that it decodes have all been read. -/
structure Safe (n : Nat) (d : Decoder) : Prop where
  behind : d.dst ≤ d.src
  touched : ∀ access ∈ d.mem.log, access.index ≤ n
  goesOn : d.running = true → (step d ()).isSome

theorem Inv.safe {s tail : Bytes} {d : Decoder} (h : Inv s tail d) : Safe s.length d where
  behind := h.behind
  touched := h.touched
  goesOn := by
    intro hrunning
    obtain ⟨t, ht, -⟩ := step_inv h hrunning
    rw [ht]
    rfl

/-- The step is a function, so what some step keeps every step keeps. -/
theorem inv_of_step {s tail : Bytes} {d t : Decoder} (h : Inv s tail d)
    (hstep : step d () = some t) : Inv s tail t := by
  cases hrunning : d.running with
  | false =>
    rw [step, hrunning] at hstep
    cases hstep
  | true =>
    obtain ⟨u, hu, hinv, -⟩ := step_inv h hrunning
    obtain rfl : u = t := Option.some.inj (hu.symm.trans hstep)
    exact hinv

/-- **Decoding in place.**  In no run does the write position pass the read position or an access
go behind the terminator; the loop ends, and what it leaves is the decoded text. -/
theorem urldecode_inPlace {s : Bytes} (hs : (0 : UInt8) ∉ s) (tail : Bytes) :
    (∀ es, Always step (Safe s.length) (start (s ++ 0 :: tail)) es) ∧
      ∃ es t r, exec step (start (s ++ 0 :: tail)) es = some t ∧ t.running = false ∧
        cgiUrldecode (s ++ 0 :: tail) = some t.mem.bytes ∧
        t.mem.bytes = decode s ++ 0 :: (r ++ tail) ∧ (decode s).length + r.length = s.length := by
  have hstart := inv_start hs tail
  constructor
  · intro es
    have hall : Always step (Inv s tail) (start (s ++ 0 :: tail)) es :=
      always_of_step (fun d _ t hd ht => inv_of_step hd ht) hstart es
    exact hall.mono fun d hd => hd.safe
  · have hnext : ∀ d, Inv s tail d → ¬d.running = false → ∃ e t, step d e = some t ∧
        Inv s tail t ∧ (t.running = false ∨ s.length - t.src < s.length - d.src) := by
      intro d hd hrunning
      exact ⟨(), step_inv hd (eq_true_of_ne_false hrunning)⟩
    obtain ⟨es, t, hrun, hinv, hstop⟩ := exists_exec_of_measure _ hnext hstart
    obtain ⟨r, hr, hlen⟩ := cgiUrldecode_spec hs tail
    have hbytes : t.mem.bytes = decode s ++ 0 :: (r ++ tail) :=
      Option.some.inj ((hinv.stopped hstop).symm.trans hr)
    exact ⟨es, t, r, hrun, hstop, hinv.stopped hstop, hbytes, hlen⟩

/-- Two adjacent escapes, a decoded percent sign among them, and a truncated one at the end. -/
theorem urldecode_inPlace_adjacent :
    (∀ es, Always step (Safe 9) (start (ascii ['%', '2', '5', '%', '4', '1', '%', '4', 'g'] ++ [0, 7]))
        es) ∧
      ∃ es t r, exec step (start (ascii ['%', '2', '5', '%', '4', '1', '%', '4', 'g'] ++ [0, 7])) es =
          some t ∧ t.running = false ∧
        cgiUrldecode (ascii ['%', '2', '5', '%', '4', '1', '%', '4', 'g'] ++ [0, 7]) =
          some t.mem.bytes ∧
        t.mem.bytes = ascii ['%', 'A', '%', '4', 'g'] ++ 0 :: (r ++ [7]) ∧ 5 + r.length = 9 :=
  urldecode_inPlace (s := ascii ['%', '2', '5', '%', '4', '1', '%', '4', 'g']) (by decide) [7]

example : ((exec step (start [37, 52, 49, 37, 0]) [(), (), ()]).map fun d => d.mem.bytes) =
    some [65, 37, 0, 37, 0] := by decide

end EmWinDemo.Http.Urldecode
