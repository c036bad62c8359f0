/-
# EmWinDemo.Http.Output -- the session's output, from the buffer to the wire

What the server sends goes through the session buffer: `httpsrvWrite` (`httpsrv_write`) fills it
and empties it into the socket when it is full, `httpsrvPrint` (`httpsrv_print`, as the project's
compiler builds it) empties it before every line, and `sesFlush` (`httpsrv_ses_flush`) sends what
is in it, in as many pieces as the socket takes.  Data longer than the buffer is sent directly.

The socket decides how much it takes of each call, and when the connection breaks; from then on
every call fails.  `Tells o text` is the invariant that all of them keep: what is on the wire is a
part of `text` from its beginning, and as long as the connection holds, the wire and the buffer
together hold all of it.  A printer is a program that appends a fixed text in this sense
(`Prints`), and the rules for printers follow the control flow of the code that prints.
-/
import Mathlib.Data.List.Infix
import EmWinDemo.Http.Reader

namespace EmWinDemo.Http.Output

open Lib.CMemory Lib.CText Reader

/-! ## The socket -/

/-- A connection: the bytes on the wire, and how much of the coming calls will be taken; a call
takes at least one byte, and when the list ends the connection breaks. -/
structure Socket where
  sent : Bytes
  accepts : List Nat
  deriving Repr, DecidableEq

/-- `httpsrv_send`, `none` being -1. -/
def httpsrvSend (s : Socket) (src : Bytes) : Option Nat × Socket :=
  match s.accepts with
  | [] => (none, s)
  | n :: accepts => (some (min (n + 1) src.length), ⟨s.sent ++ src.take (n + 1), accepts⟩)

/-- `session->buffer` and the socket. -/
structure SesBuffer where
  data : Bytes
  offset : Nat
  socket : Socket
  deriving Repr, DecidableEq

/-! ## Flushing, writing, printing -/

/-- The loop of `httpsrv_ses_flush`; every call sends a byte at least. -/
def flushLoop (data : Bytes) : Nat → Nat → Socket → Option Nat × Socket
  | 0, sendTotal, s => (some sendTotal, s)
  | rounds + 1, sendTotal, s =>
    if sendTotal < data.length then
      match httpsrvSend s (data.drop sendTotal) with
      | (none, s) => (none, s)
      | (some sendNow, s) => flushLoop data rounds (sendTotal + sendNow) s
    else (some sendTotal, s)

def sesFlush (o : SesBuffer) : Option Nat × SesBuffer :=
  let (result, socket) := flushLoop (o.data.take o.offset) o.offset 0 o.socket
  (result, ⟨o.data, 0, socket⟩)

/-- The end of `httpsrv_write`: the data goes to the buffer, and a full buffer to the socket. -/
def saveData (o : SesBuffer) (src : Bytes) : Option Nat × SesBuffer :=
  let space := sesBufSize - o.offset
  let nSend := if space < src.length then space else src.length
  let o : SesBuffer := ⟨store o.data o.offset (src.take nSend), o.offset + nSend, o.socket⟩
  if o.offset ≥ sesBufSize then
    match sesFlush o with
    | (none, o) => (none, o)
    | (some _, o) => (some nSend, o)
  else (some src.length, o)

/-- `httpsrv_write`. -/
def httpsrvWrite (o : SesBuffer) (src : Bytes) : Option Nat × SesBuffer :=
  let space := sesBufSize - o.offset
  if src.length > sesBufSize then
    match sesFlush o with
    | (none, o) => (none, o)
    | (some _, o) =>
      let (result, socket) := httpsrvSend o.socket src
      (result, ⟨o.data, o.offset, socket⟩)
  else if space < src.length then
    match sesFlush o with
    | (none, o) => (none, o)
    | (some _, o) => saveData o src
  else saveData o src

/-- A program that prints, `none` when it goes outside the buffer or follows a null pointer. -/
abbrev Printer := StateT SesBuffer Option Unit

/-- `httpsrv_print` of a formatted text.  `vsnprintf` is told that the whole buffer is free and
returns the length of the text also where that does not fit. -/
def httpsrvPrint (text : Bytes) : Printer := fun o =>
  let o := (sesFlush o).2
  if text.length < sesBufSize then
    some ((), ⟨store o.data o.offset (text ++ [0]), o.offset + text.length, o.socket⟩)
  else none

/-! ## The invariant -/

/-- The output so far is this text: on the wire, and, if the connection holds, in the buffer. -/
structure Tells (o : SesBuffer) (text : Bytes) : Prop where
  length : o.data.length = sesBufSize
  fits : o.offset ≤ sesBufSize
  sent : o.socket.sent <+: text
  alive : o.socket.accepts ≠ [] → o.socket.sent ++ o.data.take o.offset = text

/-- With the buffer empty and the connection alive, everything is on the wire. -/
theorem Tells.sent_eq {o : SesBuffer} {text : Bytes} (h : Tells o text) (hoffset : o.offset = 0)
    (halive : o.socket.accepts ≠ []) : o.socket.sent = text := by
  simpa [hoffset] using h.alive halive

/-- What the flushing loop does to the socket. -/
structure Flushes (s : Socket) (data : Bytes) (r : Option Nat × Socket) : Prop where
  sent : ∃ front, front <+: data ∧ r.2.sent = s.sent ++ front ∧
    (r.2.accepts ≠ [] → front = data) ∧ (s.accepts = [] → front = [])
  accepts : r.2.accepts <:+ s.accepts
  failed : r.1 = none → r.2.accepts = []

theorem flushLoop_spec (data : Bytes) (rounds sendTotal : Nat) (s : Socket)
    (hrounds : data.length ≤ sendTotal + rounds) :
    Flushes s (data.drop sendTotal) (flushLoop data rounds sendTotal s) := by
  induction rounds generalizing sendTotal s with
  | zero =>
    have hdone : data.drop sendTotal = [] := List.drop_of_length_le (by omega)
    rw [hdone]
    exact ⟨⟨[], List.prefix_refl _, by simp [flushLoop], fun _ => rfl, fun _ => rfl⟩,
      List.suffix_refl _, by simp [flushLoop]⟩
  | succ rounds ih =>
    rw [flushLoop]
    by_cases hmore : sendTotal < data.length
    · rw [if_pos hmore]
      unfold httpsrvSend
      cases haccepts : s.accepts with
      | nil =>
        exact ⟨⟨[], List.nil_prefix, by simp, fun h => absurd haccepts h, fun _ => rfl⟩,
          List.suffix_refl _, fun _ => haccepts⟩
      | cons n accepts =>
        have hnow : sendTotal + min (n + 1) (data.drop sendTotal).length ≤ data.length := by
          rw [List.length_drop]
          omega
        have hdrop : data.drop (sendTotal + min (n + 1) (data.drop sendTotal).length) =
            (data.drop sendTotal).drop (n + 1) := by
          rw [← List.drop_drop]
          by_cases hle : n + 1 ≤ (data.drop sendTotal).length
          · rw [Nat.min_eq_left hle]
          · rw [Nat.min_eq_right (by omega), List.drop_length, List.drop_of_length_le (by omega)]
        obtain ⟨⟨front, hfront, hsent, halive, -⟩, hsuffix, hfailed⟩ :=
          ih (sendTotal + min (n + 1) (data.drop sendTotal).length)
            ⟨s.sent ++ (data.drop sendTotal).take (n + 1), accepts⟩
            (by rw [List.length_drop]; omega)
        rw [hdrop] at hfront halive
        refine ⟨⟨(data.drop sendTotal).take (n + 1) ++ front, ?_, ?_, ?_, ?_⟩, ?_, hfailed⟩
        · conv => rhs; rw [← List.take_append_drop (n + 1) (data.drop sendTotal)]
          exact (List.prefix_append_right_inj _).mpr hfront
        · rw [← List.append_assoc]
          exact hsent
        · intro h
          rw [halive h, List.take_append_drop]
        · intro h
          rw [haccepts] at h
          cases h
        · rw [haccepts]
          exact hsuffix.trans (List.suffix_cons n accepts)
    · have hdone : data.drop sendTotal = [] := List.drop_of_length_le (by omega)
      rw [if_neg hmore, hdone]
      exact ⟨⟨[], List.prefix_refl _, by simp, fun _ => rfl, fun _ => rfl⟩, List.suffix_refl _,
        by simp⟩

/-- If no call fails, the loop returns the number of the bytes. -/
theorem flushLoop_total {data : Bytes} {rounds sendTotal : Nat} {s : Socket}
    (htotal : sendTotal ≤ data.length) (hrounds : data.length ≤ sendTotal + rounds) {n : Nat}
    (hn : (flushLoop data rounds sendTotal s).1 = some n) : n = data.length := by
  induction rounds generalizing sendTotal s with
  | zero =>
    obtain rfl := Option.some.inj hn
    omega
  | succ rounds ih =>
    rw [flushLoop] at hn
    by_cases hmore : sendTotal < data.length
    · rw [if_pos hmore] at hn
      unfold httpsrvSend at hn
      cases haccepts : s.accepts with
      | nil =>
        rw [haccepts] at hn
        cases hn
      | cons k accepts =>
        rw [haccepts] at hn
        apply ih _ _ hn
        · rw [List.length_drop]
          omega
        · rw [List.length_drop]
          omega
    · rw [if_neg hmore] at hn
      obtain rfl := Option.some.inj hn
      omega

theorem sesFlush_total {o : SesBuffer} {n : Nat} (hfits : o.offset ≤ o.data.length)
    (hn : (sesFlush o).1 = some n) : n = o.offset := by
  have hlen : (o.data.take o.offset).length = o.offset := by
    rw [List.length_take, Nat.min_eq_left hfits]
  rw [← hlen]
  exact flushLoop_total (Nat.zero_le _) (by rw [hlen]; omega) hn

section Keep

variable {o : SesBuffer} {text src : Bytes}

/-- **Flushing keeps the text, and empties the buffer.** -/
theorem sesFlush_tells (h : Tells o text) :
    Tells (sesFlush o).2 text ∧ (sesFlush o).2.offset = 0 ∧
      (sesFlush o).2.socket.accepts <:+ o.socket.accepts ∧
      ((sesFlush o).1 = none → (sesFlush o).2.socket.accepts = []) := by
  have hlen : (o.data.take o.offset).length ≤ 0 + o.offset := by
    rw [List.length_take]
    omega
  have hflush := flushLoop_spec (o.data.take o.offset) o.offset 0 o.socket hlen
  unfold sesFlush
  generalize flushLoop (o.data.take o.offset) o.offset 0 o.socket = r at hflush
  obtain ⟨result, socket⟩ := r
  rw [List.drop_zero] at hflush
  obtain ⟨⟨front, hfront, hsent, halive, hnone⟩, hsuffix, hfailed⟩ := hflush
  dsimp only at hsent halive hnone hsuffix hfailed ⊢
  refine ⟨⟨h.length, Nat.zero_le _, ?_, ?_⟩, rfl, hsuffix, hfailed⟩
  · show socket.sent <+: text
    by_cases hbroken : o.socket.accepts = []
    · -- a broken connection takes nothing more, so nothing was sent
      rw [hsent, hnone hbroken, List.append_nil]
      exact h.sent
    · rw [hsent, ← h.alive hbroken]
      exact (List.prefix_append_right_inj _).mpr hfront
  · intro hnow
    have hbefore : o.socket.accepts ≠ [] := by
      rintro hnil
      rw [hnil] at hsuffix
      exact hnow (List.eq_nil_of_suffix_nil hsuffix)
    show socket.sent ++ _ = text
    rw [hsent, halive hnow, List.take_zero, List.append_nil, h.alive hbefore]

/-- Data that fits the buffer is appended to the text. -/
theorem saveData_tells (h : Tells o text) (hspace : src.length ≤ sesBufSize - o.offset) :
    Tells (saveData o src).2 (text ++ src) ∧
      (saveData o src).2.socket.accepts <:+ o.socket.accepts ∧
      ((saveData o src).1 = none → (saveData o src).2.socket.accepts = []) := by
  have hnot : ¬sesBufSize - o.offset < src.length := by omega
  have hfits := h.fits
  have hlength := h.length
  have hstored : Tells ⟨store o.data o.offset src, o.offset + src.length, o.socket⟩ (text ++ src) := by
    refine ⟨?_, by show o.offset + src.length ≤ sesBufSize; omega, ?_, ?_⟩
    · rw [length_store (by omega), h.length]
    · exact h.sent.trans (List.prefix_append text src)
    · intro halive
      show o.socket.sent ++ (store o.data o.offset src).take (o.offset + src.length) = text ++ src
      have htake : (store o.data o.offset src).take (o.offset + src.length) =
          o.data.take o.offset ++ src := by
        apply List.take_left'
        simp only [List.length_append, List.length_take]
        omega
      rw [htake, ← List.append_assoc, h.alive halive]
  unfold saveData
  simp only [if_neg hnot, List.take_length]
  by_cases hfull : o.offset + src.length ≥ sesBufSize
  · rw [if_pos hfull]
    obtain ⟨htells, -, hsuffix, hfailed⟩ := sesFlush_tells hstored
    generalize sesFlush ⟨store o.data o.offset src, o.offset + src.length, o.socket⟩ = r
      at htells hsuffix hfailed
    rcases r with ⟨_ | n, o'⟩
    · exact ⟨htells, hsuffix, hfailed⟩
    · exact ⟨htells, hsuffix, fun h => by cases h⟩
  · rw [if_neg hfull]
    exact ⟨hstored, List.suffix_refl _, fun h => by cases h⟩

/-- After a flush that failed, the text may grow by what will never be sent. -/
theorem Tells.broken (h : Tells o text) (hbroken : o.socket.accepts = []) (src : Bytes) :
    Tells o (text ++ src) :=
  ⟨h.length, h.fits, h.sent.trans (List.prefix_append text src), fun h => absurd hbroken h⟩

/-- What the socket takes of data that goes to it directly, it takes as a whole. -/
def TakesWhole (s : Socket) (src : Bytes) : Prop :=
  src.length ≤ sesBufSize ∨ ∀ n ∈ s.accepts, src.length ≤ n + 1

theorem TakesWhole.mono {s t : Socket} (h : TakesWhole s src) (hsuffix : t.accepts <:+ s.accepts) :
    TakesWhole t src := by
  rcases h with h | h
  · exact Or.inl h
  · exact Or.inr fun n hn => h n (hsuffix.subset hn)

/-- **Writing appends the data to the text.** -/
theorem httpsrvWrite_tells (h : Tells o text) (hwhole : TakesWhole o.socket src) :
    Tells (httpsrvWrite o src).2 (text ++ src) ∧
      (httpsrvWrite o src).2.socket.accepts <:+ o.socket.accepts ∧
      ((httpsrvWrite o src).1 = none → (httpsrvWrite o src).2.socket.accepts = []) := by
  obtain ⟨htells, hoffset, hsuffix, hfailed⟩ := sesFlush_tells h
  unfold httpsrvWrite
  dsimp only
  by_cases hlong : src.length > sesBufSize
  · -- straight to the socket, behind what the buffer held
    rw [if_pos hlong]
    generalize sesFlush o = r at htells hoffset hsuffix hfailed
    rcases r with ⟨_ | n, o'⟩
    · exact ⟨htells.broken (hfailed rfl) src, hsuffix, hfailed⟩
    · dsimp only at htells hoffset hsuffix ⊢
      unfold httpsrvSend
      cases haccepts : o'.socket.accepts with
      | nil =>
        refine ⟨⟨htells.length, htells.fits, ?_, fun h => absurd haccepts h⟩, ?_, fun _ => haccepts⟩
        · exact htells.sent.trans (List.prefix_append text src)
        · exact hsuffix
      | cons n accepts =>
        have hmem : n ∈ o.socket.accepts := by
          rw [haccepts] at hsuffix
          exact hsuffix.subset List.mem_cons_self
        have hall : src.take (n + 1) = src := by
          apply List.take_of_length_le
          rcases hwhole with hshort | hwhole
          · omega
          · exact hwhole n hmem
        have hwire := htells.sent_eq hoffset (by rw [haccepts]; exact List.cons_ne_nil n accepts)
        refine ⟨⟨htells.length, htells.fits, ?_, fun _ => ?_⟩, ?_, fun h => by cases h⟩
        · simp only [hall, hwire]
          exact List.prefix_refl _
        · simp only [hall, hwire, hoffset, List.take_zero, List.append_nil]
        · rw [haccepts] at hsuffix
          exact (List.suffix_cons n accepts).trans hsuffix
  · rw [if_neg hlong]
    by_cases hspace : sesBufSize - o.offset < src.length
    · rw [if_pos hspace]
      generalize sesFlush o = r at htells hoffset hsuffix hfailed
      rcases r with ⟨_ | n, o'⟩
      · exact ⟨htells.broken (hfailed rfl) src, hsuffix, hfailed⟩
      · dsimp only at htells hoffset hsuffix ⊢
        have hroom : src.length ≤ sesBufSize - o'.offset := by omega
        obtain ⟨hsaved, hsuffix', hfailed'⟩ := saveData_tells htells hroom
        exact ⟨hsaved, hsuffix'.trans hsuffix, hfailed'⟩
    · rw [if_neg hspace]
      exact saveData_tells h (by omega)

end Keep

/-! ## Printers -/

/-- The program prints this text. -/
def Prints (x : Printer) (text : Bytes) : Prop :=
  ∀ o before, Tells o before → ∃ o', x o = some ((), o') ∧ Tells o' (before ++ text) ∧
    o'.socket.accepts <:+ o.socket.accepts

namespace Prints

variable {x y : Printer} {text text' : Bytes}

theorem nothing : Prints (pure ()) [] := by
  intro o before h
  exact ⟨o, rfl, by simpa using h, List.suffix_refl _⟩

/-- One printer after the other. -/
theorem seq (hx : Prints x text) (hy : Prints y text') :
    Prints (do x; y) (text ++ text') := by
  intro o before h
  obtain ⟨o', hrun, htells, hsuffix⟩ := hx o before h
  obtain ⟨o'', hrun', htells', hsuffix'⟩ := hy o' _ htells
  refine ⟨o'', ?_, by simpa using htells', hsuffix'.trans hsuffix⟩
  show (x o).bind (fun p => y p.2) = _
  rw [hrun]
  exact hrun'

theorem print (hlen : text.length < sesBufSize) : Prints (httpsrvPrint text) text := by
  intro o before h
  obtain ⟨htells, hoffset, hsuffix, -⟩ := sesFlush_tells h
  generalize hflush : sesFlush o = r at htells hoffset hsuffix
  obtain ⟨result, o'⟩ := r
  dsimp only at htells hoffset hsuffix
  have hlength := htells.length
  refine ⟨⟨store o'.data o'.offset (text ++ [0]), o'.offset + text.length, o'.socket⟩, ?_,
    ⟨?_, ?_, ?_, ?_⟩, hsuffix⟩
  · unfold httpsrvPrint
    rw [hflush]
    exact if_pos hlen
  · rw [length_store, hlength]
    simp only [hoffset, List.length_append, List.length_singleton]
    omega
  · show o'.offset + text.length ≤ sesBufSize
    omega
  · exact htells.sent.trans (List.prefix_append before text)
  · intro halive
    show o'.socket.sent ++ (store o'.data o'.offset (text ++ [0])).take (o'.offset + text.length) = _
    rw [hoffset, store_zero, Nat.zero_add, List.append_assoc, List.take_left,
      htells.sent_eq hoffset halive]

/-- A flush at the end prints nothing more. -/
theorem flush_tells {o : SesBuffer} {before : Bytes} (hx : Prints x text) (h : Tells o before) :
    ∃ o', x o = some ((), o') ∧ Tells (sesFlush o').2 (before ++ text) ∧
      (sesFlush o').2.offset = 0 ∧ (sesFlush o').2.socket.accepts <:+ o.socket.accepts := by
  obtain ⟨o', hrun, htells, hsuffix⟩ := hx o before h
  obtain ⟨hflushed, hoffset, hsuffix', -⟩ := sesFlush_tells htells
  exact ⟨o', hrun, hflushed, hoffset, hsuffix'.trans hsuffix⟩

end Prints

end EmWinDemo.Http.Output
