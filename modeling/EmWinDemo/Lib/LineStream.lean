/-
# EmWinDemo.Lib.LineStream -- a header of lines, read from a stream in pieces

A header is a sequence of lines that ends with a last line; what follows it in the stream is left
for somebody else.  A `Protocol` says which byte ends a line, how long a line may get, and what a
line does to the state of the reader: there is a next line (`next`), this one was the last
(`last`), or the header is rejected (`reject`).

`feed` takes a stream one element at a time, so that how the stream is cut into pieces cannot
matter (`feed_append`): it is the meaning that an implementation with a buffer is compared with.
The rules below are for such a comparison, one for each thing that a buffer may hold next: a line
and its end (`feed_line`), a piece of a line (`feed_part`), a piece that is too long
(`feed_tooLong`).  `Progress.Proper` is what every progress made by `feed` satisfies.
-/
import Mathlib.Data.List.Basic

namespace EmWinDemo.Lib.LineStream

variable {α σ : Type*}

/-- What a line does to the state of the reader. -/
inductive Verdict (σ : Type*) where
  | next (s : σ)
  | last (s : σ)
  | reject (s : σ)

/-- How far a header has been read: in the middle of a line, up to its end with what followed it,
or up to where it was rejected. -/
inductive Progress (α σ : Type*) where
  | reading (s : σ) (part : List α)
  | finished (s : σ) (rest : List α)
  | rejected (s : σ)

/-- The rules by which a header is read. -/
structure Protocol (α σ : Type*) where
  newline : α
  limit : Nat
  line : List α → σ → Verdict σ
  tooLong : σ → σ

/-- The progress that a verdict makes. -/
def Verdict.progress : Verdict σ → Progress α σ
  | next s => .reading s []
  | last s => .finished s []
  | reject s => .rejected s

namespace Protocol

variable [DecidableEq α] (p : Protocol α σ)

/-- One element of the stream. -/
def feedOne : Progress α σ → α → Progress α σ
  | .reading s part, b =>
    if b = p.newline then (p.line part s).progress
    else if part.length + 1 < p.limit then .reading s (part ++ [b])
    else .rejected (p.tooLong s)
  | .finished s rest, b => .finished s (rest ++ [b])
  | .rejected s, _ => .rejected s

/-- A piece of the stream. -/
def feed (g : Progress α σ) (bs : List α) : Progress α σ := bs.foldl p.feedOne g

@[simp] theorem feed_nil (g : Progress α σ) : p.feed g [] = g := rfl

/-- **Cutting the stream into pieces changes nothing.** -/
theorem feed_append (g : Progress α σ) (bs cs : List α) :
    p.feed g (bs ++ cs) = p.feed (p.feed g bs) cs := by
  simp [feed]

theorem feed_cons (g : Progress α σ) (b : α) (bs : List α) :
    p.feed g (b :: bs) = p.feed (p.feedOne g b) bs := rfl

@[simp] theorem feed_finished (s : σ) (rest bs : List α) :
    p.feed (.finished s rest) bs = .finished s (rest ++ bs) := by
  induction bs generalizing rest with
  | nil => simp
  | cons b bs ih =>
    rw [feed_cons, feedOne, ih]
    simp

@[simp] theorem feed_rejected (s : σ) (bs : List α) :
    p.feed (.rejected s) bs = .rejected s := by
  induction bs with
  | nil => rfl
  | cons b bs ih => rw [feed_cons, feedOne, ih]

variable {p} {s : σ} {part bs : List α}

/-- A piece of a line is kept until the rest of the line comes. -/
theorem feed_part (hbs : p.newline ∉ bs) (hlen : part.length + bs.length < p.limit) :
    p.feed (.reading s part) bs = .reading s (part ++ bs) := by
  induction bs generalizing part with
  | nil => simp
  | cons b bs ih =>
    rw [List.mem_cons, not_or] at hbs
    rw [List.length_cons] at hlen
    have hshort : part.length + 1 < p.limit := by omega
    rw [feed_cons, feedOne, if_neg (Ne.symm hbs.1), if_pos hshort, ih hbs.2]
    · simp
    · simp only [List.length_append, List.length_singleton]
      omega

/-- A line is handled when its end comes. -/
theorem feed_line (hbs : p.newline ∉ bs) (hlen : part.length + bs.length < p.limit)
    (rest : List α) :
    p.feed (.reading s part) (bs ++ p.newline :: rest) =
      p.feed (p.line (part ++ bs) s).progress rest := by
  rw [feed_append, feed_part hbs hlen, feed_cons, feedOne, if_pos rfl]

/-- A line that has reached the limit without an end rejects the header. -/
theorem feed_tooLong (hbs : p.newline ∉ bs) (hpart : part.length < p.limit)
    (hlen : p.limit ≤ part.length + bs.length) :
    p.feed (.reading s part) bs = .rejected (p.tooLong s) := by
  induction bs generalizing part with
  | nil =>
    rw [List.length_nil] at hlen
    omega
  | cons b bs ih =>
    rw [List.mem_cons, not_or] at hbs
    rw [List.length_cons] at hlen
    rw [feed_cons, feedOne, if_neg (Ne.symm hbs.1)]
    by_cases hshort : part.length + 1 < p.limit
    · rw [if_pos hshort]
      apply ih hbs.2
      · simpa using hshort
      · simp only [List.length_append, List.length_singleton]
        omega
    · rw [if_neg hshort, feed_rejected]

/-- A kept piece of a line is as good as a piece that comes again. -/
theorem feed_reading (hpart : p.newline ∉ part) (hlen : part.length < p.limit) (bs : List α) :
    p.feed (.reading s part) bs = p.feed (.reading s []) (part ++ bs) := by
  have hkept : p.feed (.reading s []) part = .reading s ([] ++ part) := by
    apply feed_part hpart
    simpa using hlen
  rw [feed_append, hkept, List.nil_append]

variable (p) in
/-- What is kept of a line is a piece of one line, and shorter than the limit. -/
def Proper : Progress α σ → Prop
  | .reading _ part => p.newline ∉ part ∧ part.length < p.limit
  | .finished _ _ => True
  | .rejected _ => True

theorem proper_feedOne {g : Progress α σ} (h : p.Proper g) (hlimit : 0 < p.limit) (b : α) :
    p.Proper (p.feedOne g b) := by
  cases g with
  | finished s rest => trivial
  | rejected s => trivial
  | reading s part =>
    rw [feedOne]
    by_cases hb : b = p.newline
    · rw [if_pos hb]
      cases p.line part s with
      | next t => exact ⟨List.not_mem_nil, hlimit⟩
      | last t => trivial
      | reject t => trivial
    · rw [if_neg hb]
      by_cases hshort : part.length + 1 < p.limit
      · rw [if_pos hshort]
        constructor
        · simp [h.1, Ne.symm hb]
        · simpa using hshort
      · rw [if_neg hshort]
        trivial

theorem proper_feed {g : Progress α σ} (h : p.Proper g) (hlimit : 0 < p.limit) (bs : List α) :
    p.Proper (p.feed g bs) := by
  induction bs generalizing g with
  | nil => exact h
  | cons b bs ih => exact ih (proper_feedOne h hlimit b)

end Protocol

end EmWinDemo.Lib.LineStream
