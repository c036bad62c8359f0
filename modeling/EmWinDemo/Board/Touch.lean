/-
# EmWinDemo.Board.Touch -- what the touch screen reports to emWin

`BOARD_Touch_Poll` (emwin_support.c) reads a report with `FT5406_RT_GetSingleTouch`
(fsl_ft5406_rt.c) and stores a state for emWin.  The driver fills in the coordinates only while
the screen is touched; the caller has them in two local variables without an initial value, and
stores them for a release, too.  A coordinate that was never assigned is `none` here.

`storesOk_iff` says for which sequences of polls the stored states are what they should be.
-/
import Mathlib.Data.List.Basic
import Mathlib.Tactic.Common

namespace EmWinDemo.Board.Touch

/-! ## The driver -/

/-- `touch_event_t`. -/
inductive TouchEvent where
  | down
  | up
  | contact
  | reserved
  deriving Repr, DecidableEq

/-- The first touch point of a report; its reserved bytes are read by nobody. -/
structure TouchPoint where
  xh : UInt8
  xl : UInt8
  yh : UInt8
  yl : UInt8
  deriving Repr, DecidableEq

/-- The enumeration's values from 0 to 3. -/
def TouchEvent.ofBits (bits : UInt8) : TouchEvent :=
  if bits = 0 then .down
  else if bits = 1 then .up
  else if bits = 2 then .contact
  else .reserved

/-- `TOUCH_POINT_GET_EVENT`. -/
def TouchPoint.getEvent (t : TouchPoint) : TouchEvent := .ofBits (t.xh >>> 6)

/-- `TOUCH_POINT_GET_X`. -/
def TouchPoint.getX (t : TouchPoint) : Nat := ((t.xh &&& 0x0f).toNat <<< 8) ||| t.xl.toNat

/-- `TOUCH_POINT_GET_Y`. -/
def TouchPoint.getY (t : TouchPoint) : Nat := ((t.yh &&& 0x0f).toNat <<< 8) ||| t.yl.toNat

/-- What a transfer over I2C delivers; none when it fails. -/
abbrev Poll := Option TouchPoint

/-- The screen is touched. -/
def TouchEvent.touched (e : TouchEvent) : Bool := e = .down || e = .contact

/-- The variables of the caller. -/
structure Locals where
  touchEvent : TouchEvent
  touchX : Option Nat
  touchY : Option Nat
  deriving Repr, DecidableEq

/-- `FT5406_RT_GetSingleTouch` into the caller's variables; none when the status is not success. -/
def getSingleTouch (poll : Poll) (touchX touchY : Option Nat) : Option Locals :=
  poll.map fun t =>
    if t.getEvent.touched then ⟨t.getEvent, some t.getX, some t.getY⟩
    else ⟨t.getEvent, touchX, touchY⟩

/-! ## The caller -/

/-- `GUI_PID_STATE`. -/
structure PidState where
  x : Option Nat
  y : Option Nat
  pressed : Bool
  layer : Nat
  deriving Repr, DecidableEq

/-- `BOARD_Touch_Poll`: its result, and what it hands to `GUI_TOUCH_StoreStateEx`. -/
def boardTouchPoll (poll : Poll) : Int × Option PidState :=
  match getSingleTouch poll none none with
  | none => (0, none)
  | some l =>
    if l.touchEvent ≠ .reserved then (1, some ⟨l.touchY, l.touchX, l.touchEvent.touched, 0⟩)
    else (0, none)

/-! ## What should be stored -/

/-- Where the screen is touched, x before y, if it is. -/
def position (poll : Poll) : Option (Nat × Nat) :=
  poll.bind fun t => if t.getEvent.touched then some (t.getX, t.getY) else none

/-- Where it was touched last. -/
def lastPosition (polls : List Poll) : Option (Nat × Nat) := polls.reverse.findSome? position

/-- What the last one of `polls` should store: its axes are swapped, and a release has the last
position. -/
def due (polls : List Poll) (poll : Poll) : Option PidState :=
  match poll.map TouchPoint.getEvent with
  | none => none
  | some .reserved => none
  | some e => (lastPosition polls).map fun (x, y) => ⟨some y, some x, e.touched, 0⟩

/-- Each poll stores what it should. -/
def StoresOk (polls : List Poll) : Prop :=
  ∀ n poll, polls[n]? = some poll → (boardTouchPoll poll).2 = due (polls.take (n + 1)) poll

/-- A report of a release has been read. -/
def Released (poll : Poll) : Prop := poll.map TouchPoint.getEvent = some .up

instance (poll : Poll) : Decidable (Released poll) := by
  unfold Released
  infer_instance

/-! ## One poll -/

theorem lastPosition_concat (polls : List Poll) (poll : Poll) :
    lastPosition (polls ++ [poll]) = (position poll).or (lastPosition polls) := by
  simp [lastPosition, List.findSome?_cons]
  cases position poll <;> rfl

/-- While the screen is touched the report itself has the position. -/
theorem boardTouchPoll_touched {t : TouchPoint} (h : t.getEvent.touched = true)
    (polls : List Poll) : (boardTouchPoll (some t)).2 = due (polls ++ [some t]) (some t) := by
  have hposition : position (some t) = some (t.getX, t.getY) := by simp [position, h]
  have hreserved : t.getEvent ≠ .reserved := by
    intro hr
    rw [hr] at h
    cases h
  rw [due, lastPosition_concat, hposition]
  simp only [boardTouchPoll, getSingleTouch, Option.map_some, h, if_true, if_pos hreserved,
    Option.some_or]

/-- A failed poll and a report without information store nothing. -/
theorem boardTouchPoll_quiet {poll : Poll} (h : ∀ e, poll.map TouchPoint.getEvent = some e →
    e = .reserved) (polls : List Poll) : (boardTouchPoll poll).2 = due polls poll := by
  cases poll with
  | none => rfl
  | some t =>
    have hreserved : t.getEvent = .reserved := h t.getEvent rfl
    simp [boardTouchPoll, getSingleTouch, due, hreserved, TouchEvent.touched]

/-- A release is stored without a position. -/
theorem boardTouchPoll_released {poll : Poll} (h : Released poll) :
    (boardTouchPoll poll).2 = some ⟨none, none, false, 0⟩ := by
  obtain ⟨t, rfl, hup⟩ := Option.map_eq_some_iff.mp h
  simp [boardTouchPoll, getSingleTouch, hup, TouchEvent.touched]

theorem due_ne_undefined (polls : List Poll) (poll : Poll) :
    due polls poll ≠ some ⟨none, none, false, 0⟩ := by
  unfold due
  split
  · simp
  · simp
  · cases lastPosition polls <;> simp

/-- A poll that reports no release stores what it should, whatever came before. -/
theorem boardTouchPoll_eq_due {poll : Poll} (h : ¬Released poll) (polls : List Poll) :
    (boardTouchPoll poll).2 = due (polls ++ [poll]) poll := by
  cases poll with
  | none => exact boardTouchPoll_quiet (by simp) _
  | some t =>
    cases he : t.getEvent with
    | down => exact boardTouchPoll_touched (by rw [he]; rfl) polls
    | contact => exact boardTouchPoll_touched (by rw [he]; rfl) polls
    | up => exact absurd (congrArg some he) h
    | reserved =>
      apply boardTouchPoll_quiet
      intro e heq
      exact (Option.some.inj heq).symm.trans he

/-! ## A sequence of polls -/

/-- **The states that are stored.** They are what they should be exactly as long as no release is
reported. -/
theorem storesOk_iff (polls : List Poll) : StoresOk polls ↔ ∀ poll ∈ polls, ¬Released poll := by
  constructor
  · intro h poll hmem hup
    obtain ⟨n, hn⟩ := List.mem_iff_getElem?.mp hmem
    have hstore := h n poll hn
    rw [boardTouchPoll_released hup] at hstore
    exact due_ne_undefined _ _ hstore.symm
  · intro h n poll hn
    obtain ⟨hlt, hget⟩ := List.getElem?_eq_some_iff.mp hn
    have htake : polls.take (n + 1) = polls.take n ++ [poll] := by
      rw [List.take_add_one, hn]
      rfl
    rw [htake]
    exact boardTouchPoll_eq_due (h poll (List.mem_of_getElem? hn)) (polls.take n)

/-- A touch at (5, 7) and its release. -/
theorem not_storesOk_release : ¬∀ polls : List Poll, StoresOk polls := by
  intro hall
  have hstore := hall [some ⟨0x00, 5, 0x00, 7⟩, some ⟨0x40, 5, 0x00, 7⟩] 1 (some ⟨0x40, 5, 0x00, 7⟩) rfl
  exact absurd hstore (by decide)

end EmWinDemo.Board.Touch
