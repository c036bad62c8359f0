/-
# EmWinDemo.Board.FrameBuffer -- handing a frame buffer to the LCD controller

For `LCD_X_SHOWBUFFER`, `LCD_X_DisplayDriver` (emwin_support.c) writes the address of a buffer into
the next-buffer register of the eLCDIF, publishes the index of the buffer in `s_LCDpendingBuffer`
and spins until that is negative again.  `APP_LCDIF_IRQHandler` confirms a published index and
takes it back.

A run places the ends of frames anywhere between the steps of the driver.  At an end of frame the
controller goes over to the next buffer and the handler runs, before the next step of the driver;
the driver never masks the interrupt.  `always_handsOver` says that every request is confirmed
once, with its own buffer on the screen, before the driver returns from it.
-/
import EmWinDemo.Lib.Runs

namespace EmWinDemo.Board.FrameBuffer

open EmWinDemo.Lib.Runs

/-! ## Addresses -/

def lcdWidth : Nat := 480
def lcdHeight : Nat := 272
def lcdBytesPerPixel : Nat := 4

/-- `VRAM_SIZE`. -/
def vramSize : Nat := lcdHeight * lcdWidth * lcdBytesPerPixel

/-- `VRAM_ADDR + VRAM_SIZE * index`, for the address of `s_vram_buffer`. -/
def bufferAddr (vramAddr : UInt32) (index : Nat) : UInt32 :=
  vramAddr + UInt32.ofNat vramSize * UInt32.ofNat index

/-! ## The driver, the handler and the controller -/

/-- Where `LCD_X_DisplayDriver` is. -/
inductive Pc where
  /-- not called -/
  | idle
  /-- before `ELCDIF_SetNextBufferAddr`, the address in a local variable -/
  | setAddr (index : Nat) (addr : UInt32)
  /-- before the assignment to `s_LCDpendingBuffer` -/
  | publish (index : Nat)
  /-- in the `while` loop -/
  | wait (index : Nat)
  deriving Repr, DecidableEq

/-- What the rest of the system notices. -/
inductive Obs where
  /-- a call with `LCD_X_SHOWBUFFER` -/
  | request (index : Nat)
  /-- `GUI_MULTIBUF_Confirm(index)`, while the controller scans from `scanned` on -/
  | confirm (index : Int) (scanned : UInt32)
  /-- the call returns -/
  | return
  deriving Repr, DecidableEq

/-- `obs` is a ghost. -/
structure State where
  /-- `CUR_BUF` -/
  curBuf : UInt32
  /-- `NEXT_BUF` -/
  nextBuf : UInt32
  /-- the `kELCDIF_CurFrameDone` bit of the interrupt status -/
  curFrameDone : Bool
  /-- `s_LCDpendingBuffer` -/
  pendingBuffer : Int
  pc : Pc
  obs : List Obs
  deriving Repr, DecidableEq

/-- After `APP_ELCDIF_Init`. -/
def start (vramAddr : UInt32) : State := ⟨vramAddr, vramAddr, false, -1, .idle, []⟩

/-- `APP_LCDIF_IRQHandler`. -/
def irqHandler (s : State) : State :=
  let intStatus := s.curFrameDone
  let s := { s with curFrameDone := false }
  if intStatus ∧ 0 ≤ s.pendingBuffer then
    { s with pendingBuffer := -1, obs := s.obs ++ [.confirm s.pendingBuffer s.curBuf] }
  else s

/-- The controller at an end of frame. -/
def frameDone (s : State) : State := { s with curBuf := s.nextBuf, curFrameDone := true }

/-- `LCD_X_DisplayDriver` up to the next access to something shared. -/
def driverStep (s : State) : Option State :=
  match s.pc with
  | .idle => none
  | .setAddr index addr => some { s with nextBuf := addr, pc := .publish index }
  | .publish index => some { s with pendingBuffer := index, pc := .wait index }
  | .wait _ =>
    if 0 ≤ s.pendingBuffer then some s
    else some { s with pc := .idle, obs := s.obs ++ [.return] }

inductive Event where
  /-- emWin calls the driver with `LCD_X_SHOWBUFFER` -/
  | showBuffer (index : Nat)
  | driver
  /-- an end of frame, and the interrupt -/
  | endOfFrame
  deriving Repr, DecidableEq

def step (vramAddr : UInt32) (s : State) : Event → Option State
  | .showBuffer index =>
    if s.pc = .idle then some { s with
      pc := .setAddr index (bufferAddr vramAddr index), obs := s.obs ++ [.request index] }
    else none
  | .driver => driverStep s
  | .endOfFrame => some (irqHandler (frameDone s))

/-! ## What the hand-over promises -/

/-- A request from its call to its return. -/
def served (vramAddr : UInt32) (index : Nat) : List Obs :=
  [.request index, .confirm index (bufferAddr vramAddr index), .return]

/-- One request after the other, the last one perhaps not yet finished; each is confirmed once,
with its own index, while its own buffer is scanned, before its return; there is no other
confirmation. -/
def HandsOver (vramAddr : UInt32) (s : State) : Prop :=
  ∃ (done : List Nat) (index : Nat) (part : List Obs),
    s.obs = done.flatMap (served vramAddr) ++ part ∧ part <+: served vramAddr index

/-! ## The invariant -/

/-- What has been observed of the request in progress, and what the shared variables hold. -/
def Progress (vramAddr : UInt32) (s : State) (part : List Obs) : Prop :=
  match s.pc with
  | .idle => s.pendingBuffer = -1 ∧ part = []
  | .setAddr index addr => s.pendingBuffer = -1 ∧ addr = bufferAddr vramAddr index ∧
      part = [.request index]
  | .publish index => s.pendingBuffer = -1 ∧ s.nextBuf = bufferAddr vramAddr index ∧
      part = [.request index]
  | .wait index => s.nextBuf = bufferAddr vramAddr index ∧
      (s.pendingBuffer = index ∧ part = [.request index] ∨
        s.pendingBuffer = -1 ∧ part = [.request index, .confirm index (bufferAddr vramAddr index)])

structure Inv (vramAddr : UInt32) (s : State) : Prop where
  obs : ∃ (done : List Nat) (part : List Obs),
    s.obs = done.flatMap (served vramAddr) ++ part ∧ Progress vramAddr s part

variable {vramAddr : UInt32}

theorem inv_start : Inv vramAddr (start vramAddr) := ⟨[], [], rfl, rfl, rfl⟩

/-- What has been observed of a request is a part of its course. -/
theorem Progress.isPart {s : State} {part : List Obs} (h : Progress vramAddr s part) :
    ∃ index, part <+: served vramAddr index := by
  unfold Progress at h
  split at h
  · obtain ⟨-, rfl⟩ := h
    exact ⟨0, List.nil_prefix⟩
  · next index _ _ =>
    obtain ⟨-, -, rfl⟩ := h
    exact ⟨index, _, rfl⟩
  · next index _ =>
    obtain ⟨-, -, rfl⟩ := h
    exact ⟨index, _, rfl⟩
  · next index _ =>
    rcases h.2 with ⟨-, rfl⟩ | ⟨-, rfl⟩
    · exact ⟨index, _, rfl⟩
    · exact ⟨index, _, rfl⟩

theorem Inv.handsOver {s : State} (h : Inv vramAddr s) : HandsOver vramAddr s := by
  obtain ⟨done, part, hobs, hpart⟩ := h.obs
  obtain ⟨index, hserved⟩ := hpart.isPart
  exact ⟨done, index, part, hobs, hserved⟩

/-! ## The steps -/

/-- The handler at an end of frame: it confirms what is published. -/
theorem irqHandler_frameDone (s : State) : irqHandler (frameDone s) =
    if 0 ≤ s.pendingBuffer then { s with
      curBuf := s.nextBuf, curFrameDone := false, pendingBuffer := -1
      obs := s.obs ++ [.confirm s.pendingBuffer s.nextBuf] }
    else { s with curBuf := s.nextBuf, curFrameDone := false } := by
  simp [irqHandler, frameDone]

theorem inv_showBuffer {s : State} (h : Inv vramAddr s) (hidle : s.pc = .idle) (index : Nat) :
    Inv vramAddr { s with
      pc := .setAddr index (bufferAddr vramAddr index), obs := s.obs ++ [.request index] } := by
  obtain ⟨done, part, hobs, hpart⟩ := h.obs
  simp only [Progress, hidle] at hpart
  obtain ⟨hpending, rfl⟩ := hpart
  refine ⟨done, [.request index], ?_, hpending, rfl, rfl⟩
  show s.obs ++ _ = _
  rw [hobs, List.append_nil]

theorem inv_driver {s t : State} (h : Inv vramAddr s) (hstep : driverStep s = some t) :
    Inv vramAddr t := by
  obtain ⟨done, part, hobs, hpart⟩ := h.obs
  unfold driverStep at hstep
  unfold Progress at hpart
  cases hpc : s.pc with
  | idle =>
    rw [hpc] at hstep
    cases hstep
  | setAddr index addr =>
    rw [hpc] at hstep hpart
    obtain ⟨hpending, haddr, rfl⟩ := hpart
    obtain rfl := Option.some.inj hstep
    exact ⟨done, [.request index], hobs, hpending, haddr, rfl⟩
  | publish index =>
    rw [hpc] at hstep hpart
    obtain ⟨-, hnext, rfl⟩ := hpart
    obtain rfl := Option.some.inj hstep
    exact ⟨done, [.request index], hobs, hnext, .inl ⟨rfl, rfl⟩⟩
  | wait index =>
    rw [hpc] at hstep hpart
    dsimp only at hstep hpart
    split at hstep
    · obtain rfl := Option.some.inj hstep
      refine ⟨done, part, hobs, ?_⟩
      rw [Progress, hpc]
      exact hpart
    · next hneg =>
      -- the loop is left, so the handler has run since the index was published
      rcases hpart.2 with ⟨hpending, -⟩ | ⟨hpending, rfl⟩
      · omega
      · obtain rfl := Option.some.inj hstep
        refine ⟨done ++ [index], [], ?_, hpending, rfl⟩
        show s.obs ++ _ = _
        rw [hobs]
        simp [served]

theorem inv_endOfFrame {s : State} (h : Inv vramAddr s) :
    Inv vramAddr (irqHandler (frameDone s)) := by
  obtain ⟨done, part, hobs, hpart⟩ := h.obs
  rw [irqHandler_frameDone]
  split
  · next hpos =>
    -- only a driver that waits has an index published
    unfold Progress at hpart
    cases hpc : s.pc with
    | wait index =>
      rw [hpc] at hpart
      obtain ⟨hnext, ⟨hpending, rfl⟩ | ⟨hpending, -⟩⟩ := hpart
      · refine ⟨done, [.request index, .confirm index (bufferAddr vramAddr index)], ?_, ?_⟩
        · show s.obs ++ _ = _
          rw [hobs, hpending, hnext]
          simp
        · exact ⟨hnext, .inr ⟨rfl, rfl⟩⟩
      · omega
    | idle | setAddr index addr | publish index =>
      rw [hpc] at hpart
      have := hpart.1
      omega
  · exact ⟨done, part, hobs, hpart⟩

theorem inv_step {s t : State} {e : Event} (h : Inv vramAddr s)
    (hstep : step vramAddr s e = some t) : Inv vramAddr t := by
  cases e with
  | showBuffer index =>
    dsimp only [step] at hstep
    split at hstep
    · next hidle =>
      obtain rfl := Option.some.inj hstep
      exact inv_showBuffer h hidle index
    · cases hstep
  | driver => exact inv_driver h hstep
  | endOfFrame =>
    obtain rfl := Option.some.inj hstep
    exact inv_endOfFrame h

/-! ## The requests of a run -/

/-- The indices of the requests that have been observed. -/
def requests (obs : List Obs) : List Nat :=
  obs.filterMap fun
    | .request index => some index
    | _ => none

/-- The calls of emWin in a run. -/
def shown (es : List Event) : List Nat :=
  es.filterMap fun
    | .showBuffer index => some index
    | _ => none

theorem requests_append (obs obs' : List Obs) :
    requests (obs ++ obs') = requests obs ++ requests obs' :=
  List.filterMap_append

theorem requests_step {s t : State} {e : Event} (h : step vramAddr s e = some t) :
    requests t.obs = requests s.obs ++ shown [e] := by
  cases e with
  | showBuffer index =>
    dsimp only [step] at h
    split at h
    · obtain rfl := Option.some.inj h
      exact requests_append _ _
    · cases h
  | driver =>
    change driverStep s = some t at h
    unfold driverStep at h
    show requests t.obs = requests s.obs ++ []
    rw [List.append_nil]
    split at h
    · cases h
    · obtain rfl := Option.some.inj h
      rfl
    · obtain rfl := Option.some.inj h
      rfl
    · split at h
      · obtain rfl := Option.some.inj h
        rfl
      · obtain rfl := Option.some.inj h
        exact (requests_append _ _).trans (List.append_nil _)
  | endOfFrame =>
    obtain rfl := Option.some.inj h
    show requests (irqHandler (frameDone s)).obs = requests s.obs ++ []
    rw [irqHandler_frameDone, List.append_nil]
    split
    · exact (requests_append _ _).trans (List.append_nil _)
    · rfl

/-- **What is observed of the calls.** The requests of a run are its calls, in their order. -/
theorem requests_exec {s t : State} {es : List Event} (h : exec (step vramAddr) s es = some t) :
    requests t.obs = requests s.obs ++ shown es := by
  induction es generalizing s with
  | nil =>
    obtain rfl := Option.some.inj h
    exact (List.append_nil _).symm
  | cons e es ih =>
    rw [exec_cons] at h
    obtain ⟨u, hstep, hrest⟩ := Option.bind_eq_some_iff.mp h
    have happ : shown (e :: es) = shown [e] ++ shown es := List.filterMap_append (l := [e])
    rw [ih hrest, requests_step hstep, happ, List.append_assoc]

/-! ## Every request returns -/

/-- Steps of the driver and at most one end of frame take it back to its caller. -/
def Returns (vramAddr : UInt32) (s : State) : Prop :=
  ∃ (es : List Event) (t : State), (∀ e ∈ es, e = .driver ∨ e = .endOfFrame) ∧
    es.count .endOfFrame ≤ 1 ∧ exec (step vramAddr) s es = some t ∧ t.pc = .idle

/-- From the loop one end of frame and one round are enough. -/
theorem exec_wait (vramAddr : UInt32) {s : State} {index : Nat} (hpc : s.pc = .wait index) :
    ∃ t, exec (step vramAddr) s [.endOfFrame, .driver] = some t ∧ t.pc = .idle := by
  have hneg : (irqHandler (frameDone s)).pendingBuffer < 0 ∧
      (irqHandler (frameDone s)).pc = .wait index := by
    rw [irqHandler_frameDone]
    split
    · exact ⟨Int.negSucc_lt_zero 0, hpc⟩
    · next hneg => exact ⟨Int.not_le.mp hneg, hpc⟩
  refine ⟨{ irqHandler (frameDone s) with
    pc := .idle, obs := (irqHandler (frameDone s)).obs ++ [.return] }, ?_, rfl⟩
  have hleave : ¬0 ≤ (irqHandler (frameDone s)).pendingBuffer := Int.not_le.mpr hneg.1
  simp only [exec_cons, exec_nil, step, driverStep, Option.bind_some, hneg.2, if_neg hleave]

theorem returns (s : State) : Returns vramAddr s := by
  cases hpc : s.pc with
  | idle => exact ⟨[], s, by simp, by simp, rfl, hpc⟩
  | setAddr index addr =>
    obtain ⟨t, ht, hidle⟩ := exec_wait vramAddr
      (s := { s with nextBuf := addr, pendingBuffer := index, pc := .wait index }) rfl
    refine ⟨[.driver, .driver, .endOfFrame, .driver], t, by simp, by decide, ?_, hidle⟩
    rw [exec_cons, step, driverStep, hpc]
    exact ht
  | publish index =>
    obtain ⟨t, ht, hidle⟩ := exec_wait vramAddr
      (s := { s with pendingBuffer := index, pc := .wait index }) rfl
    refine ⟨[.driver, .endOfFrame, .driver], t, by simp, by decide, ?_, hidle⟩
    rw [exec_cons, step, driverStep, hpc]
    exact ht
  | wait index =>
    obtain ⟨t, ht, hidle⟩ := exec_wait vramAddr hpc
    exact ⟨[.endOfFrame, .driver], t, by simp, by decide, ht, hidle⟩

/-- **The hand-over of a frame buffer.** Wherever the ends of frames fall, every request is
confirmed once, with its own buffer on the screen, before the driver returns from it, and none is
confirmed otherwise; and the driver returns once a frame ends. -/
theorem always_handsOver (vramAddr : UInt32) (es : List Event) :
    Always (step vramAddr) (fun s => HandsOver vramAddr s ∧ Returns vramAddr s)
      (start vramAddr) es := by
  have hinv : Always (step vramAddr) (Inv vramAddr) (start vramAddr) es :=
    always_of_step (fun _ _ _ h hstep => inv_step h hstep) inv_start es
  exact hinv.mono fun s h => ⟨h.handsOver, returns s⟩

end EmWinDemo.Board.FrameBuffer
