/-
# EmWinDemo.Gui.Handles -- the handles that the program stores, and the windows they name

Eight of the program's variables are handles of windows that come and go or that decide which
screen is seen: the two backgrounds, the bar, the start menu, the IP text, the socket and the
weather window, and the menu that pops up.  Each is a `Slot`, and in every state its handle
`Tracks` the windows of its kind; that is `Wf`.  Opening, closing, showing and hiding the window
of a slot keep it.
-/
import EmWinDemo.Gui.Activities

namespace EmWinDemo.Gui

open EmWinDemo.Lib

/-! ## Stored handles -/

inductive Slot where
  | home
  | enet
  | bar
  | start
  | ip
  | socket
  | weather
  | popup
  deriving Repr, DecidableEq

/-- The windows over the Home background that come and go. -/
def Slot.onHome : Slot → Bool
  | .start | .ip | .socket | .weather => true
  | .home | .enet | .bar | .popup => false

/-- Which variable holds the handle of a window.  A menu with extra bytes is a pop-up; the hidden
window without any has no variable. -/
def Win.slot (w : Win) : Option Slot :=
  match w.callback with
  | .background => some .home
  | .bgwindow => some .enet
  | .barwindow => some .bar
  | .startMenu => some .start
  | .ipText => some .ip
  | .socketActivity => some .socket
  | .weatherActivity => some .weather
  | .barMenu => if w.extraBytes = 0 then none else some .popup
  | _ => none

def State.handle (s : State) : Slot → Nat
  | .home => s.hWinBackground
  | .enet => s.hWinBgWindow
  | .bar => s.hWinBarWindow
  | .start => s.hWinStartMenu
  | .ip => s.hWinIPText
  | .socket => s.hWinSocket
  | .weather => s.hWinWeather
  | .popup => s.hWinBarMenu

/-- The parent of the window in a slot. -/
def State.parentOf (s : State) : Slot → Nat
  | .home | .enet | .popup => 0
  | .bar => s.hWinBgWindow
  | .start | .ip | .socket | .weather => s.hWinBackground

def State.setHandle (s : State) (l : Slot) (h : Nat) : State :=
  match l with
  | .home => { s with hWinBackground := h }
  | .enet => { s with hWinBgWindow := h }
  | .bar => { s with hWinBarWindow := h }
  | .start => { s with hWinStartMenu := h }
  | .ip => { s with hWinIPText := h }
  | .socket => { s with hWinSocket := h }
  | .weather => { s with hWinWeather := h }
  | .popup => { s with hWinBarMenu := h }

section SetHandle

variable (s : State) (l : Slot) (h : Nat)

@[simp] theorem setHandle_wm : (s.setHandle l h).wm = s.wm := by cases l <;> rfl

@[simp] theorem setHandle_deletedDead : (s.setHandle l h).deletedDead = s.deletedDead := by
  cases l <;> rfl

@[simp] theorem handle_setHandle_self : (s.setHandle l h).handle l = h := by cases l <;> rfl

theorem handle_setHandle_of_ne {s : State} {l o : Slot} {h : Nat} (hne : o ≠ l) :
    (s.setHandle l h).handle o = s.handle o := by
  cases l <;> cases o <;> first | rfl | exact absurd rfl hne

theorem parentOf_setHandle_self : (s.setHandle l h).parentOf l = s.parentOf l := by
  cases l <;> rfl

/-- Only the two backgrounds are parents. -/
theorem parentOf_setHandle_of_ne {s : State} {l : Slot} {h : Nat} (hhome : l ≠ .home)
    (henet : l ≠ .enet) (o : Slot) : (s.setHandle l h).parentOf o = s.parentOf o := by
  cases l <;> first | exact absurd rfl hhome | exact absurd rfl henet | cases o <;> rfl

theorem parentOf_cases (l : Slot) :
    s.parentOf l = 0 ∨ s.parentOf l = s.handle .home ∨ s.parentOf l = s.handle .enet := by
  cases l <;> simp [State.parentOf, State.handle]

theorem parentOf_congr {s t : State} (h : ∀ l, t.handle l = s.handle l) (l : Slot) :
    t.parentOf l = s.parentOf l := by
  cases l with
  | home | enet | popup => rfl
  | bar => exact h .enet
  | start | ip | socket | weather => exact h .home

end SetHandle

/-- What a parent and its child have to do with each other: the bar has the four buttons, and a
message button belongs to the socket window. -/
structure Fits (m v : Win) : Prop where
  bar : m.slot = some .bar →
    ∃ i : Fin 4, v.id = GUI_ID_BUTTON0 + (i : Nat) ∧ v.userData = some i
  msg : v.callback = .buttonMsg → m.slot = some .socket

/-- **The windows and their handles.** -/
structure Wf (s : State) : Prop where
  tracked : ∀ l, Tracks s.wm (fun w => w.slot = some l) (s.parentOf l) (s.handle l)
  bar : s.handle .bar ≠ 0 → s.handle .enet ≠ 0
  children : Children s.wm Fits
  /-- a menu without user data is never seen -/
  hidden : ∀ k n, s.wm.node k = some n → n.val.callback = .barMenu → n.val.slot = none →
    n.shown = false
  dead : s.deletedDead = false

theorem wf_boot : Wf boot where
  tracked l := by cases l <;> exact tracks_empty _ _
  bar h := absurd rfl h
  children k n m hn := by cases hn
  hidden k n hn := by cases hn
  dead := rfl

namespace Wf

variable {s : State}

theorem slot_of_handle (hs : Wf s) {l : Slot} {n : Node Win}
    (hn : s.wm.node (s.handle l) = some n) : n.val.slot = some l := by
  obtain ⟨m, hm, hslot, -⟩ := (hs.tracked l).live (Forest.ne_zero hn)
  obtain rfl := Option.some.inj (hn.symm.trans hm)
  exact hslot

/-- Two slots do not share a window. -/
theorem handle_ne (hs : Wf s) {l o : Slot} (hne : l ≠ o) (hlive : s.handle l ≠ 0) :
    s.handle l ≠ s.handle o := by
  intro heq
  obtain ⟨n, hn, hslot, -⟩ := (hs.tracked l).live hlive
  rw [heq] at hn
  exact hne (Option.some.inj (hslot.symm.trans (hs.slot_of_handle hn)))

/-- A window of the desktop is not below another window. -/
theorem not_below_top (hs : Wf s) {l o : Slot} (hne : l ≠ o) (hlive : s.handle l ≠ 0)
    (htop : s.parentOf o = 0) : s.wm.below (s.handle l) (s.handle o) = false := by
  by_cases hzero : s.handle o = 0
  · rw [hzero]
    exact Forest.below_zero hlive
  · obtain ⟨n, hn, -, hparent⟩ := (hs.tracked o).live hzero
    rw [Forest.below_of_node hn, hparent, htop, Forest.below_zero hlive, Bool.or_false]
    simpa using (hs.handle_ne hne hlive).symm

/-- Nothing with a slot is below a window with one, the two backgrounds apart. -/
theorem not_below (hs : Wf s) {l o : Slot} (hne : l ≠ o) (hlive : s.handle l ≠ 0)
    (hhome : l ≠ .home) (henet : l ≠ .enet) :
    s.wm.below (s.handle l) (s.handle o) = false := by
  by_cases hzero : s.handle o = 0
  · rw [hzero]
    exact Forest.below_zero hlive
  · obtain ⟨n, hn, -, hparent⟩ := (hs.tracked o).live hzero
    have hself : s.handle o ≠ s.handle l := (hs.handle_ne hne hlive).symm
    have habove : s.wm.below (s.handle l) (s.parentOf o) = false := by
      rcases parentOf_cases s o with h | h | h
      · rw [h]
        exact Forest.below_zero hlive
      · rw [h]
        exact hs.not_below_top hhome hlive rfl
      · rw [h]
        exact hs.not_below_top henet hlive rfl
    rw [Forest.below_of_node hn, hparent, habove, Bool.or_false]
    simpa using hself

/-- A parent a slot may have is not the bar. -/
theorem slot_of_parent (hs : Wf s) {l : Slot} {n : Node Win}
    (hn : s.wm.node (s.parentOf l) = some n) : n.val.slot ≠ some .bar := by
  rcases parentOf_cases s l with h | h | h
  · exact absurd h (Forest.ne_zero hn)
  · rw [h] at hn
    rw [hs.slot_of_handle hn]
    simp
  · rw [h] at hn
    rw [hs.slot_of_handle hn]
    simp

/-- Only variables that name no window have changed. -/
theorem vars {t : State} (hs : Wf s) (hhandle : ∀ l, t.handle l = s.handle l)
    (hwm : t.wm = s.wm) (hdead : t.deletedDead = s.deletedDead) : Wf t := by
  constructor
  · intro l
    rw [hwm, hhandle, parentOf_congr hhandle]
    exact hs.tracked l
  · rw [hhandle, hhandle]
    exact hs.bar
  · rw [hwm]
    exact hs.children
  · rw [hwm]
    exact hs.hidden
  · rw [hdead]
    exact hs.dead

/-- The window of an empty slot is created. -/
theorem opened (hs : Wf s) {l : Slot} {w : Win} (hzero : s.handle l = 0)
    (hw : w.slot = some l) (hparent : s.wm.parentFor (s.parentOf l) = s.parentOf l)
    (hkeep : ∀ o, s.handle o ≠ 0 →
      (s.setHandle l s.wm.next).parentOf o = s.parentOf o)
    (hbar : l = .bar → s.hWinBgWindow ≠ 0) :
    Wf ((createWindow s (s.parentOf l) true w).setHandle l s.wm.next) := by
  have hmenu : w.callback = .barMenu → w.slot ≠ none := fun _ => by rw [hw]; simp
  have hparents : ∀ o, ((createWindow s (s.parentOf l) true w).setHandle l
      s.wm.next).parentOf o = (s.setHandle l s.wm.next).parentOf o := by
    intro o
    cases l <;> cases o <;> rfl
  constructor
  · intro o
    rw [setHandle_wm, hparents]
    rcases eq_or_ne o l with rfl | hne
    · rw [handle_setHandle_self, parentOf_setHandle_self]
      have hold := hs.tracked o
      rw [hzero] at hold
      exact hold.create_self hw hparent
    · rw [handle_setHandle_of_ne hne]
      have hother : ¬w.slot = some o := by
        rw [hw]
        simpa using hne.symm
      have hcreated := (hs.tracked o).create_other (q := s.parentOf l) (b := true) hother
      refine ⟨hcreated.only, fun hlive => ?_⟩
      rw [hkeep o hlive]
      exact hcreated.live hlive
  · intro hlive
    cases l with
    | home => exact hs.bar hlive
    | enet => exact Nat.ne_of_gt s.wm.next_pos
    | bar => exact hbar rfl
    | start => exact hs.bar hlive
    | ip => exact hs.bar hlive
    | socket => exact hs.bar hlive
    | weather => exact hs.bar hlive
    | popup => exact hs.bar hlive
  · rw [setHandle_wm]
    refine hs.children.create fun m hm => ⟨fun h => absurd h (hs.slot_of_parent hm), fun h => ?_⟩
    rw [Win.slot, h] at hw
    cases hw
  · intro k n hn hcallback hslot
    rw [setHandle_wm] at hn
    rcases Forest.node_create hn with ⟨-, rfl⟩ | hold
    · exact absurd hslot (hmenu hcallback)
    · exact hs.hidden k n hold hcallback hslot
  · rw [setHandle_deletedDead]
    exact hs.dead

/-- The window of a slot is deleted, with what is below it, and its handle is cleared. -/
theorem closed (hs : Wf s) {l : Slot} (hlive : s.handle l ≠ 0) (hhome : l ≠ .home)
    (henet : l ≠ .enet) (hbar : l ≠ .bar) :
    Wf ((deleteWindow s (s.handle l)).setHandle l 0) := by
  have hparents : ∀ o, ((deleteWindow s (s.handle l)).setHandle l 0).parentOf o =
      s.parentOf o := by
    intro o
    rw [parentOf_setHandle_of_ne hhome henet]
    cases o <;> rfl
  have hhandles : ∀ o, o ≠ l →
      ((deleteWindow s (s.handle l)).setHandle l 0).handle o = s.handle o := by
    intro o hne
    rw [handle_setHandle_of_ne hne]
    cases o <;> rfl
  constructor
  · intro o
    rw [setHandle_wm, hparents]
    rcases eq_or_ne o l with rfl | hne
    · rw [handle_setHandle_self]
      exact (hs.tracked o).delete_self
    · rw [hhandles o hne]
      exact (hs.tracked o).delete_other fun _ => hs.not_below hne.symm hlive hhome henet
  · rw [hhandles .bar hbar.symm, hhandles .enet henet.symm]
    exact hs.bar
  · rw [setHandle_wm]
    exact hs.children.delete _
  · intro k n hn
    rw [setHandle_wm] at hn
    exact hs.hidden k n (Forest.node_delete hn).1
  · obtain ⟨n, hn, -⟩ := (hs.tracked l).live hlive
    rw [setHandle_deletedDead]
    show (s.deletedDead || (s.wm.node (s.handle l)).isNone) = false
    rw [hs.dead, hn]
    rfl

/-- The window of a slot is shown or hidden. -/
theorem setShown (hs : Wf s) (l : Slot) (b : Bool) :
    Wf { s with wm := s.wm.setShown (s.handle l) b } := by
  constructor
  · exact fun o => (hs.tracked o).setShown _ b
  · exact hs.bar
  · exact hs.children.setShown _ b
  · intro k n hn hcallback hslot
    obtain ⟨m, hm, -, hval⟩ := Forest.node_setShown hn
    rw [hval] at hcallback hslot
    have hne : k ≠ s.handle l := by
      rintro rfl
      rw [hs.slot_of_handle hm] at hslot
      cases hslot
    have hn' : (if k = s.handle l then _ else s.wm.node k) = some n := hn
    rw [if_neg hne] at hn'
    obtain rfl := Option.some.inj (hm.symm.trans hn')
    exact hs.hidden k m hm hcallback hslot
  · exact hs.dead

end Wf

end EmWinDemo.Gui
