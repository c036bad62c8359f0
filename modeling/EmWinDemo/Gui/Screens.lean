/-
# EmWinDemo.Gui.Screens -- what can be seen, and what the stored handles are worth, in every run

`Nav` says in terms of the windows alone what `Inv` keeps in terms of the variables: which
background is visible, which menu is up, and that every stored handle is zero or alive.  It holds
along every run from `MainTask`, whatever messages arrive in whatever order.
-/
import EmWinDemo.Lib.Runs
import EmWinDemo.Gui.Navigation

namespace EmWinDemo.Gui

open EmWinDemo.Lib EmWinDemo.Lib.Runs

/-! ## The windows in every run -/

/-- The window `h` is alive and has the callback `c`. -/
def Alive (s : State) (c : Callback) (h : Nat) : Prop :=
  ∃ n, s.wm.node h = some n ∧ n.val.callback = c

/-- A menu pop-up.  The hidden window with the callback of a menu has no extra bytes. -/
def IsPopup (s : State) (h : Nat) (w : Win) : Prop :=
  ∃ n, s.wm.node h = some n ∧ n.val = w ∧ w.callback = .barMenu ∧ w.extraBytes ≠ 0

/-- The variable is non-zero exactly while its window is alive, and there is no other window of
the kind. -/
structure Stored (s : State) (c : Callback) (h : Nat) : Prop where
  alive : h ≠ 0 ↔ Alive s c h
  only : ∀ k, Alive s c k → k = h

/-- **What the user and the window manager can rely on.** -/
structure Nav (s : State) : Prop where
  /-- exactly one of the two backgrounds is visible -/
  screen : Xor (s.wm.visible s.hWinBackground = true) (s.wm.visible s.hWinBgWindow = true)
  home : Stored s .background s.hWinBackground
  enet : Stored s .bgwindow s.hWinBgWindow
  menu : s.flagEnetActivity = true → (s.hWinBarMenu ≠ 0 ↔ ∃ h w, IsPopup s h w)
  menuIndex : s.flagEnetActivity = true → (s.hWinBarMenu ≠ 0 ↔ s.indexBarMenu ≠ -1)
  oneMenu : ∀ h w h' w', IsPopup s h w → IsPopup s h' w' → h = h'
  index : s.flagEnetActivity = true → s.indexBarMenu ∈ ([-1, 0, 1, 2] : List Int)
  userData : ∀ h w, IsPopup s h w → w.userData = pslectAt s s.indexBarMenu
  overEnet : ∀ h w, IsPopup s h w → s.wm.visible s.hWinBgWindow = true
  startMenu : Stored s .startMenu s.hWinStartMenu
  ipText : Stored s .ipText s.hWinIPText
  socket : Stored s .socketActivity s.hWinSocket
  weather : Stored s .weatherActivity s.hWinWeather
  /-- no window has been deleted that was not alive -/
  dead : s.deletedDead = false

/-- The callback of the window in a slot. -/
def Slot.callback : Slot → Callback
  | .home => .background
  | .enet => .bgwindow
  | .bar => .barwindow
  | .start => .startMenu
  | .ip => .ipText
  | .socket => .socketActivity
  | .weather => .weatherActivity
  | .popup => .barMenu

theorem slot_eq_some_iff (w : Win) {l : Slot} (hsl : l ≠ .popup) :
    w.slot = some l ↔ w.callback = l.callback := by
  obtain ⟨c, id, extraBytes, userData⟩ := w
  cases c <;> cases l <;> simp_all [Win.slot, Slot.callback]

theorem slot_popup_iff (w : Win) :
    w.slot = some .popup ↔ w.callback = .barMenu ∧ w.extraBytes ≠ 0 := by
  obtain ⟨c, id, extraBytes, userData⟩ := w
  cases c <;> simp [Win.slot]

theorem Wf.stored {s : State} (hs : Wf s) {l : Slot} (hsl : l ≠ .popup) :
    Stored s l.callback (s.handle l) where
  alive := by
    constructor
    · intro hlive
      obtain ⟨n, hn, hslot, -⟩ := (hs.tracked l).live hlive
      exact ⟨n, hn, (slot_eq_some_iff n.val hsl).mp hslot⟩
    · rintro ⟨n, hn, -⟩
      exact Forest.ne_zero hn
  only := by
    rintro k ⟨n, hn, hcallback⟩
    exact (hs.tracked l).only k n hn ((slot_eq_some_iff n.val hsl).mpr hcallback)

theorem Wf.visible_top {s : State} (hs : Wf s) {l : Slot} (htop : s.parentOf l = 0) :
    s.wm.visible (s.handle l) = s.wm.shownAt (s.handle l) := by
  by_cases hzero : s.handle l = 0
  · rw [hzero, Forest.shownAt_zero]
    rfl
  · obtain ⟨n, hn, -, hparent⟩ := (hs.tracked l).live hzero
    rw [Forest.visible_of_node hn, hparent, htop]
    simp [Forest.shownAt, hn]

theorem Inv.popup_eq {s : State} (hs : Inv s) {h : Nat} {w : Win} (hw : IsPopup s h w) :
    h = s.hWinBarMenu := by
  obtain ⟨n, hn, rfl, hpopup⟩ := hw
  exact hs.eq_handle hn ((slot_popup_iff n.val).mpr hpopup)

/-- What the menu variables say about a pop-up. -/
theorem Inv.of_popup {s : State} (hs : Inv s) {h : Nat} {w : Win} (hw : IsPopup s h w) :
    s.wm.shownAt s.hWinBgWindow = true ∧
      ∃ i : Fin 4, i ≠ 3 ∧ s.indexBarMenu = (i : Nat) ∧ w.userData = some i := by
  have heq := hs.popup_eq hw
  obtain ⟨n, hn, rfl, -⟩ := hw
  rw [heq] at hn
  obtain ⟨hshown, i, hi, hindex, m, hm, hdata⟩ := hs.popup (Forest.ne_zero hn)
  obtain rfl := Option.some.inj (hn.symm.trans hm)
  exact ⟨hshown, i, hi, hindex, hdata⟩

theorem Inv.menu_iff {s : State} (hs : Inv s) : s.hWinBarMenu ≠ 0 ↔ ∃ h w, IsPopup s h w := by
  have htracked := (hs.wf.tracked .popup).ne_zero_iff
  dsimp only [State.handle] at htracked
  rw [htracked]
  constructor
  · rintro ⟨h, n, hn, hslot⟩
    exact ⟨h, n.val, n, hn, rfl, (slot_popup_iff n.val).mp hslot⟩
  · rintro ⟨h, w, n, hn, rfl, hpopup⟩
    exact ⟨h, n, hn, (slot_popup_iff n.val).mpr hpopup⟩

theorem Inv.menuIndex_iff {s : State} (hs : Inv s) (hflag : s.flagEnetActivity = true) :
    s.hWinBarMenu ≠ 0 ↔ s.indexBarMenu ≠ -1 := by
  constructor
  · intro hlive
    obtain ⟨-, i, -, hindex, -⟩ := hs.popup hlive
    omega
  · intro hindex hzero
    exact hindex (hs.index hflag hzero)

theorem Inv.index_mem {s : State} (hs : Inv s) (hflag : s.flagEnetActivity = true) :
    s.indexBarMenu ∈ ([-1, 0, 1, 2] : List Int) := by
  have htable : ∀ i : Fin 4, i ≠ 3 → ((i : Nat) : Int) ∈ ([-1, 0, 1, 2] : List Int) := by decide
  by_cases hmenu : s.hWinBarMenu = 0
  · rw [hs.index hflag hmenu]
    decide
  · obtain ⟨-, i, hi, hindex, -⟩ := hs.popup hmenu
    rw [hindex]
    exact htable i hi

theorem Inv.nav {s : State} (hs : Inv s) : Nav s := by
  have hhome := hs.wf.visible_top (l := .home) rfl
  have henet := hs.wf.visible_top (l := .enet) rfl
  dsimp only [State.handle] at hhome henet
  constructor
  · rw [hhome, henet, hs.screen]
    cases s.wm.shownAt s.hWinBgWindow <;> simp [Xor]
  · exact hs.wf.stored (l := .home) (by decide)
  · exact hs.wf.stored (l := .enet) (by decide)
  · exact fun _ => hs.menu_iff
  · exact hs.menuIndex_iff
  · intro h w h' w' hw hw'
    rw [hs.popup_eq hw, hs.popup_eq hw']
  · exact hs.index_mem
  · intro h w hw
    obtain ⟨hshown, i, -, hindex, hdata⟩ := hs.of_popup hw
    rw [hdata, hindex, Inv.pslectAt_eq (hs.pslect (hs.flagEnet_of_shown hshown))]
  · intro h w hw
    rw [henet]
    exact (hs.of_popup hw).1
  · exact hs.wf.stored (l := .start) (by decide)
  · exact hs.wf.stored (l := .ip) (by decide)
  · exact hs.wf.stored (l := .socket) (by decide)
  · exact hs.wf.stored (l := .weather) (by decide)
  · exact hs.wf.dead

/-- **Navigation.** From `MainTask` on, after any messages in any order, one background is
visible, the menu is what its variables say and over the Enet background, and every stored handle
is zero or alive. -/
theorem always_nav (nul : Apra) (es : List Event) : Always (step nul) Nav mainTask es :=
  (always_of_step (fun _ _ _ hs h => inv_step hs h) inv_mainTask es).mono fun _ hs => hs.nav

/-! ## Null pointers -/

/-- The window of a message can be seen. -/
def OnScreen (s : State) : Event → Prop
  | .notify src _ => s.wm.visible src = true
  | .timer hWin => s.wm.visible hWin = true
  | .paint hWin => s.wm.visible hWin = true
  | .msgButton _ => True

/-- The user data of a menu that is seen is not null. -/
theorem Inv.getApra_eq {s : State} (hs : Inv s) (nul nul' : Apra) {k : Nat} {n : Node Win}
    (hn : s.wm.node k = some n) (hvisible : s.wm.visible k = true)
    (hcallback : n.val.callback = .barMenu) : getApra nul s k = getApra nul' s k := by
  obtain ⟨-, hslot⟩ := hs.popup_of_visible hn hvisible hcallback
  obtain ⟨-, i, -, -, hdata⟩ := hs.of_popup ⟨n, hn, rfl, (slot_popup_iff n.val).mp hslot⟩
  unfold getApra
  rw [hn, Option.bind_some, hdata]

/-- Only a menu reads its user data, and only for a release. -/
theorem Inv.notifyParent_congr_nul {s : State} (hs : Inv s) (nul nul' : Apra) {src : Nat}
    {n : Node Win} (hn : s.wm.node src = some n) (hvisible : s.wm.visible src = true)
    (code : Notification) :
    Gui.notifyParent nul s n.parent n.val.id code =
      Gui.notifyParent nul' s n.parent n.val.id code := by
  unfold Gui.notifyParent
  split
  · rfl
  · rfl
  · rfl
  · next hc =>
    obtain ⟨m, hm, hcallback, hseen⟩ := visible_parent_callback hn hvisible hc
    cases code with
    | released =>
      dsimp only [Gui.cbBarMenuNotify]
      rw [hs.getApra_eq nul nul' hm hseen hcallback]
    | clicked => rfl
    | other => rfl
  · rfl

/-- **No null read.** What a message of a visible window does, does not depend on the memory at
address 0. -/
theorem step_congr_nul {s : State} (hs : Inv s) {e : Event} (he : OnScreen s e)
    (nul nul' : Apra) : step nul s e = step nul' s e := by
  cases e with
  | notify src code =>
    dsimp only [step]
    split
    · next n hn => rw [hs.notifyParent_congr_nul nul nul' hn he]
    · rfl
  | timer hWin => rfl
  | paint hWin =>
    dsimp only [step]
    split
    · next n hn =>
      split
      · next hcallback =>
        unfold cbBarMenuPaint
        rw [hs.getApra_eq nul nul' hn he hcallback]
      · rfl
    · rfl
  | msgButton clientId => rfl

end EmWinDemo.Gui
