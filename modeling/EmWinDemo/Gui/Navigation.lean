/-
# EmWinDemo.Gui.Navigation -- the invariant of the screens and the menu

One of the two backgrounds is shown, a menu is there only over the Enet background, and
`_IndexBarMenu` says which: that is `Inv`, over `Wf`.  Each callback is taken apart into the few
moves that keep it: windows without a slot appear (`Grows`), a window over the Home background
opens, closes, is shown or hidden (`Frame`), the menu opens and closes, and the screen changes.
-/
import EmWinDemo.Gui.Handles

namespace EmWinDemo.Gui

open EmWinDemo.Lib

/-! ## Navigation -/

/-- **Navigation.** Which background is shown, and what the menu variables say. -/
structure Inv (s : State) : Prop where
  wf : Wf s
  home : s.hWinBackground ≠ 0
  flagHome : s.flagHomeActivity = true
  flagEnet : s.flagEnetActivity = true ↔ s.hWinBgWindow ≠ 0
  screen : s.wm.shownAt s.hWinBackground = !s.wm.shownAt s.hWinBgWindow
  popup : s.hWinBarMenu ≠ 0 → s.wm.shownAt s.hWinBgWindow = true ∧
    ∃ i : Fin 4, i ≠ 3 ∧ s.indexBarMenu = (i : Nat) ∧
      ∃ n, s.wm.node s.hWinBarMenu = some n ∧ n.val.userData = some i
  index : s.flagEnetActivity = true → s.hWinBarMenu = 0 → s.indexBarMenu = -1
  pslect : s.flagEnetActivity = true → ∀ i, s.pslectButton i = some i

/-- The variables that `Inv` speaks about beyond the windows. -/
structure SameScreens (s t : State) : Prop where
  home : t.hWinBackground = s.hWinBackground
  enet : t.hWinBgWindow = s.hWinBgWindow
  menu : t.hWinBarMenu = s.hWinBarMenu
  index : t.indexBarMenu = s.indexBarMenu
  flagHome : t.flagHomeActivity = s.flagHomeActivity
  flagEnet : t.flagEnetActivity = s.flagEnetActivity
  pslect : t.pslectButton = s.pslectButton

theorem SameScreens.refl (s : State) : SameScreens s s := ⟨rfl, rfl, rfl, rfl, rfl, rfl, rfl⟩

theorem SameScreens.trans {s t u : State} (h : SameScreens s t) (h' : SameScreens t u) :
    SameScreens s u :=
  ⟨h'.home.trans h.home, h'.enet.trans h.enet, h'.menu.trans h.menu, h'.index.trans h.index,
    h'.flagHome.trans h.flagHome, h'.flagEnet.trans h.flagEnet, h'.pslect.trans h.pslect⟩

/-- A change beside the screens: the backgrounds are as visible as before and the menu, if there
is one, is still there. -/
structure Frame (s t : State) : Prop where
  screens : SameScreens s t
  home : t.wm.shownAt s.hWinBackground = s.wm.shownAt s.hWinBackground
  enet : t.wm.shownAt s.hWinBgWindow = s.wm.shownAt s.hWinBgWindow
  menu : ∀ n, s.wm.node s.hWinBarMenu = some n →
    ∃ m, t.wm.node s.hWinBarMenu = some m ∧ m.val = n.val

theorem Inv.frame {s t : State} (hs : Inv s) (hwf : Wf t) (h : Frame s t) : Inv t := by
  obtain ⟨⟨hhome, henet, hmenu, hindex, hflagHome, hflagEnet, hpslect⟩, hshownHome, hshownEnet,
    hnode⟩ := h
  constructor
  · exact hwf
  · rw [hhome]
    exact hs.home
  · rw [hflagHome]
    exact hs.flagHome
  · rw [hflagEnet, henet]
    exact hs.flagEnet
  · rw [hhome, henet, hshownHome, hshownEnet]
    exact hs.screen
  · intro hlive
    rw [hmenu] at hlive ⊢
    obtain ⟨hshown, i, hi, hidx, n, hn, hdata⟩ := hs.popup hlive
    obtain ⟨m, hm, hval⟩ := hnode n hn
    rw [henet, hshownEnet, hindex]
    exact ⟨hshown, i, hi, hidx, m, hm, by rw [hval, hdata]⟩
  · rw [hflagEnet, hmenu, hindex]
    exact hs.index
  · rw [hflagEnet, hpslect]
    exact hs.pslect

/-! ### Windows without a slot -/

/-- Windows without a slot have been added, and nothing else that matters has changed. -/
structure Grows (s t : State) : Prop where
  screens : SameScreens s t
  handle : ∀ l, t.handle l = s.handle l
  wf : Wf s → Wf t
  old : ∀ k n, s.wm.node k = some n → t.wm.node k = some n

namespace Grows

variable {s t u : State}

theorem refl (s : State) : Grows s s := ⟨.refl s, fun _ => rfl, id, fun _ _ h => h⟩

theorem trans (h : Grows s t) (h' : Grows t u) : Grows s u where
  screens := h.screens.trans h'.screens
  handle l := (h'.handle l).trans (h.handle l)
  wf hs := h'.wf (h.wf hs)
  old k n hn := h'.old k n (h.old k n hn)

/-- Only variables without a part in the navigation have changed. -/
theorem vars (hscreens : SameScreens s t) (hhandle : ∀ l, t.handle l = s.handle l)
    (hwm : t.wm = s.wm) (hdead : t.deletedDead = s.deletedDead) : Grows s t where
  screens := hscreens
  handle := hhandle
  wf hs := hs.vars hhandle hwm hdead
  old k n hn := by rw [hwm, hn]

/-- A window without a slot is created; a menu among them is hidden. -/
theorem create {p : Nat} {b : Bool} {w : Win} (hw : w.slot = none)
    (hfits : ∀ m, s.wm.node p = some m → Fits m.val w)
    (hhidden : w.callback = .barMenu → b = false) : Grows s (createWindow s p b w) where
  screens := ⟨rfl, rfl, rfl, rfl, rfl, rfl, rfl⟩
  handle l := by cases l <;> rfl
  wf hs := by
    have hnone : ∀ l, ¬w.slot = some l := by simp [hw]
    constructor
    · intro l
      have hcreated := (hs.tracked l).create_other (q := p) (b := b) (hnone l)
      cases l <;> exact hcreated
    · exact hs.bar
    · exact hs.children.create hfits
    · intro k n hn hcallback hslot
      rcases Forest.node_create hn with ⟨-, rfl⟩ | hold
      · exact hhidden hcallback
      · exact hs.hidden k n hold hcallback hslot
    · exact hs.dead
  old k n hn := Forest.node_create_old hn _ _ _

/-- A window under a parent other than the bar. -/
theorem create_plain {p : Nat} {w : Win} (hw : w.slot = none)
    (hp : ∀ m, s.wm.node p = some m → m.val.slot ≠ some .bar) (hmsg : w.callback ≠ .buttonMsg)
    (hmenu : w.callback ≠ .barMenu) : Grows s (createWindow s p true w) :=
  create hw (fun m hm => ⟨fun h => absurd h (hp m hm), fun h => absurd h hmsg⟩)
    (fun h => absurd h hmenu)

theorem buttons {p : Nat} {m : Node Win} (hp : s.wm.node p = some m)
    (hbar : m.val.slot ≠ some .bar) (n : Nat) (id : Int) {c : Callback}
    (hc : c = .app ∨ c = .buttonMenu) : Grows s (createButtons s p n id c) := by
  have hplain : ∀ i : Int, ({ callback := c, id := i } : Win).slot = none ∧ c ≠ .buttonMsg ∧
      c ≠ .barMenu := by
    intro i
    rcases hc with rfl | rfl <;> exact ⟨rfl, by decide, by decide⟩
  unfold createButtons
  induction List.range n generalizing s with
  | nil => exact refl s
  | cons i is ih =>
    rw [List.foldl_cons]
    obtain ⟨hslot, hmsg, hmenu⟩ := hplain (id + i)
    have hone : Grows s (createWindow s p true { callback := c, id := id + i }) := by
      refine create_plain hslot (fun m' hm' => ?_) hmsg hmenu
      obtain rfl := Option.some.inj (hp.symm.trans hm')
      exact hbar
    exact hone.trans (ih (hone.old p m hp))

theorem shownAt (h : Grows s t) {k : Nat} {n : Node Win} (hn : s.wm.node k = some n) :
    t.wm.shownAt k = s.wm.shownAt k := by
  unfold Forest.shownAt
  rw [hn, h.old k n hn]

theorem shownAt_handle (h : Grows s t) (hs : Wf s) (l : Slot) :
    t.wm.shownAt (s.handle l) = s.wm.shownAt (s.handle l) := by
  by_cases hzero : s.handle l = 0
  · rw [hzero, Forest.shownAt_zero, Forest.shownAt_zero]
  · obtain ⟨n, hn, -⟩ := (hs.tracked l).live hzero
    exact h.shownAt hn

theorem frame (h : Grows s t) (hs : Wf s) : Frame s t where
  screens := h.screens
  home := h.shownAt_handle hs .home
  enet := h.shownAt_handle hs .enet
  menu n hn := ⟨n, h.old _ n hn, rfl⟩

theorem inv (h : Grows s t) (hs : Inv s) : Inv t := hs.frame (h.wf hs.wf) (h.frame hs.wf)

end Grows

/-! ### Windows over the Home background -/

namespace Inv

variable {s : State} {l : Slot}

theorem parentOf_onHome (s : State) (hsl : l.onHome = true) : s.parentOf l = s.hWinBackground := by
  cases l <;> first | rfl | cases hsl

theorem sameScreens_setHandle {t : State} (h : SameScreens s t) (hsl : l.onHome = true) (k : Nat) :
    SameScreens s (t.setHandle l k) := by
  cases l <;> first | exact ⟨h.1, h.2, h.3, h.4, h.5, h.6, h.7⟩ | cases hsl

theorem home_live (hs : Inv s) : ∃ n, s.wm.node s.hWinBackground = some n := by
  obtain ⟨n, hn, -⟩ := (hs.wf.tracked .home).live hs.home
  exact ⟨n, hn⟩

/-- The window of an empty slot opens. -/
theorem openOnHome (hs : Inv s) (hsl : l.onHome = true) (hzero : s.handle l = 0) {w : Win}
    (hw : w.slot = some l) :
    Inv ((createWindow s s.hWinBackground true w).setHandle l s.wm.next) := by
  obtain ⟨n, hn⟩ := hs.home_live
  have hne : ∀ o, s.handle o ≠ s.wm.next := fun o => (hs.wf.tracked o).lt_next.ne
  rw [← parentOf_onHome s hsl]
  refine hs.frame (hs.wf.opened hzero hw ?_ ?_ ?_) ⟨?_, ?_, ?_, ?_⟩
  · rw [parentOf_onHome s hsl]
    exact Forest.parentFor_of_live hn
  · intro o _
    apply parentOf_setHandle_of_ne
    · rintro rfl
      cases hsl
    · rintro rfl
      cases hsl
  · rintro rfl
    cases hsl
  · refine sameScreens_setHandle (t := createWindow s _ true w) ?_ hsl _
    exact ⟨rfl, rfl, rfl, rfl, rfl, rfl, rfl⟩
  · rw [setHandle_wm]
    exact Forest.shownAt_create (hne .home) _ _ _
  · rw [setHandle_wm]
    exact Forest.shownAt_create (hne .enet) _ _ _
  · intro m hm
    rw [setHandle_wm]
    exact ⟨m, Forest.node_create_old hm _ _ _, rfl⟩

/-- The window of a slot closes. -/
theorem closeOnHome (hs : Inv s) (hsl : l.onHome = true) (hlive : s.handle l ≠ 0) :
    Inv ((deleteWindow s (s.handle l)).setHandle l 0) := by
  have hne : l ≠ .home ∧ l ≠ .enet ∧ l ≠ .bar ∧ l ≠ .popup := by
    refine ⟨?_, ?_, ?_, ?_⟩ <;> rintro rfl <;> cases hsl
  obtain ⟨hhome, henet, hbar, hpopup⟩ := hne
  refine hs.frame (hs.wf.closed hlive hhome henet hbar) ⟨?_, ?_, ?_, ?_⟩
  · refine sameScreens_setHandle (t := deleteWindow s _) ?_ hsl _
    exact ⟨rfl, rfl, rfl, rfl, rfl, rfl, rfl⟩
  · rw [setHandle_wm]
    exact Forest.shownAt_delete (hs.wf.not_below_top hhome hlive rfl)
  · rw [setHandle_wm]
    exact Forest.shownAt_delete (hs.wf.not_below_top henet hlive rfl)
  · intro n hn
    rw [setHandle_wm]
    exact ⟨n, (Forest.node_delete_of_not_below (hs.wf.not_below_top hpopup hlive rfl)).trans hn,
      rfl⟩

/-- The window of a slot is shown or hidden; with an empty slot nothing happens. -/
theorem setShownOnHome (hs : Inv s) (hsl : l.onHome = true) (b : Bool) :
    Inv { s with wm := s.wm.setShown (s.handle l) b } := by
  have hshown : ∀ o, o ≠ l → (s.wm.setShown (s.handle l) b).shownAt (s.handle o) =
      s.wm.shownAt (s.handle o) := by
    intro o hne
    by_cases hzero : s.handle o = 0
    · rw [hzero, Forest.shownAt_zero, Forest.shownAt_zero]
    · exact Forest.shownAt_setShown_of_ne (hs.wf.handle_ne hne hzero) b
  refine hs.frame (hs.wf.setShown l b) ⟨⟨rfl, rfl, rfl, rfl, rfl, rfl, rfl⟩, ?_, ?_, ?_⟩
  · apply hshown .home
    rintro rfl
    cases hsl
  · apply hshown .enet
    rintro rfl
    cases hsl
  · intro n hn
    obtain ⟨m, hm, -, hval⟩ := Forest.node_setShown_live hn (s.handle l) b
    exact ⟨m, hm, hval⟩

/-- A button appears on the window that has just been created. -/
theorem button (hs : Inv s) {p : Nat} {m : Node Win} (hp : s.wm.node p = some m)
    (hbar : m.val.slot ≠ some .bar) {w : Win} (hw : w.slot = none) (hmsg : w.callback ≠ .buttonMsg)
    (hmenu : w.callback ≠ .barMenu) : Inv (createWindow s p true w) := by
  refine (Grows.create_plain hw (fun m' hm' => ?_) hmsg hmenu).inv hs
  obtain rfl := Option.some.inj (hp.symm.trans hm')
  exact hbar

theorem createActivitySocket (hs : Inv s) : Inv (createActivitySocket s) := by
  unfold Gui.createActivitySocket
  split
  · exact hs.setShownOnHome (l := .socket) rfl true
  · next hzero =>
    have hopen := hs.openOnHome (l := .socket) rfl (not_not.mp hzero)
      (w := { callback := .socketActivity, id := ID_WINDOW_01 }) rfl
    exact hopen.button (Forest.node_create_self _ _ _ _) nofun rfl (by decide) (by decide)

theorem deleteActivitySocket (hs : Inv s) : Inv (deleteActivitySocket s) := by
  unfold Gui.deleteActivitySocket
  split
  · exact hs
  · next hlive => exact hs.closeOnHome (l := .socket) rfl hlive

theorem hideActivitySocket (hs : Inv s) : Inv (hideActivitySocket s) := by
  unfold Gui.hideActivitySocket
  split
  · exact hs
  · exact hs.setShownOnHome (l := .socket) rfl false

theorem createActivityWeather (hs : Inv s) : Inv (createActivityWeather s) := by
  unfold Gui.createActivityWeather
  split
  · exact hs.setShownOnHome (l := .weather) rfl true
  · next hzero =>
    have hopen := hs.openOnHome (l := .weather) rfl (not_not.mp hzero)
      (w := { callback := .weatherActivity, id := ID_WINDOW_01 }) rfl
    exact hopen.button (Forest.node_create_self _ _ _ _) nofun rfl (by decide) (by decide)

theorem deleteActivityWeather (hs : Inv s) : Inv (deleteActivityWeather s) := by
  unfold Gui.deleteActivityWeather
  split
  · exact hs
  · next hlive => exact hs.closeOnHome (l := .weather) rfl hlive

theorem hideActivityWeather (hs : Inv s) : Inv (hideActivityWeather s) :=
  hs.setShownOnHome (l := .weather) rfl false

theorem createWindowStartMenu (hs : Inv s) : Inv (createWindowStartMenu s) := by
  unfold Gui.createWindowStartMenu
  split
  · next hlive => exact hs.closeOnHome (l := .start) rfl hlive
  · next hzero =>
    have hopen := hs.openOnHome (l := .start) rfl (not_not.mp hzero)
      (w := { callback := .startMenu }) rfl
    refine Grows.inv (Grows.buttons (Forest.node_create_self _ _ _ _) ?_ _ _ (Or.inl rfl)) hopen
    nofun

theorem deleteWindowStartMenu (hs : Inv s) : Inv (deleteWindowStartMenu s) := by
  unfold Gui.deleteWindowStartMenu
  split
  · next hlive => exact hs.closeOnHome (l := .start) rfl hlive
  · exact hs

theorem createWindowIPText (hs : Inv s) : Inv (createWindowIPText s) := by
  unfold Gui.createWindowIPText
  split
  · next hlive => exact hs.closeOnHome (l := .ip) rfl hlive
  · next hzero =>
    exact hs.openOnHome (l := .ip) rfl (not_not.mp hzero) (w := { callback := .ipText }) rfl

/-- The client's button has the socket window as its parent, or the desktop. -/
theorem createActivitySocketMsgButton (hs : Inv s) (clientId : Int) :
    Inv (createActivitySocketMsgButton s clientId) := by
  refine (Grows.create rfl (fun m hm => ⟨fun h => ?_, fun _ => ?_⟩) (fun h => by cases h)).inv hs
  · rw [hs.wf.slot_of_handle (l := .socket) hm] at h
    cases h
  · exact hs.wf.slot_of_handle (l := .socket) hm

/-! ### The menu -/

/-- Over a hidden Enet background there is no menu. -/
theorem no_menu (hs : Inv s) (h : s.wm.shownAt s.hWinBgWindow = false) : s.hWinBarMenu = 0 := by
  by_contra hlive
  rw [(hs.popup hlive).1] at h
  cases h

theorem flagEnet_of_shown (hs : Inv s) (h : s.wm.shownAt s.hWinBgWindow = true) :
    s.flagEnetActivity = true := by
  rw [hs.flagEnet]
  intro hzero
  rw [hzero, Forest.shownAt_zero] at h
  cases h

/-- Deleting the menu leaves the screens alone. -/
theorem shownAt_deleteMenuWindow (hs : Inv s) (htop : s.parentOf l = 0) (hsl : l ≠ .popup) :
    (deleteMenuWindow s).wm.shownAt (s.handle l) = s.wm.shownAt (s.handle l) := by
  unfold deleteMenuWindow
  split
  · rfl
  · next hlive =>
    exact Forest.shownAt_delete (hs.wf.not_below_top (l := .popup) hsl.symm hlive htop)

theorem hWinBarMenu_deleteMenuWindow (s : State) : (deleteMenuWindow s).hWinBarMenu = 0 := by
  unfold deleteMenuWindow
  split
  · next hzero => exact hzero
  · rfl

theorem hWinBgWindow_deleteMenuWindow (s : State) :
    (deleteMenuWindow s).hWinBgWindow = s.hWinBgWindow := by
  unfold deleteMenuWindow
  split <;> rfl

theorem deleteMenuWindow (hs : Inv s) : Inv (deleteMenuWindow s) := by
  have hhome := hs.shownAt_deleteMenuWindow (l := .home) rfl (by decide)
  have henet := hs.shownAt_deleteMenuWindow (l := .enet) rfl (by decide)
  unfold Gui.deleteMenuWindow at hhome henet ⊢
  split
  · exact hs
  · next hlive =>
    rw [if_neg hlive] at hhome henet
    have hwf := hs.wf.closed (l := .popup) hlive (by decide) (by decide) (by decide)
    constructor
    · exact hwf.vars (fun _ => rfl) rfl rfl
    · exact hs.home
    · exact hs.flagHome
    · exact hs.flagEnet
    · exact hhome.trans (hs.screen.trans (congrArg _ henet.symm))
    · exact fun h => absurd rfl h
    · exact fun _ _ => rfl
    · exact hs.pslect

theorem shown_deleteMenuWindow (hs : Inv s) (hshown : s.wm.shownAt s.hWinBgWindow = true) :
    (Gui.deleteMenuWindow s).wm.shownAt (Gui.deleteMenuWindow s).hWinBgWindow = true := by
  rw [hWinBgWindow_deleteMenuWindow]
  exact (hs.shownAt_deleteMenuWindow (l := .enet) rfl (by decide)).trans hshown

/-- The test for a menu before its deletion is one the deletion makes itself. -/
theorem guarded_deleteMenuWindow (s : State) :
    (if s.hWinBarMenu ≠ 0 then Gui.deleteMenuWindow s else s) = Gui.deleteMenuWindow s := by
  split
  · rfl
  · next hzero =>
    unfold Gui.deleteMenuWindow
    rw [if_pos (not_not.mp hzero)]

theorem pslectAt_eq {s : State} (hp : ∀ i, s.pslectButton i = some i) (i : Fin 4) :
    pslectAt s (i : Nat) = some i := by
  have hrange : (0 : Int) ≤ (i : Nat) ∧ ((i : Nat) : Int) < 4 := by omega
  unfold pslectAt
  rw [dif_pos hrange]
  exact hp i

/-- A menu opens over the Enet background. -/
theorem openMenu (hs : Inv s) (hshown : s.wm.shownAt s.hWinBgWindow = true)
    (hzero : s.hWinBarMenu = 0) {i : Fin 4} (hi : i ≠ 3) : Inv (openMenu s (i : Nat)) := by
  have hflag := hs.flagEnet_of_shown hshown
  have hdata := pslectAt_eq (hs.pslect hflag) i
  have hhome : s.hWinBackground ≠ s.wm.next := (hs.wf.tracked .home).lt_next.ne
  have henet : s.hWinBgWindow ≠ s.wm.next := (hs.wf.tracked .enet).lt_next.ne
  unfold Gui.openMenu cbBarMenuCreate
  rw [hdata]
  have hwf := hs.wf.opened (l := .popup)
    (w := { callback := .barMenu, extraBytes := 4, userData := some i }) hzero rfl
    (Forest.parentFor_zero _) (fun o _ => parentOf_setHandle_of_ne (by decide) (by decide) o)
    nofun
  have hinv : Inv { createWindow s 0 true
      { callback := .barMenu, extraBytes := 4, userData := some i } with
      hWinBarMenu := s.wm.next, indexBarMenu := (i : Nat) } := by
    constructor
    · exact hwf.vars (fun _ => rfl) rfl rfl
    · exact hs.home
    · exact hs.flagHome
    · exact hs.flagEnet
    · dsimp only [createWindow]
      rw [Forest.shownAt_create hhome, Forest.shownAt_create henet]
      exact hs.screen
    · intro _
      refine ⟨?_, i, hi, rfl, _, Forest.node_create_self _ _ _ _, rfl⟩
      dsimp only [createWindow]
      rw [Forest.shownAt_create henet]
      exact hshown
    · exact fun _ hnone => absurd hnone (Nat.ne_of_gt s.wm.next_pos)
    · exact hs.pslect
  -- the lock only decides whether a timer is started
  split
  · exact hinv
  · exact ⟨hinv.wf.vars (fun _ => rfl) rfl rfl, hinv.2, hinv.3, hinv.4, hinv.5, hinv.6, hinv.7,
      hinv.8⟩

/-! ### Changing the screen -/

theorem enet_live (hs : Inv s) (hlive : s.hWinBgWindow ≠ 0) :
    ∃ n, s.wm.node s.hWinBgWindow = some n := by
  obtain ⟨n, hn, -⟩ := (hs.wf.tracked .enet).live hlive
  exact ⟨n, hn⟩

/-- From the Enet background, its menu gone, to the Home background. -/
theorem goHome (hs : Inv s) (hshown : s.wm.shownAt s.hWinBgWindow = true)
    (hzero : s.hWinBarMenu = 0) : Inv (createHomeActivity (hideEnetActivity s)) := by
  have hflag := hs.flagEnet_of_shown hshown
  have hbg : s.hWinBgWindow ≠ 0 := hs.flagEnet.mp hflag
  obtain ⟨m, hm⟩ := hs.enet_live hbg
  obtain ⟨n, hn⟩ := hs.home_live
  have hne : s.hWinBgWindow ≠ s.hWinBackground :=
    hs.wf.handle_ne (l := .enet) (o := .home) (by decide) hbg
  have hswap := Forest.shownAt_swap hm hn hne
  have hwf := (hs.wf.setShown .enet false).setShown .home true
  unfold createHomeActivity hideEnetActivity
  rw [if_pos hflag]
  unfold hideWindow
  dsimp only
  rw [if_pos hs.flagHome]
  constructor
  · exact hwf
  · exact hs.home
  · exact hs.flagHome
  · exact hs.flagEnet
  · dsimp only [showWindow]
    rw [hswap.1, hswap.2]
    rfl
  · exact fun hlive => absurd hzero hlive
  · exact hs.index
  · exact hs.pslect

/-- From the Home background to the Enet background, when there is one. -/
theorem goEnetAgain (hs : Inv s) (hshown : s.wm.shownAt s.hWinBackground = true)
    (hflag : s.flagEnetActivity = true) : Inv (createEnetActivity (hideHomeActivity s)) := by
  have hhidden : s.wm.shownAt s.hWinBgWindow = false := by
    have hscreen := hs.screen
    rw [hshown] at hscreen
    simpa using hscreen.symm
  have hzero := hs.no_menu hhidden
  have hbg : s.hWinBgWindow ≠ 0 := hs.flagEnet.mp hflag
  obtain ⟨m, hm⟩ := hs.enet_live hbg
  obtain ⟨n, hn⟩ := hs.home_live
  have hne : s.hWinBackground ≠ s.hWinBgWindow :=
    hs.wf.handle_ne (l := .home) (o := .enet) (by decide) hs.home
  have hswap := Forest.shownAt_swap hn hm hne
  have hwf := (hs.wf.setShown .home false).setShown .enet true
  unfold createEnetActivity hideHomeActivity
  rw [if_pos hs.flagHome]
  unfold hideWindow
  dsimp only
  rw [if_pos hflag]
  constructor
  · exact hwf.vars (fun _ => rfl) rfl rfl
  · exact hs.home
  · exact hs.flagHome
  · exact hs.flagEnet
  · dsimp only [showWindow]
    rw [hswap.1, hswap.2]
    rfl
  · exact fun hlive => absurd hzero hlive
  · exact hs.index
  · exact fun _ _ => rfl

end Inv

namespace Grows

variable {s : State}

theorem timer (s : State) (hWin : Option Nat) : Grows s { s with hTimer := hWin } :=
  vars ⟨rfl, rfl, rfl, rfl, rfl, rfl, rfl⟩ (fun l => by cases l <;> rfl) rfl rfl

theorem unlock (s : State) : Grows s { s with lockvalue := false } :=
  vars ⟨rfl, rfl, rfl, rfl, rfl, rfl, rfl⟩ (fun l => by cases l <;> rfl) rfl rfl

theorem cbBarMenuCreate (s : State) (hWin : Nat) : Grows s (cbBarMenuCreate s hWin) := by
  unfold Gui.cbBarMenuCreate
  split
  · exact refl s
  · exact timer s _

theorem createHiddenMenu (s : State) : Grows s (createHiddenMenu s) := by
  have hcreate : Grows s (createWindow s 0 false { callback := .barMenu }) := by
    refine create rfl (fun m hm => ?_) (fun _ => rfl)
    exact absurd rfl (Forest.ne_zero hm)
  exact hcreate.trans (cbBarMenuCreate _ _)

/-- A window under the window of a slot. -/
theorem create_under (hs : Wf s) (l : Slot) (hbar : l ≠ .bar) {w : Win} (hw : w.slot = none)
    (hmsg : w.callback ≠ .buttonMsg) (hmenu : w.callback ≠ .barMenu) :
    Grows s (createWindow s (s.handle l) true w) := by
  refine create_plain hw (fun m hm => ?_) hmsg hmenu
  rw [hs.slot_of_handle hm]
  simpa using hbar

theorem createTextWindow (hs : Wf s) : Grows s (createTextWindow s) := by
  have hcreate : Grows s (createWindow s s.hWinBgWindow true { callback := .textwindow }) :=
    create_under hs .enet nofun rfl nofun nofun
  exact hcreate.trans
    (vars ⟨rfl, rfl, rfl, rfl, rfl, rfl, rfl⟩ (fun l => by cases l <;> rfl) rfl rfl)

theorem createTouchButton (hs : Wf s) : Grows s (createTouchButton s) := by
  have hcreate : Grows s
      (createWindow s s.hWinBgWindow true { callback := .getButton, id := GUI_ID_USER }) :=
    create_under hs .enet nofun rfl nofun nofun
  exact hcreate.trans
    (vars ⟨rfl, rfl, rfl, rfl, rfl, rfl, rfl⟩ (fun l => by cases l <;> rfl) rfl rfl)

theorem createWindowEnetStatus (hs : Wf s) : Grows s (createWindowEnetStatus s) := by
  have hcreate : Grows s (createWindow s s.hWinBackground true
      { callback := .enetStatus, id := Home.ID_WINDOW_03 }) :=
    create_under hs .home nofun rfl nofun nofun
  exact hcreate.trans
    (vars ⟨rfl, rfl, rfl, rfl, rfl, rfl, rfl⟩ (fun l => by cases l <;> rfl) rfl rfl)

/-- The buttons of the bar, each with its own id and user data. -/
theorem createSelButtons (hp : ∀ i, s.pslectButton i = some i) : Grows s (createSelButtons s) := by
  unfold Gui.createSelButtons
  induction List.finRange 4 generalizing s with
  | nil => exact refl s
  | cons i is ih =>
    rw [List.foldl_cons]
    have hone : Grows s (createWindow s s.hWinBarWindow true
        { callback := .selButton, id := GUI_ID_BUTTON0 + (i : Nat), extraBytes := 4
          userData := s.pslectButton i }) :=
      create rfl (fun m _ => ⟨fun _ => ⟨i, rfl, hp i⟩, nofun⟩) nofun
    exact hone.trans (ih fun j => (congrFun hone.screens.pslect j).trans (hp j))

end Grows

/-! ### The first visit to the Enet background -/

/-- The windows of the Enet background, once it and its bar are there. -/
theorem Grows.enetWindows {s : State} (hs : Wf s) (hp : ∀ i, s.pslectButton i = some i) :
    Grows s (Gui.createTouchButton (Gui.createSelButtons
      (Gui.createTextWindow (Gui.createHiddenMenu s)))) := by
  have hmenu := Grows.createHiddenMenu s
  have htext := hmenu.trans (Grows.createTextWindow (hmenu.wf hs))
  have hsel := htext.trans (Grows.createSelButtons fun i =>
    (congrFun htext.screens.pslect i).trans (hp i))
  exact hsel.trans (Grows.createTouchButton (hsel.wf hs))

/-- The background and the bar are created. -/
theorem Wf.enetAndBar {s : State} (hs : Wf s) (hbg : s.hWinBgWindow = 0) :
    Wf (createBarWindow (createBgWindow s)) := by
  have hbar : s.hWinBarWindow = 0 := by
    by_contra hlive
    exact hs.bar hlive hbg
  have hbgWf : Wf (createBgWindow s) := by
    refine hs.opened (l := .enet) (w := { callback := .bgwindow }) hbg rfl
      (Forest.parentFor_zero _) (fun o hlive => ?_) nofun
    -- the bar would be the only child of the old background, and there is none
    cases o with
    | bar => exact absurd hbar hlive
    | home | enet | popup => rfl
    | start | ip | socket | weather => rfl
  refine hbgWf.opened (l := .bar) (w := { callback := .barwindow }) hbar rfl ?_
    (fun o _ => parentOf_setHandle_of_ne (by decide) (by decide) o)
    (fun _ => Nat.ne_of_gt s.wm.next_pos)
  exact Forest.parentFor_of_live (Forest.node_create_self _ _ _ _)

theorem Wf.setFlagEnet {s : State} (hs : Wf s) (b : Bool) :
    Wf { s with flagEnetActivity := b } :=
  hs.vars (fun _ => rfl) rfl rfl

/-- The first visit: the Home background is hidden already, the menu variables are set. -/
theorem Wf.firstVisit {s : State} (hs : Wf s) (hhome : s.hWinBackground ≠ 0)
    (hflagHome : s.flagHomeActivity = true)
    (hhidden : s.wm.shownAt s.hWinBackground = false) (hbg : s.hWinBgWindow = 0)
    (hmenu : s.hWinBarMenu = 0) (hindex : s.indexBarMenu = -1)
    (hp : ∀ i, s.pslectButton i = some i) :
    Inv { createTouchButton (createSelButtons (createTextWindow (createHiddenMenu
      (createBarWindow (createBgWindow s))))) with flagEnetActivity := true } := by
  have hbars := hs.enetAndBar hbg
  have hgrows := Grows.enetWindows hbars hp
  have hscreens := hgrows.screens
  have hend := (hgrows.wf hbars).setFlagEnet true
  -- what is shown: the Home background is not, the new one is from its creation on
  obtain ⟨n, hn, -⟩ := (hs.tracked .home).live hhome
  have hlt : s.hWinBackground < s.wm.next := Forest.lt_next hn
  have hold := Forest.node_create_old (Forest.node_create_old hn 0 true { callback := .bgwindow })
  have hshownHome := (hgrows.shownAt (hold _ _ _)).trans
    ((Forest.shownAt_create (Nat.lt_succ_of_lt hlt).ne _ _ _).trans
      ((Forest.shownAt_create hlt.ne _ _ _).trans hhidden))
  have hnew := Forest.node_create_old (Forest.node_create_self s.wm 0 true { callback := .bgwindow })
  have hshownEnet := (hgrows.shownAt (hnew _ _ _)).trans
    ((Forest.shownAt_create (Nat.lt_succ_self _).ne _ _ _).trans
      (Forest.shownAt_create_self _ _ _ _))
  constructor
  · exact hend
  · dsimp only
    rw [hscreens.home]
    exact hhome
  · dsimp only
    rw [hscreens.flagHome]
    exact hflagHome
  · dsimp only
    rw [hscreens.enet]
    exact iff_of_true rfl (Nat.ne_of_gt s.wm.next_pos)
  · dsimp only
    rw [hscreens.home, hscreens.enet]
    exact hshownHome.trans (congrArg not hshownEnet).symm
  · intro hlive
    dsimp only at hlive
    rw [hscreens.menu] at hlive
    exact absurd hmenu hlive
  · intro _ _
    dsimp only
    rw [hscreens.index]
    exact hindex
  · intro _
    dsimp only
    rw [hscreens.pslect]
    exact hp

namespace Inv

variable {s : State}

theorem goEnetFirst (hs : Inv s) (hflag : s.flagEnetActivity = false) :
    Inv (createEnetActivity (hideHomeActivity s)) := by
  have hbg : s.hWinBgWindow = 0 := by
    by_contra hlive
    rw [hs.flagEnet.mpr hlive] at hflag
    cases hflag
  have hmenu : s.hWinBarMenu = 0 := by
    apply hs.no_menu
    rw [hbg, Forest.shownAt_zero]
  obtain ⟨n, hn⟩ := hs.home_live
  have hwf := hs.wf.setShown .home false
  unfold createEnetActivity hideHomeActivity
  rw [if_pos hs.flagHome]
  dsimp only [hideWindow]
  rw [if_neg (by rw [hflag]; exact Bool.false_ne_true)]
  apply Wf.firstVisit
  · exact hwf.vars (fun _ => rfl) rfl rfl
  · exact hs.home
  · exact hs.flagHome
  · exact Forest.shownAt_setShown_self hn false
  · exact hbg
  · exact hmenu
  · rfl
  · exact fun _ => rfl

theorem goEnet (hs : Inv s) (hshown : s.wm.shownAt s.hWinBackground = true) :
    Inv (createEnetActivity (hideHomeActivity s)) := by
  cases hflag : s.flagEnetActivity with
  | true => exact hs.goEnetAgain hshown hflag
  | false => exact hs.goEnetFirst hflag

end Inv

/-- The Home background with its buttons. -/
theorem inv_mainTask : Inv mainTask := by
  have hopen : Wf ((createWindow boot 0 true { callback := .background }).setHandle .home 1) :=
    wf_boot.opened (l := .home) rfl rfl (Forest.parentFor_zero _)
      (fun o hlive => by cases o <;> exact absurd rfl hlive) nofun
  have hself := Forest.node_create_self boot.wm 0 true { callback := .background }
  have hbuttons := Grows.buttons
    (s := (createWindow boot 0 true { callback := .background }).setHandle .home 1)
    hself nofun 7 Home.ID_BUTTON_01 (Or.inl rfl)
  have hgrows := hbuttons.trans (Grows.createWindowEnetStatus (hbuttons.wf hopen))
  have hend := hgrows.wf hopen
  constructor
  · exact hend.vars (fun _ => rfl) rfl rfl
  · decide
  · rfl
  · exact iff_of_false (by decide) (by decide)
  · rfl
  · exact fun hlive => absurd rfl hlive
  · exact fun hflag => absurd hflag (by decide)
  · exact fun hflag => absurd hflag (by decide)

/-! ### Callbacks and messages -/

/-- The ways a message is handled: which window it finds, and what that one's callback does. -/
inductive Message (nul : Apra) (s : State) : Event → State → Prop where
  | notify {src : Nat} {code : Notification} {n : Node Win} (hn : s.wm.node src = some n)
    (hvisible : s.wm.visible src = true) :
    Message nul s (.notify src code) (notifyParent nul s n.parent n.val.id code)
  | timer {hWin : Nat} {n : Node Win} (hn : s.wm.node hWin = some n)
    (hcallback : n.val.callback = .barMenu) :
    Message nul s (.timer hWin) (cbBarMenuTimer s hWin)
  | paint {hWin : Nat} {n : Node Win} (hn : s.wm.node hWin = some n)
    (hcallback : n.val.callback = .barMenu) :
    Message nul s (.paint hWin) (cbBarMenuPaint nul s hWin)
  | timerOther {hWin : Nat} {n : Node Win} (hn : s.wm.node hWin = some n)
    (hcallback : n.val.callback ≠ .barMenu) : Message nul s (.timer hWin) s
  | paintOther {hWin : Nat} {n : Node Win} (hn : s.wm.node hWin = some n)
    (hcallback : n.val.callback ≠ .barMenu) : Message nul s (.paint hWin) s
  | msgButton {clientId : Int} :
    Message nul s (.msgButton clientId) (createActivitySocketMsgButton s clientId)

theorem message_of_step {nul : Apra} {s t : State} {e : Event} (h : step nul s e = some t) :
    Message nul s e t := by
  cases e with
  | notify src code =>
    dsimp only [step] at h
    split at h
    · next n hn =>
      split at h
      · next hvisible =>
        obtain rfl := Option.some.inj h
        exact .notify hn hvisible
      · cases h
    · cases h
  | timer hWin =>
    dsimp only [step] at h
    split at h
    · next n hn =>
      obtain rfl := Option.some.inj h
      split
      · next hcallback => exact .timer hn hcallback
      · next hcallback => exact .timerOther hn hcallback
    · cases h
  | paint hWin =>
    dsimp only [step] at h
    split at h
    · next n hn =>
      obtain rfl := Option.some.inj h
      split
      · next hcallback => exact .paint hn hcallback
      · next hcallback => exact .paintOther hn hcallback
    · cases h
  | msgButton clientId =>
    obtain rfl := Option.some.inj h
    exact .msgButton

/-- The parent of a window that is seen is seen, too. -/
theorem visible_parent_callback {s : State} {src : Nat} {n : Node Win}
    (hn : s.wm.node src = some n) (hvisible : s.wm.visible src = true) {c : Callback}
    (hc : (s.wm.node n.parent).map (fun m => m.val.callback) = some c) :
    ∃ m, s.wm.node n.parent = some m ∧ m.val.callback = c ∧ s.wm.visible n.parent = true := by
  obtain ⟨m, hm, hmc⟩ := Option.map_eq_some_iff.mp hc
  exact ⟨m, hm, hmc, Forest.visible_parent hn hvisible (Forest.ne_zero hm)⟩

namespace Inv

variable {s : State}

/-- One of the four buttons of the bar is clicked. -/
theorem selectMenu (hs : Inv s) (hshown : s.wm.shownAt s.hWinBgWindow = true) (i : Fin 4) :
    Inv (selectMenu s (i : Nat)) := by
  have hgone := hWinBarMenu_deleteMenuWindow s
  have hdeleted := hs.deleteMenuWindow
  have hstill := hs.shown_deleteMenuWindow hshown
  unfold Gui.selectMenu
  split
  · dsimp only
    rw [guarded_deleteMenuWindow]
    split
    · exact hdeleted.goHome hstill hgone
    · next hi => exact hdeleted.openMenu hstill hgone fun h3 => hi (by rw [h3]; rfl)
  · exact hs

theorem cbWindowBackground (hs : Inv s) (hshown : s.wm.shownAt s.hWinBackground = true) (id : Int)
    (code : Notification) : Inv (cbWindowBackground s id code) := by
  cases code with
  | clicked =>
    dsimp only [Gui.cbWindowBackground]
    split
    · exact hs.goEnet hshown
    split
    · exact hs.createWindowStartMenu
    split
    · exact hs.createActivitySocket
    split
    · exact hs.createActivityWeather
    split
    · exact hs.createWindowIPText
    · exact hs
  | released => exact hs
  | other => exact hs

theorem cbWindowStartMenu (hs : Inv s) (id : Int) (code : Notification) :
    Inv (cbWindowStartMenu s id code) := by
  cases code with
  | released =>
    dsimp only [Gui.cbWindowStartMenu]
    split
    · exact hs.hideActivitySocket.hideActivityWeather.deleteWindowStartMenu
    split
    · exact hs.deleteActivitySocket.deleteActivityWeather.deleteWindowStartMenu
    · exact hs
  | clicked => exact hs
  | other => exact hs

theorem cbBarWindow (hs : Inv s) (hshown : s.wm.shownAt s.hWinBgWindow = true) (i : Fin 4)
    (code : Notification) : Inv (cbBarWindow s (GUI_ID_BUTTON0 + (i : Nat)) code) := by
  cases code with
  | clicked =>
    have hunlocked := (Grows.unlock s).inv hs
    dsimp only [Gui.cbBarWindow]
    rw [show GUI_ID_BUTTON0 + ((i : Nat) : Int) - GUI_ID_BUTTON0 = (i : Nat) by omega]
    exact hunlocked.selectMenu hshown i
  | released => exact hs
  | other => exact hs

/-- Whatever the entry is: the menu is gone, and the screen is the Enet background. -/
theorem chooseEntry (hs : Inv s) (hshown : s.wm.shownAt s.hWinBgWindow = true) (apra : Apra)
    (id : Int) : Inv (chooseEntry s apra id) := by
  unfold Gui.chooseEntry
  split
  · exact hs.deleteMenuWindow.goHome (hs.shown_deleteMenuWindow hshown)
      (hWinBarMenu_deleteMenuWindow s)
  split
  · exact Grows.inv (s := s) (.vars ⟨rfl, rfl, rfl, rfl, rfl, rfl, rfl⟩
      (fun l => by cases l <;> rfl) rfl rfl) hs
  · exact hs

theorem cbBarMenuNotify (hs : Inv s) (hshown : s.wm.shownAt s.hWinBgWindow = true) (nul : Apra)
    (hWin : Nat) (id : Int) (code : Notification) :
    Inv (cbBarMenuNotify nul s hWin id code) := by
  cases code with
  | released =>
    dsimp only [Gui.cbBarMenuNotify]
    split
    · exact hs
    · exact hs.deleteMenuWindow.chooseEntry (hs.shown_deleteMenuWindow hshown) _ id
  | clicked => exact hs
  | other => exact hs

theorem cbBarMenuTimer (hs : Inv s) (hWin : Nat) : Inv (cbBarMenuTimer s hWin) := by
  have htimer := (Grows.timer s none).inv hs
  unfold Gui.cbBarMenuTimer
  split
  · exact hs
  dsimp only
  split
  · exact htimer
  · exact htimer.deleteMenuWindow

theorem cbBarMenuPaint (hs : Inv s) (nul : Apra) {hWin : Nat} {n : Node Win}
    (hn : s.wm.node hWin = some n) (hcallback : n.val.callback = .barMenu) :
    Inv (cbBarMenuPaint nul s hWin) := by
  unfold Gui.cbBarMenuPaint
  split
  · exact hs
  · refine Grows.inv (Grows.buttons hn ?_ _ _ (Or.inr rfl)) hs
    rw [Win.slot, hcallback]
    dsimp only
    split <;> simp

/-- A visible window with a slot has its handle stored. -/
theorem eq_handle (hs : Inv s) {k : Nat} {n : Node Win} (hn : s.wm.node k = some n) {l : Slot}
    (hslot : n.val.slot = some l) : k = s.handle l := (hs.wf.tracked l).only k n hn hslot

/-- The bar is seen only with its background. -/
theorem shown_of_bar (hs : Inv s) {n : Node Win} (hn : s.wm.node s.hWinBarWindow = some n)
    (hvisible : s.wm.visible s.hWinBarWindow = true) : s.wm.shownAt s.hWinBgWindow = true := by
  obtain ⟨m, hm, -, hparent⟩ := (hs.wf.tracked .bar).live (Forest.ne_zero hn)
  have hbg : m.parent ≠ 0 := by
    rw [hparent]
    exact hs.wf.bar (Forest.ne_zero hn)
  have hbgVisible := Forest.visible_parent hm hvisible hbg
  rw [hparent] at hbgVisible
  exact Forest.shownAt_of_visible hbgVisible

/-- A menu that is seen is the pop-up. -/
theorem popup_of_visible (hs : Inv s) {k : Nat} {n : Node Win} (hn : s.wm.node k = some n)
    (hvisible : s.wm.visible k = true) (hcallback : n.val.callback = .barMenu) :
    k = s.hWinBarMenu ∧ n.val.slot = some .popup := by
  have hslot : n.val.slot = none ∨ n.val.slot = some .popup := by
    rw [Win.slot, hcallback]
    dsimp only
    split
    · exact Or.inl rfl
    · exact Or.inr rfl
  rcases hslot with hnone | hpopup
  · have hhidden := hs.wf.hidden k n hn hcallback hnone
    rw [Forest.visible_of_node hn, hhidden] at hvisible
    cases hvisible
  · exact ⟨hs.eq_handle hn hpopup, hpopup⟩

/-- A notification of a visible window. -/
theorem notifyParent (hs : Inv s) (nul : Apra) {src : Nat} {n : Node Win}
    (hn : s.wm.node src = some n) (hvisible : s.wm.visible src = true) (code : Notification) :
    Inv (notifyParent nul s n.parent n.val.id code) := by
  unfold Gui.notifyParent
  split
  · next hc =>
    obtain ⟨m, hm, hmc, hseen⟩ := visible_parent_callback hn hvisible hc
    have heq := hs.eq_handle hm (l := .home) (by rw [Win.slot, hmc])
    rw [heq] at hseen
    exact hs.cbWindowBackground (Forest.shownAt_of_visible hseen) _ _
  · exact hs.cbWindowStartMenu _ _
  · next hc =>
    obtain ⟨m, hm, hmc, hseen⟩ := visible_parent_callback hn hvisible hc
    have hslot : m.val.slot = some .bar := by rw [Win.slot, hmc]
    have heq := hs.eq_handle hm hslot
    obtain ⟨i, hid, -⟩ := (hs.wf.children src n m hn hm).bar hslot
    rw [heq] at hseen hm
    rw [hid]
    exact hs.cbBarWindow (hs.shown_of_bar hm hseen) i code
  · next hc =>
    obtain ⟨m, hm, hmc, hseen⟩ := visible_parent_callback hn hvisible hc
    obtain ⟨heq, -⟩ := hs.popup_of_visible hm hseen hmc
    rw [heq] at hm
    exact hs.cbBarMenuNotify (hs.popup (Forest.ne_zero hm)).1 nul _ _ code
  · exact hs

end Inv

/-- **Every message keeps the invariant.** -/
theorem inv_step {nul : Apra} {s t : State} {e : Event} (hs : Inv s) (h : step nul s e = some t) :
    Inv t := by
  cases message_of_step h with
  | notify hn hvisible => exact hs.notifyParent nul hn hvisible _
  | timer _ _ => exact hs.cbBarMenuTimer _
  | paint hn hcallback => exact hs.cbBarMenuPaint nul hn hcallback
  | timerOther _ _ => exact hs
  | paintOther _ _ => exact hs
  | msgButton => exact hs.createActivitySocketMsgButton _

end EmWinDemo.Gui
