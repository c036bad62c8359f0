/-
# EmWinDemo.Gui.MenuButtons -- the buttons of a menu pop-up, and how often it has been painted

`_ApendMenuWindow` runs on `WM_PAINT` and creates the buttons of the menu, so a paint adds a whole
set of them.  While the pop-up lives no other message touches its children: `Up.step_cases` says
so.  The law that the menu has one button for each entry therefore holds exactly after the first
paint, whatever else happens in between.
-/
import EmWinDemo.Gui.Screens

namespace EmWinDemo.Gui

open EmWinDemo.Lib EmWinDemo.Lib.Runs

/-! ## Several buttons at once -/

section CreateButtons

variable (s : State) (p n : Nat) (id : Int) (c : Callback)

theorem createButtons_succ : createButtons s p (n + 1) id c =
    createWindow (createButtons s p n id c) p true { callback := c, id := id + n } := by
  unfold createButtons
  rw [List.range_succ, List.foldl_append]
  rfl

theorem next_createButtons : (createButtons s p n id c).wm.next = s.wm.next + n := by
  induction n with
  | zero => rfl
  | succ n ih =>
    rw [createButtons_succ]
    show (createButtons s p n id c).wm.next + 1 = s.wm.next + (n + 1)
    rw [ih, Nat.add_assoc]

/-- Only the windows change. -/
theorem createButtons_eq :
    createButtons s p n id c = { s with wm := (createButtons s p n id c).wm } := by
  induction n with
  | zero => rfl
  | succ n ih =>
    rw [createButtons_succ, ih]
    rfl

theorem lockvalue_createButtons : (createButtons s p n id c).lockvalue = s.lockvalue := by
  rw [createButtons_eq]

theorem hWinBarMenu_createButtons : (createButtons s p n id c).hWinBarMenu = s.hWinBarMenu := by
  rw [createButtons_eq]

/-- The new windows have consecutive handles, and the others are what they were. -/
theorem node_createButtons {s : State} {p : Nat} {m : Node Win} (hp : s.wm.node p = some m)
    (n : Nat) (id : Int) (c : Callback) (k : Nat) :
    (createButtons s p n id c).wm.node k =
      if s.wm.next ≤ k ∧ k < s.wm.next + n then
        some ⟨p, true, { callback := c, id := id + (k - s.wm.next : Nat) }⟩
      else s.wm.node k := by
  induction n generalizing k with
  | zero =>
    rw [if_neg (by omega)]
    rfl
  | succ n ih =>
    have hlt : p < s.wm.next := Forest.lt_next hp
    -- the parent is older than all the buttons
    have hparent : (createButtons s p n id c).wm.node p = some m := by
      rw [ih p, if_neg (by omega), hp]
    rw [createButtons_succ]
    show (if k = (createButtons s p n id c).wm.next then
      some ⟨(createButtons s p n id c).wm.parentFor p, true, { callback := c, id := id + n }⟩
      else (createButtons s p n id c).wm.node k) = _
    rw [next_createButtons, Forest.parentFor_of_live hparent, ih k]
    by_cases hlast : k = s.wm.next + n
    · subst hlast
      rw [if_pos rfl, if_pos (by omega), Nat.add_sub_cancel_left]
    · rw [if_neg hlast]
      refine if_congr ?_ rfl rfl
      omega

end CreateButtons

/-! ## The children of a window -/

/-- The window `k` is a child of `h`. -/
def Kid (s : State) (h k : Nat) (w : Win) : Prop :=
  ∃ n, s.wm.node k = some n ∧ n.parent = h ∧ n.val = w

/-- The button of the entry `i` of a menu. -/
def button (i : Nat) : Win := { callback := .buttonMenu, id := Enet.ID_BUTTON_0 + i }

theorem button_inj {i i' : Nat} (h : button i = button i') : i = i' := by
  have hid : (button i).id = (button i').id := congrArg Win.id h
  show i = i'
  dsimp only [button] at hid
  omega

/-- The number of entries of the menu `j`. -/
def entries (j : Fin 4) : Nat := (slectButton j).menunum.toNat

theorem entries_pos (j : Fin 4) : 0 < entries j := by
  revert j
  decide

/-- The window `h` and its children are the same. -/
structure SameMenu (s t : State) (h : Nat) : Prop where
  lock : t.lockvalue = s.lockvalue
  handle : t.hWinBarMenu = s.hWinBarMenu
  node : t.wm.node h = s.wm.node h
  kids : ∀ k w, Kid t h k w ↔ Kid s h k w

namespace SameMenu

variable {s t : State} {h : Nat}

theorem vars (hlock : t.lockvalue = s.lockvalue) (hhandle : t.hWinBarMenu = s.hWinBarMenu)
    (hwm : t.wm = s.wm) : SameMenu s t h := by
  refine ⟨hlock, hhandle, by rw [hwm], fun k w => ?_⟩
  unfold Kid
  rw [hwm]

theorem refl (s : State) (h : Nat) : SameMenu s s h := vars rfl rfl rfl

/-- A window is created elsewhere. -/
theorem create {p : Nat} {b : Bool} {w : Win} {n : Node Win} (hn : s.wm.node h = some n)
    (hp : p ≠ h) : SameMenu s (createWindow s p b w) h := by
  have hparent : s.wm.parentFor p ≠ h := by
    unfold Forest.parentFor
    split
    · exact hp
    · exact (Forest.ne_zero hn).symm
  refine ⟨rfl, rfl, (Forest.node_create_old hn p b w).trans hn.symm, fun k v => ?_⟩
  constructor
  · rintro ⟨x, hx, hxp, hval⟩
    rcases Forest.node_create hx with ⟨-, rfl⟩ | hold
    · exact absurd hxp hparent
    · exact ⟨x, hold, hxp, hval⟩
  · rintro ⟨x, hx, hrest⟩
    exact ⟨x, Forest.node_create_old hx p b w, hrest⟩

/-- Another menu gets its buttons. -/
theorem createButtons {p : Nat} {n : Node Win} (hn : s.wm.node h = some n) (hp : p ≠ h)
    (k : Nat) (id : Int) (c : Callback) : SameMenu s (createButtons s p k id c) h := by
  induction k with
  | zero => exact refl s h
  | succ k ih =>
    rw [createButtons_succ]
    have hone : SameMenu (Gui.createButtons s p k id c)
        (createWindow (Gui.createButtons s p k id c) p true { callback := c, id := id + k }) h :=
      create (ih.node.trans hn) hp
    exact ⟨hone.lock.trans ih.lock, hone.handle.trans ih.handle, hone.node.trans ih.node,
      fun x w => (hone.kids x w).trans (ih.kids x w)⟩

end SameMenu

/-! ## The click on the bar -/

theorem hWinBarMenu_goHome (s : State) :
    (createHomeActivity (hideEnetActivity s)).hWinBarMenu = s.hWinBarMenu := by
  have hhide : (hideEnetActivity s).hWinBarMenu = s.hWinBarMenu := by
    unfold hideEnetActivity
    split <;> rfl
  unfold createHomeActivity
  split
  · exact hhide
  · show (createWindowSmartPhone (hideEnetActivity s)).hWinBarMenu = s.hWinBarMenu
    unfold createWindowSmartPhone
    rw [hWinBarMenu_createButtons]
    exact hhide

theorem next_deleteMenuWindow (s : State) : (deleteMenuWindow s).wm.next = s.wm.next := by
  unfold deleteMenuWindow
  split <;> rfl

theorem lockvalue_deleteMenuWindow (s : State) :
    (deleteMenuWindow s).lockvalue = s.lockvalue := by
  unfold deleteMenuWindow
  split <;> rfl

/-- Nothing happens, the menu goes, or a new one opens in its place. -/
theorem selectMenu_cases (s : State) (index : Int) :
    selectMenu s index = s ∨ (selectMenu s index).hWinBarMenu = 0 ∨
      selectMenu s index = openMenu (deleteMenuWindow s) index := by
  unfold selectMenu
  split
  · dsimp only
    rw [Inv.guarded_deleteMenuWindow]
    split
    · right
      left
      rw [hWinBarMenu_goHome]
      exact Inv.hWinBarMenu_deleteMenuWindow s
    · exact Or.inr (Or.inr rfl)
  · exact Or.inl rfl

/-- A new menu has a new handle. -/
theorem hWinBarMenu_openMenu (s : State) (index : Int) :
    (openMenu (deleteMenuWindow s) index).hWinBarMenu = s.wm.next :=
  next_deleteMenuWindow s

theorem next_openMenu (s : State) (index : Int) :
    (openMenu s index).wm.next = s.wm.next + 1 := by
  unfold openMenu cbBarMenuCreate
  split <;> rfl

theorem lockvalue_openMenu (s : State) (index : Int) :
    (openMenu s index).lockvalue = s.lockvalue := by
  unfold openMenu cbBarMenuCreate
  split <;> rfl

theorem hWinBarMenu_chooseEntry {s : State} (hzero : s.hWinBarMenu = 0) (apra : Apra) (id : Int) :
    (chooseEntry s apra id).hWinBarMenu = 0 := by
  unfold chooseEntry
  split
  · rw [hWinBarMenu_goHome]
    exact Inv.hWinBarMenu_deleteMenuWindow s
  split
  · exact hzero
  · exact hzero

/-! ## While the pop-up lives -/

/-- The pop-up `h` of the menu `j` is there, and the menus are unlocked. -/
structure Up (s : State) (h : Nat) (j : Fin 4) : Prop where
  inv : Inv s
  lock : s.lockvalue = false
  handle : s.hWinBarMenu = h
  node : ∃ n, s.wm.node h = some n ∧ n.val.callback = .barMenu ∧ n.val.userData = some j

namespace Up

variable {s t : State} {h : Nat} {j : Fin 4}

theorem ne_zero (hs : Up s h j) : h ≠ 0 := by
  obtain ⟨n, hn, -⟩ := hs.node
  exact Forest.ne_zero hn

/-- The Home background is hidden, and what is on it. -/
theorem home_hidden (hs : Up s h j) : s.wm.visible s.hWinBackground = false := by
  have hlive : s.hWinBarMenu ≠ 0 := by
    rw [hs.handle]
    exact hs.ne_zero
  have htop := hs.inv.wf.visible_top (l := .home) rfl
  dsimp only [State.handle] at htop
  rw [htop, hs.inv.screen, (hs.inv.popup hlive).1]
  rfl

/-- The bar is clicked, and the pop-up is still there. -/
theorem selectMenu (hs : Up s h j) (index : Int)
    (hstill : (Gui.selectMenu { s with lockvalue := false } index).hWinBarMenu = h) :
    SameMenu s (Gui.selectMenu { s with lockvalue := false } index) h := by
  rcases selectMenu_cases { s with lockvalue := false } index with hsame | hgone | hnew
  · rw [hsame]
    exact .vars hs.lock.symm rfl rfl
  · rw [hgone] at hstill
    exact absurd hstill.symm hs.ne_zero
  · obtain ⟨n, hn, -⟩ := hs.node
    rw [hnew, hWinBarMenu_openMenu] at hstill
    -- the handle of a new menu is not one that is alive
    exact absurd hstill.symm (Forest.lt_next hn).ne

/-- A window notifies its parent. -/
theorem notify (hs : Up s h j) (nul : Apra) {src : Nat} {n : Node Win}
    (hn : s.wm.node src = some n) (hvisible : s.wm.visible src = true) (code : Notification)
    (hstill : (notifyParent nul s n.parent n.val.id code).hWinBarMenu = h) :
    SameMenu s (notifyParent nul s n.parent n.val.id code) h := by
  unfold notifyParent at hstill ⊢
  split at hstill
  · next hc =>
    obtain ⟨m, hm, hmc, hseen⟩ := visible_parent_callback hn hvisible hc
    rw [hs.inv.eq_handle hm (l := .home) (by rw [Win.slot, hmc])] at hseen
    exact absurd (hseen.symm.trans hs.home_hidden) (by decide)
  · next hc =>
    -- the start menu is seen only with the Home background
    obtain ⟨m, hm, hmc, hseen⟩ := visible_parent_callback hn hvisible hc
    have hslot : m.val.slot = some .start := by rw [Win.slot, hmc]
    have heq := hs.inv.eq_handle hm hslot
    rw [heq] at hm
    obtain ⟨m', hm', -, hp⟩ := (hs.inv.wf.tracked .start).live (Forest.ne_zero hm)
    rw [heq] at hseen
    have hbg := Forest.visible_parent hm' hseen (by rw [hp]; exact hs.inv.home)
    rw [hp] at hbg
    exact absurd (hbg.symm.trans hs.home_hidden) (by decide)
  · cases code with
    | clicked => exact hs.selectMenu _ hstill
    | released => exact .refl s h
    | other => exact .refl s h
  · cases code with
    | released =>
      dsimp only [cbBarMenuNotify] at hstill
      rw [hs.lock, if_neg (by decide), hWinBarMenu_chooseEntry
        (Inv.hWinBarMenu_deleteMenuWindow s)] at hstill
      exact absurd hstill.symm hs.ne_zero
    | clicked => exact .refl s h
    | other => exact .refl s h
  · exact .refl s h

theorem timer (hs : Up s h j) (k : Nat) (hstill : (cbBarMenuTimer s k).hWinBarMenu = h) :
    SameMenu s (cbBarMenuTimer s k) h := by
  revert hstill
  unfold cbBarMenuTimer
  split
  · exact fun _ => .refl s h
  dsimp only
  split
  · exact fun _ => .vars rfl rfl rfl
  · intro hstill
    rw [Inv.hWinBarMenu_deleteMenuWindow] at hstill
    exact absurd hstill.symm hs.ne_zero

/-- A client's button is created in the socket window or on the desktop. -/
theorem msgButton (hs : Up s h j) (clientId : Int) :
    SameMenu s (createActivitySocketMsgButton s clientId) h := by
  obtain ⟨n, hn, -⟩ := hs.node
  refine .create hn fun heq => ?_
  have hlive : s.handle .popup ≠ 0 := by
    show s.hWinBarMenu ≠ 0
    rw [hs.handle]
    exact hs.ne_zero
  exact hs.inv.wf.handle_ne (l := .popup) (o := .socket) (by decide) hlive
    (hs.handle.trans heq.symm)

/-- The paint of the pop-up itself. -/
theorem paint_self (hs : Up s h j) (nul : Apra) :
    cbBarMenuPaint nul s h = createButtons s h (entries j) Enet.ID_BUTTON_0 .buttonMenu := by
  obtain ⟨n, hn, -, hdata⟩ := hs.node
  unfold cbBarMenuPaint appendMenuWindow getApra
  rw [hs.lock, hn, Option.bind_some, hdata]
  rfl

theorem paint_other (hs : Up s h j) (nul : Apra) {k : Nat} (hk : k ≠ h) :
    SameMenu s (cbBarMenuPaint nul s k) h := by
  obtain ⟨n, hn, -⟩ := hs.node
  unfold cbBarMenuPaint
  split
  · exact .refl s h
  · exact .createButtons hn hk _ _ _

/-- **What a message does to a pop-up that outlives it.** -/
theorem step_cases (hs : Up s h j) {nul : Apra} {e : Event} (hstep : step nul s e = some t)
    (hstill : t.hWinBarMenu = h) :
    (e = .paint h ∧ t = createButtons s h (entries j) Enet.ID_BUTTON_0 .buttonMenu) ∨
      (e ≠ .paint h ∧ SameMenu s t h) := by
  cases message_of_step hstep with
  | notify hn hvisible => exact Or.inr ⟨nofun, hs.notify nul hn hvisible _ hstill⟩
  | timer _ _ => exact Or.inr ⟨nofun, hs.timer _ hstill⟩
  | @paint k _ hn hcallback =>
    by_cases hk : k = h
    · subst hk
      exact Or.inl ⟨rfl, hs.paint_self nul⟩
    · exact Or.inr ⟨fun heq => hk (Event.paint.inj heq), hs.paint_other nul hk⟩
  | timerOther _ _ => exact Or.inr ⟨nofun, .refl s h⟩
  | @paintOther k m hm hcallback =>
    right
    refine ⟨fun heq => ?_, .refl s h⟩
    -- the window is not a menu, so it is not the pop-up
    obtain rfl := Event.paint.inj heq
    obtain ⟨n, hn, hmenu, -⟩ := hs.node
    obtain rfl := Option.some.inj (hm.symm.trans hn)
    exact hcallback hmenu
  | msgButton => exact Or.inr ⟨nofun, hs.msgButton _⟩

/-- The pop-up that is still there is the one it was. -/
theorem step (hs : Up s h j) {nul : Apra} {e : Event} (hstep : step nul s e = some t)
    (hstill : t.hWinBarMenu = h) : Up t h j := by
  obtain ⟨n, hn, hrest⟩ := hs.node
  have hinv := inv_step hs.inv hstep
  rcases hs.step_cases hstep hstill with ⟨-, rfl⟩ | ⟨-, hsame⟩
  · refine ⟨hinv, (lockvalue_createButtons s _ _ _ _).trans hs.lock, hstill, n, ?_, hrest⟩
    have hlt := Forest.lt_next hn
    rw [node_createButtons hn, if_neg (by omega), hn]
  · exact ⟨hinv, hsame.lock.trans hs.lock, hstill, n, hsame.node.trans hn, hrest⟩

end Up

/-! ## How often it has been painted -/

/-- After `p` paints the children are `p` sets of `m` buttons, each with consecutive handles. -/
def Painted (s : State) (h m p : Nat) : Prop :=
  ∃ starts : List Nat, starts.length = p ∧ starts.Nodup ∧
    ∀ k w, Kid s h k w ↔ ∃ b ∈ starts, ∃ i < m, k = b + i ∧ w = button i

namespace Painted

variable {s t : State} {h m p : Nat}

theorem sameMenu (hp : Painted s h m p) (hsame : SameMenu s t h) : Painted t h m p := by
  obtain ⟨starts, hlen, hnodup, hkids⟩ := hp
  exact ⟨starts, hlen, hnodup, fun k w => (hsame.kids k w).trans (hkids k w)⟩

/-- One more paint, one more set. -/
theorem paint (hp : Painted s h m p) (hm : 0 < m) {n : Node Win} (hn : s.wm.node h = some n) :
    Painted (createButtons s h m Enet.ID_BUTTON_0 .buttonMenu) h m (p + 1) := by
  obtain ⟨starts, hlen, hnodup, hkids⟩ := hp
  refine ⟨s.wm.next :: starts, ?_, ?_, ?_⟩
  · rw [List.length_cons, hlen]
  · apply List.nodup_cons.mpr
    refine ⟨fun hmem => ?_, hnodup⟩
    -- an old set starts with a window that is alive
    obtain ⟨x, hx, -⟩ := (hkids s.wm.next (button 0)).mpr ⟨_, hmem, 0, hm, rfl, rfl⟩
    exact absurd (Forest.lt_next hx) (lt_irrefl _)
  · intro k w
    rw [List.exists_mem_cons_iff, ← hkids]
    unfold Kid
    rw [node_createButtons hn]
    constructor
    · rintro ⟨x, hx, hparent, rfl⟩
      split at hx
      · next hk =>
        obtain rfl := Option.some.inj hx
        exact Or.inl ⟨k - s.wm.next, by omega, by omega, rfl⟩
      · exact Or.inr ⟨x, hx, hparent, rfl⟩
    · rintro (⟨i, hi, rfl, rfl⟩ | ⟨x, hx, hrest⟩)
      · rw [if_pos (by omega), Nat.add_sub_cancel_left]
        exact ⟨_, rfl, rfl, rfl⟩
      · have hlt := Forest.lt_next hx
        rw [if_neg (by omega)]
        exact ⟨x, hx, hrest⟩

/-- Every message but the paint of the pop-up keeps the sets. -/
theorem run {j : Fin 4} {nul : Apra} {es : List Event} (hs : Up s h j)
    (hp : Painted s h (entries j) p)
    (hlives : Always (step nul) (fun u => ∃ w, IsPopup u h w) s es)
    (hrun : exec (step nul) s es = some t) :
    Painted t h (entries j) (p + es.count (.paint h)) := by
  induction es generalizing s p with
  | nil =>
    obtain rfl : s = t := by simpa using hrun
    exact hp
  | cons e es ih =>
    obtain ⟨u, hu, hrest⟩ := Option.bind_eq_some_iff.mp hrun
    have halive := hlives.2 u hu
    have hstill : u.hWinBarMenu = h := by
      obtain ⟨w, hw⟩ := halive.head
      exact ((inv_step hs.inv hu).popup_eq hw).symm
    have hup := hs.step hu hstill
    rcases hs.step_cases hu hstill with ⟨rfl, rfl⟩ | ⟨hne, hsame⟩
    · obtain ⟨n, hn, -⟩ := hs.node
      have hmore := ih hup (hp.paint (entries_pos j) hn) halive hrest
      rw [List.count_cons_self]
      rwa [Nat.add_assoc, Nat.add_comm 1] at hmore
    · rw [List.count_cons_of_ne hne]
      exact ih hup (hp.sameMenu hsame) halive hrest

end Painted

/-! ## One button for each entry -/

/-- The click on the button `j` of the bar opens the pop-up `h`. -/
structure Opens (nul : Apra) (s t : State) (src h : Nat) (j : Fin 4) : Prop where
  clicked : step nul s (.notify src .clicked) = some t
  button : ∃ n, s.wm.node src = some n ∧ Alive s .barwindow n.parent ∧
    n.val.id = GUI_ID_BUTTON0 + (j : Nat)
  fresh : s.wm.node h = none
  popup : ∃ w, IsPopup t h w

namespace Opens

variable {nul : Apra} {s t : State} {src h : Nat} {j : Fin 4}

/-- The state after the click is the one that `_cbbarwidnow` leaves. -/
theorem eq_openMenu (ho : Opens nul s t src h j) (hs : Inv s) :
    t = openMenu (deleteMenuWindow { s with lockvalue := false }) (j : Nat) := by
  obtain ⟨hclicked, ⟨n, hn, ⟨m, hm, hcallback⟩, hid⟩, hfresh, w, hw⟩ := ho
  have hinv := inv_step hs hclicked
  have heq := hinv.popup_eq hw
  obtain ⟨x, hx, -⟩ := hw
  have ht : t = selectMenu { s with lockvalue := false } (j : Nat) := by
    cases message_of_step hclicked with
    | notify hn' _ =>
      obtain rfl := Option.some.inj (hn.symm.trans hn')
      unfold notifyParent
      rw [hm, Option.map_some, hcallback]
      show selectMenu { s with lockvalue := false } (n.val.id - GUI_ID_BUTTON0) = _
      rw [hid, show GUI_ID_BUTTON0 + ((j : Nat) : Int) - GUI_ID_BUTTON0 = (j : Nat) by omega]
  rcases selectMenu_cases { s with lockvalue := false } (j : Nat) with hsame | hgone | hnew
  · -- without a new window there is no new pop-up
    rw [ht, hsame] at hx
    exact absurd (hx.symm.trans hfresh) (by simp)
  · rw [ht, hgone] at heq
    exact absurd heq (Forest.ne_zero hx)
  · exact ht.trans hnew

theorem up (ho : Opens nul s t src h j) (hs : Inv s) : Up t h j := by
  have ht := ho.eq_openMenu hs
  obtain ⟨w, hw⟩ := ho.popup
  have hinv := inv_step hs ho.clicked
  have heq := hinv.popup_eq hw
  obtain ⟨-, i, -, hindex, hdata⟩ := hinv.of_popup hw
  have hi : i = j := by
    rw [ht] at hindex
    change ((j : Nat) : Int) = (i : Nat) at hindex
    omega
  obtain ⟨n, hn, rfl, hcallback, -⟩ := hw
  refine ⟨hinv, ?_, heq.symm, n, hn, hcallback, by rw [hdata, hi]⟩
  rw [ht, lockvalue_openMenu, lockvalue_deleteMenuWindow]

/-- A new window has no children: it is the youngest, and a child is younger. -/
theorem painted (ho : Opens nul s t src h j) (hs : Inv s) (m : Nat) : Painted t h m 0 := by
  have hnext : t.wm.next = h + 1 := by
    rw [← (ho.up hs).handle, ho.eq_openMenu hs, next_openMenu]
    rfl
  refine ⟨[], rfl, List.nodup_nil, fun k w => ?_⟩
  constructor
  · rintro ⟨n, hn, hparent, -⟩
    have holder := t.wm.parent_lt k n hn
    have hyoungest := Forest.lt_next hn
    omega
  · rintro ⟨b, hb, -⟩
    exact absurd hb List.not_mem_nil

end Opens

/-- **The menu has one button for each entry**, and no other child. -/
structure OnePerEntry (s : State) (h : Nat) (j : Fin 4) : Prop where
  entry : ∀ i < entries j, ∃! k, Kid s h k (button i)
  only : ∀ k w, Kid s h k w → ∃ i < entries j, w = button i

theorem Painted.one_iff {s : State} {h p : Nat} {j : Fin 4}
    (hp : Painted s h (entries j) p) : OnePerEntry s h j ↔ p = 1 := by
  obtain ⟨starts, rfl, hnodup, hkids⟩ := hp
  constructor
  · intro hone
    -- each set of buttons has one for the first entry
    obtain ⟨k, hk, honly⟩ := hone.entry 0 (entries_pos j)
    have hstart : ∀ b ∈ starts, b = k := fun b hb =>
      honly b ((hkids b (button 0)).mpr ⟨b, hb, 0, entries_pos j, rfl, rfl⟩)
    obtain ⟨b, hb, -⟩ := (hkids k (button 0)).mp hk
    have hpos := List.length_pos_of_mem hb
    rw [List.eq_replicate_of_mem hstart, List.nodup_replicate] at hnodup
    omega
  · intro hlen
    obtain ⟨b, rfl⟩ := List.length_eq_one_iff.mp hlen
    constructor
    · intro i hi
      refine ⟨b + i, (hkids _ _).mpr ⟨b, List.mem_singleton_self b, i, hi, rfl, rfl⟩, ?_⟩
      intro k hk
      obtain ⟨b', hb', i', -, rfl, hw⟩ := (hkids _ _).mp hk
      rw [List.mem_singleton.mp hb', button_inj hw]
    · intro k w hk
      obtain ⟨-, -, i, hi, -, hw⟩ := (hkids k w).mp hk
      exact ⟨i, hi, hw⟩

/-- **One button for each entry exactly after one paint.** A menu that has been opened in any run
of the program, and is still there after any further messages, has one button for each entry if
and only if exactly one of these messages was a paint of it. -/
theorem onePerEntry_iff {nul : Apra} {s t u : State} {src h : Nat} {j : Fin 4}
    {before after : List Event} (hreach : exec (step nul) mainTask before = some s)
    (hopens : Opens nul s t src h j)
    (hlives : Always (step nul) (fun u => ∃ w, IsPopup u h w) t after)
    (hrun : exec (step nul) t after = some u) :
    OnePerEntry u h j ↔ after.count (.paint h) = 1 := by
  have hs : Inv s :=
    (always_of_step (fun _ _ _ hs h => inv_step hs h) inv_mainTask before).last hreach
  have hpainted := (hopens.painted hs (entries j)).run (hopens.up hs) hlives hrun
  rw [Nat.zero_add] at hpainted
  exact hpainted.one_iff

/-- The Enet screen, on the first visit. -/
def enetScreen : State := createEnetActivity (hideHomeActivity mainTask)

/-- Its first menu, opened as the window 19. -/
def firstMenu : State := cbBarWindow enetScreen GUI_ID_BUTTON0 .clicked

theorem enetScreen_reached :
    exec (step ⟨0, 0⟩) mainTask [.notify 2 .clicked] = some enetScreen := rfl

theorem firstMenu_opens : Opens ⟨0, 0⟩ enetScreen firstMenu 14 19 0 where
  clicked := rfl
  button := ⟨_, rfl, ⟨_, rfl, rfl⟩, rfl⟩
  fresh := rfl
  popup := ⟨_, _, rfl, rfl, rfl, by decide⟩

theorem onePerEntry_iff_firstMenu :
    OnePerEntry (cbBarMenuPaint ⟨0, 0⟩ firstMenu 19) 19 0 ↔
      ([.paint 19] : List Event).count (.paint 19) = 1 := by
  refine onePerEntry_iff enetScreen_reached firstMenu_opens ⟨firstMenu_opens.popup, ?_⟩ rfl
  rintro t ht
  obtain rfl := Option.some.inj ht
  exact ⟨_, _, rfl, rfl, rfl, by decide⟩

/-- Two paints, two buttons for the first entry. -/
theorem not_onePerEntry_repainted : ¬∀ (nul : Apra) (s t u : State) (src h : Nat) (j : Fin 4)
    (before after : List Event), exec (step nul) mainTask before = some s →
    Opens nul s t src h j → Always (step nul) (fun u => ∃ w, IsPopup u h w) t after →
    exec (step nul) t after = some u → 0 < after.count (.paint h) → OnePerEntry u h j := by
  intro hall
  have hone := hall ⟨0, 0⟩ enetScreen firstMenu _ 14 19 0 _ [.paint 19, .paint 19]
    enetScreen_reached firstMenu_opens ?_ rfl (by decide)
  · obtain ⟨k, -, honly⟩ := hone.entry 0 (by decide)
    have hfirst : 20 = k := honly 20 ⟨_, rfl, rfl, rfl⟩
    have hsecond : 22 = k := honly 22 ⟨_, rfl, rfl, rfl⟩
    omega
  · refine ⟨firstMenu_opens.popup, fun t ht => ?_⟩
    obtain rfl := Option.some.inj ht
    refine ⟨⟨_, _, rfl, rfl, rfl, by decide⟩, fun t ht => ?_⟩
    obtain rfl := Option.some.inj ht
    exact ⟨_, _, rfl, rfl, rfl, by decide⟩

end EmWinDemo.Gui
