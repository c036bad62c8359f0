/-
# EmWinDemo.Gui.MsgButtons -- what the messages do to the socket window and the message buttons

Nearly every callback works beside the socket window: it neither opens nor closes it, and the
message buttons stay what they are.  The exceptions are the click that opens the window and the
power-off entry of the start menu, which deletes the window with the buttons in it.
`message_effect` says so for a message of any window.
-/
import EmWinDemo.Gui.Navigation

namespace EmWinDemo.Gui

open EmWinDemo.Lib

/-- The window `h` is a message button with that parent and id. -/
def MsgButton (s : State) (h parent : Nat) (id : Int) : Prop :=
  ∃ n, s.wm.node h = some n ∧ n.val.callback = .buttonMsg ∧ n.parent = parent ∧ n.val.id = id

/-- The message buttons are the same. -/
def SameMsg (s t : State) : Prop := ∀ h p id, MsgButton t h p id ↔ MsgButton s h p id

theorem SameMsg.create {s : State} {q : Nat} {b : Bool} {w : Win} (hw : w.callback ≠ .buttonMsg) :
    SameMsg s (createWindow s q b w) := by
  intro h p id
  constructor
  · rintro ⟨n, hn, hcallback, hrest⟩
    rcases Forest.node_create hn with ⟨-, rfl⟩ | hold
    · exact absurd hcallback hw
    · exact ⟨n, hold, hcallback, hrest⟩
  · rintro ⟨n, hn, hrest⟩
    exact ⟨n, Forest.node_create_old hn q b w, hrest⟩

theorem SameMsg.setShown (s : State) (g : Nat) (b : Bool) :
    SameMsg s { s with wm := s.wm.setShown g b } := by
  intro h p id
  constructor
  · rintro ⟨n, hn, hcallback, hparent, hid⟩
    obtain ⟨m, hm, hp, hval⟩ := Forest.node_setShown hn
    exact ⟨m, hm, hval ▸ hcallback, hp.symm.trans hparent, hval ▸ hid⟩
  · rintro ⟨n, hn, hcallback, hparent, hid⟩
    obtain ⟨m, hm, hp, hval⟩ := Forest.node_setShown_live hn g b
    exact ⟨m, hm, hval ▸ hcallback, hp.trans hparent, hval ▸ hid⟩

/-- A message button is on the desktop or in the socket window. -/
theorem Wf.parent_msg {s : State} (hs : Wf s) {h : Nat} {n : Node Win}
    (hn : s.wm.node h = some n) (hcallback : n.val.callback = .buttonMsg) :
    n.parent = 0 ∨ n.parent = s.hWinSocket := by
  rcases s.wm.parent_live h n hn with hzero | hlive
  · exact Or.inl hzero
  · right
    obtain ⟨m, hm⟩ := Option.isSome_iff_exists.mp hlive
    exact (hs.tracked .socket).only _ m hm ((hs.children h n m hn hm).msg hcallback)

/-- Only the socket window and the Home background have message buttons below them. -/
theorem Wf.msg_not_below {s : State} (hs : Wf s) {l : Slot} (hlive : s.handle l ≠ 0)
    (hhome : l ≠ .home) (henet : l ≠ .enet) (hsocket : l ≠ .socket) {h : Nat} {n : Node Win}
    (hn : s.wm.node h = some n) (hcallback : n.val.callback = .buttonMsg) :
    s.wm.below (s.handle l) h = false := by
  have habove : s.wm.below (s.handle l) n.parent = false := by
    rcases hs.parent_msg hn hcallback with hzero | hparent
    · rw [hzero]
      exact Forest.below_zero hlive
    · rw [hparent]
      exact hs.not_below (o := .socket) hsocket hlive hhome henet
  have hself : h ≠ s.handle l := by
    rintro rfl
    have hslot := hs.slot_of_handle hn
    rw [Win.slot, hcallback] at hslot
    cases hslot
  rw [Forest.below_of_node hn, habove, Bool.or_false]
  simpa using hself

/-! ## Beside the socket window -/

/-- Neither the variable of the socket window nor the message buttons change. -/
structure Beside (s t : State) : Prop where
  socket : t.hWinSocket = s.hWinSocket
  msgs : SameMsg s t

namespace Beside

variable {s t u : State}

theorem refl (s : State) : Beside s s := ⟨rfl, fun _ _ _ => Iff.rfl⟩

theorem trans (h : Beside s t) (h' : Beside t u) : Beside s u :=
  ⟨h'.socket.trans h.socket, fun g p id => (h'.msgs g p id).trans (h.msgs g p id)⟩

theorem vars (hwm : t.wm = s.wm) (hsocket : t.hWinSocket = s.hWinSocket) : Beside s t := by
  refine ⟨hsocket, fun h p id => ?_⟩
  unfold MsgButton
  rw [hwm]

theorem create {q : Nat} {b : Bool} {w : Win} (hw : w.callback ≠ .buttonMsg) :
    Beside s (createWindow s q b w) := ⟨rfl, .create hw⟩

theorem showWindow (s : State) (h : Nat) : Beside s (showWindow s h) := ⟨rfl, .setShown s h true⟩

theorem hideWindow (s : State) (h : Nat) : Beside s (hideWindow s h) := ⟨rfl, .setShown s h false⟩

theorem createButtons (s : State) (q n : Nat) (id : Int) {c : Callback} (hc : c ≠ .buttonMsg) :
    Beside s (createButtons s q n id c) := by
  unfold Gui.createButtons
  induction List.range n generalizing s with
  | nil => exact refl s
  | cons i is ih =>
    rw [List.foldl_cons]
    exact (create hc).trans (ih _)

/-- The window of a slot is deleted. -/
theorem closed (hs : Wf s) {l : Slot} (hlive : s.handle l ≠ 0) (hhome : l ≠ .home)
    (henet : l ≠ .enet) (hsocket : l ≠ .socket) :
    Beside s ((deleteWindow s (s.handle l)).setHandle l 0) := by
  refine ⟨handle_setHandle_of_ne (s := deleteWindow s _) (o := .socket) hsocket.symm, ?_⟩
  intro h p id
  unfold MsgButton
  rw [setHandle_wm]
  constructor
  · rintro ⟨n, hn, hrest⟩
    exact ⟨n, (Forest.node_delete hn).1, hrest⟩
  · rintro ⟨n, hn, hcallback, hrest⟩
    have hout := hs.msg_not_below hlive hhome henet hsocket hn hcallback
    exact ⟨n, (Forest.node_delete_of_not_below hout).trans hn, hcallback, hrest⟩

/-! ### One lemma for each function -/

theorem hideActivitySocket (s : State) : Beside s (hideActivitySocket s) := by
  unfold Gui.hideActivitySocket
  split
  · exact refl s
  · exact hideWindow s _

theorem createActivityWeather (s : State) : Beside s (createActivityWeather s) := by
  unfold Gui.createActivityWeather
  split
  · exact showWindow s _
  · have hwindow : Beside s (createWindow s s.hWinBackground true
        { callback := .weatherActivity, id := ID_WINDOW_01 }) := create (by decide)
    refine hwindow.trans (trans ?_ (create ?_))
    · exact vars rfl rfl
    · decide

theorem deleteActivityWeather (hs : Inv s) : Beside s (deleteActivityWeather s) := by
  unfold Gui.deleteActivityWeather
  split
  · exact refl s
  · next hlive => exact closed hs.wf (l := .weather) hlive (by decide) (by decide) (by decide)

theorem deleteWindowStartMenu (hs : Inv s) : Beside s (deleteWindowStartMenu s) := by
  unfold Gui.deleteWindowStartMenu
  split
  · next hlive => exact closed hs.wf (l := .start) hlive (by decide) (by decide) (by decide)
  · exact refl s

theorem createWindowStartMenu (hs : Inv s) : Beside s (createWindowStartMenu s) := by
  unfold Gui.createWindowStartMenu
  split
  · next hlive => exact closed hs.wf (l := .start) hlive (by decide) (by decide) (by decide)
  · have hwindow : Beside s (createWindow s s.hWinBackground true { callback := .startMenu }) :=
      create (by decide)
    refine hwindow.trans (trans ?_ (createButtons _ _ _ _ ?_))
    · exact vars rfl rfl
    · decide

theorem createWindowIPText (hs : Inv s) : Beside s (createWindowIPText s) := by
  unfold Gui.createWindowIPText
  split
  · next hlive => exact closed hs.wf (l := .ip) hlive (by decide) (by decide) (by decide)
  · have hwindow : Beside s (createWindow s s.hWinBackground true { callback := .ipText }) :=
      create (by decide)
    exact hwindow.trans (vars rfl rfl)

theorem createHomeActivity (s : State) : Beside s (createHomeActivity s) := by
  unfold Gui.createHomeActivity
  split
  · exact showWindow s _
  · have hwindow : Beside s (createWindow s 0 true { callback := .background }) :=
      create (by decide)
    have hbuttons : Beside s (createWindowSmartPhone s) := by
      refine hwindow.trans (trans ?_ (createButtons _ _ _ _ ?_))
      · exact vars rfl rfl
      · decide
    exact (hbuttons.trans (create (by decide))).trans (vars rfl rfl)

theorem hideHomeActivity (s : State) : Beside s (hideHomeActivity s) := by
  unfold Gui.hideHomeActivity
  split
  · exact hideWindow s _
  · exact refl s

theorem cbBarMenuCreate (s : State) (hWin : Nat) : Beside s (cbBarMenuCreate s hWin) := by
  unfold Gui.cbBarMenuCreate
  split
  · exact refl s
  · exact vars rfl rfl

theorem createSelButtons (s : State) : Beside s (createSelButtons s) := by
  unfold Gui.createSelButtons
  induction List.finRange 4 generalizing s with
  | nil => exact refl s
  | cons i is ih =>
    rw [List.foldl_cons]
    refine (create ?_).trans (ih _)
    nofun

/-- The windows of the first visit. -/
theorem enetWindows (s : State) : Beside s (createTouchButton (Gui.createSelButtons
    (createTextWindow (createHiddenMenu (createBarWindow (createBgWindow s)))))) := by
  have hbg : Beside s (createBgWindow s) :=
    (create (w := { callback := .bgwindow }) (by decide)).trans (vars rfl rfl)
  have hbar := hbg.trans ((create (w := { callback := .barwindow }) (by decide)).trans
    (vars (t := createBarWindow (createBgWindow s)) rfl rfl))
  have hmenu : Beside s (createHiddenMenu (createBarWindow (createBgWindow s))) :=
    (hbar.trans (create (by decide))).trans (cbBarMenuCreate _ _)
  have htext := hmenu.trans ((create (w := { callback := .textwindow }) (by decide)).trans
    (vars (t := createTextWindow (createHiddenMenu (createBarWindow (createBgWindow s)))) rfl rfl))
  have hsel := htext.trans (createSelButtons _)
  exact hsel.trans ((create (by decide)).trans (vars rfl rfl))

theorem createEnetActivity (s : State) : Beside s (createEnetActivity s) := by
  have hvars : Beside s { s with pslectButton := fun i => some i } := vars rfl rfl
  unfold Gui.createEnetActivity
  dsimp only
  split
  · exact hvars.trans (showWindow _ _)
  · have hstart : Beside s { s with
        pslectButton := fun i => some i, indexBarMenu := -1, indexBackground := 0 } := vars rfl rfl
    exact (hstart.trans (enetWindows _)).trans (vars rfl rfl)

theorem hideEnetActivity (s : State) : Beside s (hideEnetActivity s) := by
  unfold Gui.hideEnetActivity
  split
  · exact hideWindow s _
  · exact refl s

theorem deleteMenuWindow (hs : Inv s) : Beside s (deleteMenuWindow s) := by
  unfold Gui.deleteMenuWindow
  split
  · exact refl s
  · next hlive =>
    have hclosed := closed hs.wf (l := .popup) hlive (by decide) (by decide) (by decide)
    exact hclosed.trans (vars rfl rfl)

theorem goHome (s : State) : Beside s (Gui.createHomeActivity (Gui.hideEnetActivity s)) :=
  (hideEnetActivity s).trans (createHomeActivity _)

theorem openMenu (s : State) (index : Int) : Beside s (openMenu s index) := by
  have hwindow : Beside s (createWindow s 0 true
      { callback := .barMenu, extraBytes := 4, userData := pslectAt s index }) := create nofun
  exact (hwindow.trans (cbBarMenuCreate _ _)).trans (vars rfl rfl)

theorem selectMenu (hs : Inv s) (index : Int) : Beside s (selectMenu s index) := by
  unfold Gui.selectMenu
  split
  · dsimp only
    rw [Inv.guarded_deleteMenuWindow]
    split
    · exact (deleteMenuWindow hs).trans (goHome _)
    · exact (deleteMenuWindow hs).trans (openMenu _ _)
  · exact refl s

theorem cbBarWindow (hs : Inv s) (id : Int) (code : Notification) :
    Beside s (cbBarWindow s id code) := by
  cases code with
  | clicked =>
    have hunlocked := (Grows.unlock s).inv hs
    have hvars : Beside s { s with lockvalue := false } := vars rfl rfl
    exact hvars.trans (selectMenu hunlocked _)
  | released => exact refl s
  | other => exact refl s

theorem chooseEntry (hs : Inv s) (apra : Apra) (id : Int) : Beside s (chooseEntry s apra id) := by
  unfold Gui.chooseEntry
  split
  · exact (deleteMenuWindow hs).trans (goHome _)
  split
  · exact vars rfl rfl
  · exact refl s

theorem cbBarMenuNotify (hs : Inv s) (nul : Apra) (hWin : Nat) (id : Int) (code : Notification) :
    Beside s (cbBarMenuNotify nul s hWin id code) := by
  cases code with
  | released =>
    dsimp only [Gui.cbBarMenuNotify]
    split
    · exact refl s
    · exact (deleteMenuWindow hs).trans (chooseEntry hs.deleteMenuWindow _ id)
  | clicked => exact refl s
  | other => exact refl s

theorem cbBarMenuTimer (hs : Inv s) (hWin : Nat) : Beside s (cbBarMenuTimer s hWin) := by
  have hvars : Beside s { s with hTimer := none } := vars rfl rfl
  unfold Gui.cbBarMenuTimer
  split
  · exact refl s
  dsimp only
  split
  · exact hvars
  · exact hvars.trans (deleteMenuWindow ((Grows.timer s none).inv hs))

theorem cbBarMenuPaint (nul : Apra) (s : State) (hWin : Nat) :
    Beside s (cbBarMenuPaint nul s hWin) := by
  unfold Gui.cbBarMenuPaint
  split
  · exact refl s
  · exact createButtons _ _ _ _ (by decide)

end Beside

/-! ## The socket window -/

/-- The click on the socket button of the Home background while there is no socket window. -/
def OpensSocket (s : State) : Event → Prop
  | .notify src .clicked => s.hWinSocket = 0 ∧ ∃ n m, s.wm.node src = some n ∧
      s.wm.node n.parent = some m ∧ m.val.callback = .background ∧ n.val.id = Home.ID_BUTTON_06
  | _ => False

/-- **What a message does to the socket window.** -/
inductive SocketEffect (s t : State) (e : Event) : Prop where
  | beside (hbeside : Beside s t) (he : ¬OpensSocket s e)
  | opened (hnone : s.hWinSocket = 0) (hlive : t.hWinSocket ≠ 0) (hsame : SameMsg s t)
    (he : OpensSocket s e)
  | closed (hzero : t.hWinSocket = 0)
    (hrest : ∀ h p id, MsgButton t h p id → MsgButton s h p id ∧ p ≠ s.hWinSocket)
    (he : ¬OpensSocket s e)

theorem createActivitySocket_sameMsg (s : State) : SameMsg s (createActivitySocket s) := by
  unfold createActivitySocket
  split
  · exact (Beside.showWindow s _).msgs
  · have hwindow : SameMsg s (createWindow s s.hWinBackground true
        { callback := .socketActivity, id := ID_WINDOW_01 }) := .create (by decide)
    intro h p id
    refine (SameMsg.create ?_ h p id).trans (hwindow h p id)
    decide

theorem createActivitySocket_opens {s : State} (hzero : s.hWinSocket = 0) :
    (createActivitySocket s).hWinSocket ≠ 0 := by
  unfold createActivitySocket
  rw [if_neg (not_not.mpr hzero)]
  exact Nat.ne_of_gt s.wm.next_pos

/-- Deleting the window leaves no button that was in it. -/
theorem deleteActivitySocket_rest {s : State} (hs : Inv s) (hlive : s.hWinSocket ≠ 0) {h p : Nat}
    {id : Int} (hbutton : MsgButton (deleteActivitySocket s) h p id) :
    MsgButton s h p id ∧ p ≠ s.hWinSocket := by
  unfold deleteActivitySocket at hbutton
  rw [if_neg hlive] at hbutton
  obtain ⟨n, hn, hcallback, hparent, hid⟩ := hbutton
  obtain ⟨hold, hout⟩ := Forest.node_delete hn
  obtain ⟨m, hm⟩ : ∃ m, s.wm.node s.hWinSocket = some m := by
    obtain ⟨m, hm, -⟩ := (hs.wf.tracked .socket).live hlive
    exact ⟨m, hm⟩
  refine ⟨⟨n, hold, hcallback, hparent, hid⟩, fun heq => ?_⟩
  -- a button in the window is below it, and so not among the rest
  have hbelow := hout (Option.isSome_iff_exists.mpr ⟨m, hm⟩)
  rw [Forest.below_of_node hold, hparent, heq, Forest.below_of_node hm] at hbelow
  simp at hbelow

theorem background_effect {s : State} (hs : Inv s) {src : Nat} {n m : Node Win}
    (hn : s.wm.node src = some n) (hm : s.wm.node n.parent = some m)
    (hcallback : m.val.callback = .background) (code : Notification) :
    SocketEffect s (cbWindowBackground s n.val.id code) (.notify src code) := by
  cases code with
  | clicked =>
    have hother : n.val.id ≠ Home.ID_BUTTON_06 → ¬OpensSocket s (.notify src .clicked) := by
      rintro hid ⟨-, n', m', hn', -, -, hid'⟩
      obtain rfl := Option.some.inj (hn.symm.trans hn')
      exact hid hid'
    dsimp only [cbWindowBackground]
    split
    · next hid =>
      have hbeside := (Beside.hideHomeActivity s).trans (Beside.createEnetActivity _)
      exact .beside hbeside (hother (by rw [hid]; decide))
    split
    · next hid => exact .beside (.createWindowStartMenu hs) (hother (by rw [hid]; decide))
    split
    · next hid =>
      by_cases hzero : s.hWinSocket = 0
      · exact .opened hzero (createActivitySocket_opens hzero) (createActivitySocket_sameMsg s)
          ⟨hzero, n, m, hn, hm, hcallback, hid⟩
      · refine .beside ?_ fun h => hzero h.1
        unfold createActivitySocket
        rw [if_pos hzero]
        exact Beside.showWindow s _
    · next hid =>
      split
      · exact .beside (.createActivityWeather s) (hother hid)
      split
      · exact .beside (.createWindowIPText hs) (hother hid)
      · exact .beside (.refl s) (hother hid)
  | released => exact .beside (.refl s) id
  | other => exact .beside (.refl s) id

theorem startMenu_effect {s : State} (hs : Inv s) {e : Event} (he : ¬OpensSocket s e) (id : Int)
    (code : Notification) : SocketEffect s (cbWindowStartMenu s id code) e := by
  cases code with
  | released =>
    dsimp only [cbWindowStartMenu]
    split
    · have hhide : Beside s (hideActivityWeather (hideActivitySocket s)) :=
        (Beside.hideActivitySocket s).trans (Beside.hideWindow _ _)
      exact .beside
        (hhide.trans (.deleteWindowStartMenu hs.hideActivitySocket.hideActivityWeather)) he
    split
    · have hafter := (Beside.deleteActivityWeather hs.deleteActivitySocket).trans
        (.deleteWindowStartMenu hs.deleteActivitySocket.deleteActivityWeather)
      by_cases hzero : s.hWinSocket = 0
      · have hsame : deleteActivitySocket s = s := if_pos hzero
        rw [hsame] at hafter ⊢
        exact .beside hafter he
      · refine .closed (hafter.socket.trans ?_) (fun h p id hbutton => ?_) he
        · unfold deleteActivitySocket
          rw [if_neg hzero]
        · exact deleteActivitySocket_rest hs hzero ((hafter.msgs h p id).mp hbutton)
    · exact .beside (.refl s) he
  | clicked => exact .beside (.refl s) he
  | other => exact .beside (.refl s) he

/-- A notification opens the socket window only if it goes to the Home background. -/
theorem not_opensSocket {s : State} {src : Nat} {n : Node Win} (hn : s.wm.node src = some n)
    (hne : (s.wm.node n.parent).map (fun m => m.val.callback) ≠ some .background)
    (code : Notification) : ¬OpensSocket s (.notify src code) := by
  intro ho
  cases code with
  | clicked =>
    obtain ⟨-, n', m, hn', hm, hcallback, -⟩ := ho
    obtain rfl := Option.some.inj (hn.symm.trans hn')
    exact hne (by rw [hm, Option.map_some, hcallback])
  | released => exact ho
  | other => exact ho

theorem notify_effect {s : State} (hs : Inv s) (nul : Apra) {src : Nat} {n : Node Win}
    (hn : s.wm.node src = some n) (code : Notification) :
    SocketEffect s (notifyParent nul s n.parent n.val.id code) (.notify src code) := by
  have hopens := not_opensSocket hn
  unfold notifyParent
  split
  · next hc =>
    obtain ⟨m, hm, hcallback⟩ := Option.map_eq_some_iff.mp hc
    exact background_effect hs hn hm hcallback code
  · next hc => exact startMenu_effect hs (hopens (by rw [hc]; decide) code) _ code
  · next hc => exact .beside (.cbBarWindow hs _ code) (hopens (by rw [hc]; decide) code)
  · next hc => exact .beside (.cbBarMenuNotify hs nul _ _ code) (hopens (by rw [hc]; decide) code)
  · next hbackground _ _ _ => exact .beside (.refl s) (hopens hbackground code)

/-- **The message buttons under a message.** -/
theorem message_effect {nul : Apra} {s t : State} {e : Event} (hs : Inv s)
    (hgui : ∀ clientId, e ≠ .msgButton clientId) (h : step nul s e = some t) :
    SocketEffect s t e := by
  cases message_of_step h with
  | notify hn _ => exact notify_effect hs nul hn _
  | timer _ _ => exact .beside (.cbBarMenuTimer hs _) id
  | paint _ _ => exact .beside (.cbBarMenuPaint nul s _) id
  | timerOther _ _ => exact .beside (.refl s) id
  | paintOther _ _ => exact .beside (.refl s) id
  | msgButton => exact absurd rfl (hgui _)

end EmWinDemo.Gui
