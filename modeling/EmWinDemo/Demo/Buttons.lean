/-
# EmWinDemo.Demo.Buttons -- the buttons of the clients

Each accepted client gets a message button in the socket window.  Three things are missing for the
buttons to mirror the clients: `CreateActivitySocket_MsgButton` does not test, as its siblings do,
that the window exists, and with a parent 0 the button lands on the desktop; nothing removes a
button when its client leaves; and a new window starts without the buttons of the clients that are
there.  `always_mirrors_iff` says that these, and an `accept` that fails, are all that can go
wrong.
-/
import EmWinDemo.Demo.System
import EmWinDemo.Gui.MsgButtons
import EmWinDemo.Socket.Admission

namespace EmWinDemo.Demo

open EmWinDemo.Lib EmWinDemo.Lib.Runs EmWinDemo.Lib.Descriptors EmWinDemo.Gui EmWinDemo.Socket
open EmWinDemo.Socket.Admission (IsClient isClient_step isClient_accept isClient_disconnect)

/-! ## The law and its condition -/

/-- The id of the button of client `k`. -/
def buttonId (k : Fin 4) : Int := ID_BUTTON_MSG + (k : Nat)

/-- **The buttons mirror the clients.** -/
structure Mirrors (s : State) : Prop where
  /-- each client has exactly one button in the socket window -/
  clients : s.gui.hWinSocket ≠ 0 → ∀ k, IsClient s.net k →
    ∃! h, MsgButton s.gui h s.gui.hWinSocket (buttonId k)
  /-- and each button in it belongs to a client -/
  buttons : s.gui.hWinSocket ≠ 0 → ∀ h id, MsgButton s.gui h s.gui.hWinSocket id →
    ∃ k, IsClient s.net k ∧ id = buttonId k
  /-- no message button is anywhere else -/
  inside : ∀ h p id, MsgButton s.gui h p id → s.gui.hWinSocket ≠ 0 ∧ p = s.gui.hWinSocket

/-- Clients are accepted only while there is a socket window and leave only while there is none,
`accept` does not fail, and the window is opened only while nobody is connected. -/
def Follows (s : State) : Event → Prop
  | .gui e => OpensSocket s.gui e → ∀ k, ¬IsClient s.net k
  | .net .accept => s.gui.hWinSocket ≠ 0
  | .net .acceptFails => False
  | .net (.disconnect _) => s.gui.hWinSocket = 0
  | .net _ => True

/-- The invariant under that condition. -/
structure Mirrored (s : State) : Prop where
  inv : Inv s
  mirrors : Mirrors s

theorem buttonId_inj {k j : Fin 4} (h : buttonId k = buttonId j) : k = j := by
  unfold buttonId at h
  exact Fin.ext (by omega)

theorem mirrored_start : Mirrored start where
  inv := inv_start
  mirrors := by
    have hnone : ∀ h p id, ¬MsgButton mainTask h p id := by
      intro h p id hbutton
      obtain ⟨n, hn, -⟩ := ((Beside.createHomeActivity boot).msgs h p id).mp hbutton
      cases hn
    exact ⟨fun h => absurd rfl h, fun h => absurd rfl h, fun h p id hb => absurd hb (hnone h p id)⟩

/-! ## The steps -/

/-- Beside the socket window, with the same clients. -/
theorem Mirrors.beside {s t : State} (hs : Mirrors s) (hgui : Beside s.gui t.gui)
    (hnet : ∀ k, IsClient t.net k ↔ IsClient s.net k) : Mirrors t := by
  obtain ⟨hsocket, hmsgs⟩ := hgui
  constructor
  · intro hlive k hk
    rw [hsocket] at hlive ⊢
    obtain ⟨h, hbutton, honly⟩ := hs.clients hlive k ((hnet k).mp hk)
    exact ⟨h, (hmsgs _ _ _).mpr hbutton, fun g hg => honly g ((hmsgs _ _ _).mp hg)⟩
  · intro hlive h id hbutton
    rw [hsocket] at hlive hbutton
    obtain ⟨k, hk, hid⟩ := hs.buttons hlive h id ((hmsgs _ _ _).mp hbutton)
    exact ⟨k, (hnet k).mpr hk, hid⟩
  · intro h p id hbutton
    rw [hsocket]
    exact hs.inside h p id ((hmsgs _ _ _).mp hbutton)

/-- A message button is created in a window of the desktop or of the socket activity. -/
theorem msgButton_created {s : Gui.State} {clientId : Int} {h p : Nat} {id : Int} :
    MsgButton (createActivitySocketMsgButton s clientId) h p id ↔
      (h = s.wm.next ∧ p = s.wm.parentFor s.hWinSocket ∧ id = clientId + ID_BUTTON_MSG) ∨
        MsgButton s h p id := by
  constructor
  · rintro ⟨n, hn, hcallback, hparent, hid⟩
    rcases Forest.node_create hn with ⟨rfl, rfl⟩ | hold
    · exact Or.inl ⟨rfl, hparent.symm, hid.symm⟩
    · exact Or.inr ⟨n, hold, hcallback, hparent, hid⟩
  · rintro (⟨rfl, rfl, rfl⟩ | ⟨n, hn, hrest⟩)
    · exact ⟨_, Forest.node_create_self _ _ _ _, rfl, rfl, rfl⟩
    · exact ⟨n, Forest.node_create_old hn _ _ _, hrest⟩

/-- A client is accepted while the window is there. -/
theorem Mirrors.accept {s : State} (hinv : Inv s) (hs : Mirrors s) (hlive : s.gui.hWinSocket ≠ 0)
    {net : Sessions.State} {k : Fin 4} (hnet : Sessions.step s.net .accept = some net)
    (hk : lowest s.net.sockets = some k) :
    Mirrors ⟨createActivitySocketMsgButton s.gui (k : Nat), net⟩ := by
  have hclient := isClient_accept hnet hk
  have hnew : ¬IsClient s.net k := Admission.not_isClient_of_free (lowest_free hk)
  obtain ⟨n, hn, -⟩ := (hinv.gui.wf.tracked .socket).live hlive
  have hparent : s.gui.wm.parentFor s.gui.hWinSocket = s.gui.hWinSocket :=
    Forest.parentFor_of_live hn
  have hid : ((k : Nat) : Int) + ID_BUTTON_MSG = buttonId k := Int.add_comm _ _
  constructor
  · intro _ j hj
    dsimp only [createActivitySocketMsgButton, createWindow]
    rcases (hclient j).mp hj with rfl | hold
    · refine ⟨s.gui.wm.next, msgButton_created.mpr (Or.inl ⟨rfl, hparent.symm, hid.symm⟩), ?_⟩
      intro g hg
      rcases msgButton_created.mp hg with ⟨rfl, -, -⟩ | hold
      · rfl
      · obtain ⟨i, hi, heq⟩ := hs.buttons hlive g _ hold
        exact absurd (buttonId_inj heq ▸ hi) hnew
    · obtain ⟨h, hbutton, honly⟩ := hs.clients hlive j hold
      refine ⟨h, msgButton_created.mpr (Or.inr hbutton), fun g hg => ?_⟩
      rcases msgButton_created.mp hg with ⟨-, -, heq⟩ | hg
      · exact absurd (buttonId_inj (heq.trans hid) ▸ hold) hnew
      · exact honly g hg
  · intro _ h id hbutton
    rcases msgButton_created.mp hbutton with ⟨-, -, heq⟩ | hold
    · exact ⟨k, (hclient k).mpr (Or.inl rfl), heq.trans hid⟩
    · obtain ⟨j, hj, heq⟩ := hs.buttons hlive h id hold
      exact ⟨j, (hclient j).mpr (Or.inr hj), heq⟩
  · intro h p id hbutton
    refine ⟨hlive, ?_⟩
    rcases msgButton_created.mp hbutton with ⟨-, hp, -⟩ | hold
    · exact hp.trans hparent
    · exact (hs.inside h p id hold).2

/-- A message of the GUI task, whatever its callback calls. -/
theorem Mirrors.message {s : State} (hs : Mirrors s) {e : Gui.Event} {gui : Gui.State}
    {net : Sessions.State} (heffect : SocketEffect s.gui gui e) (hok : Follows s (.gui e))
    (hnet : ∀ k, IsClient net k ↔ IsClient s.net k) : Mirrors ⟨gui, net⟩ := by
  cases heffect with
  | beside hbeside he => exact hs.beside hbeside hnet
  | opened hnone hlive hsame he =>
    -- before the window there was no button, and there is no client
    have hempty : ∀ h p id, ¬MsgButton gui h p id := fun h p id hbutton =>
      (hs.inside h p id ((hsame h p id).mp hbutton)).1 hnone
    exact ⟨fun _ k hk => absurd ((hnet k).mp hk) (hok he k),
      fun _ h id hb => absurd hb (hempty _ _ _), fun h p id hb => absurd hb (hempty _ _ _)⟩
  | closed hzero hrest he =>
    refine ⟨fun hlive => absurd hzero hlive, fun hlive => absurd hzero hlive, ?_⟩
    intro h p id hbutton
    obtain ⟨hold, hout⟩ := hrest h p id hbutton
    exact absurd (hs.inside h p id hold).2 hout

theorem isClient_call {s t : Sessions.State} {c : Sessions.Event} (hs : Sessions.Inv s)
    (hc : c = .click ∨ c = .fetchBegin) (h : Sessions.step s c = some t) (k : Fin 4) :
    IsClient t k ↔ IsClient s k := by
  rcases hc with rfl | rfl
  · exact isClient_step hs h nofun nofun k
  · exact isClient_step hs h nofun nofun k

theorem mirrored_step {nul : Apra} {s t : State} {e : Event} (hs : Mirrored s) (hok : Follows s e)
    (h : step nul s e = some t) : Mirrored t := by
  refine ⟨inv_step hs.inv h, ?_⟩
  cases step_effect h with
  | message he hgui =>
    exact hs.mirrors.message (message_effect hs.inv.gui he hgui) hok fun _ => Iff.rfl
  | call he hgui hc hnet =>
    exact hs.mirrors.message (message_effect hs.inv.gui he hgui) hok (isClient_call hs.inv.net hc hnet)
  | accept hnet hk => exact hs.mirrors.accept hs.inv hok hnet hk
  | acceptFails => exact absurd hok id
  | @plain e net he hnet =>
    cases e with
    | disconnect r =>
      have hzero : s.gui.hWinSocket = 0 := hok
      exact ⟨fun hlive => absurd hzero hlive, fun hlive => absurd hzero hlive,
        fun h p id hb => absurd hzero (hs.mirrors.inside h p id hb).1⟩
    | finish | send | receive | copy | fetchEnd | linger =>
      exact hs.mirrors.beside (.refl _) (isClient_step hs.inv.net hnet nofun nofun)
    | click | fetchBegin | accept | acceptFails => exact absurd he id

/-! ## The condition is exact -/

/-- A created button is a message button. -/
theorem msgButton_new (s : Gui.State) (clientId : Int) :
    MsgButton (createActivitySocketMsgButton s clientId) s.wm.next
      (s.wm.parentFor s.hWinSocket) (clientId + ID_BUTTON_MSG) :=
  msgButton_created.mpr (Or.inl ⟨rfl, rfl, rfl⟩)

/-- Without a socket window the button of a client is outside. -/
theorem not_mirrors_outside {s : Gui.State} {net : Sessions.State} {clientId : Int}
    (hzero : s.hWinSocket = 0) : ¬Mirrors ⟨createActivitySocketMsgButton s clientId, net⟩ :=
  fun h => (h.inside _ _ _ (msgButton_new s clientId)).1 hzero

theorem follows_of_mirrors {nul : Apra} {s t : State} {e : Event} (hs : Mirrored s)
    (h : step nul s e = some t) (ht : Mirrors t) : Follows s e := by
  have hopens : ∀ {e gui} {net : Sessions.State}, SocketEffect s.gui gui e →
      (∀ k, IsClient net k ↔ IsClient s.net k) → Mirrors ⟨gui, net⟩ → Follows s (.gui e) := by
    intro e gui net heffect hnet ht he k hk
    cases heffect with
    | beside _ hne => exact hne he
    | closed _ _ hne => exact hne he
    | opened hnone hlive hsame _ =>
      -- the new window has no button for the client `k`
      obtain ⟨h, hbutton, -⟩ := ht.clients hlive k ((hnet k).mpr hk)
      exact (hs.mirrors.inside _ _ _ ((hsame _ _ _).mp hbutton)).1 hnone
  cases step_effect h with
  | message he hgui =>
    exact hopens (message_effect hs.inv.gui he hgui) (fun _ => Iff.rfl) ht
  | call he hgui hc hnet =>
    exact hopens (message_effect hs.inv.gui he hgui) (isClient_call hs.inv.net hc hnet) ht
  | accept hnet hk => exact fun hzero => not_mirrors_outside hzero ht
  | acceptFails hnet =>
    -- the button of the client -1
    have hnew := msgButton_new s.gui (-1)
    obtain ⟨hlive, hparent⟩ := ht.inside _ _ _ hnew
    have hin : MsgButton (createActivitySocketMsgButton s.gui (-1)) s.gui.wm.next
        s.gui.hWinSocket (-1 + ID_BUTTON_MSG) := hparent ▸ hnew
    obtain ⟨k, -, hid⟩ := ht.buttons hlive _ _ hin
    unfold buttonId at hid
    omega
  | @plain e net he hnet =>
    cases e with
    | disconnect r =>
      show s.gui.hWinSocket = 0
      by_contra hlive
      obtain ⟨k, hbefore, hafter⟩ := isClient_disconnect hs.inv.net hnet
      obtain ⟨h, hbutton, -⟩ := hs.mirrors.clients hlive k hbefore
      obtain ⟨j, hj, hid⟩ := ht.buttons hlive h _ hbutton
      exact hafter (buttonId_inj hid ▸ hj)
    | finish | send | receive | copy | fetchEnd | linger => trivial
    | click | fetchBegin | accept | acceptFails => exact absurd he id

/-! ## Runs -/

/-- **The buttons mirror the clients exactly when the window outlasts them.** In every run of the
program, each client has its button in every state if and only if clients come while the socket
window exists, leave while it does not, and none is there when it is opened. -/
theorem always_mirrors_iff (nul : Apra) (es : List Event)
    (hrun : (exec (step nul) start es).isSome) :
    Always (step nul) Mirrors start es ↔ EachStep (step nul) Follows start es :=
  always_iff_eachStep (fun _ hs => hs.mirrors) (fun _ _ _ hs hok h => mirrored_step hs hok h)
    (fun _ _ _ hs h ht => follows_of_mirrors hs h ht) mirrored_start hrun

/-- The socket window is opened and the server started, a client comes, and the power-off entry of
the start menu deletes the window with the button. -/
def powerOff : List Event :=
  [.gui (.notify 7 .clicked), .gui (.notify 11 .clicked), .net .accept, .net .finish,
    .gui (.notify 5 .clicked), .gui (.notify 15 .released)]

theorem always_mirrors_iff_powerOff :
    Always (step ⟨0, 0⟩) Mirrors start powerOff ↔ EachStep (step ⟨0, 0⟩) Follows start powerOff :=
  always_mirrors_iff ⟨0, 0⟩ powerOff (by rfl)

/-- A client that comes after the power-off gets its button on the desktop. -/
theorem not_always_mirrors : ¬∀ nul es, (exec (step nul) start es).isSome →
    Always (step nul) Mirrors start es := by
  intro hall
  have hrun := hall ⟨0, 0⟩ (powerOff ++ [.net .accept]) (by rfl)
  have hmirrors := hrun.last rfl
  have hbutton := hmirrors.inside 16 0 (2 + ID_BUTTON_MSG) ⟨_, rfl, rfl, rfl, rfl⟩
  exact hbutton.1 rfl

end EmWinDemo.Demo
