/-
# EmWinDemo.Demo.System -- the GUI task and the tasks of the socket server together

`Gui.step` has the windows and `Sessions.step` the sockets; the program is both.  The GUI task calls
the server and the weather fetch from its callbacks and receives no message during a fetch.  The
server task creates a message button as soon as `accept` has returned: the return of `accept` and
`CreateActivitySocket_MsgButton` are one step here, and nothing of another task comes in between.  A
run of the program is then a run of both components, and what was proved of each holds of the whole.
-/
import EmWinDemo.Gui.Navigation
import EmWinDemo.Socket.Sessions

namespace EmWinDemo.Demo

open EmWinDemo.Lib EmWinDemo.Lib.Runs EmWinDemo.Lib.Descriptors EmWinDemo.Gui EmWinDemo.Socket

structure State where
  gui : Gui.State
  net : Sessions.State

inductive Event where
  /-- a message of the GUI task -/
  | gui (e : Gui.Event)
  /-- a step of another task, or the end of a fetch -/
  | net (e : Sessions.Event)
  deriving Repr, DecidableEq

def start : State := ⟨mainTask, Sessions.init⟩

/-! ## Steps -/

/-- What a callback does beside its windows: the socket button opens and closes the server, and the
weather window fetches as it is created and at every release in it. -/
def calls (s : Gui.State) : Gui.Event → Option Sessions.Event
  | .notify src code =>
    match s.wm.node src with
    | some n =>
      match (s.wm.node n.parent).map fun (m : Node Win) => m.val.callback with
      | some .socketActivity =>
        if code = .clicked ∧ n.val.id = ID_BUTTON_SOCKET then some .click else none
      | some .weatherActivity => if code = .released then some .fetchBegin else none
      | some .background =>
        if code = .clicked ∧ n.val.id = Home.ID_BUTTON_07 ∧ s.hWinWeather = 0 then
          some .fetchBegin
        else none
      | _ => none
    | none => none
  | .timer _ => none
  | .paint _ => none
  | .msgButton _ => none

/-- A message of the GUI task, with the call its callback makes. -/
def stepGui (nul : Apra) (s : State) : Gui.Event → Option State
  -- the buttons of the clients are not created by the GUI task
  | .msgButton _ => none
  | e =>
    if s.net.fetch = none then
      match Gui.step nul s.gui e, calls s.gui e with
      | some gui, some c => (Sessions.step s.net c).map fun net => ⟨gui, net⟩
      | some gui, none => some ⟨gui, s.net⟩
      | none, _ => none
    else none

/-- A step of the server task, of a reader or of the queue reader. -/
def stepNet (s : State) : Sessions.Event → Option State
  -- the calls of the GUI task
  | .click => none
  | .fetchBegin => none
  | .accept =>
    match Sessions.step s.net .accept, lowest s.net.sockets with
    | some net, some sockClient =>
      some ⟨createActivitySocketMsgButton s.gui (sockClient : Nat), net⟩
    | _, _ => none
  -- the result of `accept` is not tested
  | .acceptFails => (Sessions.step s.net .acceptFails).map fun net =>
      ⟨createActivitySocketMsgButton s.gui (-1), net⟩
  | e => (Sessions.step s.net e).map fun net => ⟨s.gui, net⟩

def step (nul : Apra) (s : State) : Event → Option State
  | .gui e => stepGui nul s e
  | .net e => stepNet s e

/-- The steps of the other tasks that create no button. -/
def Plain : Sessions.Event → Prop
  | .click | .fetchBegin | .accept | .acceptFails => False
  | _ => True

/-- **What a step does**, in terms of the two components. -/
inductive Effect (nul : Apra) (s : State) : Event → State → Prop where
  | message {e : Gui.Event} {gui : Gui.State} (he : ∀ clientId, e ≠ .msgButton clientId)
    (hgui : Gui.step nul s.gui e = some gui) : Effect nul s (.gui e) ⟨gui, s.net⟩
  | call {e : Gui.Event} {c : Sessions.Event} {gui : Gui.State} {net : Sessions.State}
    (he : ∀ clientId, e ≠ .msgButton clientId) (hgui : Gui.step nul s.gui e = some gui)
    (hc : c = .click ∨ c = .fetchBegin) (hnet : Sessions.step s.net c = some net) :
    Effect nul s (.gui e) ⟨gui, net⟩
  | accept {net : Sessions.State} {k : Fin 4} (hnet : Sessions.step s.net .accept = some net)
    (hk : lowest s.net.sockets = some k) :
    Effect nul s (.net .accept) ⟨createActivitySocketMsgButton s.gui (k : Nat), net⟩
  | acceptFails {net : Sessions.State} (hnet : Sessions.step s.net .acceptFails = some net) :
    Effect nul s (.net .acceptFails) ⟨createActivitySocketMsgButton s.gui (-1), net⟩
  | plain {e : Sessions.Event} {net : Sessions.State} (he : Plain e)
    (hnet : Sessions.step s.net e = some net) : Effect nul s (.net e) ⟨s.gui, net⟩

/-- The GUI task only clicks and fetches. -/
theorem calls_eq_some {s : Gui.State} {e : Gui.Event} {c : Sessions.Event}
    (h : calls s e = some c) : c = .click ∨ c = .fetchBegin := by
  cases e with
  | notify src code =>
    dsimp only [calls] at h
    split at h
    · split at h
      · split at h
        · exact Or.inl (Option.some.inj h).symm
        · cases h
      · split at h
        · exact Or.inr (Option.some.inj h).symm
        · cases h
      · split at h
        · exact Or.inr (Option.some.inj h).symm
        · cases h
      · cases h
    · cases h
  | timer | paint | msgButton => cases h

theorem stepGui_effect {nul : Apra} {s t : State} {e : Gui.Event}
    (he : ∀ clientId, e ≠ .msgButton clientId) (h : stepGui nul s e = some t) :
    Effect nul s (.gui e) t := by
  have hstep : (match Gui.step nul s.gui e, calls s.gui e with
      | some gui, some c => (Sessions.step s.net c).map fun net => State.mk gui net
      | some gui, none => some ⟨gui, s.net⟩
      | none, _ => none) = some t := by
    cases e with
    | msgButton clientId => exact absurd rfl (he clientId)
    | notify | timer | paint =>
      dsimp only [stepGui] at h
      split at h
      · exact h
      · cases h
  split at hstep
  · next gui c hgui hc =>
    obtain ⟨net, hnet, rfl⟩ := Option.map_eq_some_iff.mp hstep
    exact .call he hgui (calls_eq_some hc) hnet
  · next gui hgui hc =>
    obtain rfl := Option.some.inj hstep
    exact .message he hgui
  · cases hstep

theorem stepNet_effect {nul : Apra} {s t : State} {e : Sessions.Event}
    (h : stepNet s e = some t) : Effect nul s (.net e) t := by
  cases e with
  | click | fetchBegin => cases h
  | accept =>
    dsimp only [stepNet] at h
    split at h
    · next net k hnet hk =>
      obtain rfl := Option.some.inj h
      exact .accept hnet hk
    · cases h
  | acceptFails =>
    obtain ⟨net, hnet, rfl⟩ := Option.map_eq_some_iff.mp h
    exact .acceptFails hnet
  | finish | disconnect | send | receive | copy | fetchEnd =>
    obtain ⟨net, hnet, rfl⟩ := Option.map_eq_some_iff.mp h
    exact .plain trivial hnet
  | linger lingering =>
    obtain rfl := Option.some.inj h
    exact .plain trivial rfl

theorem step_effect {nul : Apra} {s t : State} {e : Event} (h : step nul s e = some t) :
    Effect nul s e t := by
  cases e with
  | gui e =>
    refine stepGui_effect ?_ h
    rintro clientId rfl
    cases h
  | net e => exact stepNet_effect h

/-! ## The components -/

/-- The invariants of both. -/
structure Inv (s : State) : Prop where
  gui : Gui.Inv s.gui
  net : Sessions.Inv s.net

theorem inv_start : Inv start := ⟨inv_mainTask, Sessions.inv_init⟩

theorem inv_step {nul : Apra} {s t : State} {e : Event} (hs : Inv s) (h : step nul s e = some t) :
    Inv t := by
  cases step_effect h with
  | message he hgui => exact ⟨Gui.inv_step hs.gui hgui, hs.net⟩
  | call he hgui hc hnet => exact ⟨Gui.inv_step hs.gui hgui, Sessions.inv_step hs.net hnet⟩
  | accept hnet hk =>
    exact ⟨hs.gui.createActivitySocketMsgButton _, Sessions.inv_step hs.net hnet⟩
  | acceptFails hnet =>
    exact ⟨hs.gui.createActivitySocketMsgButton _, Sessions.inv_step hs.net hnet⟩
  | plain he hnet => exact ⟨hs.gui, Sessions.inv_step hs.net hnet⟩

/-- **The whole program keeps the invariants of its parts**, in every run. -/
theorem always_inv (nul : Apra) (es : List Event) : Always (step nul) Inv start es :=
  always_of_step (fun _ _ _ hs h => inv_step hs h) inv_start es

end EmWinDemo.Demo
