/-
# EmWinDemo.Gui.Activities -- the windows of the demo and the callbacks that move them

The window handling of HomeActivity.c, EnetActivity.c, SocketActivity.c and WeatherActivity.c: the
static handles and flags, the functions that create, show, hide and delete windows, and the
callbacks with their notifications, timers and paints.  The window manager is a `Forest` of windows.
Geometry, texts and drawing are left out, and so are the fetch and the socket server that two of
the buttons start.

A null `APRA *` reads what the memory at address 0 holds, a parameter of the model; `Navigation`
shows that no window on the screen reads it.
-/
import Mathlib.Data.Fin.VecNotation
import EmWinDemo.Lib.Forest

namespace EmWinDemo.Gui

open EmWinDemo.Lib

/-! ## Windows -/

/-- The callback of a window says what the window is. -/
inductive Callback where
  -- HomeActivity.c
  | background
  | app
  | enetStatus
  | startMenu
  | ipText
  -- EnetActivity.c
  | bgwindow
  | barwindow
  | textwindow
  | selButton
  | getButton
  | barMenu
  | buttonMenu
  -- SocketActivity.c
  | socketActivity
  | buttonSocket
  | buttonMsg
  -- WeatherActivity.c
  | weatherActivity
  | buttonUpdate
  deriving Repr, DecidableEq

structure Win where
  callback : Callback
  id : Int := 0
  extraBytes : Nat := 0
  /-- the `APRA *` in the extra bytes, as an index of `slect_button` -/
  userData : Option (Fin 4) := none
  deriving Repr, DecidableEq

def GUI_ID_USER : Int := 0x800
def GUI_ID_BUTTON0 : Int := 0x170

namespace Home

def ID_WINDOW_03 : Int := GUI_ID_USER + 0x02
def ID_BUTTON_01 : Int := GUI_ID_USER + 0x10
def ID_BUTTON_04 : Int := GUI_ID_USER + 0x13
def ID_BUTTON_06 : Int := GUI_ID_USER + 0x15
def ID_BUTTON_07 : Int := GUI_ID_USER + 0x16
def ID_BUTTON_21 : Int := GUI_ID_USER + 0x20
def ID_BUTTON_22 : Int := GUI_ID_USER + 0x21

end Home

namespace Enet

def ID_BUTTON_0 : Int := GUI_ID_USER + 0x10

end Enet

def ID_WINDOW_01 : Int := GUI_ID_USER + 0x00
def ID_BUTTON_SOCKET : Int := GUI_ID_USER + 0x10
def ID_BUTTON_MSG : Int := GUI_ID_USER + 0x11
def ID_BUTTON_UPDATE : Int := GUI_ID_USER + 0x10

/-- The fields of an `APRA` that decide something. -/
structure Apra where
  index : Int
  menunum : Int
  deriving Repr, DecidableEq

def INDEX_PAGE : Int := 1
def INDEX_SEASON : Int := 2
def INDEX_STRING : Int := 3
def INDEX_EXIT : Int := 4

def slectButton : Fin 4 → Apra :=
  ![⟨INDEX_PAGE, 2⟩, ⟨INDEX_SEASON, 4⟩, ⟨INDEX_STRING, 2⟩, ⟨INDEX_EXIT, 1⟩]

/-! ## The state -/

structure State where
  wm : Forest Win
  /-- ghost: `WM_DeleteWindow` has been applied to a handle that is not alive -/
  deletedDead : Bool
  -- HomeActivity.c
  hWinBackground : Nat
  hWinStartMenu : Nat
  hButEnetStatus : Nat
  hWinIPText : Nat
  flagHomeActivity : Bool
  -- EnetActivity.c
  hWinBarWindow : Nat
  hWinBgWindow : Nat
  hButtonTouch : Nat
  hWinTextWindow : Nat
  hWinBarMenu : Nat
  indexBarMenu : Int
  indexBackground : Int
  flagEnetActivity : Bool
  pslectButton : Fin 4 → Option (Fin 4)
  lockvalue : Bool
  /-- the window of the timer that the static `hTimer` of `_cbBarMenu` names -/
  hTimer : Option Nat
  -- SocketActivity.c and WeatherActivity.c
  hWinSocket : Nat
  hWinWeather : Nat

/-- The static variables as the program starts. -/
def boot : State where
  wm := Forest.empty
  deletedDead := false
  hWinBackground := 0
  hWinStartMenu := 0
  hButEnetStatus := 0
  hWinIPText := 0
  flagHomeActivity := false
  hWinBarWindow := 0
  hWinBgWindow := 0
  hButtonTouch := 0
  hWinTextWindow := 0
  hWinBarMenu := 0
  indexBarMenu := 0
  indexBackground := 0
  flagEnetActivity := false
  pslectButton := fun _ => none
  lockvalue := true
  hTimer := none
  hWinSocket := 0
  hWinWeather := 0

/-! ## The window manager -/

/-- The `Create` functions of the manager and of its widgets; the handle they return is
`s.wm.next`. -/
def createWindow (s : State) (parent : Nat) (shown : Bool) (w : Win) : State :=
  { s with wm := s.wm.create parent shown w }

def deleteWindow (s : State) (h : Nat) : State :=
  { s with wm := s.wm.delete h, deletedDead := s.deletedDead || (s.wm.node h).isNone }

def showWindow (s : State) (h : Nat) : State := { s with wm := s.wm.setShown h true }

def hideWindow (s : State) (h : Nat) : State := { s with wm := s.wm.setShown h false }

/-- `n` buttons with consecutive ids. -/
def createButtons (s : State) (parent n : Nat) (id : Int) (callback : Callback) : State :=
  (List.range n).foldl
    (fun s (i : Nat) => createWindow s parent true { callback := callback, id := id + i }) s

/-! ## SocketActivity.c -/

/-- `_CreateActivity` and `_CreateButton_OpenSocket`. -/
def createActivity (s : State) : State :=
  createWindow
    { createWindow s s.hWinBackground true { callback := .socketActivity, id := ID_WINDOW_01 } with
      hWinSocket := s.wm.next }
    s.wm.next true { callback := .buttonSocket, id := ID_BUTTON_SOCKET }

def createActivitySocket (s : State) : State :=
  if s.hWinSocket ≠ 0 then showWindow s s.hWinSocket else createActivity s

def deleteActivitySocket (s : State) : State :=
  if s.hWinSocket = 0 then s else { deleteWindow s s.hWinSocket with hWinSocket := 0 }

def hideActivitySocket (s : State) : State :=
  if s.hWinSocket = 0 then s else hideWindow s s.hWinSocket

/-- `SetButton_Msg` and `_CreateButton_msg`: a parent 0 is the desktop. -/
def createActivitySocketMsgButton (s : State) (clientId : Int) : State :=
  createWindow s s.hWinSocket true
    { callback := .buttonMsg, id := clientId + ID_BUTTON_MSG, extraBytes := 4 }

/-! ## WeatherActivity.c -/

/-- `_CreateActivityWeather`, but for its fetch. -/
def createActivityWeather' (s : State) : State :=
  createWindow
    { createWindow s s.hWinBackground true
        { callback := .weatherActivity, id := ID_WINDOW_01 } with
      hWinWeather := s.wm.next }
    s.wm.next true { callback := .buttonUpdate, id := ID_BUTTON_UPDATE }

def createActivityWeather (s : State) : State :=
  if s.hWinWeather ≠ 0 then showWindow s s.hWinWeather else createActivityWeather' s

def deleteActivityWeather (s : State) : State :=
  if s.hWinWeather = 0 then s else { deleteWindow s s.hWinWeather with hWinWeather := 0 }

/-- The one `Hide` function without a test. -/
def hideActivityWeather (s : State) : State := hideWindow s s.hWinWeather

/-! ## HomeActivity.c: its windows -/

def createWindowStartMenu (s : State) : State :=
  if s.hWinStartMenu ≠ 0 then { deleteWindow s s.hWinStartMenu with hWinStartMenu := 0 }
  else
    createButtons
      { createWindow s s.hWinBackground true { callback := .startMenu } with
        hWinStartMenu := s.wm.next }
      s.wm.next 2 Home.ID_BUTTON_21 .app

def deleteWindowStartMenu (s : State) : State :=
  if s.hWinStartMenu ≠ 0 then { deleteWindow s s.hWinStartMenu with hWinStartMenu := 0 } else s

def createWindowIPText (s : State) : State :=
  if s.hWinIPText ≠ 0 then { deleteWindow s s.hWinIPText with hWinIPText := 0 }
  else
    { createWindow s s.hWinBackground true { callback := .ipText } with hWinIPText := s.wm.next }

def createWindowSmartPhone (s : State) : State :=
  createButtons
    { createWindow s 0 true { callback := .background } with hWinBackground := s.wm.next }
    s.wm.next 7 Home.ID_BUTTON_01 .app

def createWindowEnetStatus (s : State) : State :=
  { createWindow s s.hWinBackground true
      { callback := .enetStatus, id := Home.ID_WINDOW_03 } with
    hButEnetStatus := s.wm.next }

def createHomeActivity (s : State) : State :=
  if s.flagHomeActivity then showWindow s s.hWinBackground
  else { createWindowEnetStatus (createWindowSmartPhone s) with flagHomeActivity := true }

def hideHomeActivity (s : State) : State :=
  if s.flagHomeActivity then hideWindow s s.hWinBackground else s

/-! ## EnetActivity.c: its windows -/

/-- `_DeleteMenuWidnow`; what its fade paints into the window goes with the window. -/
def deleteMenuWindow (s : State) : State :=
  if s.hWinBarMenu = 0 then s
  else { deleteWindow s s.hWinBarMenu with hWinBarMenu := 0, indexBarMenu := -1 }

/-- `_ApendMenuWindow`: every paint of a menu adds its buttons anew. -/
def appendMenuWindow (s : State) (hWin : Nat) (apra : Apra) : State :=
  createButtons s hWin apra.menunum.toNat Enet.ID_BUTTON_0 .buttonMenu

/-- `_cbBarMenu` on `WM_CREATE`. -/
def cbBarMenuCreate (s : State) (hWin : Nat) : State :=
  if s.lockvalue then s else { s with hTimer := some hWin }

/-- The background of `_CreateWindow`. -/
def createBgWindow (s : State) : State :=
  { createWindow s 0 true { callback := .bgwindow } with hWinBgWindow := s.wm.next }

/-- The bar of `_CreateWindow`. -/
def createBarWindow (s : State) : State :=
  { createWindow s s.hWinBgWindow true { callback := .barwindow } with
    hWinBarWindow := s.wm.next }

/-- The hidden window of `_CreateWindow`, with the callback of a menu and no user data. -/
def createHiddenMenu (s : State) : State :=
  cbBarMenuCreate (createWindow s 0 false { callback := .barMenu }) s.wm.next

def createTextWindow (s : State) : State :=
  { createWindow s s.hWinBgWindow true { callback := .textwindow } with
    hWinTextWindow := s.wm.next }

/-- `_CreatButton`: the four buttons of the bar, and the one below it. -/
def createSelButtons (s : State) : State :=
  (List.finRange 4).foldl
    (fun s (i : Fin 4) => createWindow s s.hWinBarWindow true
      { callback := .selButton, id := GUI_ID_BUTTON0 + (i : Nat), extraBytes := 4
        userData := s.pslectButton i }) s

def createTouchButton (s : State) : State :=
  { createWindow s s.hWinBgWindow true { callback := .getButton, id := GUI_ID_USER } with
    hButtonTouch := s.wm.next }

def createEnetActivity (s : State) : State :=
  let s := { s with pslectButton := fun i => some i }
  if s.flagEnetActivity then showWindow s s.hWinBgWindow
  else
    let s := { s with indexBarMenu := -1, indexBackground := 0 }
    let s := createTextWindow (createHiddenMenu (createBarWindow (createBgWindow s)))
    { createTouchButton (createSelButtons s) with flagEnetActivity := true }

def hideEnetActivity (s : State) : State :=
  if s.flagEnetActivity then hideWindow s s.hWinBgWindow else s

/-! ## Callbacks -/

inductive Notification where
  | clicked
  | released
  | other
  deriving Repr, DecidableEq

/-- `_cbWindow_Background`. -/
def cbWindowBackground (s : State) (id : Int) : Notification → State
  | .clicked =>
    if id = Home.ID_BUTTON_01 then createEnetActivity (hideHomeActivity s)
    else if id = Home.ID_BUTTON_04 then createWindowStartMenu s
    else if id = Home.ID_BUTTON_06 then createActivitySocket s
    else if id = Home.ID_BUTTON_07 then createActivityWeather s
    else if id = Home.ID_WINDOW_03 then createWindowIPText s
    else s
  | .released => s
  | .other => s

/-- `_cbWindow_StartMenu`. -/
def cbWindowStartMenu (s : State) (id : Int) : Notification → State
  | .released =>
    if id = Home.ID_BUTTON_21 then
      deleteWindowStartMenu (hideActivityWeather (hideActivitySocket s))
    else if id = Home.ID_BUTTON_22 then
      deleteWindowStartMenu (deleteActivityWeather (deleteActivitySocket s))
    else s
  | .clicked => s
  | .other => s

/-- `pslect_button[Index]`; the bar sends no index beyond the four. -/
def pslectAt (s : State) (index : Int) : Option (Fin 4) :=
  if h : 0 ≤ index ∧ index < 4 then s.pslectButton ⟨index.toNat, by omega⟩ else none

/-- The menu of `_cbbarwidnow`.  It gets its user data as it is created: `WM_CREATE`, the only
message in between, does not read it. -/
def openMenu (s : State) (index : Int) : State :=
  { cbBarMenuCreate
      (createWindow s 0 true { callback := .barMenu, extraBytes := 4, userData := pslectAt s index })
      s.wm.next with
    hWinBarMenu := s.wm.next, indexBarMenu := index }

/-- The click on one of the four buttons of the bar, after the unlocking. -/
def selectMenu (s : State) (index : Int) : State :=
  if s.indexBarMenu ≠ index ∧ s.indexBarMenu < 4 then
    let s := if s.hWinBarMenu ≠ 0 then deleteMenuWindow s else s
    if index = 3 then createHomeActivity (hideEnetActivity s) else openMenu s index
  else s

/-- `_cbbarwidnow`. -/
def cbBarWindow (s : State) (id : Int) : Notification → State
  | .clicked => selectMenu { s with lockvalue := false } (id - GUI_ID_BUTTON0)
  | .released => s
  | .other => s

/-- `WM_GetUserData` and the pointer it gives, followed; `nul` is the record at address 0. -/
def getApra (nul : Apra) (s : State) (hWin : Nat) : Apra :=
  match (s.wm.node hWin).bind fun (n : Node Win) => n.val.userData with
  | some i => slectButton i
  | none => nul

/-- The choice of an entry, after its menu has been deleted. -/
def chooseEntry (s : State) (apra : Apra) (id : Int) : State :=
  if apra.index = INDEX_PAGE ∧ id = Enet.ID_BUTTON_0 + 1 then
    createHomeActivity (hideEnetActivity (deleteMenuWindow s))
  else if apra.index = INDEX_SEASON ∧ Enet.ID_BUTTON_0 ≤ id ∧ id ≤ Enet.ID_BUTTON_0 + 3 then
    { s with indexBackground := id - Enet.ID_BUTTON_0 + 1 }
  else s

/-- `_cbBarMenu` on `WM_NOTIFY_PARENT`. -/
def cbBarMenuNotify (nul : Apra) (s : State) (hWin : Nat) (id : Int) : Notification → State
  | .released =>
    if s.lockvalue then s else chooseEntry (deleteMenuWindow s) (getApra nul s hWin) id
  | .clicked => s
  | .other => s

/-- `_cbBarMenu` on `WM_TIMER`. -/
def cbBarMenuTimer (s : State) (hWin : Nat) : State :=
  if s.lockvalue then s
  else
    let s := { s with hTimer := none }
    if hWin ≠ s.hWinBarMenu then s else deleteMenuWindow s

/-- `_cbBarMenu` on `WM_PAINT`. -/
def cbBarMenuPaint (nul : Apra) (s : State) (hWin : Nat) : State :=
  if s.lockvalue then s else appendMenuWindow s hWin (getApra nul s hWin)

/-! ## Messages -/

/-- `WM_NOTIFY_PARENT`, delivered to the window `hWin`. -/
def notifyParent (nul : Apra) (s : State) (hWin : Nat) (id : Int) (code : Notification) : State :=
  match (s.wm.node hWin).map fun (n : Node Win) => n.val.callback with
  | some .background => cbWindowBackground s id code
  | some .startMenu => cbWindowStartMenu s id code
  | some .barwindow => cbBarWindow s id code
  | some .barMenu => cbBarMenuNotify nul s hWin id code
  -- the other windows move no window, and the desktop does nothing
  | _ => s

inductive Event where
  /-- the window `src` notifies its parent -/
  | notify (src : Nat) (code : Notification)
  | timer (hWin : Nat)
  | paint (hWin : Nat)
  /-- the server task creates the button of a client -/
  | msgButton (clientId : Int)
  deriving Repr, DecidableEq

def step (nul : Apra) (s : State) : Event → Option State
  | .notify src code =>
    match s.wm.node src with
    | some n =>
      if s.wm.visible src then some (notifyParent nul s n.parent n.val.id code) else none
    | none => none
  | .timer hWin =>
    match s.wm.node hWin with
    | some n => some (if n.val.callback = .barMenu then cbBarMenuTimer s hWin else s)
    | none => none
  | .paint hWin =>
    match s.wm.node hWin with
    | some n => some (if n.val.callback = .barMenu then cbBarMenuPaint nul s hWin else s)
    | none => none
  | .msgButton clientId => some (createActivitySocketMsgButton s clientId)

/-- `MainTask`, up to its message loop. -/
def mainTask : State := createHomeActivity boot

end EmWinDemo.Gui
