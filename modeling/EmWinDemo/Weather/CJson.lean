/-
# EmWinDemo.Weather.CJson -- the trees of cJSON and the two lookups in them

A node as the readers of a tree see it: its address, its name, its string value and the chain of
its children.  `type`, `valueint` and `valuedouble` are read by no function modelled here.
Only an item of type `cJSON_String` has a string value; for all others the pointer is null.
-/
import EmWinDemo.Lib.CText

namespace EmWinDemo.Weather

open EmWinDemo.Lib.CMemory EmWinDemo.Lib.CText

/-- `struct cJSON`; the list of children is the chain from `child` along `next`. -/
inductive CJson where
  | node (addr : Nat) (string valuestring : Option Bytes) (child : List CJson)

def CJson.addr : CJson → Nat
  | .node addr _ _ _ => addr

def CJson.string : CJson → Option Bytes
  | .node _ string _ _ => string

def CJson.valuestring : CJson → Option Bytes
  | .node _ _ valuestring _ => valuestring

def CJson.child : CJson → List CJson
  | .node _ _ _ child => child

/-- `cJSON_strcasecmp` returns zero.  A null name matches nothing but another null one. -/
def sameName (s1 : Option Bytes) (s2 : Bytes) : Bool :=
  match s1 with
  | none => false
  | some s1 => s1.map toLower == s2.map toLower

/-- `cJSON_GetArrayItem`, for a non-negative index. -/
def CJson.getArrayItem (array : CJson) (item : Nat) : Option CJson := array.child[item]?

/-- `cJSON_GetObjectItem`: the first child of that name, upper and lower case alike. -/
def CJson.getObjectItem (object : CJson) (string : Bytes) : Option CJson :=
  object.child.find? fun c => sameName c.string string

/-- An item whose `valuestring` can be read: not there at all, or a string. -/
def Readable (item : Option CJson) : Prop := ∀ c, item = some c → c.valuestring ≠ none

/-- The text of an item that is there and is a string. -/
def text (item : Option CJson) : Option Bytes := item.bind CJson.valuestring

@[simp] theorem text_some (c : CJson) : text (some c) = c.valuestring := rfl

@[simp] theorem readable_none : Readable none := by
  intro c hc
  cases hc

theorem readable_some {c : CJson} : Readable (some c) ↔ c.valuestring.isSome := by
  constructor
  · intro h
    exact Option.isSome_iff_ne_none.mpr (h c rfl)
  · rintro h d hd
    obtain rfl : c = d := Option.some.inj hd
    exact Option.isSome_iff_ne_none.mp h

end EmWinDemo.Weather
