/-
# EmWinDemo.Json.Parse -- `cJSON_Parse`

The recursive descent parser of cJSON, from a pointer into a text to the tree of values.  The
calls go as deep as the text nests, so the model gives `parse_value` a bound on the depth and on
the turns of its loops, and the bound that `cJSON_ParseWithOpts` starts with is never reached.
-/
import EmWinDemo.Json.Numbers

namespace EmWinDemo.Json

open EmWinDemo.Lib.CMemory EmWinDemo.Lib.CText EmWinDemo.Lib.Json

/-- A tree of items. -/
abbrev Tree := Value Number

/-! ## `parse_array` and `parse_object` -/

/-- `parse_value` for the items inside. -/
abbrev ValueParser := Bytes → Except Fault (Tree × Bytes)

/-- `skip(parse_value(child, skip(value), ep))`. -/
def parseItem (parse : ValueParser) (value : Bytes) : Except Fault (Tree × Bytes) := do
  let value ← skip value
  let (v, value) ← parse value
  let value ← skip value
  .ok (v, value)

/-- A name, the colon and a value. -/
def parseMember (parse : ValueParser) (value : Bytes) :
    Except Fault ((Bytes × Tree) × Bytes) := do
  let value ← skip value
  let (name, value) ← parseString value
  let value ← skip value
  let c ← deref value
  if c ≠ 58 then .error (.invalid value)
  else do
    let (v, value) ← parseItem parse value.tail
    .ok ((name, v), value)

/-- `while (*value==',') …`, and the closing bracket. -/
def elementLoop {α : Type} (close : UInt8) (wrap : List α → Tree)
    (element : Bytes → Except Fault (α × Bytes)) :
    Nat → List α → Bytes → Except Fault (Tree × Bytes)
  | 0, _, _ => .error .fuel
  | n + 1, done, value => do
    let c ← deref value
    if c = 44 then do
      let (a, value) ← element value.tail
      elementLoop close wrap element n (done ++ [a]) value
    else if c = close then .ok (wrap done, value.tail)
    else .error (.invalid value)

/-- What `parse_array` and `parse_object` have in common. -/
def parseElements {α : Type} (opening close : UInt8) (wrap : List α → Tree)
    (element : Bytes → Except Fault (α × Bytes)) (n : Nat) (value : Bytes) :
    Except Fault (Tree × Bytes) := do
  let c ← deref value
  if c ≠ opening then .error (.invalid value)
  else do
    let value ← skip value.tail
    let c ← deref value
    if c = close then .ok (wrap [], value.tail)
    else do
      let (a, value) ← element value
      elementLoop close wrap element n [a] value

/-- `parse_array`. -/
def parseArray (parse : ValueParser) (n : Nat) (value : Bytes) : Except Fault (Tree × Bytes) :=
  parseElements 91 93 .array (parseItem parse) n value

/-- `parse_object`. -/
def parseObject (parse : ValueParser) (n : Nat) (value : Bytes) : Except Fault (Tree × Bytes) :=
  parseElements 123 125 .object (parseMember parse) n value

/-! ## `parse_value` -/

def parseValue (pow : Float → Float → Float) : Nat → Bytes → Except Fault (Tree × Bytes)
  | 0, _ => .error .fuel
  | n + 1, value => do
    if ← startsWith [110, 117, 108, 108] value then .ok (.null, value.drop 4)
    else if ← startsWith [102, 97, 108, 115, 101] value then .ok (.false, value.drop 5)
    else if ← startsWith [116, 114, 117, 101] value then .ok (.true, value.drop 4)
    else do
      let c ← deref value
      if c = 34 then do
        let (s, value) ← parseString value
        .ok (.string s, value)
      else if c = 45 ∨ isDigit c then do
        let (x, value) ← parseNumber pow value
        .ok (.number x, value)
      else if c = 91 then parseArray (parseValue pow n) n value
      else if c = 123 then parseObject (parseValue pow n) n value
      else .error (.invalid value)

/-- `cJSON_ParseWithOpts`: the tree and `end`. -/
def parseWithOpts (pow : Float → Float → Float) (value : Bytes) (requireNullTerminated : Bool) :
    Except Fault (Tree × Bytes) := do
  let start ← skip value
  let (v, stop) ← parseValue pow (value.length + 1) start
  if requireNullTerminated then do
    let stop ← skip stop
    let c ← deref stop
    if c ≠ 0 then .error (.invalid stop) else .ok (v, stop)
  else .ok (v, stop)

end EmWinDemo.Json
