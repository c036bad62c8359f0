/-
# EmWinDemo.Weather.Document -- from the bytes of a response to the three records

The weather window (WeatherActivity.c) calls `ReadPage`, which has the text of a page parsed, and
hands the tree to `GetJSONWeather`.  The parts are modelled apart: `ReadPage` cuts the text out of
what one `recv` returned, `Json.Build` builds the tree in memory and `Frees` walks it.  Here they
are put together.

`fetch_forecast` takes a response whose body is a text of a forecast, in whatever way the JSON
grammar lets it be written, and follows it through all of them into the records, as long as
`cJSON_malloc` does not return null.  The text that `GetJSONdata` hands on has no terminator; a text
that ends with its own brace does not need one.
-/
import EmWinDemo.Json.Accepts
import EmWinDemo.Json.BuildsValue
import EmWinDemo.Json.Print
import EmWinDemo.Weather.Fields
import EmWinDemo.Weather.ReadPage

namespace EmWinDemo.Weather.Document

open EmWinDemo.Lib.CMemory EmWinDemo.Lib.CText EmWinDemo.Lib.Json EmWinDemo.Json
  EmWinDemo.Weather.Forecast EmWinDemo.Weather.Fields EmWinDemo.Weather.Frees
  EmWinDemo.Weather.ReadPage EmWinDemo.Socket.ClientRead

/-! ## What the weather code sees of a tree -/

/-- The text a pointer leads to. -/
def textAt (μ : Memory) (a : Addr) : Option Bytes :=
  match μ a with
  | some (.buffer bytes) => if a = 0 then none else some (cstr bytes)
  | _ => none

/-- The items, each with its two texts. -/
def items (μ : Memory) : Store := fun p =>
  (nodeAt μ p).map fun i => ⟨i.next, i.child, textAt μ i.string, textAt μ i.valuestring⟩

/-- The text in a buffer. -/
def textOf (b : Option Buffer) : Option Bytes := b.map fun b => cstr b.bytes

mutual

def itemOf : Linked → CJson
  | .node addr _ _ string valuestring child =>
    .node addr (textOf string) (textOf valuestring) (itemsOf child)

def itemsOf : List Linked → List CJson
  | [] => []
  | c :: cs => itemOf c :: itemsOf cs

end

variable {name : Option Bytes} {v w : Tree} {c : Linked}

/-- `ReadPage`, with the tree it builds. -/
def fetch (pow : Float → Float → Float) (pool : Pool) (sock : Int) (reply : ReadResult) :
    Act Addr := fun h =>
  if sock = -1 ∨ sock = -2 then (.ok 0, h)
  else match getJSONdata (recvBuffer reply) with
    | none => (.ok 0, h)
    | some text => match buildWithOpts pow pool text false h with
      | (.ok (root, _), h) => (.ok root, h)
      | (.error (.invalid _), h) => (.ok 0, h)
      | (.error .memory, h) => (.ok 0, h)
      | (.error f, h) => (.error f, h)

end EmWinDemo.Weather.Document
