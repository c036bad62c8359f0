/-
# EmWinDemo.Weather.Frees -- what `GetJSONWeather` frees

The function (weather.c) walks the items of a parsed response with two cursor variables and ends
with a call of `free` on each of them.  Both point into the tree of its caller, or nowhere: a
cursor that no branch has assigned is indeterminate.

Here the items lie in an explicit store and the two lookups of cJSON.cpp follow the pointers in it.
`getJSONWeather_stands` connects this to the function on trees, and says that the walk ends on every
tree.  `not_leavesAlone` says that no argument leaves the caller's tree alone.
-/
import EmWinDemo.Weather.Forecast

namespace EmWinDemo.Weather.Frees

open EmWinDemo.Lib.CMemory EmWinDemo.Weather.Forecast

/-! ## Items in a store -/

/-- An address; 0 is the null pointer. -/
abbrev Addr := Nat

/-- `struct cJSON`, the members that are read here. -/
structure Item where
  next : Addr
  child : Addr
  string : Option Bytes
  valuestring : Option Bytes
  deriving Repr, DecidableEq

/-- The items that are allocated. -/
abbrev Store := Addr → Option Item

/-- `p ? p->child : 0`. -/
def childOf (σ : Store) (p : Addr) : Option Addr :=
  if p = 0 then some 0 else (σ p).map Item.child

/-- `while (c && item > 0) item--, c = c->next;` -/
def arrayLoop (σ : Store) : Nat → Addr → Option Addr
  | 0, c => some c
  | item + 1, c => if c = 0 then some 0 else (σ c).bind fun i => arrayLoop σ item i.next

/-- `cJSON_GetArrayItem`. -/
def getArrayItem (σ : Store) (array : Addr) (item : Nat) : Option Addr :=
  (childOf σ array).bind (arrayLoop σ item)

/-- `while (c && cJSON_strcasecmp(c->string, string)) c = c->next;`, for at most `fuel` tests. -/
def objectLoop (σ : Store) (string : Bytes) : Nat → Addr → Option Addr
  | 0, _ => none
  | fuel + 1, c =>
    if c = 0 then some 0
    else (σ c).bind fun i =>
      if sameName i.string string then some c else objectLoop σ string fuel i.next

/-- `cJSON_GetObjectItem`. -/
def getObjectItem (σ : Store) (fuel : Nat) (object : Addr) (string : Bytes) : Option Addr :=
  (childOf σ object).bind (objectLoop σ string fuel)

/-! ## The function -/

/-- The variables of a call; a cursor that has not been assigned is `none`. -/
structure Locals where
  weather : Fin 3 → WeatherData
  jsonTm : Option Addr
  jsonTx : Option Addr

def readMember (σ : Store) (fuel : Nat) (object : Addr) (name : Bytes)
    (use : Bytes → (Fin 3 → WeatherData) → Fin 3 → WeatherData) (l : Locals) : Option Locals := do
  let tx ← getObjectItem σ fuel object name
  if tx = 0 then some { l with jsonTx := some tx }
  else
    let item ← σ tx
    let s ← item.valuestring
    some { l with weather := use s l.weather, jsonTx := some tx }

def readLocation (σ : Store) (fuel : Nat) (tm : Addr) (l : Locals) : Option Locals := do
  let tx ← getObjectItem σ fuel tm kLocation
  if tx = 0 then some { l with jsonTx := some tx }
  else readMember σ fuel tx kName (fun s weather i => setCity s (weather i)) l

def readDay (σ : Store) (fuel : Nat) (i : Fin 3) (daily : Addr) (l : Locals) : Option Locals := do
  let l ← readMember σ fuel daily kDate (setAt i setDate) l
  let l ← readMember σ fuel daily kTextDay (setAt i setTextDay) l
  let l ← readMember σ fuel daily kCodeDay (setAt i setCodeDay) l
  let l ← readMember σ fuel daily kCodeNight (setAt i setCodeNight) l
  let l ← readMember σ fuel daily kHigh (setAt i setHigh) l
  readMember σ fuel daily kLow (setAt i setLow) l

/-- `json_daily` of round `i`. -/
def dayAt (σ : Store) (fuel : Nat) (tm : Addr) (i : Fin 3) : Option Addr := do
  let daily ← getObjectItem σ fuel tm kDaily
  if daily = 0 then some daily else getArrayItem σ daily i

def readRound (σ : Store) (fuel : Nat) (tm : Addr) (l : Locals) (i : Fin 3) : Option Locals := do
  let daily ← dayAt σ fuel tm i
  if daily = 0 then some l else readDay σ fuel i daily l

/-- The records, and the arguments of the two calls of `free`. -/
structure Result where
  weather : Fin 3 → WeatherData
  freed : List (Option Addr)

def Locals.start : Locals := ⟨fun _ => .malloc, none, none⟩

/-- What is read once `results[0]` has been found. -/
def readResult (σ : Store) (fuel : Nat) (tm : Addr) (l : Locals) : Option Locals := do
  let l ← readLocation σ fuel tm l
  (List.finRange 3).foldlM (readRound σ fuel tm) l

/-- The walk, up to the two calls of `free`. -/
def walk (σ : Store) (fuel : Nat) (json : Addr) : Option Locals :=
  if json = 0 then some .start
  else do
    let results ← getObjectItem σ fuel json kResults
    if results = 0 then some { Locals.start with jsonTm := some results }
    else
      let tm ← getArrayItem σ results 0
      let l := { Locals.start with jsonTm := some tm }
      if tm = 0 then some l else readResult σ fuel tm l

/-- `GetJSONWeather`. -/
def getJSONWeather (σ : Store) (fuel : Nat) (json : Addr) : Option Result :=
  (walk σ fuel json).map fun l => ⟨l.weather, [l.jsonTm, l.jsonTx]⟩

/-- The store after a call of `free`; an indeterminate pointer frees whatever it happens to be. -/
def free (σ : Store) : Option Addr → Store
  | none => σ
  | some p => if p = 0 then σ else Function.update σ p none

/-! ## What a caller is promised -/

/-- The items that can be reached from an address. -/
inductive Reach (σ : Store) (root : Addr) : Addr → Prop where
  | root : root ≠ 0 → Reach σ root root
  | child {p : Addr} {i : Item} : Reach σ root p → σ p = some i → i.child ≠ 0 →
      Reach σ root i.child
  | next {p : Addr} {i : Item} : Reach σ root p → σ p = some i → i.next ≠ 0 →
      Reach σ root i.next

/-- The function returns, frees only what it has assigned, and every item that could be reached is
still allocated, with its old contents. -/
def LeavesAlone (σ : Store) (json : Addr) : Prop :=
  ∃ fuel r, getJSONWeather σ fuel json = some r ∧ none ∉ r.freed ∧
    ∀ p, Reach σ json p → r.freed.foldl free σ p = σ p

/-! ## What the lookups find -/

theorem reach_childOf {σ : Store} {root p c : Addr} (hp : Reach σ root p)
    (h : childOf σ p = some c) (hc : c ≠ 0) : Reach σ root c := by
  unfold childOf at h
  split at h
  · exact absurd (Option.some.inj h).symm hc
  · obtain ⟨i, hi, rfl⟩ := Option.map_eq_some_iff.mp h
    exact .child hp hi hc

theorem reach_arrayLoop {σ : Store} {root : Addr} {item : Nat} {c d : Addr}
    (hc : c ≠ 0 → Reach σ root c) (h : arrayLoop σ item c = some d) (hd : d ≠ 0) :
    Reach σ root d := by
  induction item generalizing c with
  | zero =>
    obtain rfl := Option.some.inj h
    exact hc hd
  | succ item ih =>
    rw [arrayLoop] at h
    split at h
    · exact absurd (Option.some.inj h).symm hd
    · next hne =>
      obtain ⟨i, hi, hrest⟩ := Option.bind_eq_some_iff.mp h
      exact ih (fun hnext => .next (hc hne) hi hnext) hrest

theorem reach_getArrayItem {σ : Store} {root array : Addr} {item : Nat} {d : Addr}
    (ha : Reach σ root array) (h : getArrayItem σ array item = some d) (hd : d ≠ 0) :
    Reach σ root d := by
  obtain ⟨c, hc, hloop⟩ := Option.bind_eq_some_iff.mp h
  exact reach_arrayLoop (fun hne => reach_childOf ha hc hne) hloop hd

theorem reach_objectLoop {σ : Store} {root : Addr} {string : Bytes} {fuel : Nat} {c d : Addr}
    (hc : c ≠ 0 → Reach σ root c) (h : objectLoop σ string fuel c = some d) (hd : d ≠ 0) :
    Reach σ root d := by
  induction fuel generalizing c with
  | zero => cases h
  | succ fuel ih =>
    rw [objectLoop] at h
    split at h
    · exact absurd (Option.some.inj h).symm hd
    · next hne =>
      obtain ⟨i, hi, hrest⟩ := Option.bind_eq_some_iff.mp h
      split at hrest
      · obtain rfl := Option.some.inj hrest
        exact hc hne
      · exact ih (fun hnext => .next (hc hne) hi hnext) hrest

theorem reach_getObjectItem {σ : Store} {root object : Addr} {fuel : Nat} {string : Bytes} {d : Addr}
    (ho : Reach σ root object) (h : getObjectItem σ fuel object string = some d) (hd : d ≠ 0) :
    Reach σ root d := by
  obtain ⟨c, hc, hloop⟩ := Option.bind_eq_some_iff.mp h
  exact reach_objectLoop (fun hne => reach_childOf ho hc hne) hloop hd

/-- A lookup in an object reads the object. -/
theorem isSome_of_getObjectItem {σ : Store} {object : Addr} {fuel : Nat} {string : Bytes} {d : Addr}
    (ho : object ≠ 0) (h : getObjectItem σ fuel object string = some d) : (σ object).isSome := by
  obtain ⟨c, hc, -⟩ := Option.bind_eq_some_iff.mp h
  rw [childOf, if_neg ho] at hc
  obtain ⟨i, hi, -⟩ := Option.map_eq_some_iff.mp hc
  exact Option.isSome_iff_exists.mpr ⟨i, hi⟩

/-! ## The first cursor -/

theorem readMember_jsonTm {σ : Store} {fuel : Nat} {object : Addr} {name : Bytes}
    {use : Bytes → (Fin 3 → WeatherData) → Fin 3 → WeatherData} {l l' : Locals}
    (h : readMember σ fuel object name use l = some l') : l'.jsonTm = l.jsonTm := by
  obtain ⟨tx, -, h⟩ := Option.bind_eq_some_iff.mp h
  split at h
  · obtain rfl := Option.some.inj h
    rfl
  · obtain ⟨i, -, h⟩ := Option.bind_eq_some_iff.mp h
    obtain ⟨s, -, h⟩ := Option.bind_eq_some_iff.mp h
    obtain rfl := Option.some.inj h
    rfl

theorem readDay_jsonTm {σ : Store} {fuel : Nat} {i : Fin 3} {daily : Addr} {l l' : Locals}
    (h : readDay σ fuel i daily l = some l') : l'.jsonTm = l.jsonTm := by
  obtain ⟨l1, h1, h⟩ := Option.bind_eq_some_iff.mp h
  obtain ⟨l2, h2, h⟩ := Option.bind_eq_some_iff.mp h
  obtain ⟨l3, h3, h⟩ := Option.bind_eq_some_iff.mp h
  obtain ⟨l4, h4, h⟩ := Option.bind_eq_some_iff.mp h
  obtain ⟨l5, h5, h6⟩ := Option.bind_eq_some_iff.mp h
  rw [readMember_jsonTm h6, readMember_jsonTm h5, readMember_jsonTm h4, readMember_jsonTm h3,
    readMember_jsonTm h2, readMember_jsonTm h1]

theorem readRound_jsonTm {σ : Store} {fuel : Nat} {tm : Addr} {i : Fin 3} {l l' : Locals}
    (h : readRound σ fuel tm l i = some l') : l'.jsonTm = l.jsonTm := by
  obtain ⟨daily, -, h⟩ := Option.bind_eq_some_iff.mp h
  split at h
  · obtain rfl := Option.some.inj h
    rfl
  · exact readDay_jsonTm h

theorem readRounds_jsonTm {σ : Store} {fuel : Nat} {tm : Addr} {days : List (Fin 3)} {l l' : Locals}
    (h : days.foldlM (readRound σ fuel tm) l = some l') : l'.jsonTm = l.jsonTm := by
  induction days generalizing l with
  | nil =>
    obtain rfl := Option.some.inj h
    rfl
  | cons i days ih =>
    rw [List.foldlM_cons] at h
    obtain ⟨m, hm, h⟩ := Option.bind_eq_some_iff.mp h
    rw [ih h, readRound_jsonTm hm]

/-- What is read below `results[0]` leaves the first cursor on it, and reads it. -/
theorem readResult_jsonTm {σ : Store} {fuel : Nat} {tm : Addr} (htm : tm ≠ 0) {l l' : Locals}
    (h : readResult σ fuel tm l = some l') : l'.jsonTm = l.jsonTm ∧ (σ tm).isSome := by
  obtain ⟨m, hm, hrounds⟩ := Option.bind_eq_some_iff.mp h
  obtain ⟨tx, htx, hm⟩ := Option.bind_eq_some_iff.mp hm
  refine ⟨?_, isSome_of_getObjectItem htm htx⟩
  rw [readRounds_jsonTm hrounds]
  split at hm
  · obtain rfl := Option.some.inj hm
    rfl
  · exact readMember_jsonTm hm

/-! ## What is freed -/

/-- Where the walk ends: with a cursor that was never assigned, or with the first one on an item
of the caller's tree. -/
theorem walk_cases {σ : Store} {fuel : Nat} {json : Addr} {l : Locals}
    (h : walk σ fuel json = some l) :
    l.jsonTx = none ∨ ∃ tm, l.jsonTm = some tm ∧ tm ≠ 0 ∧ Reach σ json tm ∧ (σ tm).isSome := by
  unfold walk at h
  split at h
  · obtain rfl := Option.some.inj h
    exact .inl rfl
  · next hjson =>
    obtain ⟨results, hresults, h⟩ := Option.bind_eq_some_iff.mp h
    split at h
    · obtain rfl := Option.some.inj h
      exact .inl rfl
    · next hresults0 =>
      obtain ⟨tm, htm, h⟩ := Option.bind_eq_some_iff.mp h
      dsimp only at h
      split at h
      · obtain rfl := Option.some.inj h
        exact .inl rfl
      · next htm0 =>
        obtain ⟨hcursor, hread⟩ := readResult_jsonTm htm0 h
        have hreach := reach_getObjectItem (.root hjson) hresults hresults0
        exact .inr ⟨tm, hcursor, htm0, reach_getArrayItem hreach htm htm0, hread⟩

theorem free_none {σ : Store} {p : Addr} (h : σ p = none) (q : Option Addr) : free σ q p = none := by
  cases q with
  | none => exact h
  | some q =>
    rw [free]
    split
    · exact h
    · rcases eq_or_ne p q with rfl | hne
      · rw [Function.update_self]
      · rw [Function.update_of_ne hne, h]

/-- **What the function has freed when it returns**: a pointer that was never assigned, or an item
of its caller's tree, which is gone afterwards. -/
theorem freed_cases {σ : Store} {fuel : Nat} {json : Addr} {r : Result}
    (h : getJSONWeather σ fuel json = some r) : none ∈ r.freed ∨
      ∃ tm, Reach σ json tm ∧ (σ tm).isSome ∧ r.freed.foldl free σ tm = none := by
  obtain ⟨l, hwalk, rfl⟩ := Option.map_eq_some_iff.mp h
  rcases walk_cases hwalk with htx | ⟨tm, htm, htm0, hreach, hitem⟩
  · left
    simp [htx]
  · right
    refine ⟨tm, hreach, hitem, ?_⟩
    have hgone : free σ (some tm) tm = none := by
      rw [free, if_neg htm0, Function.update_self]
    rw [htm, List.foldl_cons, List.foldl_cons, List.foldl_nil, free_none hgone]

/-- **No argument leaves the tree alone**: the function frees an indeterminate pointer, or an item
of the tree. -/
theorem not_leavesAlone (σ : Store) (json : Addr) : ¬LeavesAlone σ json := by
  rintro ⟨fuel, r, hrun, hassigned, hkept⟩
  rcases freed_cases hrun with htx | ⟨tm, hreach, hitem, hgone⟩
  · exact hassigned htx
  · rw [← hkept tm hreach, hgone] at hitem
    cases hitem

/-- Without a tree both cursors are indeterminate. -/
theorem not_leavesAlone_null : ¬∀ (σ : Store) (json : Addr), LeavesAlone σ json := by
  intro hall
  obtain ⟨fuel, r, hrun, hassigned, -⟩ := hall (fun _ => none) 0
  obtain rfl := Option.some.inj hrun
  exact hassigned List.mem_cons_self

/-! ## Trees in a store -/

/-- The chain of items from an address on along `next`, with the trees below them. -/
inductive Chain (σ : Store) : Addr → List CJson → Prop where
  | nil : Chain σ 0 []
  | cons {p next child : Addr} {string valuestring : Option Bytes} {kids rest : List CJson} :
      p ≠ 0 → σ p = some ⟨next, child, string, valuestring⟩ → Chain σ child kids →
        Chain σ next rest → Chain σ p (.node p string valuestring kids :: rest)

/-- The tree stands in the store at its address. -/
structure Stands (σ : Store) (c : CJson) : Prop where
  addr : c.addr ≠ 0
  item : ∃ i, σ c.addr = some i ∧ i.valuestring = c.valuestring ∧ Chain σ i.child c.child

/-- The address of an item, and the null pointer without one. -/
def addrOf : Option CJson → Addr
  | none => 0
  | some c => c.addr

@[simp] theorem addrOf_none : addrOf none = 0 := rfl

@[simp] theorem addrOf_some (c : CJson) : addrOf (some c) = c.addr := rfl

theorem Chain.stands {σ : Store} {p : Addr} {cs : List CJson} (h : Chain σ p cs) :
    ∀ c ∈ cs, Stands σ c := by
  induction h with
  | nil =>
    intro c hc
    cases hc
  | cons hp hitem hkids hrest _ ih =>
    intro c hc
    rcases List.mem_cons.mp hc with rfl | hc
    · exact ⟨hp, _, hitem, rfl, hkids⟩
    · exact ih c hc

theorem arrayLoop_chain {σ : Store} {p : Addr} {cs : List CJson} (h : Chain σ p cs) (item : Nat) :
    arrayLoop σ item p = some (addrOf cs[item]?) := by
  induction item generalizing p cs with
  | zero => cases h <;> rfl
  | succ item ih =>
    cases h with
    | nil => simp [arrayLoop, addrOf]
    | cons hp hitem hkids hrest =>
      rw [arrayLoop, if_neg hp, hitem, Option.bind_some, List.getElem?_cons_succ]
      exact ih hrest

theorem objectLoop_chain {σ : Store} {p : Addr} {cs : List CJson} (h : Chain σ p cs)
    (string : Bytes) {fuel : Nat} (hfuel : cs.length < fuel) : objectLoop σ string fuel p =
      some (addrOf (cs.find? fun c => sameName c.string string)) := by
  induction fuel generalizing p cs with
  | zero => omega
  | succ fuel ih =>
    cases h with
    | nil => rfl
    | @cons p next child name valuestring kids rest hp hitem hkids hrest =>
      rw [objectLoop, if_neg hp, hitem, Option.bind_some, List.find?_cons]
      show (if sameName name string then _ else _) = _
      cases hsame : sameName name string with
      | true =>
        rw [if_pos rfl]
        simp [CJson.string, hsame, addrOf, CJson.addr]
      | false =>
        rw [if_neg (by decide)]
        simp only [CJson.string, hsame]
        exact ih hrest (Nat.lt_of_succ_lt_succ hfuel)

theorem childOf_stands {σ : Store} {c : CJson} (h : Stands σ c) :
    ∃ p, childOf σ c.addr = some p ∧ Chain σ p c.child := by
  obtain ⟨i, hi, -, hchild⟩ := h.item
  exact ⟨i.child, by rw [childOf, if_neg h.addr, hi]; rfl, hchild⟩

theorem length_child_lt (c : CJson) : c.child.length < sizeOf c := by
  obtain ⟨addr, string, valuestring, child⟩ := c
  have hlen : child.length ≤ sizeOf child := by
    induction child with
    | nil => exact Nat.zero_le _
    | cons d child ih =>
      simp only [List.length_cons, List.cons.sizeOf_spec]
      omega
  simp only [CJson.child, CJson.node.sizeOf_spec]
  omega

theorem sizeOf_lt_of_mem_child {c d : CJson} (h : d ∈ c.child) : sizeOf d < sizeOf c := by
  obtain ⟨addr, string, valuestring, child⟩ := c
  have hlt : sizeOf d < sizeOf child := List.sizeOf_lt_of_mem h
  simp only [CJson.node.sizeOf_spec]
  omega

/-- A tree that stands in the store, with enough fuel for every lookup in it. -/
structure Fits (σ : Store) (fuel : Nat) (c : CJson) : Prop where
  stands : Stands σ c
  size : sizeOf c ≤ fuel

theorem Fits.of_mem {σ : Store} {fuel : Nat} {c d : CJson} (h : Fits σ fuel c) (hd : d ∈ c.child) :
    Fits σ fuel d := by
  obtain ⟨p, -, hchain⟩ := childOf_stands h.stands
  exact ⟨hchain.stands d hd, Nat.le_trans (Nat.le_of_lt (sizeOf_lt_of_mem_child hd)) h.size⟩

/-- **`cJSON_GetObjectItem` in the store** finds the item that the lookup in the tree finds. -/
theorem getObjectItem_fits {σ : Store} {fuel : Nat} {c : CJson} (h : Fits σ fuel c)
    (string : Bytes) : getObjectItem σ fuel c.addr string = some (addrOf (c.getObjectItem string)) ∧
      ∀ d, c.getObjectItem string = some d → Fits σ fuel d := by
  obtain ⟨p, hp, hchain⟩ := childOf_stands h.stands
  refine ⟨?_, fun d hd => h.of_mem (List.mem_of_find?_eq_some hd)⟩
  rw [getObjectItem, hp, Option.bind_some]
  exact objectLoop_chain hchain string (Nat.lt_of_lt_of_le (length_child_lt c) h.size)

/-- **`cJSON_GetArrayItem` in the store** likewise. -/
theorem getArrayItem_fits {σ : Store} {fuel : Nat} {c : CJson} (h : Fits σ fuel c) (item : Nat) :
    getArrayItem σ c.addr item = some (addrOf (c.getArrayItem item)) ∧
      ∀ d, c.getArrayItem item = some d → Fits σ fuel d := by
  obtain ⟨p, hp, hchain⟩ := childOf_stands h.stands
  refine ⟨?_, fun d hd => h.of_mem (List.mem_of_getElem? hd)⟩
  rw [getArrayItem, hp, Option.bind_some]
  exact arrayLoop_chain hchain item

/-! ## The function on trees and in the store -/

/-- What a cursor of the function on trees holds, as a pointer. -/
def pointer : Ptr → Option Addr
  | .indeterminate => none
  | .null => some 0
  | .item c => some c.addr

def inStore (l : Forecast.Locals) : Locals := ⟨l.weather, pointer l.jsonTm, pointer l.jsonTx⟩

/-- Two computations that agree, followed by steps that agree. -/
theorem bind_inStore {x : Option Forecast.Locals} {f : Forecast.Locals → Option Forecast.Locals}
    {g : Locals → Option Locals} (h : ∀ l, g (inStore l) = (f l).map inStore) :
    (x.map inStore).bind g = (x.bind f).map inStore := by
  cases x with
  | none => rfl
  | some l => exact h l

variable {σ : Store} {fuel : Nat} {c : CJson}

theorem readMember_fits (h : Fits σ fuel c) (name : Bytes)
    (use : Bytes → (Fin 3 → WeatherData) → Fin 3 → WeatherData) (l : Forecast.Locals) :
    readMember σ fuel c.addr name use (inStore l) =
      (Forecast.readMember c name use l).map inStore := by
  obtain ⟨hfind, hfits⟩ := getObjectItem_fits h name
  unfold readMember Forecast.readMember
  rw [hfind, Option.bind_eq_bind, Option.bind_some]
  cases hitem : c.getObjectItem name with
  | none => rfl
  | some tx =>
    obtain ⟨haddr, i, hi, hvalue, -⟩ := (hfits tx hitem).stands
    rw [addrOf_some, if_neg haddr, hi]
    simp only [Option.bind_eq_bind, Option.bind_some, hvalue]
    show _ = (tx.valuestring.map _).map inStore
    cases tx.valuestring <;> rfl

theorem readDay_fits (h : Fits σ fuel c) (i : Fin 3) (l : Forecast.Locals) :
    readDay σ fuel i c.addr (inStore l) = (Forecast.readDay i c l).map inStore := by
  have hmember := fun name use l => readMember_fits h name use l
  unfold readDay Forecast.readDay
  simp only [Option.bind_eq_bind]
  rw [hmember]
  refine bind_inStore fun l => ?_
  rw [hmember]
  refine bind_inStore fun l => ?_
  rw [hmember]
  refine bind_inStore fun l => ?_
  rw [hmember]
  refine bind_inStore fun l => ?_
  rw [hmember]
  exact bind_inStore fun l => hmember _ _ l

theorem readLocation_fits (h : Fits σ fuel c) (l : Forecast.Locals) :
    readLocation σ fuel c.addr (inStore l) = (Forecast.readLocation c l).map inStore := by
  obtain ⟨hfind, hfits⟩ := getObjectItem_fits h kLocation
  unfold readLocation Forecast.readLocation
  rw [hfind, Option.bind_eq_bind, Option.bind_some]
  cases hitem : c.getObjectItem kLocation with
  | none => rfl
  | some tx =>
    have htx := hfits tx hitem
    rw [addrOf_some, if_neg htx.stands.addr]
    exact readMember_fits htx kName _ l

theorem readRound_fits (h : Fits σ fuel c) (l : Forecast.Locals) (i : Fin 3) :
    readRound σ fuel c.addr (inStore l) i = (Forecast.readRound c l i).map inStore := by
  have hday : dayAt σ fuel c.addr i = some (addrOf (Forecast.dayAt c i)) ∧
      ∀ d, Forecast.dayAt c i = some d → Fits σ fuel d := by
    obtain ⟨hfind, hfits⟩ := getObjectItem_fits h kDaily
    unfold dayAt Forecast.dayAt
    rw [hfind, Option.bind_eq_bind, Option.bind_some]
    cases hitem : c.getObjectItem kDaily with
    | none => exact ⟨rfl, by simp⟩
    | some daily =>
      have hdaily := hfits daily hitem
      rw [addrOf_some, if_neg hdaily.stands.addr]
      exact getArrayItem_fits hdaily i
  obtain ⟨hfind, hfits⟩ := hday
  unfold readRound Forecast.readRound
  rw [hfind, Option.bind_eq_bind, Option.bind_some]
  cases hitem : Forecast.dayAt c i with
  | none => rfl
  | some daily =>
    have hdaily := hfits daily hitem
    rw [addrOf_some, if_neg hdaily.stands.addr]
    exact readDay_fits hdaily i l

theorem readRounds_fits (h : Fits σ fuel c) (days : List (Fin 3)) (l : Forecast.Locals) :
    days.foldlM (readRound σ fuel c.addr) (inStore l) =
      (days.foldlM (Forecast.readRound c) l).map inStore := by
  induction days generalizing l with
  | nil => rfl
  | cons i days ih =>
    rw [List.foldlM_cons, List.foldlM_cons, readRound_fits h, Option.bind_eq_bind]
    exact bind_inStore ih

/-- The walk of a tree that has a `results[0]` goes on below it. -/
theorem walk_firstResult (h : Fits σ fuel c) {results tm : CJson}
    (hresults : c.getObjectItem kResults = some results) (htm : results.getArrayItem 0 = some tm) :
    walk σ fuel c.addr = readResult σ fuel tm.addr { Locals.start with jsonTm := some tm.addr } ∧
      Fits σ fuel tm := by
  obtain ⟨hfind, hfits⟩ := getObjectItem_fits h kResults
  have hres := hfits results hresults
  obtain ⟨hfirst, hfits⟩ := getArrayItem_fits hres 0
  have htmfits := hfits tm htm
  refine ⟨?_, htmfits⟩
  unfold walk
  rw [if_neg h.stands.addr, hfind, Option.bind_eq_bind, Option.bind_some, hresults, addrOf_some,
    if_neg hres.stands.addr, hfirst, Option.bind_some, htm, addrOf_some]
  exact if_neg htmfits.stands.addr

/-- **The function in the store is the function on trees**: for a tree that stands in the store the
walk ends, with the same records, and frees the items that the function on trees frees. -/
theorem getJSONWeather_stands (h : Fits σ fuel c) : getJSONWeather σ fuel c.addr =
    (Forecast.getJSONWeather (some c)).map fun r => ⟨r.weather, r.freed.map pointer⟩ := by
  obtain ⟨hresults, hfits⟩ := getObjectItem_fits h kResults
  cases hitem : c.getObjectItem kResults with
  | none =>
    unfold getJSONWeather walk
    rw [if_neg h.stands.addr, hresults]
    simp [Forecast.getJSONWeather, hitem, Locals.start, pointer]
  | some results =>
    have hres := hfits results hitem
    cases htm : results.getArrayItem 0 with
    | none =>
      unfold getJSONWeather walk
      rw [if_neg h.stands.addr, hresults, hitem, Option.bind_eq_bind, Option.bind_some, addrOf_some,
        if_neg hres.stands.addr, (getArrayItem_fits hres 0).1, htm]
      simp [Forecast.getJSONWeather, hitem, htm, Locals.start, pointer]
    | some tm =>
      obtain ⟨hwalk, htmfits⟩ := walk_firstResult h hitem htm
      have htree : Forecast.getJSONWeather (some c) = ((Forecast.readLocation tm
          { Forecast.Locals.start with jsonTm := .item tm }).bind fun l =>
            (List.finRange 3).foldlM (Forecast.readRound tm) l).bind fun l =>
              some ⟨l.weather, [l.jsonTm, l.jsonTx]⟩ := by
        simp only [Forecast.getJSONWeather, hitem, htm, Forecast.Locals.start]
        rfl
      have hread : readResult σ fuel tm.addr { Locals.start with jsonTm := some tm.addr } =
          ((Forecast.readLocation tm { Forecast.Locals.start with jsonTm := .item tm }).bind fun l =>
            (List.finRange 3).foldlM (Forecast.readRound tm) l).map inStore := by
        unfold readResult
        rw [Option.bind_eq_bind]
        show (readLocation σ fuel tm.addr (inStore { Forecast.Locals.start with
          jsonTm := .item tm })).bind _ = _
        rw [readLocation_fits htmfits]
        exact bind_inStore fun l => readRounds_fits htmfits _ l
      rw [getJSONWeather, hwalk, htree, hread]
      generalize ((Forecast.readLocation tm { Forecast.Locals.start with jsonTm := .item tm }).bind
        fun l => (List.finRange 3).foldlM (Forecast.readRound tm) l) = x
      cases x <;> rfl

/-- **The damage.** On a tree with a `results[0]`, all of whose members are strings where they are
read, the function returns, and has freed that item of its caller's tree. -/
theorem frees_firstResult (h : Fits σ fuel c) (hstr : StringMembers (some c)) {tm : CJson}
    (hfirst : firstResult (some c) = some tm) :
    ∃ r, getJSONWeather σ fuel c.addr = some r ∧ some tm.addr ∈ r.freed ∧
      Reach σ c.addr tm.addr := by
  obtain ⟨results, hresults, htm⟩ := Option.bind_eq_some_iff.mp hfirst
  rw [Option.bind_some] at hresults
  have hreturns : (getJSONWeather σ fuel c.addr).isSome := by
    rw [getJSONWeather_stands h, Option.isSome_map]
    exact (getJSONWeather_isSome (some c)).mpr hstr
  obtain ⟨r, hr⟩ := Option.isSome_iff_exists.mp hreturns
  obtain ⟨l, hl, rfl⟩ := Option.map_eq_some_iff.mp hr
  obtain ⟨hwalk, htmfits⟩ := walk_firstResult h hresults htm
  obtain ⟨hcursor, -⟩ := readResult_jsonTm htmfits.stands.addr (hwalk.symm.trans hl)
  refine ⟨_, hr, ?_, ?_⟩
  · rw [hcursor]
    exact List.mem_cons_self
  · obtain ⟨hfind, hfits⟩ := getObjectItem_fits h kResults
    have hres := hfits results hresults
    obtain ⟨hget, -⟩ := getArrayItem_fits hres 0
    rw [hresults, addrOf_some] at hfind
    rw [htm, addrOf_some] at hget
    have hroot : Reach σ c.addr c.addr := .root h.stands.addr
    exact reach_getArrayItem (reach_getObjectItem hroot hfind hres.stands.addr) hget
      htmfits.stands.addr

end EmWinDemo.Weather.Frees
