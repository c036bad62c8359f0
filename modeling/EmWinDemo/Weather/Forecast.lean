/-
# EmWinDemo.Weather.Forecast -- `GetJSONWeather`

The function (weather.c) walks a parsed response to `results[0]`, copies the name of the location
into all three records and the members of `daily[0]`, `daily[1]`, `daily[2]` into one record each.
The records come from `malloc`: what no branch assigns stays indeterminate, here `none`.  A member
that is there without being a string is read through its null `valuestring`; the function then
does not return, and the model has no result.

`getJSONWeather_isSome` says when the function returns, `getJSONWeather_codeDay` what the record of
a day holds as its code, for every tree.
-/
import EmWinDemo.Weather.CJson
import Mathlib.Data.List.Nodup
import Mathlib.Data.List.FinRange
import Mathlib.Logic.Function.Basic

namespace EmWinDemo.Weather.Forecast

open EmWinDemo.Lib.CMemory EmWinDemo.Lib.CText

/-! ## The records -/

/-- An array of characters some of which may be indeterminate. -/
abbrev Cells := List (Option UInt8)

/-- `Weather_data`. -/
structure WeatherData where
  codeDay : Option Int
  codeNight : Option Int
  tempHigh : Cells
  tempLow : Cells
  date : Cells
  weatherDay : Cells
  city : Cells
  deriving Repr, DecidableEq

/-- A record as `malloc` returns it. -/
def WeatherData.malloc : WeatherData where
  codeDay := none
  codeNight := none
  tempHigh := List.replicate 4 none
  tempLow := List.replicate 4 none
  date := List.replicate 12 none
  weatherDay := List.replicate 11 none
  city := List.replicate 12 none

/-- `memcpy(field, src, n)` from a C string; what lies behind its terminator is indeterminate. -/
def memcpy (field : Cells) (src : Bytes) (n : Nat) : Cells :=
  (src.map some ++ some 0 :: List.replicate n none).take n ++ field.drop n

/-! ## The assignments of the function, one for each member it reads -/

def setCity (s : Bytes) (w : WeatherData) : WeatherData := { w with city := memcpy w.city s 10 }

def setDate (s : Bytes) (w : WeatherData) : WeatherData :=
  { w with date := (memcpy w.date s 10).set 10 (some 0) }

def setTextDay (s : Bytes) (w : WeatherData) : WeatherData :=
  { w with weatherDay := memcpy w.weatherDay s 10 }

def setCodeDay (s : Bytes) (w : WeatherData) : WeatherData := { w with codeDay := some (atoi s) }

def setCodeNight (s : Bytes) (w : WeatherData) : WeatherData :=
  { w with codeNight := some (atoi s) }

def setHigh (s : Bytes) (w : WeatherData) : WeatherData :=
  { w with tempHigh := memcpy w.tempHigh s 4 }

def setLow (s : Bytes) (w : WeatherData) : WeatherData :=
  { w with tempLow := memcpy w.tempLow s 4 }

/-! ## The names of the members -/

def kResults : Bytes := ascii ['r', 'e', 's', 'u', 'l', 't', 's']
def kLocation : Bytes := ascii ['l', 'o', 'c', 'a', 't', 'i', 'o', 'n']
def kName : Bytes := ascii ['n', 'a', 'm', 'e']
def kDaily : Bytes := ascii ['d', 'a', 'i', 'l', 'y']
def kDate : Bytes := ascii ['d', 'a', 't', 'e']
def kTextDay : Bytes := ascii ['t', 'e', 'x', 't', '_', 'd', 'a', 'y']
def kCodeDay : Bytes := ascii ['c', 'o', 'd', 'e', '_', 'd', 'a', 'y']
def kCodeNight : Bytes := ascii ['c', 'o', 'd', 'e', '_', 'n', 'i', 'g', 'h', 't']
def kHigh : Bytes := ascii ['h', 'i', 'g', 'h']
def kLow : Bytes := ascii ['l', 'o', 'w']

/-! ## The function -/

/-- What one of the two cursor variables holds. -/
inductive Ptr where
  /-- never assigned -/
  | indeterminate
  | null
  | item (c : CJson)

/-- The variables of a call.  `json_daily` is assigned before each use and does not outlive a
round. -/
structure Locals where
  weather : Fin 3 → WeatherData
  jsonTm : Ptr
  jsonTx : Ptr

/-- `json_tx = cJSON_GetObjectItem(object, name); if (json_tx) { … json_tx->valuestring … }`. -/
def readMember (object : CJson) (name : Bytes)
    (use : Bytes → (Fin 3 → WeatherData) → Fin 3 → WeatherData) (l : Locals) : Option Locals :=
  match object.getObjectItem name with
  | none => some { l with jsonTx := .null }
  | some tx => tx.valuestring.map fun s => { l with weather := use s l.weather, jsonTx := .item tx }

/-- An assignment to `Weather[i]`. -/
def setAt (i : Fin 3) (set : Bytes → WeatherData → WeatherData) (s : Bytes)
    (weather : Fin 3 → WeatherData) : Fin 3 → WeatherData :=
  Function.update weather i (set s (weather i))

/-- The name of the location, into all three records. -/
def readLocation (tm : CJson) (l : Locals) : Option Locals :=
  match tm.getObjectItem kLocation with
  | none => some { l with jsonTx := .null }
  | some tx => readMember tx kName (fun s weather i => setCity s (weather i)) l

/-- The members of one day. -/
def readDay (i : Fin 3) (daily : CJson) (l : Locals) : Option Locals := do
  let l ← readMember daily kDate (setAt i setDate) l
  let l ← readMember daily kTextDay (setAt i setTextDay) l
  let l ← readMember daily kCodeDay (setAt i setCodeDay) l
  let l ← readMember daily kCodeNight (setAt i setCodeNight) l
  let l ← readMember daily kHigh (setAt i setHigh) l
  readMember daily kLow (setAt i setLow) l

/-- `json_daily` of round `i`. -/
def dayAt (tm : CJson) (i : Fin 3) : Option CJson :=
  (tm.getObjectItem kDaily).bind fun daily => daily.getArrayItem i

/-- The body of the `for` loop. -/
def readRound (tm : CJson) (l : Locals) (i : Fin 3) : Option Locals :=
  match dayAt tm i with
  | none => some l
  | some daily => readDay i daily l

/-- The three records, and what the two calls of `free` at the end are given. -/
structure Result where
  weather : Fin 3 → WeatherData
  freed : List Ptr

/-- `GetJSONWeather`. -/
def getJSONWeather (json : Option CJson) : Option Result := do
  let l : Locals := ⟨fun _ => .malloc, .indeterminate, .indeterminate⟩
  let l ← match json with
    | none => some l
    | some json =>
      match json.getObjectItem kResults with
      | none => some { l with jsonTm := .null }
      | some results =>
        match results.getArrayItem 0 with
        | none => some { l with jsonTm := .null }
        | some tm => (readLocation tm { l with jsonTm := .item tm }).bind fun l =>
            (List.finRange 3).foldlM (readRound tm) l
  some ⟨l.weather, [l.jsonTm, l.jsonTx]⟩

/-! ## When the function returns -/

/-- A chain of steps succeeds when its first part does and then the rest does, if that depends on
no intermediate state. -/
theorem bind_isSome {α β : Type} {x : Option α} {f : α → Option β} {q : Prop}
    (hf : ∀ a, (f a).isSome ↔ q) : (x.bind f).isSome ↔ x.isSome ∧ q := by
  cases x with
  | none => simp
  | some a => simpa using hf a

theorem readMember_isSome (object : CJson) (name : Bytes)
    (use : Bytes → (Fin 3 → WeatherData) → Fin 3 → WeatherData) (l : Locals) :
    (readMember object name use l).isSome ↔ Readable (object.getObjectItem name) := by
  unfold readMember
  cases object.getObjectItem name with
  | none => simp
  | some tx =>
    show (tx.valuestring.map _).isSome ↔ _
    rw [readable_some, Option.isSome_map]

/-- The members of a day that the function reads. -/
def dayMembers : List Bytes := [kDate, kTextDay, kCodeDay, kCodeNight, kHigh, kLow]

/-- Each of the six members of the day is a string or is missing. -/
def DayReadable (daily : CJson) : Prop :=
  ∀ name ∈ dayMembers, Readable (daily.getObjectItem name)

theorem readDay_isSome (i : Fin 3) (daily : CJson) (l : Locals) :
    (readDay i daily l).isSome ↔ DayReadable daily := by
  have hlow := fun l => readMember_isSome daily kLow (setAt i setLow) l
  have hhigh := fun l => (bind_isSome hlow).trans
    (and_congr_left' (readMember_isSome daily kHigh (setAt i setHigh) l))
  have hnight := fun l => (bind_isSome hhigh).trans
    (and_congr_left' (readMember_isSome daily kCodeNight (setAt i setCodeNight) l))
  have hday := fun l => (bind_isSome hnight).trans
    (and_congr_left' (readMember_isSome daily kCodeDay (setAt i setCodeDay) l))
  have htext := fun l => (bind_isSome hday).trans
    (and_congr_left' (readMember_isSome daily kTextDay (setAt i setTextDay) l))
  have hdate := (bind_isSome htext).trans
    (and_congr_left' (readMember_isSome daily kDate (setAt i setDate) l))
  apply hdate.trans
  unfold DayReadable dayMembers
  simp only [List.forall_mem_cons, List.not_mem_nil, false_implies, forall_const, and_true]

/-- The location's name is a string or is missing. -/
def LocationReadable (tm : CJson) : Prop :=
  Readable ((tm.getObjectItem kLocation).bind fun tx => tx.getObjectItem kName)

theorem readLocation_isSome (tm : CJson) (l : Locals) :
    (readLocation tm l).isSome ↔ LocationReadable tm := by
  unfold readLocation LocationReadable
  cases tm.getObjectItem kLocation with
  | none => simp
  | some tx => exact readMember_isSome tx kName _ l

theorem readRound_isSome (tm : CJson) (l : Locals) (i : Fin 3) :
    (readRound tm l i).isSome ↔ ∀ daily, dayAt tm i = some daily → DayReadable daily := by
  unfold readRound
  cases dayAt tm i with
  | none => simp
  | some daily => simpa using readDay_isSome i daily l

theorem readRounds_isSome (tm : CJson) (days : List (Fin 3)) (l : Locals) :
    (days.foldlM (readRound tm) l).isSome ↔
      ∀ i ∈ days, ∀ daily, dayAt tm i = some daily → DayReadable daily := by
  induction days generalizing l with
  | nil => simp
  | cons i days ih =>
    rw [List.foldlM_cons, List.forall_mem_cons, ← readRound_isSome tm l i]
    exact bind_isSome ih

/-- `results[0]`. -/
def firstResult (json : Option CJson) : Option CJson :=
  (json.bind fun json => json.getObjectItem kResults).bind fun results => results.getArrayItem 0

/-- `results[0].daily[i]`. -/
def dayOf (json : Option CJson) (i : Fin 3) : Option CJson :=
  (firstResult json).bind fun tm => dayAt tm i

/-- Every member the function reads is a string or is missing. -/
structure StringMembers (json : Option CJson) : Prop where
  location : ∀ tm, firstResult json = some tm → LocationReadable tm
  days : ∀ i daily, dayOf json i = some daily → DayReadable daily

/-- The variables the function starts with. -/
def Locals.start : Locals := ⟨fun _ => .malloc, .indeterminate, .indeterminate⟩

/-- Without `results[0]` nothing is read; with it the location and the three days are. -/
theorem getJSONWeather_eq (json : Option CJson) :
    (firstResult json = none ∧
      ∃ freed, getJSONWeather json = some ⟨Locals.start.weather, freed⟩) ∨
    ∃ tm, firstResult json = some tm ∧ getJSONWeather json =
      ((readLocation tm { Locals.start with jsonTm := .item tm }).bind fun l =>
        (List.finRange 3).foldlM (readRound tm) l).bind fun l =>
          some ⟨l.weather, [l.jsonTm, l.jsonTx]⟩ := by
  cases json with
  | none => exact Or.inl ⟨rfl, _, rfl⟩
  | some json =>
    cases hresults : json.getObjectItem kResults with
    | none =>
      refine Or.inl ⟨by simp [firstResult, hresults], [.null, .indeterminate], ?_⟩
      simp [getJSONWeather, hresults, Locals.start]
    | some results =>
      cases htm : results.getArrayItem 0 with
      | none =>
        refine Or.inl ⟨by simp [firstResult, hresults, htm], [.null, .indeterminate], ?_⟩
        simp [getJSONWeather, hresults, htm, Locals.start]
      | some tm =>
        refine Or.inr ⟨tm, by simp [firstResult, hresults, htm], ?_⟩
        simp only [getJSONWeather, hresults, htm, Locals.start]
        rfl

/-- **The function returns exactly on trees whose members are strings where it reads them.** -/
theorem getJSONWeather_isSome (json : Option CJson) :
    (getJSONWeather json).isSome ↔ StringMembers json := by
  rcases getJSONWeather_eq json with ⟨hfirst, freed, heq⟩ | ⟨tm, hfirst, heq⟩
  · rw [heq]
    refine ⟨fun _ => ⟨?_, ?_⟩, fun _ => rfl⟩
    · intro tm htm
      simp [hfirst] at htm
    · intro i daily hdaily
      simp [dayOf, hfirst] at hdaily
  · have hrounds := fun l => readRounds_isSome tm (List.finRange 3) l
    have hret : ∀ l : Locals, (some (Result.mk l.weather [l.jsonTm, l.jsonTx])).isSome ↔ True :=
      fun l => by simp
    rw [heq, bind_isSome hret, bind_isSome hrounds, readLocation_isSome, and_true]
    constructor
    · rintro ⟨hloc, hdays⟩
      refine ⟨fun t ht => ?_, fun i daily hdaily => ?_⟩
      · obtain rfl : tm = t := Option.some.inj (hfirst.symm.trans ht)
        exact hloc
      · exact hdays i (List.mem_finRange i) daily (by simpa [dayOf, hfirst] using hdaily)
    · intro h
      refine ⟨h.location tm hfirst, fun i _ daily hdaily => h.days i daily ?_⟩
      simpa [dayOf, hfirst] using hdaily

/-! ## The code of a day -/

/-- The text of `results[0].daily[i].code_day`, if that is a string. -/
def codeText (json : Option CJson) (i : Fin 3) : Option Bytes :=
  (dayOf json i).bind fun daily => text (daily.getObjectItem kCodeDay)

/-- A member whose assignment leaves the codes alone leaves the codes alone. -/
theorem readMember_codeDay_frame {object : CJson} {name : Bytes}
    {use : Bytes → (Fin 3 → WeatherData) → Fin 3 → WeatherData} {l l' : Locals}
    (h : readMember object name use l = some l')
    (huse : ∀ s w j, (use s w j).codeDay = (w j).codeDay) (j : Fin 3) :
    (l'.weather j).codeDay = (l.weather j).codeDay := by
  unfold readMember at h
  cases hm : object.getObjectItem name with
  | none =>
    rw [hm] at h
    obtain rfl := Option.some.inj h
    rfl
  | some tx =>
    rw [hm] at h
    obtain ⟨s, _, rfl⟩ := Option.map_eq_some_iff.mp h
    exact huse s l.weather j

/-- An assignment to one record that keeps its code keeps all codes. -/
theorem setAt_codeDay {i : Fin 3} {set : Bytes → WeatherData → WeatherData}
    (hset : ∀ s w, (set s w).codeDay = w.codeDay) (s : Bytes) (w : Fin 3 → WeatherData)
    (j : Fin 3) : (setAt i set s w j).codeDay = (w j).codeDay := by
  unfold setAt
  rcases eq_or_ne j i with rfl | hj
  · rw [Function.update_self, hset]
  · rw [Function.update_of_ne hj]

/-- The code of record `i` is the number the member's text starts with. -/
theorem readMember_codeDay {i : Fin 3} {daily : CJson} {l l' : Locals}
    (h : readMember daily kCodeDay (setAt i setCodeDay) l = some l') (j : Fin 3) :
    (l'.weather j).codeDay = if j = i then
      ((text (daily.getObjectItem kCodeDay)).map atoi).or (l.weather i).codeDay
      else (l.weather j).codeDay := by
  unfold readMember at h
  cases hm : daily.getObjectItem kCodeDay with
  | none =>
    rw [hm] at h
    obtain rfl := Option.some.inj h
    split
    · next hj => rw [hj]; rfl
    · rfl
  | some tx =>
    rw [hm] at h
    obtain ⟨s, hs, rfl⟩ := Option.map_eq_some_iff.mp h
    show (Function.update l.weather i _ j).codeDay = _
    rw [text_some, hs]
    rcases eq_or_ne j i with rfl | hj
    · rw [Function.update_self, if_pos rfl]
      rfl
    · rw [Function.update_of_ne hj, if_neg hj]

theorem readDay_codeDay {i : Fin 3} {daily : CJson} {l l' : Locals}
    (h : readDay i daily l = some l') (j : Fin 3) :
    (l'.weather j).codeDay = if j = i then
      ((text (daily.getObjectItem kCodeDay)).map atoi).or (l.weather i).codeDay
      else (l.weather j).codeDay := by
  obtain ⟨l1, h1, h⟩ := Option.bind_eq_some_iff.mp h
  obtain ⟨l2, h2, h⟩ := Option.bind_eq_some_iff.mp h
  obtain ⟨l3, h3, h⟩ := Option.bind_eq_some_iff.mp h
  obtain ⟨l4, h4, h⟩ := Option.bind_eq_some_iff.mp h
  obtain ⟨l5, h5, h6⟩ := Option.bind_eq_some_iff.mp h
  have before : ∀ k, (l2.weather k).codeDay = (l.weather k).codeDay := fun k =>
    (readMember_codeDay_frame h2 (setAt_codeDay fun _ _ => rfl) k).trans
      (readMember_codeDay_frame h1 (setAt_codeDay fun _ _ => rfl) k)
  have after : (l'.weather j).codeDay = (l3.weather j).codeDay :=
    (readMember_codeDay_frame h6 (setAt_codeDay fun _ _ => rfl) j).trans <|
      (readMember_codeDay_frame h5 (setAt_codeDay fun _ _ => rfl) j).trans <|
        readMember_codeDay_frame h4 (setAt_codeDay fun _ _ => rfl) j
  rw [after, readMember_codeDay h3 j, before i, before j]

/-- The text of the code in `daily[i]` below `results[0]`. -/
def roundCode (tm : CJson) (i : Fin 3) : Option Bytes :=
  (dayAt tm i).bind fun daily => text (daily.getObjectItem kCodeDay)

theorem readRound_codeDay {tm : CJson} {i : Fin 3} {l l' : Locals}
    (h : readRound tm l i = some l') (j : Fin 3) :
    (l'.weather j).codeDay = if j = i then ((roundCode tm i).map atoi).or (l.weather i).codeDay
      else (l.weather j).codeDay := by
  unfold readRound at h
  unfold roundCode
  cases hd : dayAt tm i with
  | none =>
    rw [hd] at h
    obtain rfl := Option.some.inj h
    split
    · next hj => rw [hj]; rfl
    · rfl
  | some daily =>
    rw [hd] at h
    exact readDay_codeDay h j

/-- The rounds write the codes of their own days only, each once. -/
theorem readRounds_codeDay {tm : CJson} {days : List (Fin 3)} (hnodup : days.Nodup) {l l' : Locals}
    (h : days.foldlM (readRound tm) l = some l') (j : Fin 3) :
    (l'.weather j).codeDay = if j ∈ days then ((roundCode tm j).map atoi).or (l.weather j).codeDay
      else (l.weather j).codeDay := by
  induction days generalizing l with
  | nil =>
    obtain rfl := Option.some.inj h
    rw [if_neg List.not_mem_nil]
  | cons i days ih =>
    obtain ⟨hi, hrest⟩ := List.nodup_cons.mp hnodup
    rw [List.foldlM_cons] at h
    obtain ⟨m, hm, h⟩ := Option.bind_eq_some_iff.mp h
    rw [ih hrest h, readRound_codeDay hm j]
    rcases eq_or_ne j i with rfl | hj
    · rw [if_neg hi, if_pos rfl, if_pos List.mem_cons_self]
    · rw [if_neg hj]
      simp only [List.mem_cons, hj, false_or]

theorem readLocation_codeDay {tm : CJson} {l l' : Locals} (h : readLocation tm l = some l')
    (j : Fin 3) : (l'.weather j).codeDay = (l.weather j).codeDay := by
  unfold readLocation at h
  cases hloc : tm.getObjectItem kLocation with
  | none =>
    rw [hloc] at h
    obtain rfl := Option.some.inj h
    rfl
  | some tx =>
    rw [hloc] at h
    exact readMember_codeDay_frame h (fun _ _ _ => rfl) j

/-- **The code in the record of a day.** It is the number the text of the day's `code_day` starts
with, and stays indeterminate when there is no such text. -/
theorem getJSONWeather_codeDay {json : Option CJson} {r : Result}
    (h : getJSONWeather json = some r) (i : Fin 3) :
    (r.weather i).codeDay = (codeText json i).map atoi := by
  rcases getJSONWeather_eq json with ⟨hfirst, freed, heq⟩ | ⟨tm, hfirst, heq⟩
  · obtain rfl := Option.some.inj (heq.symm.trans h)
    simp only [codeText, dayOf, hfirst, Option.bind_none, Option.map_none]
    rfl
  · rw [heq] at h
    obtain ⟨l2, h2, h⟩ := Option.bind_eq_some_iff.mp h
    obtain ⟨l1, h1, h2⟩ := Option.bind_eq_some_iff.mp h2
    obtain rfl := Option.some.inj h
    have hrounds := readRounds_codeDay (List.nodup_finRange 3) h2 i
    have hstart : (l1.weather i).codeDay = none := readLocation_codeDay h1 i
    rw [if_pos (List.mem_finRange i), hstart, Option.or_none] at hrounds
    show (l2.weather i).codeDay = _
    rw [hrounds, codeText, dayOf, hfirst, Option.bind_some, roundCode]

end EmWinDemo.Weather.Forecast
