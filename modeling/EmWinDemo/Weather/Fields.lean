/-
# EmWinDemo.Weather.Fields -- the texts in the three records

`GetJSONWeather` (weather.c) copies every text with a fixed length: ten bytes of the name of the
location, of a date and of a description, four of a temperature.  A shorter text is copied with
the bytes behind its terminator, a longer one arrives without a terminator; only the date is
terminated by an assignment of its own.

`fieldsOk_iff` says for which texts the three records come out as they should, for every tree that
has the members the function reads.
-/
import EmWinDemo.Weather.Forecast

namespace EmWinDemo.Weather.Fields

open EmWinDemo.Lib.CMemory EmWinDemo.Lib.CText EmWinDemo.Weather.Forecast

/-! ## The trees -/

/-- A C string without its terminator. -/
abbrev CString := { s : Bytes // (0 : UInt8) ∉ s }

/-- The strings of one day. -/
structure Day where
  date : CString
  textDay : CString
  codeDay : CString
  codeNight : CString
  high : CString
  low : CString

/-- An object with these members, and others. -/
structure IsDay (d : Day) (daily : CJson) : Prop where
  date : text (daily.getObjectItem kDate) = some d.date
  textDay : text (daily.getObjectItem kTextDay) = some d.textDay
  codeDay : text (daily.getObjectItem kCodeDay) = some d.codeDay
  codeNight : text (daily.getObjectItem kCodeNight) = some d.codeNight
  high : text (daily.getObjectItem kHigh) = some d.high
  low : text (daily.getObjectItem kLow) = some d.low

/-- A tree with `results[0].location.name` and three days in `results[0].daily`. -/
structure IsForecast (name : CString) (days : Fin 3 → Day) (json : CJson) : Prop where
  name : text (((firstResult (some json)).bind fun tm => tm.getObjectItem kLocation).bind
    fun tx => tx.getObjectItem kName) = some name
  days : ∀ i, ∃ daily, dayOf (some json) i = some daily ∧ IsDay (days i) daily

/-! ## The fields -/

/-- A field of `capacity` characters, the first `copied` of them copied from `src`. -/
structure FieldOk (field : Cells) (capacity copied : Nat) (src : Bytes) : Prop where
  shows : readCells field = some (src.take (capacity - 1))
  /-- the copy has read no byte past the terminator of its source -/
  inSource : none ∉ field.take copied

/-- A record that holds its day. -/
structure RecordOk (name : CString) (d : Day) (w : WeatherData) : Prop where
  codeDay : w.codeDay = some (atoi d.codeDay)
  codeNight : w.codeNight = some (atoi d.codeNight)
  city : FieldOk w.city 12 10 name
  date : FieldOk w.date 12 10 d.date
  weatherDay : FieldOk w.weatherDay 11 10 d.textDay
  tempHigh : FieldOk w.tempHigh 4 4 d.high
  tempLow : FieldOk w.tempLow 4 4 d.low

/-- The function returns, with a record for each of the days. -/
def FieldsOk (name : CString) (days : Fin 3 → Day) (json : CJson) : Prop :=
  ∃ r, getJSONWeather (some json) = some r ∧ ∀ i, RecordOk name (days i) (r.weather i)

/-! ## The records of a forecast -/

/-- The assignments of one round. -/
def setDay (d : Day) (w : WeatherData) : WeatherData :=
  setLow d.low (setHigh d.high (setCodeNight d.codeNight (setCodeDay d.codeDay
    (setTextDay d.textDay (setDate d.date w)))))

theorem readMember_eq {object : CJson} {name s : Bytes} (h : text (object.getObjectItem name) = some s)
    (use : Bytes → (Fin 3 → WeatherData) → Fin 3 → WeatherData) (l : Locals) :
    ∃ l', readMember object name use l = some l' ∧ l'.weather = use s l.weather := by
  unfold readMember
  cases hitem : object.getObjectItem name with
  | none =>
    rw [hitem] at h
    cases h
  | some tx =>
    rw [hitem, text_some] at h
    exact ⟨{ l with weather := use s l.weather, jsonTx := .item tx }, by simp [h], rfl⟩

/-- Two assignments to the same record. -/
theorem setAt_update (i : Fin 3) (set : Bytes → WeatherData → WeatherData) (s : Bytes)
    (weather : Fin 3 → WeatherData) (w : WeatherData) :
    setAt i set s (Function.update weather i w) = Function.update weather i (set s w) := by
  rw [setAt, Function.update_self, Function.update_idem]

/-- One round fills the record of its day. -/
theorem readDay_eq {d : Day} {daily : CJson} (h : IsDay d daily) (i : Fin 3) (l : Locals) :
    ∃ l', readDay i daily l = some l' ∧
      l'.weather = Function.update l.weather i (setDay d (l.weather i)) := by
  obtain ⟨l1, h1, hw1⟩ := readMember_eq h.date (setAt i setDate) l
  obtain ⟨l2, h2, hw2⟩ := readMember_eq h.textDay (setAt i setTextDay) l1
  obtain ⟨l3, h3, hw3⟩ := readMember_eq h.codeDay (setAt i setCodeDay) l2
  obtain ⟨l4, h4, hw4⟩ := readMember_eq h.codeNight (setAt i setCodeNight) l3
  obtain ⟨l5, h5, hw5⟩ := readMember_eq h.high (setAt i setHigh) l4
  obtain ⟨l6, h6, hw6⟩ := readMember_eq h.low (setAt i setLow) l5
  refine ⟨l6, ?_, ?_⟩
  · simp only [readDay, h1, h2, h3, h4, h5, h6, Option.bind_eq_bind, Option.bind_some]
  · rw [hw6, hw5, hw4, hw3, hw2, hw1]
    show setAt i setLow _ (setAt i setHigh _ (setAt i setCodeNight _ (setAt i setCodeDay _
      (setAt i setTextDay _ (Function.update l.weather i _))))) = _
    simp only [setAt_update]
    rfl

/-- The rounds fill the records of their days, each once. -/
theorem readRounds_eq {tm : CJson} {days : Fin 3 → Day}
    (h : ∀ i, ∃ daily, dayAt tm i = some daily ∧ IsDay (days i) daily) {rounds : List (Fin 3)}
    (hnodup : rounds.Nodup) (l : Locals) :
    ∃ l', rounds.foldlM (readRound tm) l = some l' ∧ ∀ j, l'.weather j =
      if j ∈ rounds then setDay (days j) (l.weather j) else l.weather j := by
  induction rounds generalizing l with
  | nil => exact ⟨l, rfl, fun j => rfl⟩
  | cons i rounds ih =>
    obtain ⟨hi, hrest⟩ := List.nodup_cons.mp hnodup
    obtain ⟨daily, hdaily, hday⟩ := h i
    obtain ⟨l1, h1, hw1⟩ := readDay_eq hday i l
    obtain ⟨l2, h2, hw2⟩ := ih hrest l1
    refine ⟨l2, ?_, fun j => ?_⟩
    · have hround : readRound tm l i = some l1 := by
        unfold readRound
        rw [hdaily]
        exact h1
      rw [List.foldlM_cons, hround]
      exact h2
    · rw [hw2, hw1]
      rcases eq_or_ne j i with rfl | hj
      · rw [if_neg hi, if_pos List.mem_cons_self, Function.update_self]
      · simp only [List.mem_cons, hj, false_or, Function.update_of_ne hj]

/-- **What the function returns for a forecast**: each record as `malloc` gave it, with the name
and then the members of its day copied in. -/
theorem getJSONWeather_forecast {name : CString} {days : Fin 3 → Day} {json : CJson}
    (h : IsForecast name days json) :
    ∃ r, getJSONWeather (some json) = some r ∧
      ∀ i, r.weather i = setDay (days i) (setCity name .malloc) := by
  rcases getJSONWeather_eq (some json) with ⟨hfirst, freed, -⟩ | ⟨tm, hfirst, heq⟩
  · have hname := h.name
    rw [hfirst] at hname
    cases hname
  · have hname := h.name
    rw [hfirst, Option.bind_some] at hname
    have hdays : ∀ i, ∃ daily, dayAt tm i = some daily ∧ IsDay (days i) daily := by
      intro i
      obtain ⟨daily, hdaily, hday⟩ := h.days i
      rw [dayOf, hfirst, Option.bind_some] at hdaily
      exact ⟨daily, hdaily, hday⟩
    have hloc : ∃ l1, readLocation tm { Locals.start with jsonTm := .item tm } = some l1 ∧
        l1.weather = fun _ => setCity name .malloc := by
      unfold readLocation
      cases hitem : tm.getObjectItem kLocation with
      | none =>
        rw [hitem] at hname
        cases hname
      | some tx =>
        rw [hitem, Option.bind_some] at hname
        exact readMember_eq hname _ _
    obtain ⟨l1, h1, hw1⟩ := hloc
    obtain ⟨l2, h2, hw2⟩ := readRounds_eq hdays (List.nodup_finRange 3) l1
    refine ⟨⟨l2.weather, [l2.jsonTm, l2.jsonTx]⟩, ?_, fun i => ?_⟩
    · rw [heq, h1, Option.bind_some, h2, Option.bind_some]
    · show l2.weather i = _
      rw [hw2, if_pos (List.mem_finRange i), hw1]

/-! ## Reading a field -/

/-- A copy no longer than its source. -/
theorem memcpy_long {s : Bytes} {n : Nat} (h : n ≤ s.length) (cap : Nat) :
    memcpy (List.replicate cap none) s n =
      (s.take n).map some ++ List.replicate (cap - n) none := by
  have htake : (s.map some ++ some 0 :: List.replicate n none).take n = (s.take n).map some := by
    rw [List.take_append_of_le_length (by simpa using h), List.map_take]
  rw [memcpy, htake, List.drop_replicate]

/-- A part that reaches beyond the characters of a string. -/
theorem take_length_add (s : Bytes) (k : Nat) (rest : Cells) :
    (s.map some ++ rest).take (s.length + k) = s.map some ++ rest.take k := by
  have hfront : s.length = (s.map (some : UInt8 → Option UInt8)).length := by simp
  rw [hfront, List.take_length_add_append]

/-- A copy that takes the terminator along. -/
theorem memcpy_short {s : Bytes} {n : Nat} (h : s.length < n) (cap : Nat) :
    memcpy (List.replicate cap none) s n = s.map some ++ some 0 ::
      (List.replicate (n - (s.length + 1)) none ++ List.replicate (cap - n) none) := by
  have htake : (s.map some ++ some 0 :: List.replicate n none).take n =
      s.map some ++ some 0 :: List.replicate (n - (s.length + 1)) (none : Option UInt8) := by
    have hmin : min (n - (s.length + 1)) n = n - (s.length + 1) := by omega
    have hn : n = s.length + (n - (s.length + 1) + 1) := by omega
    conv_lhs => arg 1; rw [hn]
    rw [take_length_add, List.take_succ_cons, List.take_replicate, hmin]
  rw [memcpy, htake, List.drop_replicate]
  simp

/-- A copy of more bytes than the string has takes indeterminate ones along. -/
theorem length_of_inSource {s : Bytes} {n cap : Nat}
    (h : none ∉ (memcpy (List.replicate cap none) s n).take n) : n ≤ s.length + 1 := by
  by_contra hlong
  apply h
  rw [memcpy_short (by omega)]
  have hk : n - (s.length + 1) = (n - (s.length + 2)) + 1 := by omega
  have hn : n = s.length + (n - (s.length + 2) + 2) := by omega
  rw [hk, List.replicate_succ]
  conv in List.take n _ => rw [hn]
  rw [take_length_add]
  simp

/-- **A plain copy** is right exactly for the strings that fill it with their terminator. -/
theorem fieldOk_memcpy_iff {s : Bytes} (hs : (0 : UInt8) ∉ s) {n cap : Nat} (hcap : n ≤ cap) :
    FieldOk (memcpy (List.replicate cap none) s n) cap n s ↔ s.length + 1 = n := by
  constructor
  · intro h
    have hle := length_of_inSource h.inSource
    by_contra hne
    have hopen := h.shows
    have hs' : (0 : UInt8) ∉ s.take n := fun h0 => hs (List.mem_of_mem_take h0)
    rw [memcpy_long (by omega), readCells_open hs'] at hopen
    cases hopen
  · rintro rfl
    rw [memcpy_short (Nat.lt_succ_self _), Nat.sub_self]
    constructor
    · rw [readCells_terminated hs, List.take_of_length_le (by omega)]
    · rw [take_length_add]
      simp

/-- A date that is long enough, with its terminator. -/
theorem date_long {s : Bytes} (h : 10 ≤ s.length) :
    (memcpy (List.replicate 12 none) s 10).set 10 (some 0) =
      (s.take 10).map some ++ [some 0, none] := by
  have hten : ((s.take 10).map (some : UInt8 → Option UInt8)).length = 10 := by
    rw [List.length_map, List.length_take_of_le h]
  rw [memcpy_long h, List.set_append_right _ _ (by omega), hten]
  rfl

/-- A date that ends with its ninth character has two terminators. -/
theorem date_nine {s : Bytes} (h : s.length = 9) :
    (memcpy (List.replicate 12 none) s 10).set 10 (some 0) =
      s.map some ++ some 0 :: [some 0, none] := by
  have hnine : (s.map (some : UInt8 → Option UInt8)).length = 9 := by rw [List.length_map, h]
  rw [memcpy_short (by omega), List.set_append_right _ _ (by omega), hnine, h]
  rfl

/-- **The date**, which is terminated behind its tenth character. -/
theorem fieldOk_date_iff {s : Bytes} (hs : (0 : UInt8) ∉ s) :
    FieldOk ((memcpy (List.replicate 12 none) s 10).set 10 (some 0)) 12 10 s ↔
      s.length = 9 ∨ s.length = 10 := by
  have hs' : (0 : UInt8) ∉ s.take 10 := fun h0 => hs (List.mem_of_mem_take h0)
  constructor
  · intro h
    have hcopied : none ∉ (memcpy (List.replicate 12 none) s 10).take 10 := by
      have hset := h.inSource
      rwa [List.take_set_of_le (Nat.le_refl 10)] at hset
    have hle := length_of_inSource hcopied
    by_contra hne
    -- the eleventh byte would still fit, but it is not copied
    have hshows := h.shows
    rw [date_long (by omega), readCells_terminated hs'] at hshows
    have hlen := congrArg List.length (Option.some.inj hshows)
    simp only [List.length_take] at hlen
    omega
  · rintro (h | h)
    · constructor
      · rw [date_nine h, readCells_terminated hs, List.take_of_length_le (by omega)]
      · rw [date_nine h, show 10 = s.length + 1 by omega, take_length_add]
        simp
    · constructor
      · rw [date_long (by omega), readCells_terminated hs', List.take_of_length_le (by omega),
          List.take_of_length_le (by omega)]
      · rw [date_long (by omega), List.take_left' (by simp [h]), List.take_of_length_le (by omega)]
        simp

/-! ## The records -/

/-- The lengths for which the copies of one round come out right. -/
structure Fitting (name : CString) (d : Day) : Prop where
  name : name.val.length = 9
  date : d.date.val.length = 9 ∨ d.date.val.length = 10
  textDay : d.textDay.val.length = 9
  high : d.high.val.length = 3
  low : d.low.val.length = 3

theorem recordOk_iff (name : CString) (d : Day) :
    RecordOk name d (setDay d (setCity name .malloc)) ↔ Fitting name d := by
  have hcity := fieldOk_memcpy_iff name.2 (show 10 ≤ 12 by decide)
  have hdate := fieldOk_date_iff d.date.2
  have htext := fieldOk_memcpy_iff d.textDay.2 (show 10 ≤ 11 by decide)
  have hhigh := fieldOk_memcpy_iff d.high.2 (Nat.le_refl 4)
  have hlow := fieldOk_memcpy_iff d.low.2 (Nat.le_refl 4)
  constructor
  · intro h
    have h1 := hcity.mp h.city
    have h2 := htext.mp h.weatherDay
    have h3 := hhigh.mp h.tempHigh
    have h4 := hlow.mp h.tempLow
    exact ⟨by omega, hdate.mp h.date, by omega, by omega, by omega⟩
  · intro h
    exact ⟨rfl, rfl, hcity.mpr (by rw [h.name]), hdate.mpr h.date, htext.mpr (by rw [h.textDay]),
      hhigh.mpr (by rw [h.high]), hlow.mpr (by rw [h.low])⟩

/-- **The records of a forecast.** They hold the texts of their days, and no copy has read past
its source, exactly when every text has a length that its copy is made for. -/
theorem fieldsOk_iff (name : CString) (days : Fin 3 → Day) (json : CJson)
    (h : IsForecast name days json) :
    FieldsOk name days json ↔ ∀ i, Fitting name (days i) := by
  obtain ⟨r, hr, hrecords⟩ := getJSONWeather_forecast h
  constructor
  · rintro ⟨r', hr', hok⟩ i
    obtain rfl : r = r' := Option.some.inj (hr.symm.trans hr')
    have hrec := hok i
    rw [hrecords] at hrec
    exact (recordOk_iff name (days i)).mp hrec
  · intro hfit
    refine ⟨r, hr, fun i => ?_⟩
    rw [hrecords]
    exact (recordOk_iff name (days i)).mpr (hfit i)

/-! ## A response -/

/-- A member with a string. -/
def member (name value : Bytes) : CJson := .node 0 (some name) (some value) []

def dayItem (d : Day) : CJson :=
  .node 0 none none [member kDate d.date, member kTextDay d.textDay, member kCodeDay d.codeDay,
    member kCodeNight d.codeNight, member kHigh d.high, member kLow d.low]

/-- The tree of a response for three days. -/
def response (name : CString) (days : Fin 3 → Day) : CJson :=
  let location := CJson.node 0 (some kLocation) none [member kName name]
  let daily := CJson.node 0 (some kDaily) none [dayItem (days 0), dayItem (days 1), dayItem (days 2)]
  .node 0 none none [.node 0 (some kResults) none [.node 0 none none [location, daily]]]

theorem isForecast_response (name : CString) (days : Fin 3 → Day) :
    IsForecast name days (response name days) where
  name := rfl
  days := fun i => match i with
    | 0 => ⟨dayItem (days 0), rfl, rfl, rfl, rfl, rfl, rfl, rfl⟩
    | 1 => ⟨dayItem (days 1), rfl, rfl, rfl, rfl, rfl, rfl, rfl⟩
    | 2 => ⟨dayItem (days 2), rfl, rfl, rfl, rfl, rfl, rfl, rfl⟩

/-- A name of eight letters. -/
def shenzhen : CString := ⟨ascii ['S', 'h', 'e', 'n', 'z', 'h', 'e', 'n'], by decide⟩

def sunnyDay : Day where
  date := ⟨ascii ['2', '0', '1', '9', '-', '0', '3', '-', '0', '5'], by decide⟩
  textDay := ⟨ascii ['S', 'u', 'n', 'n', 'y'], by decide⟩
  codeDay := ⟨ascii ['0'], by decide⟩
  codeNight := ⟨ascii ['1'], by decide⟩
  high := ⟨ascii ['2', '5'], by decide⟩
  low := ⟨ascii ['1', '8'], by decide⟩

theorem fieldsOk_iff_shenzhen :
    FieldsOk shenzhen (fun _ => sunnyDay) (response shenzhen fun _ => sunnyDay) ↔
      ∀ i : Fin 3, Fitting shenzhen ((fun _ => sunnyDay) i) :=
  fieldsOk_iff shenzhen (fun _ => sunnyDay) _ (isForecast_response shenzhen fun _ => sunnyDay)

/-- The name is copied together with a byte behind its terminator. -/
theorem not_fieldsOk_shenzhen :
    ¬∀ (name : CString) (days : Fin 3 → Day) (json : CJson), IsForecast name days json →
      FieldsOk name days json := by
  intro hall
  have hforecast := isForecast_response shenzhen fun _ => sunnyDay
  obtain ⟨r, hr, hok⟩ := hall _ _ _ hforecast
  obtain ⟨r', hr', hrecords⟩ := getJSONWeather_forecast hforecast
  obtain rfl : r' = r := Option.some.inj (hr'.symm.trans hr)
  have hrec := hok 0
  rw [hrecords] at hrec
  exact absurd ((recordOk_iff shenzhen sunnyDay).mp hrec).name (by decide)

end EmWinDemo.Weather.Fields
