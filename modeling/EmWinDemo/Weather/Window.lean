/-
# EmWinDemo.Weather.Window -- painting and refreshing the weather window

`_cbWindow_WeatherActivity` (WeatherActivity.c) draws three icons, each picked from a table of 18 by
the day's code, and on the release of its button replaces the three records by what
`GetJSONWeather` makes of a new fetch, whatever the fetch returned.

`iconsInRange_iff` says for which trees all three lookups stay in the tables and unknown codes get
the last entry.  `not_keeps_of_failing` says that no failing refresh leaves the records on display
alone, and `released_of_failing` what it puts in their place.
-/
import EmWinDemo.Weather.Forecast
import EmWinDemo.Weather.ReadPage

namespace EmWinDemo.Weather.Window

open EmWinDemo.Lib.CMemory EmWinDemo.Lib.CText EmWinDemo.Socket.ClientRead
open EmWinDemo.Weather.Forecast EmWinDemo.Weather.ReadPage

/-! ## The icons -/

/-- `Weather_Icon_180x180`, the pictures named by the numbers in their names. -/
def weatherIcon180x180 : List Nat :=
  [0, 1, 2, 3, 4, 5, 6, 7, 8, 9, 10, 11, 12, 13, 14, 15, 16, 99]

/-- `Weather_Icon`. -/
def weatherIcon : List Nat :=
  [0, 1, 2, 3, 4, 5, 6, 7, 8, 9, 10, 11, 12, 13, 14, 15, 16, 99]

/-- `UNKNOWN`: the entry of the picture for code 99. -/
def unknown : Nat := 17

/-- The table that is indexed with the code of day `i`. -/
def iconTable : Fin 3 → List Nat
  | 0 => weatherIcon180x180
  | 1 => weatherIcon
  | 2 => weatherIcon

/-- An access to a table; none outside it or with an indeterminate index. -/
def iconAt (table : List Nat) (code : Option Int) : Option Nat :=
  code.bind fun n => if 0 ≤ n then table[n.toNat]? else none

/-- The three calls of `GUI_PNG_Draw` in `WM_PAINT`. -/
def paintIcons (weather : Fin 3 → WeatherData) : Option (List Nat) :=
  (List.finRange 3).mapM fun i => iconAt (iconTable i) (weather i).codeDay

theorem length_iconTable (i : Fin 3) : (iconTable i).length = 18 := by
  match i with
  | 0 | 1 | 2 => rfl

theorem iconAt_isSome {table : List Nat} {code : Option Int} :
    (iconAt table code).isSome ↔ ∃ n : Nat, code = some (n : Int) ∧ n < table.length := by
  unfold iconAt
  constructor
  · intro h
    obtain ⟨icon, h⟩ := Option.isSome_iff_exists.mp h
    obtain ⟨n, rfl, hn⟩ := Option.bind_eq_some_iff.mp h
    by_cases hpos : 0 ≤ n
    · rw [if_pos hpos] at hn
      obtain ⟨hlt, -⟩ := List.getElem?_eq_some_iff.mp hn
      exact ⟨n.toNat, by rw [Int.toNat_of_nonneg hpos], hlt⟩
    · rw [if_neg hpos] at hn
      cases hn
  · rintro ⟨n, rfl, hn⟩
    simp [hn]

/-- The code of a day that stands in the record and selects an entry of the day's table. -/
def Selects (weather : Fin 3 → WeatherData) (i : Fin 3) (n : Nat) : Prop :=
  (weather i).codeDay = some (n : Int) ∧ n < (iconTable i).length

/-- The painting is defined exactly when each day's code selects an entry. -/
theorem paintIcons_isSome (weather : Fin 3 → WeatherData) :
    (paintIcons weather).isSome ↔ ∀ i, ∃ n, Selects weather i n := by
  have hdays : ∀ days : List (Fin 3),
      (days.mapM fun i => iconAt (iconTable i) (weather i).codeDay).isSome ↔
        ∀ i ∈ days, ∃ n, Selects weather i n := by
    intro days
    induction days with
    | nil => simp
    | cons i days ih =>
      rw [List.mapM_cons, List.forall_mem_cons, ← ih]
      have htail : ∀ icon : Nat, (do
          let icons ← days.mapM fun i => iconAt (iconTable i) (weather i).codeDay
          pure (icon :: icons) : Option (List Nat)).isSome ↔
            (days.mapM fun i => iconAt (iconTable i) (weather i).codeDay).isSome := by
        intro icon
        have hret : ∀ icons : List Nat, (some (icon :: icons)).isSome ↔ True := fun _ => by simp
        exact (bind_isSome hret).trans (iff_of_eq (and_true _))
      exact (bind_isSome htail).trans (and_congr_left' iconAt_isSome)
  exact (hdays (List.finRange 3)).trans ⟨fun h i => h i (List.mem_finRange i), fun h i _ => h i⟩

/-- The codes that have a picture of their own. -/
def listedCodes : List Bytes := (List.range 17).map fun n => ascii (Nat.toDigits 10 n)

/-- Day `i` of the tree has a code, and one with a picture of its own. -/
def Listed (json : Option CJson) (i : Fin 3) : Prop := ∃ s ∈ listedCodes, codeText json i = some s

/-- Each of the three codes is defined and selects an entry of its table; a code without a
picture of its own, `99` among them, and a missing one select the picture for unknown weather. -/
def IconsInRange (json : Option CJson) : Prop :=
  ∃ r, getJSONWeather json = some r ∧
    ∀ i, ∃ n, Selects r.weather i n ∧ (¬Listed json i → n = unknown)

theorem atoi_of_listed {s : Bytes} (h : s ∈ listedCodes) : 0 ≤ atoi s ∧ atoi s < 17 := by
  have hall : ∀ s ∈ listedCodes, 0 ≤ atoi s ∧ atoi s < 17 := by decide
  exact hall s h

/-- **Which trees keep the lookups in range.** The members the function reads have to be strings
where they are there at all, and each day needs a code that is listed or reads as 17. -/
theorem iconsInRange_iff (json : Option CJson) :
    IconsInRange json ↔ StringMembers json ∧
      ∀ i, ∃ s, codeText json i = some s ∧ (s ∈ listedCodes ∨ atoi s = 17) := by
  constructor
  · rintro ⟨r, hr, hicons⟩
    refine ⟨(getJSONWeather_isSome json).mp (Option.isSome_iff_exists.mpr ⟨r, hr⟩), fun i => ?_⟩
    obtain ⟨n, ⟨hcode, -⟩, hunlisted⟩ := hicons i
    rw [getJSONWeather_codeDay hr i] at hcode
    obtain ⟨s, hs, hn⟩ := Option.map_eq_some_iff.mp hcode
    refine ⟨s, hs, ?_⟩
    by_cases hlist : s ∈ listedCodes
    · exact Or.inl hlist
    · have hnot : ¬Listed json i := by
        rintro ⟨s', hs', htext⟩
        obtain rfl : s = s' := Option.some.inj (hs.symm.trans htext)
        exact hlist hs'
      rw [hn, hunlisted hnot]
      exact Or.inr rfl
  · rintro ⟨hmembers, hcodes⟩
    obtain ⟨r, hr⟩ := Option.isSome_iff_exists.mp ((getJSONWeather_isSome json).mpr hmembers)
    refine ⟨r, hr, fun i => ?_⟩
    obtain ⟨s, hs, hcode⟩ := hcodes i
    have hval : (r.weather i).codeDay = some (atoi s) := by
      rw [getJSONWeather_codeDay hr i, hs]
      rfl
    have hrange : 0 ≤ atoi s ∧ atoi s < 18 := by
      rcases hcode with hlist | h17
      · have := atoi_of_listed hlist
        omega
      · omega
    refine ⟨(atoi s).toNat, ⟨?_, ?_⟩, ?_⟩
    · rw [hval, Int.toNat_of_nonneg hrange.1]
    · rw [length_iconTable]
      omega
    · intro hnot
      rcases hcode with hlist | h17
      · exact absurd ⟨s, hlist, hs⟩ hnot
      · rw [h17]
        rfl

/-- A string item of a tree. -/
def stringItem (name value : Bytes) : CJson := .node 0 (some name) (some value) []

/-- A response with the given codes for its days and no other members. -/
def codesOnly (codes : List Bytes) : CJson :=
  let days := codes.map fun code => CJson.node 0 none none [stringItem kCodeDay code]
  .node 0 none none [.node 0 (some kResults) none
    [.node 0 none none [.node 0 (some kDaily) none days]]]

/-- Code 99 for the first day leaves the tables. -/
theorem not_iconsInRange_unknown : ¬∀ json, IconsInRange json := by
  intro hall
  let json := some (codesOnly [ascii ['9', '9'], ascii ['0'], ascii ['0']])
  obtain ⟨r, hr, hicons⟩ := hall json
  obtain ⟨n, ⟨hcode, hlt⟩, -⟩ := hicons 0
  rw [getJSONWeather_codeDay hr 0, show codeText json 0 = some (ascii ['9', '9']) from rfl] at hcode
  have hn : (99 : Int) = n := Option.some.inj hcode
  rw [length_iconTable] at hlt
  omega

/-! ## A refresh -/

/-- The values found in the memory of a record. -/
structure Record where
  codeDay : Int
  codeNight : Int
  tempHigh : Bytes
  tempLow : Bytes
  date : Bytes
  weatherDay : Bytes
  city : Bytes
  deriving Repr, DecidableEq

/-- Bytes that an array may be found to hold: indeterminate cells may hold anything. -/
def CellsRead (cells : Cells) (bytes : Bytes) : Prop :=
  List.Forall₂ (fun cell b => ∀ x, cell = some x → b = x) cells bytes

/-- Values that a record may be found to hold. -/
structure Reads (w : WeatherData) (v : Record) : Prop where
  codeDay : ∀ n, w.codeDay = some n → v.codeDay = n
  codeNight : ∀ n, w.codeNight = some n → v.codeNight = n
  tempHigh : CellsRead w.tempHigh v.tempHigh
  tempLow : CellsRead w.tempLow v.tempLow
  date : CellsRead w.date v.date
  weatherDay : CellsRead w.weatherDay v.weatherDay
  city : CellsRead w.city v.city

/-- `WM_NOTIFICATION_RELEASED`: the records that `Weather` points to afterwards.  The records it
pointed to before are not looked at. -/
def released (parse : Bytes → Option CJson) (sock : Int) (reply : ReadResult) :
    Option (Fin 3 → WeatherData) :=
  (getJSONWeather (readPage parse sock reply)).map Result.weather

/-- `results[0].daily` of the tree of a refresh. -/
def dailyFound (parse : Bytes → Option CJson) (sock : Int) (reply : ReadResult) : Option CJson :=
  (firstResult (readPage parse sock reply)).bind fun tm => tm.getObjectItem kDaily

/-- A refresh that does not find the daily forecasts. -/
def Failing (parse : Bytes → Option CJson) (sock : Int) (reply : ReadResult) : Prop :=
  dailyFound parse sock reply = none

/-- After the refresh the window shows the records `before`, whatever indeterminate memory
holds. -/
def Keeps (parse : Bytes → Option CJson) (sock : Int) (reply : ReadResult)
    (before : Fin 3 → Record) : Prop :=
  ∃ weather, released parse sock reply = some weather ∧
    ∀ shown : Fin 3 → Record, (∀ i, Reads (weather i) (shown i)) → shown = before

/-! ### The ways a refresh can fail -/

theorem failing_of_readPage_none {parse : Bytes → Option CJson} {sock : Int} {reply : ReadResult}
    (h : readPage parse sock reply = none) : Failing parse sock reply := by
  unfold Failing dailyFound
  rw [h]
  rfl

/-- No socket. -/
theorem failing_of_socket (parse : Bytes → Option CJson) (reply : ReadResult) :
    Failing parse (-1) reply :=
  failing_of_readPage_none (by simp [readPage])

theorem getJSONdata_zeros : getJSONdata (List.replicate bufsize 0) = some [0] := by
  have hstart : scanStart 0 (List.replicate bufsize 0) = 0 :=
    scanStart_of_not_mem (not_mem_zeros (by decide) List.not_mem_nil bufsize) 0
  have hend : scanEnd 0 0 (List.replicate bufsize 0) = 0 :=
    scanEnd_of_not_mem (not_mem_zeros (by decide) List.not_mem_nil bufsize) 0 0
  rw [getJSONdata, jsonLen, hstart, hend]
  rfl

/-- `recv` returns 0 or -1, the latter also after a failed `connect`: the text is empty, and an
empty text is not JSON. -/
theorem failing_of_recv {parse : Bytes → Option CJson} (hempty : parse [0] = none) (sock : Int)
    {reply : ReadResult} (h : reply = .closed ∨ reply = .failed) : Failing parse sock reply := by
  have hbuf : recvBuffer reply = List.replicate bufsize 0 := by
    rcases h with rfl | rfl <;> rfl
  apply failing_of_readPage_none
  rw [readPage, hbuf, getJSONdata_zeros, Option.bind_some, hempty, ite_self]

/-- `cJSON_Parse` rejects the text. -/
theorem failing_of_rejected {parse : Bytes → Option CJson} {sock : Int} {reply : ReadResult}
    (h : ∀ t, getJSONdata (recvBuffer reply) = some t → parse t = none) :
    Failing parse sock reply := by
  apply failing_of_readPage_none
  rw [readPage]
  split
  · rfl
  · exact Option.bind_eq_none_iff.mpr h

/-- The response holds no opening brace, and only a text with one has members. -/
theorem failing_of_no_object {parse : Bytes → Option CJson}
    (hobject : ∀ t tree name item, parse t = some tree → tree.getObjectItem name = some item →
      (123 : UInt8) ∈ t) (sock : Int) {bytes : Bytes} (h : (123 : UInt8) ∉ bytes) :
    Failing parse sock (.chunk bytes) := by
  unfold Failing dailyFound firstResult
  cases hpage : readPage parse sock (.chunk bytes) with
  | none => rfl
  | some tree =>
    cases hitem : tree.getObjectItem kResults with
    | none => rw [Option.bind_some, hitem]; rfl
    | some item =>
      unfold readPage at hpage
      split at hpage
      · cases hpage
      · obtain ⟨t, ht, htree⟩ := Option.bind_eq_some_iff.mp hpage
        obtain ⟨n, hn⟩ := recvBuffer_chunk bytes
        have hmem := hobject t tree kResults item htree hitem
        unfold getJSONdata at ht
        split at ht
        · obtain rfl := Option.some.inj ht
          have hbuf := List.mem_of_mem_drop (List.mem_of_mem_take hmem)
          rw [hn] at hbuf
          exact absurd hbuf (not_mem_zeros (by decide) h n)
        · cases ht

/-! ### What is on display afterwards -/

theorem cellsRead_getD (cells : Cells) : CellsRead cells (cells.map fun cell => cell.getD 0) := by
  unfold CellsRead
  induction cells with
  | nil => exact .nil
  | cons cell cells ih => exact .cons (fun x hx => by rw [hx]; rfl) ih

/-- A record with an indeterminate code can be found to hold any code. -/
theorem exists_reads {w : WeatherData} (h : w.codeDay = none) (n : Int) :
    ∃ v, Reads w v ∧ v.codeDay = n := by
  refine ⟨⟨n, w.codeNight.getD 0, _, _, _, _, _⟩, ⟨?_, ?_, cellsRead_getD _, cellsRead_getD _,
    cellsRead_getD _, cellsRead_getD _, cellsRead_getD _⟩, rfl⟩
  · intro m hm
    rw [h] at hm
    cases hm
  · intro m hm
    rw [hm]
    rfl

/-- Without `daily` the three rounds do nothing. -/
theorem readRounds_of_no_daily {tm : CJson} (h : tm.getObjectItem kDaily = none)
    (days : List (Fin 3)) (l : Locals) : days.foldlM (readRound tm) l = some l := by
  induction days with
  | nil => rfl
  | cons i days ih =>
    have hround : readRound tm l i = some l := by
      unfold readRound dayAt
      rw [h]
      rfl
    rw [List.foldlM_cons, hround]
    exact ih

/-- **What a failing refresh puts on display**, if it returns: three records as `malloc` gave them,
in which at most the name of the location has been assigned. -/
theorem released_of_failing {parse : Bytes → Option CJson} {sock : Int} {reply : ReadResult}
    (h : Failing parse sock reply) {weather : Fin 3 → WeatherData}
    (hweather : released parse sock reply = some weather) :
    (∀ i, weather i = .malloc) ∨ ∃ city, ∀ i, weather i = setCity city .malloc := by
  obtain ⟨r, hr, rfl⟩ := Option.map_eq_some_iff.mp hweather
  rcases getJSONWeather_eq (readPage parse sock reply) with ⟨-, freed, heq⟩ | ⟨tm, hfirst, heq⟩
  · obtain rfl := Option.some.inj (heq.symm.trans hr)
    exact Or.inl fun _ => rfl
  · unfold Failing dailyFound at h
    rw [hfirst, Option.bind_some] at h
    rw [heq] at hr
    obtain ⟨l2, h2, hr⟩ := Option.bind_eq_some_iff.mp hr
    obtain ⟨l1, h1, h2⟩ := Option.bind_eq_some_iff.mp h2
    obtain rfl := Option.some.inj hr
    rw [readRounds_of_no_daily h] at h2
    obtain rfl := Option.some.inj h2
    -- only the location is left to be read
    unfold readLocation readMember at h1
    split at h1
    · obtain rfl := Option.some.inj h1
      exact Or.inl fun _ => rfl
    · split at h1
      · obtain rfl := Option.some.inj h1
        exact Or.inl fun _ => rfl
      · obtain ⟨s, -, rfl⟩ := Option.map_eq_some_iff.mp h1
        exact Or.inr ⟨s, fun _ => rfl⟩

/-- Records whose codes nobody assigned are not known to be the ones shown before. -/
theorem not_keeps {parse : Bytes → Option CJson} {sock : Int}
    {reply : ReadResult} (h : Failing parse sock reply)
    (before : Fin 3 → Record) : ¬Keeps parse sock reply before := by
  rintro ⟨weather, hweather, hshown⟩
  have hcode : ∀ i, (weather i).codeDay = none := by
    intro i
    rcases released_of_failing h hweather with hmalloc | ⟨city, hcity⟩
    · rw [hmalloc i]
      rfl
    · rw [hcity i]
      rfl
  have hread : ∀ n i, ∃ v, Reads (weather i) v ∧ v.codeDay = n :=
    fun n i => exists_reads (hcode i) n
  choose zeros hzeros using hread 0
  choose ones hones using hread 1
  have hsame : zeros = ones :=
    (hshown zeros fun i => (hzeros i).1).trans (hshown ones fun i => (hones i).1).symm
  have hne : (0 : Int) = 1 := by rw [← (hzeros 0).2, hsame, (hones 0).2]
  exact absurd hne (by decide)

/-- **No failing refresh is atomic.** Either the function does not return, or the records on
display are freshly allocated ones whose codes nobody has assigned. -/
theorem not_keeps_of_failing (parse : Bytes → Option CJson) (sock : Int) (reply : ReadResult)
    (before : Fin 3 → Record) (h : Failing parse sock reply) :
    ¬Keeps parse sock reply before :=
  not_keeps h before

/-- An empty forecast. -/
def blank : Record where
  codeDay := 0
  codeNight := 0
  tempHigh := List.replicate 4 0
  tempLow := List.replicate 4 0
  date := List.replicate 12 0
  weatherDay := List.replicate 11 0
  city := List.replicate 12 0

theorem not_keeps_of_failing_noSocket : ¬Keeps (fun _ => none) (-1) .failed fun _ => blank :=
  not_keeps_of_failing _ _ _ _ (failing_of_socket _ _)

/-- A refresh without a socket replaces the forecast on display. -/
theorem not_keeps_noSocket : ¬∀ parse sock reply before,
    Failing parse sock reply → Keeps parse sock reply before := by
  intro hall
  have hfail : Failing (fun _ => none) (-1) .failed := failing_of_socket _ _
  exact not_keeps hfail (fun _ => blank) (hall _ _ _ _ hfail)

end EmWinDemo.Weather.Window
