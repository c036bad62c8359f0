/-
# EmWinDemo.Http.Varval -- looking up a variable of a form

A body is a list of pairs `name=value`, separated by `&`.  `cgi_get_varval` (http_server.c) looks
for the name anywhere in the body and takes what follows it for the variable if that is a `=`; in
each pair it only looks at the first occurrence, and behind the last pair it has a null pointer to
search from.  `cgi_example` calls it on a local array which a long body fills to its last byte.

`varvalLoop_pairs` is the loop in terms of the pairs.  `lookup_iff` says for which bodies, names
and destinations the variable that is found is the one asked for, and for which requests the array
is terminated.
-/
import EmWinDemo.Http.Cgi

namespace EmWinDemo.Http.Varval

open EmWinDemo.Lib.CMemory EmWinDemo.Lib.CText EmWinDemo.Http.Cgi

/-! ## Forms -/

/-- The pairs of a body; there is at least one, which may be empty. -/
def pairs (src : Bytes) : List Bytes := src.splitOn 38

/-- A name that `cgi_get_varval` may be asked for. -/
structure IsName (varName : Bytes) : Prop where
  nonempty : varName ≠ []
  noAmp : (38 : UInt8) ∉ varName
  noEq : (61 : UInt8) ∉ varName
  noNul : (0 : UInt8) ∉ varName

/-- The pair has the name for its key. -/
def keyed (varName pair : Bytes) : Bool := (varName ++ [61]).isPrefixOf pair

/-- The value of a pair with that key. -/
def valueOf (varName pair : Bytes) : Bytes := pair.drop (varName.length + 1)

/-- What a caller is promised: the value of the first pair with that key, as much of it as fits. -/
def LooksUp (src varName dst : Bytes) : Prop :=
  ∃ result dst', cgiGetVarval src varName dst dst.length = some (result, dst') ∧
    dst'.length = dst.length ∧ (result = true ↔ ∃ pair ∈ pairs src, keyed varName pair = true) ∧
    readCstr dst' = some (((((pairs src).find? (keyed varName)).map (valueOf varName)).getD
      []).take (dst.length - 1))

/-- The array that `cgi_example` passes on is a C string. -/
def Terminated (contentLength : Nat) (body : Bytes) : Prop :=
  (0 : UInt8) ∈ store (List.replicate bufferSize 0) 0 (cgiRead body contentLength)

/-! ## What the loop looks at -/

/-- A pair from the first occurrence of the name on. -/
def fromName (varName pair : Bytes) : Bytes := (strstr pair varName).getD []

/-- The first occurrence of the name in the pair is followed by a `=`. -/
def hit (varName pair : Bytes) : Bool := (fromName varName pair).getD varName.length 0 = 61

/-- The text behind that `=`. -/
def found (varName pair : Bytes) : Bytes := (fromName varName pair).drop (varName.length + 1)

/-- The name occurs in the pair. -/
def contains (varName pair : Bytes) : Bool := (strstr pair varName).isSome

/-- Cut a value and copy it. -/
def deliver (dst : Bytes) (length : Nat) (value : Bytes) : Bytes :=
  let index := strcspn value 38
  let index := if length ≤ index then length - 1 else index
  (strncpy dst value index).set index 0

/-- When the right variable is found: the first pair that the loop takes has the key, or the first
one with the key has the same text in it as far as it is copied; and if the loop takes no pair, the
name does not occur in the last one. -/
def FindsIt (src varName : Bytes) (length : Nat) : Prop :=
  match (pairs src).find? (hit varName) with
  | some pair => keyed varName pair = true ∨ ∃ wanted,
      (pairs src).find? (keyed varName) = some wanted ∧
        (valueOf varName wanted).take (length - 1) = (found varName pair).take (length - 1)
  | none => ∀ pair, (pairs src).getLast? = some pair → contains varName pair = false

/-! ## The pairs of a body -/

theorem pairs_last {p : Bytes} (hp : (38 : UInt8) ∉ p) : pairs p = [p] :=
  List.splitOn_eq_singleton hp

theorem pairs_cons {p : Bytes} (hp : (38 : UInt8) ∉ p) (rest : Bytes) :
    pairs (p ++ 38 :: rest) = p :: pairs rest :=
  List.splitOn_append_cons_self_of_not_mem hp rest

theorem pairs_ne_nil (src : Bytes) : pairs src ≠ [] := List.splitOn_ne_nil 38 src

/-- A body is one pair, or a pair, a `&` and a shorter body. -/
theorem body_induction {motive : Bytes → Prop} (last : ∀ p, (38 : UInt8) ∉ p → motive p)
    (cons : ∀ p rest, (38 : UInt8) ∉ p → motive rest → motive (p ++ 38 :: rest)) (src : Bytes) :
    motive src := by
  induction hn : src.length using Nat.strong_induction_on generalizing src with
  | h n ih =>
    by_cases hmem : (38 : UInt8) ∈ src
    · obtain ⟨p, rest, rfl, hp⟩ := List.eq_append_cons_of_mem hmem
      refine cons p rest hp (ih rest.length ?_ rest rfl)
      simp only [List.length_append, List.length_cons] at hn
      omega
    · exact last src hmem

theorem length_pairs_le (src : Bytes) : (pairs src).length ≤ src.length + 1 := by
  induction src using body_induction with
  | last p hp => simp [pairs_last hp]
  | cons p rest hp ih =>
    rw [pairs_cons hp]
    simp only [List.length_append, List.length_cons]
    omega

theorem mem_of_mem_pairs {src pair : Bytes} (h : pair ∈ pairs src) {b : UInt8} (hb : b ∈ pair) :
    b ∈ src := by
  induction src using body_induction with
  | last p hp =>
    rw [pairs_last hp, List.mem_singleton] at h
    exact h ▸ hb
  | cons p rest hp ih =>
    rw [pairs_cons hp, List.mem_cons] at h
    rcases h with rfl | h
    · exact List.mem_append_left _ hb
    · exact List.mem_append_right _ (List.mem_cons_of_mem _ (ih h))

/-- No `&` inside a pair. -/
theorem amp_not_mem_pair {src pair : Bytes} (h : pair ∈ pairs src) : (38 : UInt8) ∉ pair := by
  induction src using body_induction with
  | last p hp =>
    rw [pairs_last hp, List.mem_singleton] at h
    exact h ▸ hp
  | cons p rest hp ih =>
    rw [pairs_cons hp, List.mem_cons] at h
    rcases h with rfl | h
    · exact hp
    · exact ih h

/-! ## One round -/

theorem deliver_append {v : Bytes} (hv : (38 : UInt8) ∉ v) (dst rest : Bytes) (length : Nat) :
    deliver dst length (v ++ 38 :: rest) = deliver dst length v := by
  have hindex : (if length ≤ v.length then length - 1 else v.length) ≤ v.length := by
    split <;> omega
  rw [deliver, deliver, strcspn_append hv, strcspn_of_not_mem hv]
  generalize (if length ≤ v.length then length - 1 else v.length) = index at hindex
  rw [strncpy, strncpy, List.append_assoc, List.take_append_of_le_length hindex,
    List.take_append_of_le_length hindex]

variable {varName : Bytes}

theorem varvalLoop_none {name : Bytes} (h : strstr name varName = none) (dst : Bytes)
    (length fuel : Nat) : varvalLoop varName dst length (fuel + 1) name = some (false, dst) := by
  simp only [varvalLoop, h]

theorem varvalLoop_take {name t : Bytes} (h : strstr name varName = some t)
    (hkey : t.getD varName.length 0 = 61) (dst : Bytes) (length fuel : Nat) :
    varvalLoop varName dst length (fuel + 1) name =
      some (true, deliver dst length (t.drop (varName.length + 1))) := by
  simp only [varvalLoop, h, hkey, if_true, deliver]

theorem varvalLoop_skip {name t : Bytes} (h : strstr name varName = some t)
    (hkey : t.getD varName.length 0 ≠ 61) (dst : Bytes) (length fuel : Nat) :
    varvalLoop varName dst length (fuel + 1) name =
      (strchr t 38).bind (varvalLoop varName dst length fuel) := by
  simp only [varvalLoop, h, if_neg hkey]
  cases strchr t 38 <;> rfl

/-- A pair without the name is passed over within a round. -/
theorem varvalLoop_append (hname : IsName varName) {p : Bytes} (hp : strstr p varName = none)
    (rest dst : Bytes) (length fuel : Nat) :
    varvalLoop varName dst length (fuel + 1) (p ++ 38 :: rest) =
      varvalLoop varName dst length (fuel + 1) rest := by
  have hfind : strstr (p ++ 38 :: rest) varName = strstr rest varName := by
    rw [strstr_append_sep hname.nonempty hname.noAmp, hp]
    rfl
  rw [varvalLoop, varvalLoop, hfind]

theorem hit_of_some {p t : Bytes} (h : strstr p varName = some t) :
    hit varName p = decide (t.getD varName.length 0 = 61) := by
  rw [hit, fromName, h]
  rfl

theorem found_of_some {p t : Bytes} (h : strstr p varName = some t) :
    found varName p = t.drop (varName.length + 1) := by
  rw [found, fromName, h]
  rfl

theorem not_hit_of_none {p : Bytes} (h : strstr p varName = none) : hit varName p = false := by
  rw [hit, fromName, h]
  rfl

/-- What the name starts in a pair is part of that pair. -/
theorem amp_not_mem_of_some {p t : Bytes} (hp : (38 : UInt8) ∉ p) (h : strstr p varName = some t) :
    (38 : UInt8) ∉ t := by
  obtain ⟨q, u, rfl, -⟩ := strstr_eq_some h
  exact fun hm => hp (List.mem_append_right q hm)

/-- The byte behind the name, in the pair and in the body. -/
theorem getD_append_amp {p t : Bytes} (h : strstr p varName = some t) (rest : Bytes) :
    (t ++ 38 :: rest).getD varName.length 0 = 61 ↔ t.getD varName.length 0 = 61 := by
  obtain ⟨q, u, rfl, rfl⟩ := strstr_eq_some h
  cases u with
  | nil => simp
  | cons b u => simp

theorem drop_append_amp {p t : Bytes} (h : strstr p varName = some t)
    (hkey : t.getD varName.length 0 = 61) (rest : Bytes) :
    (t ++ 38 :: rest).drop (varName.length + 1) = t.drop (varName.length + 1) ++ 38 :: rest := by
  obtain ⟨q, u, rfl, rfl⟩ := strstr_eq_some h
  cases u with
  | nil => simp at hkey
  | cons b u => simp

/-! ## The loop -/

/-- A pair that the loop takes. -/
theorem varvalLoop_hit (hname : IsName varName) {p : Bytes} (hp : (38 : UInt8) ∉ p)
    (hhit : hit varName p = true) (rest dst : Bytes) (length fuel : Nat) :
    varvalLoop varName dst length (fuel + 1) (p ++ 38 :: rest) =
      some (true, deliver dst length (found varName p)) := by
  cases hfind : strstr p varName with
  | none =>
    rw [not_hit_of_none hfind] at hhit
    cases hhit
  | some t =>
    rw [hit_of_some hfind, decide_eq_true_iff] at hhit
    have hwhole : strstr (p ++ 38 :: rest) varName = some (t ++ 38 :: rest) := by
      rw [strstr_append_sep hname.nonempty hname.noAmp, hfind]
      rfl
    have hvalue : (38 : UInt8) ∉ t.drop (varName.length + 1) :=
      fun hm => amp_not_mem_of_some hp hfind (List.mem_of_mem_drop hm)
    rw [varvalLoop_take hwhole ((getD_append_amp hfind rest).mpr hhit),
      drop_append_amp hfind hhit, deliver_append hvalue, ← found_of_some hfind]

/-- A pair that it does not take: the search goes on behind it, in this round or the next. -/
theorem varvalLoop_miss (hname : IsName varName) {p : Bytes} (hp : (38 : UInt8) ∉ p)
    (hhit : hit varName p = false) (rest dst : Bytes) (length fuel : Nat) :
    ∃ fuel', fuel + 1 ≤ fuel' ∧ varvalLoop varName dst length (fuel + 2) (p ++ 38 :: rest) =
      varvalLoop varName dst length fuel' rest := by
  cases hfind : strstr p varName with
  | none => exact ⟨fuel + 2, Nat.le_succ _, varvalLoop_append hname hfind rest dst length _⟩
  | some t =>
    rw [hit_of_some hfind, decide_eq_false_iff_not] at hhit
    have hwhole : strstr (p ++ 38 :: rest) varName = some (t ++ 38 :: rest) := by
      rw [strstr_append_sep hname.nonempty hname.noAmp, hfind]
      rfl
    have hamp := amp_not_mem_of_some hp hfind
    -- on to the `&` behind this pair, which starts no name
    have hnext := varvalLoop_append hname (strstr_nil hname.nonempty) rest dst length fuel
    rw [List.nil_append] at hnext
    refine ⟨fuel + 1, Nat.le_refl _, ?_⟩
    rw [varvalLoop_skip hwhole (fun h => hhit ((getD_append_amp hfind rest).mp h)),
      strchr_append hamp, Option.bind_some, hnext]

/-- The last pair has no `&` behind it. -/
theorem varvalLoop_last {p : Bytes} (hp : (38 : UInt8) ∉ p) (dst : Bytes) (length fuel : Nat) :
    varvalLoop varName dst length (fuel + 1) p =
      if hit varName p then some (true, deliver dst length (found varName p))
      else if contains varName p then none else some (false, dst) := by
  cases hfind : strstr p varName with
  | none =>
    rw [varvalLoop_none hfind]
    simp [not_hit_of_none hfind, contains, hfind]
  | some t =>
    rw [hit_of_some hfind, found_of_some hfind]
    by_cases hkey : t.getD varName.length 0 = 61
    · rw [varvalLoop_take hfind hkey, if_pos (decide_eq_true hkey)]
    · have hamp := strchr_eq_none.mpr (amp_not_mem_of_some hp hfind)
      rw [varvalLoop_skip hfind hkey, hamp, decide_eq_false hkey]
      simp [contains, hfind]

/-- **The loop in terms of the pairs.** It takes the first pair in which the first occurrence of
the name is followed by a `=`; without one it ends at a null pointer if the name occurs in the last
pair. -/
theorem varvalLoop_pairs (hname : IsName varName) (src dst : Bytes) (length fuel : Nat)
    (hfuel : (pairs src).length ≤ fuel) :
    varvalLoop varName dst length fuel src = match (pairs src).find? (hit varName) with
      | some pair => some (true, deliver dst length (found varName pair))
      | none => if (pairs src).getLast?.any (contains varName) then none else some (false, dst) := by
  induction src using body_induction generalizing fuel with
  | last p hp =>
    rw [pairs_last hp] at hfuel ⊢
    obtain ⟨fuel, rfl⟩ := Nat.exists_eq_succ_of_ne_zero (Nat.one_le_iff_ne_zero.mp hfuel)
    rw [varvalLoop_last hp]
    cases hhit : hit varName p with
    | true => simp [hhit]
    | false =>
      rw [List.find?_cons_of_neg (by simp [hhit])]
      rfl
  | cons p rest hp ih =>
    rw [pairs_cons hp] at hfuel ⊢
    -- there is a round for this pair, and one for the first of the rest
    have hrest := List.length_pos_iff.mpr (pairs_ne_nil rest)
    obtain ⟨fuel, rfl⟩ : ∃ m, fuel = m + 2 := by
      rw [List.length_cons] at hfuel
      exact ⟨fuel - 2, by omega⟩
    cases hhit : hit varName p with
    | true => rw [varvalLoop_hit hname hp hhit, List.find?_cons_of_pos hhit]
    | false =>
      obtain ⟨fuel', hle, hnext⟩ := varvalLoop_miss hname hp hhit rest dst length fuel
      have hfuel' : (pairs rest).length ≤ fuel' :=
        Nat.le_trans (Nat.le_of_succ_le_succ hfuel) hle
      rw [hnext, ih fuel' hfuel', List.find?_cons_of_neg (by simp [hhit]),
        List.getLast?_cons_of_ne_nil (pairs_ne_nil rest)]

/-! ## The copy -/

/-- The destination holds as much of the value as fits. -/
theorem deliver_spec {v dst : Bytes} (hamp : (38 : UInt8) ∉ v) (hv : (0 : UInt8) ∉ v)
    (hdst : dst ≠ []) :
    (deliver dst dst.length v).length = dst.length ∧
      readCstr (deliver dst dst.length v) = some (v.take (dst.length - 1)) := by
  have hpos := List.length_pos_iff.mpr hdst
  obtain ⟨index, hindex, hle, hlt, htake⟩ : ∃ index,
      (if dst.length ≤ v.length then dst.length - 1 else v.length) = index ∧ index ≤ v.length ∧
        index < dst.length ∧ v.take index = v.take (dst.length - 1) := by
    refine ⟨_, rfl, ?_⟩
    split
    · exact ⟨by omega, by omega, rfl⟩
    · exact ⟨Nat.le_refl _, by omega, by rw [List.take_length, List.take_of_length_le (by omega)]⟩
  have hlen : (v.take index).length = index := List.length_take_of_le hle
  have hcells : deliver dst dst.length v = v.take index ++ 0 :: dst.drop (index + 1) := by
    rw [deliver, strcspn_of_not_mem hamp, hindex, strncpy, List.take_append_of_le_length hle, store_zero, hlen,
      List.drop_eq_getElem_cons hlt, List.set_append_right _ _ (Nat.le_of_eq hlen), hlen,
      Nat.sub_self, List.set_cons_zero]
  have hzero : (0 : UInt8) ∉ v.take index := fun hm => hv (List.mem_of_mem_take hm)
  refine ⟨?_, ?_⟩
  · rw [hcells, List.length_append, hlen, List.length_cons, List.length_drop]
    omega
  · rw [hcells, readCstr_append_zero hzero, htake]

/-- An empty destination string. -/
theorem readCstr_set_zero {dst : Bytes} (hdst : dst ≠ []) : readCstr (dst.set 0 0) = some [] := by
  cases dst with
  | nil => exact absurd rfl hdst
  | cons b dst => rfl

/-! ## The variable that is found -/

theorem strstr_of_keyed {pair : Bytes} (h : keyed varName pair = true) :
    strstr pair varName = some pair ∧ pair.getD varName.length 0 = 61 := by
  obtain ⟨u, rfl⟩ := List.isPrefixOf_iff_prefix.mp h
  rw [List.append_assoc]
  exact ⟨strstr_append varName _, by simp⟩

/-- The loop takes a pair with the key, and the whole value. -/
theorem hit_of_keyed {pair : Bytes} (h : keyed varName pair = true) : hit varName pair = true := by
  obtain ⟨hfind, hkey⟩ := strstr_of_keyed h
  rw [hit_of_some hfind, decide_eq_true hkey]

theorem found_of_keyed {pair : Bytes} (h : keyed varName pair = true) :
    found varName pair = valueOf varName pair := by
  rw [found_of_some (strstr_of_keyed h).1, valueOf]

/-- A pair with the key that the loop takes first is the first with the key. -/
theorem find?_keyed {ps : List Bytes} {pair : Bytes} (h : ps.find? (hit varName) = some pair)
    (hkey : keyed varName pair = true) : ps.find? (keyed varName) = some pair := by
  obtain ⟨-, as, bs, rfl, has⟩ := List.find?_eq_some_iff_append.mp h
  refine List.find?_eq_some_iff_append.mpr ⟨hkey, as, bs, rfl, fun a ha => ?_⟩
  have hno := has a ha
  cases hk : keyed varName a with
  | false => rfl
  | true => simp [hit_of_keyed hk] at hno

theorem found_clean (varName : Bytes) {src pair : Bytes} (hsrc : (0 : UInt8) ∉ src) (h : pair ∈ pairs src) :
    (38 : UInt8) ∉ found varName pair ∧ (0 : UInt8) ∉ found varName pair := by
  have hpart : ∀ b ∈ found varName pair, b ∈ pair := by
    intro b hb
    have hfrom := List.mem_of_mem_drop hb
    unfold fromName at hfrom
    cases hfind : strstr pair varName with
    | none =>
      rw [hfind] at hfrom
      cases hfrom
    | some t =>
      rw [hfind] at hfrom
      obtain ⟨q, u, hq, -⟩ := strstr_eq_some hfind
      rw [hq]
      exact List.mem_append_right q hfrom
  refine ⟨fun hm => amp_not_mem_pair h (hpart _ hm), fun hm => ?_⟩
  exact hsrc (mem_of_mem_pairs h (hpart _ hm))

/-- The lookup, when the loop takes a pair. -/
theorem looksUp_of_hit {src dst pair : Bytes} (hsrc : (0 : UInt8) ∉ src) (hdst : dst ≠ [])
    (hhit : (pairs src).find? (hit varName) = some pair)
    (hrun : cgiGetVarval src varName dst dst.length =
      some (true, deliver (dst.set 0 0) dst.length (found varName pair))) :
    LooksUp src varName dst ↔ keyed varName pair = true ∨ ∃ wanted,
      (pairs src).find? (keyed varName) = some wanted ∧
        (valueOf varName wanted).take (dst.length - 1) =
          (found varName pair).take (dst.length - 1) := by
  have hset : (dst.set 0 0).length = dst.length := List.length_set
  have hset0 : dst.set 0 0 ≠ [] := by
    rw [← List.length_pos_iff, hset]
    exact List.length_pos_iff.mpr hdst
  obtain ⟨hamp, hzero⟩ := found_clean varName hsrc (List.mem_of_find?_eq_some hhit)
  obtain ⟨hlen, hread⟩ := deliver_spec hamp hzero hset0
  rw [hset] at hlen hread
  unfold LooksUp
  rw [hrun]
  constructor
  · rintro ⟨result, dst', heq, -, hresult, htext⟩
    obtain ⟨rfl, rfl⟩ := Prod.mk.inj (Option.some.inj heq)
    obtain ⟨q, hq, hkey⟩ := hresult.mp rfl
    obtain ⟨wanted, hwanted⟩ :=
      Option.isSome_iff_exists.mp (List.find?_isSome.mpr ⟨q, hq, hkey⟩)
    rw [hread, hwanted] at htext
    exact Or.inr ⟨wanted, hwanted, (Option.some.inj htext).symm⟩
  · intro h
    obtain ⟨wanted, hwanted, htext⟩ : ∃ wanted, (pairs src).find? (keyed varName) = some wanted ∧
        (valueOf varName wanted).take (dst.length - 1) =
          (found varName pair).take (dst.length - 1) := by
      rcases h with hkey | h
      · exact ⟨pair, find?_keyed hhit hkey, by rw [found_of_keyed hkey]⟩
      · exact h
    refine ⟨true, _, rfl, hlen, iff_of_true rfl ?_, ?_⟩
    · exact ⟨wanted, List.mem_of_find?_eq_some hwanted, List.find?_some hwanted⟩
    · rw [hread, hwanted, ← htext]
      rfl

/-- The lookup, when it takes none: then no pair has the key. -/
theorem looksUp_of_none {src dst last : Bytes} (hdst : dst ≠ [])
    (hhit : (pairs src).find? (hit varName) = none)
    (hrun : cgiGetVarval src varName dst dst.length =
      if contains varName last then none else some (false, dst.set 0 0)) :
    LooksUp src varName dst ↔ contains varName last = false := by
  have hnone : (pairs src).find? (keyed varName) = none := by
    rw [List.find?_eq_none] at hhit ⊢
    exact fun q hq hkey => hhit q hq (hit_of_keyed hkey)
  have hno : ¬∃ q ∈ pairs src, keyed varName q = true := by
    rintro ⟨q, hq, hkey⟩
    exact List.find?_eq_none.mp hnone q hq hkey
  unfold LooksUp
  rw [hrun]
  constructor
  · rintro ⟨result, dst', heq, -⟩
    split at heq
    · cases heq
    · next hc => simpa using hc
  · intro h
    rw [if_neg (by simp [h]), hnone]
    refine ⟨false, dst.set 0 0, rfl, List.length_set, iff_of_false (by simp) hno, ?_⟩
    rw [readCstr_set_zero hdst, Option.map_none, Option.getD_none, List.take_nil]

/-- **The lookup.** -/
theorem looksUp_iff {src dst : Bytes} (hsrc : (0 : UInt8) ∉ src) (hname : IsName varName)
    (hdst : dst ≠ []) : LooksUp src varName dst ↔ FindsIt src varName dst.length := by
  have hrun : cgiGetVarval src varName dst dst.length = _ :=
    varvalLoop_pairs hname src (dst.set 0 0) dst.length (src.length + 1) (length_pairs_le src)
  unfold FindsIt
  cases hhit : (pairs src).find? (hit varName) with
  | some pair =>
    rw [hhit] at hrun
    exact looksUp_of_hit hsrc hdst hhit hrun
  | none =>
    obtain ⟨last, hlast⟩ : ∃ last, (pairs src).getLast? = some last :=
      ⟨_, List.getLast?_eq_some_getLast (pairs_ne_nil src)⟩
    rw [hhit, hlast, Option.any_some] at hrun
    rw [looksUp_of_none hdst hhit hrun, hlast]
    exact ⟨fun h pair hpair => Option.some.inj hpair ▸ h, fun h => h last rfl⟩

/-! ## The array of `cgi_example` -/

theorem terminated_iff (contentLength : Nat) (body : Bytes) : Terminated contentLength body ↔
    ¬(bufferSize ≤ contentLength ∧ bufferSize ≤ body.length ∧ (0 : UInt8) ∉ body.take bufferSize) := by
  have hread : cgiRead body contentLength = body.take (min bufferSize contentLength) := by
    rw [cgiRead]
    congr 1
    split <;> omega
  rw [Terminated, store_zero, List.mem_append, List.drop_replicate, List.mem_replicate, hread,
    List.length_take]
  constructor
  · rintro h ⟨hlen, hbody, hzero⟩
    rw [Nat.min_eq_left hlen] at h
    rcases h with h | h
    · exact hzero h
    · omega
  · intro h
    by_cases hfull : bufferSize ≤ contentLength ∧ bufferSize ≤ body.length
    · rw [Nat.min_eq_left hfull.1]
      refine Or.inl ?_
      by_contra hzero
      exact h ⟨hfull.1, hfull.2, hzero⟩
    · refine Or.inr ⟨?_, rfl⟩
      omega

/-- **Form variables.** The lookup finds the variable asked for exactly on the bodies described
by `FindsIt`, and the array of a request is terminated unless the request fills it. -/
theorem lookup_iff (src varName dst : Bytes) (contentLength : Nat) (body : Bytes)
    (hsrc : (0 : UInt8) ∉ src) (hname : IsName varName) (hdst : dst ≠ []) :
    (LooksUp src varName dst ↔ FindsIt src varName dst.length) ∧
      (Terminated contentLength body ↔ ¬(bufferSize ≤ contentLength ∧
        bufferSize ≤ body.length ∧ (0 : UInt8) ∉ body.take bufferSize)) :=
  ⟨looksUp_iff hsrc hname hdst, terminated_iff contentLength body⟩

theorem isName_postInput : IsName postInput := ⟨by decide, by decide, by decide, by decide⟩

/-- A body `post_input=1`. -/
theorem lookup_iff_postInput :
    (LooksUp (postInput ++ [61, 49]) postInput [0, 0] ↔
      FindsIt (postInput ++ [61, 49]) postInput [(0 : UInt8), 0].length) ∧
      (Terminated 12 (postInput ++ [61, 49]) ↔ ¬(bufferSize ≤ 12 ∧
        bufferSize ≤ (postInput ++ [61, 49]).length ∧
          (0 : UInt8) ∉ (postInput ++ [61, 49]).take bufferSize)) :=
  lookup_iff (postInput ++ [61, 49]) postInput [0, 0] 12 (postInput ++ [61, 49]) (by decide)
    isName_postInput (by decide)

/-- A body that is the bare name ends in a search from a null pointer. -/
theorem not_looksUp_bareName :
    ¬∀ (src varName dst : Bytes) (contentLength : Nat) (body : Bytes), (0 : UInt8) ∉ src →
      IsName varName → dst ≠ [] → LooksUp src varName dst ∧ Terminated contentLength body := by
  intro hall
  obtain ⟨⟨result, dst', hrun, -⟩, -⟩ :=
    hall postInput postInput [0] 10 postInput (by decide) isName_postInput (by decide)
  have hnull : cgiGetVarval postInput postInput [0] 1 = none := by decide +kernel
  exact absurd (hnull.symm.trans hrun) (by simp)

end EmWinDemo.Http.Varval
