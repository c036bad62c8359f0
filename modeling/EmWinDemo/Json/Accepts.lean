/-
# EmWinDemo.Json.Accepts -- every JSON text is parsed to the value it stands for

The grammar of `Lib.Json` against the parser: whatever text is derived for a value, with any white
space between the tokens and any way of writing the strings, `parse_value` returns that value and
the pointer behind the text (`parseValue_derives`).  The induction is on the derivation, one case
for each production; the bound of the model only has to exceed the length of the text.

A number ends where no digit, point or exponent follows, so behind a number such a byte is asked
for.  All other texts end by themselves, and the parser reads nothing behind them.
-/
import EmWinDemo.Json.Parse
import EmWinDemo.Json.StringTexts

namespace EmWinDemo.Json

open EmWinDemo.Lib.CMemory EmWinDemo.Lib.CText EmWinDemo.Lib.Json EmWinDemo.Lib.Doubles

/-! ## White space and words -/

variable {pow : Float → Float → Float} {rest : Bytes}

theorem skip_nonblank {b : UInt8} (hb : 32 < b) (s : Bytes) : skip (b :: s) = .ok (b :: s) := by
  rw [skip, if_neg fun h => absurd hb (UInt8.not_lt.mpr h.2)]

theorem skip_blank {w : Bytes} (hw : Blank w) (p : Bytes) : skip (w ++ p) = skip p := by
  induction w with
  | nil => rfl
  | cons b w ih =>
    have hb : b ≠ 0 ∧ b ≤ 32 := by
      rcases hw b List.mem_cons_self with rfl | rfl | rfl | rfl <;> decide
    rw [List.cons_append, skip, if_pos hb, ih fun c hc => hw c (List.mem_cons_of_mem b hc)]

theorem startsWith_ne {b c : UInt8} (hb : b ≠ c) (word s : Bytes) :
    startsWith (c :: word) (b :: s) = .ok false := by
  rw [startsWith, if_neg hb]

/-! ## Values -/

/-- A comma or a closing bracket. -/
def Closer (b : UInt8) : Prop := b = 44 ∨ b = 93 ∨ b = 125

theorem Closer.nonblank {b : UInt8} (h : Closer b) : 32 < b := by
  rcases h with rfl | rfl | rfl <;> decide

theorem stops_cons {b : UInt8} (hb : ¬Continues b) (s : Bytes) : Stops (b :: s) := ⟨b, s, rfl, hb⟩

theorem not_continues {b : UInt8} (h : Closer b ∨ b = 32 ∨ b = 9 ∨ b = 10 ∨ b = 13) :
    ¬Continues b := by
  unfold Continues
  rcases h with (rfl | rfl | rfl) | rfl | rfl | rfl | rfl <;> decide

/-- Behind a value stands white space and then a comma or a bracket. -/
theorem stops_blank {w : Bytes} (hw : Blank w) {b : UInt8} (hb : Closer b) (s : Bytes) :
    Stops (w ++ b :: s) := by
  cases w with
  | nil => exact stops_cons (not_continues (Or.inl hb)) s
  | cons c w => exact stops_cons (not_continues (Or.inr (hw c List.mem_cons_self))) _

/-- `parse_value` at a byte with which none of the three words begins. -/
theorem parseValue_cons {b : UInt8} (hn : b ≠ 110) (hf : b ≠ 102) (ht : b ≠ 116) (n : Nat)
    (s : Bytes) : parseValue pow (n + 1) (b :: s) =
      if b = 34 then do
        let (s, value) ← parseString (b :: s)
        .ok (.string s, value)
      else if b = 45 ∨ isDigit b then do
        let (x, value) ← parseNumber pow (b :: s)
        .ok (.number x, value)
      else if b = 91 then parseArray (parseValue pow n) n (b :: s)
      else if b = 123 then parseObject (parseValue pow n) n (b :: s)
      else .error (.invalid (b :: s)) := by
  rw [parseValue, startsWith_ne hn, startsWith_ne hf, startsWith_ne ht]
  rfl

/-- `parse_value` returns the value of the text, whatever stands behind it. -/
def Accepts (pow : Float → Float → Float) (n : Nat) (v : Tree) (t : Bytes) : Prop :=
  ∀ rest, ((∀ x, v ≠ .number x) ∨ Stops rest) → parseValue pow n (t ++ rest) = .ok (v, rest)

theorem parseItem_accepts {n : Nat} {v : Tree} {w t w' : Bytes} (hw : Blank w)
    (ht : Derives (number pow) v t) (h : Accepts pow n v t) (hw' : Blank w') {b : UInt8}
    (hb : Closer b) (s : Bytes) : parseItem (parseValue pow n) (w ++ (t ++ (w' ++ b :: s))) = .ok (v, b :: s) := by
  obtain ⟨c, t', rfl, hc, -⟩ := ht.head
  have hvalue := h (w' ++ b :: s) (Or.inr (stops_blank hw' hb s))
  rw [parseItem, skip_blank hw, List.cons_append, skip_nonblank hc]
  rw [List.cons_append] at hvalue
  simp only [hvalue, bind, Except.bind]
  rw [skip_blank hw', skip_nonblank hb.nonblank]

theorem parseMember_accepts {n : Nat} {name : Bytes} {v : Tree} {w k w₁ w₂ t w₃ : Bytes}
    (hw : Blank w) (hk : Body name k) (hw₁ : Blank w₁) (hw₂ : Blank w₂)
    (ht : Derives (number pow) v t) (h : Accepts pow n v t) (hw₃ : Blank w₃) {b : UInt8} (hb : Closer b) (s : Bytes) :
    parseMember (parseValue pow n)
        (w ++ 34 :: (k ++ 34 :: (w₁ ++ 58 :: (w₂ ++ (t ++ (w₃ ++ b :: s)))))) =
      .ok ((name, v), b :: s) := by
  have hitem := parseItem_accepts hw₂ ht h hw₃ hb s
  rw [parseMember, skip_blank hw, skip_nonblank (by decide)]
  simp only [parseString_body hk, bind, Except.bind]
  rw [skip_blank hw₁, skip_nonblank (by decide)]
  show (if (58 : UInt8) ≠ 58 then _ else _) = _
  rw [if_neg (by decide)]
  show (parseItem (parseValue pow n) _ >>= _) = _
  rw [List.tail_cons, hitem]
  rfl

/-- What comes first in the items of an array is no closing bracket. -/
theorem items_head {vs : List Tree} {t : Bytes} (h : Items (number pow) vs t) :
    ∃ w b s, t = w ++ b :: s ∧ Blank w ∧ 32 < b ∧ b ≠ 93 := by
  cases h with
  | one hw ht _ =>
    obtain ⟨b, s, rfl, hb⟩ := ht.head
    exact ⟨_, b, _, rfl, hw, hb⟩
  | cons hw ht _ _ =>
    obtain ⟨b, s, rfl, hb⟩ := ht.head
    exact ⟨_, b, _, rfl, hw, hb⟩

/-- The members of an object begin with a quote. -/
theorem members_head {ms : List (Bytes × Tree)} {t : Bytes} (h : Members (number pow) ms t) :
    ∃ w s, t = w ++ 34 :: s ∧ Blank w := by
  cases h with
  | one hm =>
    obtain ⟨hw, -, -, -, -, -⟩ := hm
    exact ⟨_, _, rfl, hw⟩
  | cons hm _ =>
    obtain ⟨hw, -, -, -, -, -⟩ := hm
    exact ⟨_, _, by rw [List.append_assoc]; rfl, hw⟩

mutual

/-- **Every text of a value is parsed to the value.** -/
theorem parseValue_derives {v : Tree} {t : Bytes} (h : Derives (number pow) v t) {n : Nat}
    (hn : t.length < n) : Accepts pow n v t := by
  obtain ⟨n, rfl⟩ := Nat.exists_eq_succ_of_ne_zero (Nat.ne_of_gt (Nat.zero_lt_of_lt hn))
  intro rest hrest
  match h with
  | .literalNull => rfl
  | .literalFalse => rfl
  | .literalTrue => rfl
  | @Derives.number _ _ d t hd =>
    have hstop := hrest.resolve_left fun h => h _ rfl
    obtain ⟨b, s, rfl, hb⟩ := hd.head
    have hne : b ≠ 110 ∧ b ≠ 102 ∧ b ≠ 116 ∧ b ≠ 34 := by
      rcases hb with rfl | hb
      · decide
      · obtain ⟨hquote, -, -, hnull, hfalse, htrue⟩ := digit_ne hb
        exact ⟨hnull, hfalse, htrue, hquote⟩
    obtain ⟨hnull, hfalse, htrue, hquote⟩ := hne
    have hnumber := parseNumber_numeral pow hd hstop
    rw [List.cons_append] at hnumber ⊢
    rw [parseValue_cons hnull hfalse htrue, if_neg hquote, if_pos hb, hnumber]
    rfl
  | .string (t := t) hs =>
    have happ : 34 :: (t ++ [34]) ++ rest = 34 :: (t ++ 34 :: rest) := by simp
    rw [happ, parseValue_cons (by decide) (by decide) (by decide), if_pos rfl,
      parseString_body hs]
    rfl
  | .emptyArray (w := w) hw =>
    have happ : 91 :: (w ++ [93]) ++ rest = 91 :: (w ++ 93 :: rest) := by simp
    rw [happ, parseValue_cons (by decide) (by decide) (by decide)]
    show (skip (w ++ 93 :: rest) >>= _) = _
    rw [skip_blank hw, skip_nonblank (by decide)]
    rfl
  | .emptyObject (w := w) hw =>
    have happ : 123 :: (w ++ [125]) ++ rest = 123 :: (w ++ 125 :: rest) := by simp
    rw [happ, parseValue_cons (by decide) (by decide) (by decide)]
    show (skip (w ++ 125 :: rest) >>= _) = _
    rw [skip_blank hw, skip_nonblank (by decide)]
    rfl
  | @Derives.array _ _ vs t hs =>
    have happ : 91 :: (t ++ [93]) ++ rest = 91 :: (t ++ 93 :: rest) := by simp
    simp only [List.length_cons, List.length_append, List.length_nil] at hn
    obtain ⟨w, b, s, rfl, hw, hblank, hb⟩ := items_head hs
    have hloop := items_accepts hs (n := n) (m := n) (by omega) (by omega) [] rest
    rw [happ, parseValue_cons (by decide) (by decide) (by decide)]
    rw [List.append_assoc, List.cons_append] at hloop ⊢
    -- the white space is skipped here and once more in front of the item
    rw [parseItem, skip_blank hw] at hloop
    show (skip (w ++ b :: (s ++ 93 :: rest)) >>= _) = _
    rw [skip_blank hw, skip_nonblank hblank]
    show (if b = 93 then _ else _) = _
    rw [if_neg hb]
    exact hloop
  | @Derives.object _ _ ms t hs =>
    have happ : 123 :: (t ++ [125]) ++ rest = 123 :: (t ++ 125 :: rest) := by simp
    simp only [List.length_cons, List.length_append, List.length_nil] at hn
    obtain ⟨w, s, rfl, hw⟩ := members_head hs
    have hloop := members_accepts hs (n := n) (m := n) (by omega) (by omega) [] rest
    rw [happ, parseValue_cons (by decide) (by decide) (by decide)]
    rw [List.append_assoc, List.cons_append] at hloop ⊢
    rw [parseMember, skip_blank hw] at hloop
    show (skip (w ++ 34 :: (s ++ 125 :: rest)) >>= _) = _
    rw [skip_blank hw, skip_nonblank (by decide)]
    exact hloop

/-- The loop over the items, from the first one on. -/
theorem items_accepts {vs : List Tree} {t : Bytes} (h : Items (number pow) vs t) {n m : Nat}
    (hn : t.length < n) (hm : t.length < m) (items : List Tree) (rest : Bytes) :
    (parseItem (parseValue pow n) (t ++ 93 :: rest) >>= fun x =>
      elementLoop 93 .array (parseItem (parseValue pow n)) m (items ++ [x.1]) x.2) =
        .ok (.array (items ++ vs), rest) := by
  match h with
  | @Items.one _ _ v w t w' hw hv hw' =>
    simp only [List.length_append] at hn hm
    obtain ⟨m, rfl⟩ := Nat.exists_eq_succ_of_ne_zero (Nat.ne_of_gt (Nat.zero_lt_of_lt hm))
    have hitem := parseItem_accepts hw hv (parseValue_derives hv (n := n) (by omega)) hw'
      (b := 93) (Or.inr (Or.inl rfl)) rest
    have happ : w ++ (t ++ w') ++ 93 :: rest = w ++ (t ++ (w' ++ 93 :: rest)) := by simp
    rw [happ, hitem]
    rfl
  | @Items.cons _ _ v vs w t w' ts hw hv hw' hs =>
    simp only [List.length_append, List.length_cons] at hn hm
    obtain ⟨m, rfl⟩ := Nat.exists_eq_succ_of_ne_zero (Nat.ne_of_gt (Nat.zero_lt_of_lt hm))
    have hitem := parseItem_accepts hw hv (parseValue_derives hv (n := n) (by omega)) hw'
      (b := 44) (Or.inl rfl) (ts ++ 93 :: rest)
    have happ : w ++ (t ++ (w' ++ 44 :: ts)) ++ 93 :: rest =
        w ++ (t ++ (w' ++ 44 :: (ts ++ 93 :: rest))) := by simp
    have hmore := items_accepts hs (n := n) (m := m) (by omega) (by omega) (items ++ [v]) rest
    rw [happ, hitem, List.append_cons items, ← hmore]
    rfl

/-- The loop over the members, from the first one on. -/
theorem members_accepts {ms : List (Bytes × Tree)} {t : Bytes}
    (h : Members (number pow) ms t) {n m : Nat} (hn : t.length < n) (hm : t.length < m) (members : List (Bytes × Tree)) (rest : Bytes) :
    (parseMember (parseValue pow n) (t ++ 125 :: rest) >>= fun x =>
      elementLoop 125 .object (parseMember (parseValue pow n)) m (members ++ [x.1]) x.2) =
        .ok (.object (members ++ ms), rest) := by
  match h with
  | @Members.one _ _ member t hmember =>
    obtain ⟨m, rfl⟩ := Nat.exists_eq_succ_of_ne_zero (Nat.ne_of_gt (Nat.zero_lt_of_lt hm))
    rw [member_accepts hmember hn (Or.inr (Or.inr rfl)) rest]
    rfl
  | @Members.cons _ _ member ms t ts hmember hs =>
    simp only [List.length_append, List.length_cons] at hn hm
    obtain ⟨m, rfl⟩ := Nat.exists_eq_succ_of_ne_zero (Nat.ne_of_gt (Nat.zero_lt_of_lt hm))
    have hfirst := member_accepts hmember (n := n) (b := 44) (by omega) (Or.inl rfl)
      (ts ++ 125 :: rest)
    have happ : t ++ 44 :: ts ++ 125 :: rest = t ++ 44 :: (ts ++ 125 :: rest) := by simp
    have hmore := members_accepts hs (n := n) (m := m) (by omega) (by omega)
      (members ++ [member]) rest
    rw [happ, hfirst, List.append_cons members, ← hmore]
    rfl

theorem member_accepts {m : Bytes × Tree} {t : Bytes} (h : Member (number pow) m t) {n : Nat}
    (hn : t.length < n) {b : UInt8} (hb : Closer b) (rest : Bytes) :
    parseMember (parseValue pow n) (t ++ b :: rest) = .ok (m, b :: rest) := by
  match h with
  | @Member.mk _ _ name v w k w₁ w₂ t w₃ hw hk hw₁ hw₂ hv hw₃ =>
    simp only [List.length_append, List.length_cons] at hn
    have happ : w ++ 34 :: (k ++ 34 :: (w₁ ++ 58 :: (w₂ ++ (t ++ w₃)))) ++ b :: rest =
        w ++ 34 :: (k ++ 34 :: (w₁ ++ 58 :: (w₂ ++ (t ++ (w₃ ++ b :: rest))))) := by simp
    rw [happ]
    exact parseMember_accepts hw hk hw₁ hw₂ hv (parseValue_derives hv (n := n) (by omega)) hw₃ hb
      rest

end

/-! ## Whole texts -/

/-- From the start of the text to the pointer behind its value. -/
theorem reads_value {v : Tree} {w t : Bytes} (hw : Blank w) (h : Derives (number pow) v t)
    (hrest : (∀ x, v ≠ .number x) ∨ Stops rest) : ∃ start,
      skip (w ++ (t ++ rest)) = .ok start ∧
        parseValue pow ((w ++ (t ++ rest)).length + 1) start = .ok (v, rest) := by
  have hfuel : t.length < (w ++ (t ++ rest)).length + 1 := by
    simp only [List.length_append]
    omega
  have hvalue := parseValue_derives h hfuel rest hrest
  obtain ⟨b, s, rfl, hb, -⟩ := h.head
  exact ⟨b :: s ++ rest, by rw [skip_blank hw, List.cons_append, skip_nonblank hb], hvalue⟩

/-- A terminated text, with white space around it. -/
theorem parseWithOpts_text {v : Tree} {w t w' : Bytes} (hw : Blank w)
    (h : Derives (number pow) v t) (hw' : Blank w') (tail : Bytes) (requireNullTerminated : Bool) :
    parseWithOpts pow (w ++ (t ++ (w' ++ 0 :: tail))) requireNullTerminated =
      .ok (v, if requireNullTerminated then 0 :: tail else w' ++ 0 :: tail) := by
  have hstops : Stops (w' ++ 0 :: tail) := by
    cases w' with
    | nil => exact stops_cons (by unfold Continues; decide) tail
    | cons c w' => exact stops_cons (not_continues (Or.inr (hw' c List.mem_cons_self))) _
  obtain ⟨start, hstart, hvalue⟩ := reads_value hw h (Or.inr hstops)
  have hend : skip (w' ++ 0 :: tail) = .ok (0 :: tail) := by
    rw [skip_blank hw']
    rfl
  rw [parseWithOpts, hstart]
  simp only [hvalue, hend, bind, Except.bind]
  cases requireNullTerminated <;> rfl

/-- **A terminated JSON text is parsed to the tree it stands for,** white space around it included,
and nothing behind its terminator matters.  A number of the tree is what the steps of `parse_number`
make of its numeral; a numeral of an integer below `2 ^ 53` is that integer, as a `double` and, in
the range of the type, as an `int`. -/
theorem parse_json_text (hpow : ∀ x, pow x 0 = 1) {v : Tree} {w t w' : Bytes} (hw : Blank w)
    (h : Derives (number pow) v t) (hw' : Blank w') (tail : Bytes) (requireNullTerminated : Bool) :
    parseWithOpts pow (w ++ (t ++ (w' ++ 0 :: tail))) requireNullTerminated =
        .ok (v, if requireNullTerminated then 0 :: tail else w' ++ 0 :: tail) ∧
      ∀ d, Integral d → (number pow d).valuedouble = signed d.negative d.digits ∧
        ∀ z : Int, z = (if d.negative then -(d.digits : Int) else d.digits) → -2 ^ 31 ≤ z →
          z < 2 ^ 31 → (number pow d).valueint = Int32.ofInt z :=
  ⟨parseWithOpts_text hw h hw' tail requireNullTerminated, fun _ hd => number_integral hpow hd⟩

/-- A list of `-1.5e1` and an escaped `é` under the name `a`; a byte of no meaning comes last. -/
theorem parse_json_text_object :
    parseWithOpts firstPowers [32, 123, 34, 97, 34, 58, 32, 91, 45, 49, 46, 53, 101, 49, 44, 32, 34,
        92, 117, 48, 48, 101, 57, 34, 93, 125, 10, 0, 255] true =
      .ok (.object [([97], .array [.number ⟨-15.0, -15⟩, .string [195, 169]])], [0, 255]) := by
  have hspace : Blank [32] := by simp [Blank]
  have hname : Body [97] [97] := Body.cons (Piece.plain (b := 97) (by decide) (by decide)
    (by decide)) Body.nil
  have hhex : Hex4 'é'.toNat [48, 48, 101, 57] := ⟨rfl, by decide +kernel, rfl⟩
  have hletter : Body [195, 169] [92, 117, 48, 48, 101, 57] :=
    Body.cons (Piece.unicode (by decide) hhex) Body.nil
  have hwhole : Whole [49] := Whole.digits (by decide) (by decide) nofun
  have hplace : Digits [53] := by simp [Digits, isDigit]
  have hone : Digits [49] := by simp [Digits, isDigit]
  have hnumeral : Numeral ⟨true, 15, 1, 1⟩ [45, 49, 46, 53, 101, 49] :=
    @Numeral.mk true _ _ _ _ hwhole hplace (Exponent.plain (Or.inl rfl) hone (by decide))
  have hitems := Items.cons blank_nil (@Derives.number _ (number firstPowers) _ _ hnumeral)
    blank_nil (Items.one hspace (Derives.string hletter) blank_nil)
  have hmember := Member.mk blank_nil hname blank_nil hspace (Derives.array hitems) blank_nil
  have hend : Blank [10] := by simp [Blank]
  obtain ⟨hparse, hexact⟩ := parse_json_text firstPowers_zero hspace
    (Derives.object (Members.one hmember)) hend [255] true
  obtain ⟨hdouble, hint⟩ := hexact ⟨true, 15, 1, 1⟩ ⟨by decide, by decide, rfl⟩
  have hfifteen : signed true 15 = -15.0 := by decide +kernel
  have hnumber : number firstPowers ⟨true, 15, 1, 1⟩ = ⟨-15.0, -15⟩ :=
    Number.ext (hdouble.trans hfifteen) (hint (-15) rfl (by decide) (by decide))
  rw [hnumber] at hparse
  exact hparse

end EmWinDemo.Json
