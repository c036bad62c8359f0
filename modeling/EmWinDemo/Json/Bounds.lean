/-
# EmWinDemo.Json.Bounds -- where the parser reads and writes

`Ends tail d p r` says of a call that starts at the pointer `p` how it may end: with a pointer into
the same text at least `d` bytes further on, with an error pointer into the text, or by reading
outside, but that only if `p` is not a proper text in front of the bytes `tail`.  It never ends by
writing outside a buffer or by exhausting the bound of the model.  One rule for each way to put
calls together carries this from `parse_string` up to `cJSON_ParseWithOpts`.

A proper text ends in a NUL and has no backslash in front of it: the measuring loop of
`parse_string` steps over whatever follows a backslash, the terminator included.
-/
import EmWinDemo.Json.Parse

namespace EmWinDemo.Json

open EmWinDemo.Lib.CMemory EmWinDemo.Lib.CText EmWinDemo.Lib.Json

/-! ## Proper texts -/

/-- A text with its terminator in front of the bytes `tail`; the text does not end in a backslash. -/
def Proper (tail p : Bytes) : Prop :=
  ∃ r, p = r ++ 0 :: tail ∧ (0 : UInt8) ∉ r ∧ r.getLast? ≠ some 92

variable {tail p q : Bytes} {k : Nat} {pow : Float → Float → Float}

theorem not_proper_nil : ¬Proper tail [] := by
  rintro ⟨r, hr, -, -⟩
  simp at hr

/-- What follows a byte of a proper text that is not its terminator. -/
theorem Proper.next {b : UInt8} (h : Proper tail (b :: p)) (hb : b ≠ 0) : Proper tail p := by
  obtain ⟨r, hr, hnul, hlast⟩ := h
  match r with
  | [] =>
    obtain rfl : b = 0 := by
      simp only [List.nil_append, List.cons.injEq] at hr
      exact hr.1
    exact absurd rfl hb
  | c :: r =>
    obtain ⟨rfl, rfl⟩ := List.cons.inj hr
    refine ⟨r, rfl, fun hmem => hnul (List.mem_cons_of_mem b hmem), ?_⟩
    cases r with
    | nil => simp
    | cons d r => simpa using hlast

/-- A backslash has a byte behind it that still belongs to the text. -/
theorem Proper.escape (h : Proper tail (92 :: p)) : ∃ c q, p = c :: q ∧ Proper tail q := by
  obtain ⟨r, hr, hnul, hlast⟩ := h.next (by decide)
  match r with
  | [] =>
    exfalso
    obtain ⟨r', hr', -, hlast'⟩ := h
    rw [hr, List.nil_append] at hr'
    -- the text would be the backslash alone
    have hlen := congrArg List.length hr'
    match r' with
    | [] => simp at hr'
    | [c] =>
      obtain ⟨rfl, -⟩ := List.cons.inj hr'
      exact hlast' rfl
    | c :: d :: r' =>
      simp at hlen
      omega
  | c :: r =>
    refine ⟨c, r ++ 0 :: tail, hr, ?_⟩
    have hc : c ≠ 0 := fun hc => hnul (hc ▸ List.mem_cons_self)
    exact Proper.next ⟨c :: r, rfl, hnul, hlast⟩ hc

theorem Proper.drop {word : Bytes} (hword : (0 : UInt8) ∉ word) (h : Proper tail (word ++ p)) :
    Proper tail p := by
  induction word with
  | nil => exact h
  | cons b word ih =>
    have hb : b ≠ 0 := fun hb => hword (hb ▸ List.mem_cons_self)
    exact ih (fun hmem => hword (List.mem_cons_of_mem b hmem)) (h.next hb)

/-- In a proper text the measuring loop stays inside. -/
theorem Proper.scan (h : Proper tail p) (k : Nat) :
    ∃ len stop, scan k p = .ok (len, stop) ∧ Proper tail stop := by
  induction hn : p.length using Nat.strongRecOn generalizing k p with
  | ind n ih =>
    match p with
    | [] => exact absurd h not_proper_nil
    | b :: q =>
      by_cases hstop : b = 34 ∨ b = 0
      · exact ⟨k, b :: q, scan_stop hstop, h⟩
      obtain ⟨hquote, hnul⟩ := not_or.mp hstop
      by_cases hslash : b = 92
      · subst hslash
        obtain ⟨c, q, rfl, hq⟩ := h.escape
        rw [scan_escape]
        exact ih q.length (by simp only [← hn, List.length_cons]; omega) hq (k + 1) rfl
      · rw [scan_plain hquote hnul hslash]
        exact ih q.length (by simp [← hn]) (h.next hnul) (k + 1) rfl

/-- A comparison with a word: it runs into the end of a text that is not proper, or it decides. -/
theorem startsWith_cases {word : Bytes} (hword : (0 : UInt8) ∉ word) :
    (startsWith word p = .error .overread ∧ ¬Proper tail p) ∨ startsWith word p = .ok false ∨
      (startsWith word p = .ok true ∧ ∃ q, p = word ++ q) := by
  induction word generalizing p with
  | nil => exact Or.inr (Or.inr ⟨rfl, p, rfl⟩)
  | cons c word ih =>
    match p with
    | [] => exact Or.inl ⟨rfl, not_proper_nil⟩
    | b :: p =>
      by_cases hb : b = c
      · subst hb
        have hnul : b ≠ 0 := fun hb => hword (hb ▸ List.mem_cons_self)
        rw [startsWith, if_pos rfl]
        rcases ih (p := p) (fun hmem => hword (List.mem_cons_of_mem b hmem)) with
          ⟨h, hp⟩ | h | ⟨h, q, rfl⟩
        · exact Or.inl ⟨h, fun hproper => hp (hproper.next hnul)⟩
        · exact Or.inr (Or.inl h)
        · exact Or.inr (Or.inr ⟨h, q, rfl⟩)
      · exact Or.inr (Or.inl (by rw [startsWith, if_neg hb]))

/-! ## How a call ends -/

/-- The outcomes of a call that starts at `p`. -/
inductive Ends {α : Type} (tail p : Bytes) : Except Fault (α × Bytes) → Prop where
  | ok {a : α} {q : Bytes} (hsuffix : q <:+ p) (hproper : Proper tail p → Proper tail q) :
      Ends tail p (.ok (a, q))
  | invalid {ep : Bytes} (hsuffix : ep <:+ p) (hproper : Proper tail p → Proper tail ep) :
      Ends tail p (.error (.invalid ep))
  | overread (h : ¬Proper tail p) : Ends tail p (.error .overread)

namespace Ends

variable {α β : Type} {x : Except Fault (α × Bytes)} {r : Except Fault (β × Bytes)}

theorem pure (a : α) (p : Bytes) : Ends tail p (.ok (a, p)) := .ok (List.suffix_refl p) id

theorem reject (p : Bytes) : @Ends α tail p (.error (.invalid p)) :=
  .invalid (List.suffix_refl p) id

/-- A call that starts at a later pointer of the same text. -/
theorem later (hsuffix : q <:+ p) (hproper : Proper tail p → Proper tail q)
    (h : Ends tail q x) : Ends tail p x := by
  cases h with
  | ok hsuffix' hproper' => exact .ok (hsuffix'.trans hsuffix) fun hp => hproper' (hproper hp)
  | invalid hsuffix' hproper' =>
    exact .invalid (hsuffix'.trans hsuffix) fun hp => hproper' (hproper hp)
  | overread h => exact .overread fun hp => h (hproper hp)

/-- A call behind a byte that is not the terminator. -/
theorem next {b : UInt8} (hb : b ≠ 0) (h : Ends tail p x) : Ends tail (b :: p) x :=
  later (List.suffix_cons b p) (fun hp => hp.next hb) h

/-- A call behind a word without a NUL. -/
theorem drop {word : Bytes} (hword : (0 : UInt8) ∉ word) (h : Ends tail p x) :
    Ends tail (word ++ p) x :=
  later (List.suffix_append word p) (fun hp => hp.drop hword) h

/-- One call after the other. -/
theorem bind {f : α × Bytes → Except Fault (β × Bytes)} (hx : Ends tail p x)
    (hf : ∀ a q, q.length ≤ p.length → Ends tail q (f (a, q))) : Ends tail p (x >>= f) := by
  cases hx with
  | @ok a q hsuffix hproper => exact later hsuffix hproper (hf a q hsuffix.length_le)
  | invalid hsuffix hproper => exact .invalid hsuffix hproper
  | overread h => exact .overread h

/-- A read through `p`. -/
theorem deref {f : UInt8 → Except Fault (β × Bytes)}
    (hf : ∀ b q, p = b :: q → Ends tail p (f b)) : Ends tail p (deref p >>= f) := by
  match p with
  | [] => exact .overread not_proper_nil
  | b :: q => exact hf b q rfl

/-- A read of the byte behind one that is not the terminator. -/
theorem peek {b : UInt8} (hb : b ≠ 0) {f : UInt8 → Except Fault (β × Bytes)}
    (hf : ∀ c q, p = c :: q → Ends tail (b :: p) (f c)) :
    Ends tail (b :: p) (Json.deref p >>= f) := by
  match p with
  | [] => exact .overread fun hp => not_proper_nil (hp.next hb)
  | c :: q => exact hf c q rfl

theorem skip {f : Bytes → Except Fault (β × Bytes)}
    (hf : ∀ q, q.length ≤ p.length → Ends tail q (f q)) : Ends tail p (skip p >>= f) := by
  induction p with
  | nil => exact .overread not_proper_nil
  | cons b p ih =>
    by_cases hb : b ≠ 0 ∧ b ≤ 32
    · have hskip : Json.skip (b :: p) = Json.skip p := by rw [Json.skip, if_pos hb]
      rw [hskip]
      exact next hb.1 (ih fun q hq => hf q (hq.trans (Nat.le_succ _)))
    · have hskip : Json.skip (b :: p) = .ok (b :: p) := by rw [Json.skip, if_neg hb]
      rw [hskip]
      exact hf (b :: p) (le_refl _)

theorem startsWith {word : Bytes} (hword : (0 : UInt8) ∉ word)
    {f : Bool → Except Fault (β × Bytes)}
    (htrue : ∀ q, p = word ++ q → Ends tail p (f true)) (hfalse : Ends tail p (f false)) :
    Ends tail p (startsWith word p >>= f) := by
  rcases @startsWith_cases tail p _ hword with ⟨h, hp⟩ | h | ⟨h, q, hq⟩
  · rw [h]
    exact .overread hp
  · rw [h]
    exact hfalse
  · rw [h]
    exact htrue q hq

end Ends

/-! ## Strings and numbers -/

theorem parseString_ends (tail p : Bytes) : Ends tail p (parseString p) := by
  rcases parseString_cases p with ⟨h, hread⟩ | h | ⟨body, len, stop, out, rfl, hscan, -, h⟩
  · rw [h]
    refine .overread fun hp => ?_
    rcases hread with rfl | ⟨body, rfl, hscan⟩
    · exact not_proper_nil hp
    · obtain ⟨len, stop, hok, -⟩ := (hp.next (by decide)).scan 0
      rw [hscan] at hok
      cases hok
  · rw [h]
    exact .reject p
  · obtain ⟨-, hsuffix, b, s, rfl, -⟩ := scan_bounds hscan
    have hproper : Proper tail (34 :: body) → Proper tail (b :: s) := by
      intro hp
      obtain ⟨len', stop', hok, hstop⟩ := (hp.next (by decide)).scan 0
      rw [hscan] at hok
      cases hok
      exact hstop
    rw [h]
    refine Ends.later (hsuffix.trans (List.suffix_cons 34 body)) hproper ?_
    split
    · next hquote =>
      obtain rfl : b = 34 := Option.some.inj hquote
      exact Ends.next (by decide) (Ends.pure out s)
    · exact Ends.pure out (b :: s)

theorem digitLoop_ends {α : Type} (tail : Bytes) (turn : α → Nat → α) (x : α) (p : Bytes) :
    Ends tail p (digitLoop turn x p) := by
  induction p generalizing x with
  | nil => exact .overread not_proper_nil
  | cons b p ih =>
    rw [digitLoop]
    split
    · next hb =>
      refine Ends.next ?_ (ih _)
      rintro rfl
      exact absurd hb (by decide)
    · exact Ends.pure _ _

theorem parseSign_ends (tail p : Bytes) : Ends tail p (parseSign p) := by
  refine Ends.deref fun c q hq => ?_
  subst hq
  split
  · next hc => exact Ends.next (by rw [hc]; decide) (Ends.pure _ _)
  · exact Ends.pure _ _

theorem parseWhole_ends (tail p : Bytes) : Ends tail p (parseWhole p) := by
  refine Ends.deref fun c q hq => ?_
  subst hq
  have hfrom : ∀ num, Ends tail num (deref num >>= fun c =>
      if 49 ≤ c ∧ c ≤ 57 then digitLoop nextDigit 0.0 num else .ok (0.0, num)) := by
    intro num
    refine Ends.deref fun d r hr => ?_
    split
    · exact digitLoop_ends tail _ _ num
    · exact Ends.pure _ _
  by_cases hc : c = 48
  · subst hc
    exact Ends.next (by decide) (hfrom q)
  · have hnum := hfrom (c :: q)
    simpa only [if_neg hc] using hnum

theorem parseFraction_ends (tail : Bytes) (n : Float) (p : Bytes) :
    Ends tail p (parseFraction n p) := by
  refine Ends.deref fun c q hq => ?_
  subst hq
  split
  · next hc =>
    subst hc
    refine Ends.peek (by decide) fun d r hr => ?_
    split
    · exact Ends.next (by decide) (digitLoop_ends tail _ _ q)
    · exact Ends.pure _ _
  · exact Ends.pure _ _

theorem parseExponent_ends (tail p : Bytes) : Ends tail p (parseExponent p) := by
  have hloop : ∀ (signsubscale : Int32) (num : Bytes), Ends tail num
      (digitLoop nextSubscale 0 num >>= fun x => .ok ((x.1, signsubscale), x.2)) := fun _ num =>
    Ends.bind (digitLoop_ends tail _ _ num) fun _ _ _ => Ends.pure _ _
  refine Ends.deref fun c q hq => ?_
  subst hq
  split
  · next hc =>
    have hnul : c ≠ 0 := by rcases hc with rfl | rfl <;> decide
    refine Ends.next hnul (Ends.deref fun d r hr => ?_)
    replace hr : q = d :: r := hr
    subst hr
    split
    · next hd => exact Ends.next (by rw [hd]; decide) (hloop 1 r)
    split
    · next hd => exact Ends.next (by rw [hd]; decide) (hloop (-1) r)
    · exact hloop 1 (d :: r)
  · exact Ends.pure _ _

theorem parseNumber_ends (pow : Float → Float → Float) (tail p : Bytes) :
    Ends tail p (parseNumber pow p) := by
  refine Ends.bind (parseSign_ends tail p) fun sign p₁ _ => ?_
  refine Ends.bind (parseWhole_ends tail p₁) fun n p₂ _ => ?_
  refine Ends.bind (parseFraction_ends tail n p₂) fun frac p₃ _ => ?_
  refine Ends.bind (parseExponent_ends tail p₃) fun subscale p₄ _ => ?_
  exact Ends.pure _ p₄

/-! ## Arrays and objects -/

/-- `parse_value` behaves on all texts shorter than the bound. -/
def Parses (tail : Bytes) (n : Nat) (parse : ValueParser) : Prop :=
  ∀ q : Bytes, q.length < n → Ends tail q (parse q)

variable {parse : ValueParser} {n : Nat}

theorem parseItem_ends (hparse : Parses tail n parse) (hp : p.length < n) :
    Ends tail p (parseItem parse p) := by
  refine Ends.skip fun q hq => ?_
  refine Ends.bind (hparse q (by omega)) fun v q₁ _ => ?_
  exact Ends.skip fun q₂ _ => Ends.pure v q₂

theorem parseMember_ends (hparse : Parses tail n parse) (hp : p.length < n) :
    Ends tail p (parseMember parse p) := by
  refine Ends.skip fun q hq => ?_
  refine Ends.bind (parseString_ends tail q) fun name q₁ hq₁ => ?_
  refine Ends.skip fun q₂ hq₂ => ?_
  refine Ends.deref fun c q₃ hq₃ => ?_
  subst hq₃
  split
  · exact Ends.reject _
  · next hc =>
    obtain rfl : c = 58 := not_not.mp hc
    simp only [List.length_cons] at hq₂
    refine Ends.next (by decide) (Ends.bind (parseItem_ends hparse (by show q₃.length < n; omega)) ?_)
    exact fun v q₄ _ => Ends.pure _ q₄

variable {α : Type} {close : UInt8} {wrap : List α → Tree}
  {element : Bytes → Except Fault (α × Bytes)}

theorem elementLoop_ends (hclose : close ≠ 0)
    (helement : ∀ q : Bytes, q.length < n → Ends tail q (element q)) {m : Nat} (done : List α)
    (hm : p.length < m) (hp : p.length ≤ n) :
    Ends tail p (elementLoop close wrap element m done p) := by
  induction m generalizing p done with
  | zero => exact absurd hm (Nat.not_lt_zero _)
  | succ m ih =>
    refine Ends.deref fun c q hq => ?_
    subst hq
    simp only [List.length_cons] at hm hp
    split
    · next hc =>
      subst hc
      refine Ends.next (by decide) (Ends.bind (helement q (by omega)) fun a q₁ hq₁ => ?_)
      exact ih (done ++ [a]) (by omega) (by omega)
    split
    · next hc =>
      subst hc
      exact Ends.next hclose (Ends.pure _ q)
    · exact Ends.reject _

theorem parseElements_ends {opening : UInt8} (hopening : opening ≠ 0) (hclose : close ≠ 0)
    (helement : ∀ q : Bytes, q.length < n → Ends tail q (element q)) (hp : p.length ≤ n) :
    Ends tail p (parseElements opening close wrap element n p) := by
  refine Ends.deref fun c q hq => ?_
  subst hq
  split
  · exact Ends.reject _
  next hc =>
  obtain rfl : c = opening := not_not.mp hc
  simp only [List.length_cons] at hp
  refine Ends.next hopening (Ends.skip fun q₁ hq₁ => Ends.deref fun d r hr => ?_)
  subst hr
  replace hq₁ : r.length + 1 ≤ q.length := hq₁
  split
  · next hd =>
    subst hd
    exact Ends.next hclose (Ends.pure _ r)
  · refine Ends.bind (helement (d :: r) (by simp only [List.length_cons]; omega))
      fun a q₂ hq₂ => ?_
    simp only [List.length_cons] at hq₂
    exact elementLoop_ends hclose helement [a] (by omega) (by omega)

/-! ## Values and whole texts -/

theorem zero_notMem_null : (0 : UInt8) ∉ [110, 117, 108, 108] := by decide

theorem zero_notMem_false : (0 : UInt8) ∉ [102, 97, 108, 115, 101] := by decide

theorem zero_notMem_true : (0 : UInt8) ∉ [116, 114, 117, 101] := by decide

/-- The bound that the text's length gives is enough, and the call ends properly. -/
theorem parseValue_ends (pow : Float → Float → Float) (tail : Bytes) (n : Nat) :
    Parses tail n (parseValue pow n) := by
  induction n with
  | zero => exact fun q hq => absurd hq (Nat.not_lt_zero _)
  | succ n ih =>
    intro p hp
    have hle : p.length ≤ n := Nat.le_of_lt_succ hp
    refine Ends.startsWith zero_notMem_null (fun q hq => ?_) ?_
    · subst hq
      exact Ends.drop zero_notMem_null (Ends.pure Value.null q)
    refine Ends.startsWith zero_notMem_false (fun q hq => ?_) ?_
    · subst hq
      exact Ends.drop zero_notMem_false (Ends.pure Value.false q)
    refine Ends.startsWith zero_notMem_true (fun q hq => ?_) ?_
    · subst hq
      exact Ends.drop zero_notMem_true (Ends.pure Value.true q)
    show Ends tail p (deref p >>= fun c => _)
    refine Ends.deref fun c q hq => ?_
    split
    · exact Ends.bind (parseString_ends tail p) fun s q _ => Ends.pure _ q
    split
    · exact Ends.bind (parseNumber_ends pow tail p) fun d q _ => Ends.pure _ q
    split
    · exact parseElements_ends (by decide) (by decide) (fun q hq => parseItem_ends ih hq) hle
    split
    · exact parseElements_ends (by decide) (by decide) (fun q hq => parseMember_ends ih hq) hle
    · exact Ends.reject p

/-- **How `cJSON_ParseWithOpts` ends, on any text.** -/
theorem parseWithOpts_ends (pow : Float → Float → Float) (tail value : Bytes)
    (requireNullTerminated : Bool) :
    Ends tail value (parseWithOpts pow value requireNullTerminated) := by
  refine Ends.skip fun start hstart => ?_
  refine Ends.bind (parseValue_ends pow tail _ start (by omega)) fun v stop _ => ?_
  cases requireNullTerminated with
  | false => exact Ends.pure v stop
  | true =>
    refine Ends.skip (p := stop) fun stop₁ _ => Ends.deref fun c q _ => ?_
    split
    · exact Ends.reject stop₁
    · exact Ends.pure v stop₁

/-- In front of the terminator of a proper text stands a part of it. -/
theorem Proper.part {s : Bytes} (hp : Proper [] p) (hsuffix : p <:+ s ++ [0]) :
    ∃ rest, rest <:+ s ∧ p = rest ++ [0] := by
  obtain ⟨rest, rfl, -, -⟩ := hp
  exact ⟨rest, (List.suffix_append_self_iff).mp hsuffix, rfl⟩

/-- **A terminated text that does not end in a backslash is parsed inside its bounds.**  The call
returns a tree or rejects the text, and either way with a pointer into the text: nothing is read
behind the terminator and nothing is written behind a string's buffer. -/
theorem parse_stays_inside (pow : Float → Float → Float) (s : Bytes) (hnul : (0 : UInt8) ∉ s)
    (hlast : s.getLast? ≠ some 92) (requireNullTerminated : Bool) :
    ∃ rest, rest <:+ s ∧
      ((∃ v, parseWithOpts pow (s ++ [0]) requireNullTerminated = .ok (v, rest ++ [0])) ∨
        parseWithOpts pow (s ++ [0]) requireNullTerminated = .error (.invalid (rest ++ [0]))) := by
  have htext : Proper [] (s ++ [0]) := ⟨s, rfl, hnul, hlast⟩
  generalize hr : parseWithOpts pow (s ++ [0]) requireNullTerminated = r
  have hends := parseWithOpts_ends pow [] (s ++ [0]) requireNullTerminated
  rw [hr] at hends
  cases hends with
  | ok hsuffix hproper =>
    obtain ⟨rest, hrest, rfl⟩ := (hproper htext).part hsuffix
    exact ⟨rest, hrest, Or.inl ⟨_, rfl⟩⟩
  | invalid hsuffix hproper =>
    obtain ⟨rest, hrest, rfl⟩ := (hproper htext).part hsuffix
    exact ⟨rest, hrest, Or.inr rfl⟩
  | overread h => exact absurd htext h

theorem parse_stays_inside_list :
    ∃ rest, rest <:+ ascii ['[', '1', ']'] ∧
      ((∃ v, parseWithOpts firstPowers (ascii ['[', '1', ']'] ++ [0]) true =
          .ok (v, rest ++ [0])) ∨
        parseWithOpts firstPowers (ascii ['[', '1', ']'] ++ [0]) true =
          .error (.invalid (rest ++ [0]))) :=
  parse_stays_inside _ (ascii ['[', '1', ']']) (by decide) (by decide) true

/-- The condition on the last byte is needed: behind a backslash the terminator is overlooked. -/
example : parseWithOpts firstPowers [34, 92, 0] false = .error .overread := by rfl

end EmWinDemo.Json
