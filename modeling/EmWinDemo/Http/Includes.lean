/-
# EmWinDemo.Http.Includes -- a page with server side includes, as the server reads it

`items` reads a page as the server does: its bytes, and the names of the functions that are called where it says
`<%name%>`.  A name may also end with another byte of `endsName`; a name of less than two or
of 32 bytes and more calls nothing, and the script goes on behind it.  A `<` at the end of the page
is lost.  Pages that have no items are those that the server sends differently each time, because
that depends on where a piece of the file ends or on what the buffer holds behind it: a second
`<` directly in front of a `%` or of the end, and a script that is not ended.

The rounds of `httpsrv_sendfile` send the items of the page (`sendPage_items`).  Between two rounds,
the start of the mark in `scriptBuffer` is the mode in which the rest of the page is read.
-/
import EmWinDemo.Http.Pages

namespace EmWinDemo.Http.Includes

open Lib.CMemory Lib.CText Lib.Chunked Reader Output Response Client Pages

/-! ## Pages -/

inductive Item where
  | byte (b : UInt8)
  | call (name : Bytes)
  deriving Repr, DecidableEq

/-- Where the reader of a page is: in text, behind a `<`, behind a `<` that follows another, in a
script, or behind the `%` that ends its name. -/
inductive Mode where
  | text
  | less
  | doubled
  | script (name : Bytes)
  | closing (name : Bytes)
  deriving Repr, DecidableEq

/-- A script with this name ends. -/
def endScript (name : Bytes) : List Item × Mode :=
  if 1 < name.length ∧ name.length < maxScriptLn then ([.call name], .text) else ([], .script [])

def stepText (b : UInt8) : Option (List Item × Mode) :=
  if b = 60 then some ([], .less) else some ([.byte b], .text)

def stepScript (name : Bytes) (b : UInt8) : Option (List Item × Mode) :=
  if ¬name.length + 1 < sesBufSize then none
  else if b = 37 then some ([], .closing name)
  else if endsName b then some (endScript name)
  else some ([], .script (name ++ [b]))

/-- A byte that is not the `>` behind a `%` belongs to what follows the script. -/
def stepClosing (name : Bytes) (b : UInt8) : Option (List Item × Mode) :=
  if b = 62 then some (endScript name)
  else
    let (out, mode) := endScript name
    (if mode = .text then stepText b else stepScript [] b).map fun r => (out ++ r.1, r.2)

def step : Mode → UInt8 → Option (List Item × Mode)
  | .text, b => stepText b
  | .less, b =>
    if b = 37 then some ([], .script [])
    else if b = 60 then some ([.byte 60], .doubled)
    else some ([.byte 60, .byte b], .text)
  | .doubled, b =>
    if b = 37 then none
    else if b = 60 then some ([.byte 60], .doubled)
    else some ([.byte 60, .byte b], .text)
  | .script name, b => stepScript name b
  | .closing name, b => stepClosing name b

/-- The end of the page. -/
def finish : Mode → Option (List Item)
  | .text | .less => some []
  | .doubled => none
  | .script name => if name = [] then some [] else none
  | .closing name => some (endScript name).1

/-- The items of a page from here on. -/
def items : Mode → Bytes → Option (List Item)
  | mode, [] => finish mode
  | mode, b :: rest => do
    let (out, mode) ← step mode b
    (items mode rest).map (out ++ ·)

/-- What a client gets of an item. -/
def output (table : SsiTable) : Item → Bytes
  | .byte b => [b]
  | .call name => ((ssiWrites table name).getD []).flatten

example : items .text (text "a <b> <%led:1%>!<") =
    some ((text "a <b> ").map .byte ++ [.call (text "led:1"), .byte 33]) := by decide +kernel

/-! ## Reading on -/

theorem items_cons {mode : Mode} {b : UInt8} {rest : Bytes} {its : List Item}
    (h : items mode (b :: rest) = some its) :
    ∃ out mode' its', step mode b = some (out, mode') ∧ items mode' rest = some its' ∧
      its = out ++ its' := by
  rw [items] at h
  obtain ⟨⟨out, mode'⟩, hstep, hrest⟩ := Option.bind_eq_some_iff.mp h
  obtain ⟨its', hitems, rfl⟩ := Option.map_eq_some_iff.mp hrest
  exact ⟨out, mode', its', hstep, hitems, rfl⟩

/-- In text: a byte, or a `<`, which may begin a mark. -/
theorem items_text {b : UInt8} {rest : Bytes} {its : List Item}
    (h : items .text (b :: rest) = some its) :
    if b = 60 then items .less rest = some its
    else ∃ its', items .text rest = some its' ∧ its = .byte b :: its' := by
  obtain ⟨out, mode, its', hstep, hitems, rfl⟩ := items_cons h
  simp only [step, stepText] at hstep
  by_cases hless : b = 60
  · rw [if_pos hless] at hstep ⊢
    cases hstep
    exact hitems
  · rw [if_neg hless] at hstep ⊢
    cases hstep
    exact ⟨its', hitems, rfl⟩

/-- A `<` that follows another is text. -/
theorem items_doubled {rest : Bytes} {its : List Item} (h : items .doubled rest = some its) :
    items .less rest = some its ∧ ∃ its', items .text rest = some its' ∧ its = .byte 60 :: its' := by
  induction rest generalizing its with
  | nil => cases h
  | cons b rest ih =>
    obtain ⟨out, mode, its', hstep, hitems, rfl⟩ := items_cons h
    have hpercent : b ≠ 37 := by
      rintro rfl
      cases hstep
    simp only [step, if_neg hpercent] at hstep
    by_cases hless : b = 60
    · rw [if_pos hless] at hstep
      cases hstep
      obtain ⟨hagain, -⟩ := ih hitems
      subst hless
      exact ⟨by simp [items, step, hitems], its', by simp [items, step, stepText, hagain], rfl⟩
    · rw [if_neg hless] at hstep
      cases hstep
      exact ⟨by simp [items, step, hpercent, hless, hitems], .byte b :: its',
        by simp [items, step, stepText, hless, hitems], rfl⟩

/-- A `<` and a byte behind it that does not make a mark of it are text. -/
theorem items_less_other {b : UInt8} {rest : Bytes} {its : List Item} (hb : b ≠ 37)
    (h : items .less (b :: rest) = some its) :
    ∃ its', items .text rest = some its' ∧ its = .byte 60 :: .byte b :: its' := by
  obtain ⟨out, mode, its', hstep, hitems, rfl⟩ := items_cons h
  simp only [step, if_neg hb] at hstep
  by_cases hless : b = 60
  · rw [if_pos hless] at hstep
    cases hstep
    obtain ⟨-, its'', hrest, rfl⟩ := items_doubled hitems
    exact ⟨its'', hrest, by rw [hless]; rfl⟩
  · rw [if_neg hless] at hstep
    cases hstep
    exact ⟨its', hitems, rfl⟩

/-- Behind a `<`: a script begins, or the `<` is text. -/
theorem items_less {b : UInt8} {rest : Bytes} {its : List Item}
    (h : items .less (b :: rest) = some its) :
    if b = 37 then items (.script []) rest = some its
    else ∃ its', items .text (b :: rest) = some its' ∧ its = .byte 60 :: its' := by
  obtain ⟨out, mode, its', hstep, hitems, rfl⟩ := items_cons h
  simp only [step] at hstep
  by_cases hpercent : b = 37
  · rw [if_pos hpercent] at hstep ⊢
    cases hstep
    exact hitems
  · rw [if_neg hpercent] at hstep ⊢
    by_cases hless : b = 60
    · rw [if_pos hless] at hstep
      cases hstep
      obtain ⟨hagain, -⟩ := items_doubled hitems
      subst hless
      exact ⟨its', by simp [items, step, stepText, hagain], rfl⟩
    · rw [if_neg hless] at hstep
      cases hstep
      exact ⟨.byte b :: its', by simp [items, step, stepText, hless, hitems], rfl⟩

/-- What follows a script with its name ended by `e`, in front of `more`. -/
def behind (e : UInt8) (more : Bytes) : Bytes :=
  if e = 37 ∧ more.head? = some 62 then more.tail else more

theorem endScript_mode (name : Bytes) :
    (endScript name).2 = .text ∨ (endScript name).2 = .script [] := by
  unfold endScript
  split
  · exact Or.inl rfl
  · exact Or.inr rfl

/-- The bytes behind a `%` that ends a name. -/
theorem items_closing {name rest : Bytes} {its : List Item}
    (h : items (.closing name) rest = some its) :
    ∃ its', its = (endScript name).1 ++ its' ∧
      items (endScript name).2 (behind 37 rest) = some its' := by
  have hmode := endScript_mode name
  cases rest with
  | nil =>
    obtain rfl : (endScript name).1 = its := Option.some.inj h
    refine ⟨[], (List.append_nil _).symm, ?_⟩
    rcases hmode with hmode | hmode <;> rw [hmode] <;> rfl
  | cons b rest =>
    obtain ⟨out, mode, its', hstep, hitems, rfl⟩ := items_cons h
    simp only [step, stepClosing] at hstep
    by_cases hend : b = 62
    · rw [if_pos hend] at hstep
      obtain ⟨rfl, rfl⟩ := Prod.ext_iff.mp (Option.some.inj hstep)
      exact ⟨its', rfl, by simpa [behind, hend] using hitems⟩
    · -- the byte is read again, in the mode behind the script
      rw [if_neg hend] at hstep
      obtain ⟨⟨out', mode'⟩, hnext, hout⟩ := Option.map_eq_some_iff.mp hstep
      obtain ⟨rfl, rfl⟩ := Prod.ext_iff.mp hout
      refine ⟨out' ++ its', List.append_assoc _ _ _, ?_⟩
      have hstep' : step (endScript name).2 b = some (out', mode') := by
        rcases hmode with hmode | hmode <;> rw [hmode] at hnext ⊢ <;> exact hnext
      simp [behind, hend, items, hstep', hitems]

/-- A script is its name, the byte that ends it, and what follows. -/
theorem items_script {acc rest : Bytes} {its : List Item}
    (h : items (.script acc) rest = some its) (hopen : acc ≠ [] ∨ rest ≠ []) :
    ∃ name e more its', rest = name ++ e :: more ∧ (∀ b ∈ name, endsName b = false) ∧
      endsName e = true ∧ (acc ++ name).length + 1 < sesBufSize ∧
      its = (endScript (acc ++ name)).1 ++ its' ∧
      items (endScript (acc ++ name)).2 (behind e more) = some its' := by
  induction rest generalizing acc with
  | nil =>
    have hacc : acc ≠ [] := hopen.resolve_right fun h => h rfl
    rw [items, finish, if_neg hacc] at h
    cases h
  | cons b rest ih =>
    obtain ⟨out, mode, its', hstep, hitems, rfl⟩ := items_cons h
    simp only [step, stepScript] at hstep
    by_cases hlong : ¬acc.length + 1 < sesBufSize
    · rw [if_pos hlong] at hstep
      cases hstep
    rw [if_neg hlong] at hstep
    by_cases hpercent : b = 37
    · rw [if_pos hpercent] at hstep
      obtain ⟨rfl, rfl⟩ := Prod.ext_iff.mp (Option.some.inj hstep)
      obtain ⟨its'', rfl, hrest⟩ := items_closing hitems
      subst hpercent
      refine ⟨[], 37, rest, its'', rfl, by simp, by decide, ?_, ?_, ?_⟩
      · rw [List.append_nil]
        exact not_not.mp hlong
      · rw [List.append_nil, List.nil_append]
      · rw [List.append_nil]
        exact hrest
    rw [if_neg hpercent] at hstep
    by_cases hends : endsName b = true
    · rw [if_pos hends] at hstep
      obtain ⟨rfl, rfl⟩ := Prod.ext_iff.mp (Option.some.inj hstep)
      refine ⟨[], b, rest, its', rfl, by simp, hends, ?_, ?_, ?_⟩
      · rw [List.append_nil]
        exact not_not.mp hlong
      · rw [List.append_nil]
      · rw [List.append_nil, behind, if_neg (fun h => hpercent h.1)]
        exact hitems
    · -- a byte of the name
      rw [if_neg hends] at hstep
      obtain ⟨rfl, rfl⟩ := Prod.ext_iff.mp (Option.some.inj hstep)
      obtain ⟨name, e, more, its'', rfl, hname, he, hlen, hits, hrest⟩ :=
        ih hitems (Or.inl (by simp))
      rw [List.append_assoc] at hlen hits hrest
      refine ⟨b :: name, e, more, its'', rfl, ?_, he, hlen, hits, hrest⟩
      intro c hc
      rcases List.mem_cons.mp hc with rfl | hc
      · exact Bool.eq_false_iff.mpr hends
      · exact hname c hc

/-! ## A round -/

/-- The mode for what `scriptBuffer` holds. -/
def modeOf : Nat → Mode
  | 0 => .text
  | 1 => .less
  | _ => .script []

/-- What the loop that looks for the mark has found in a piece in front of `more`: the bytes before
the mark are text, and the rest is read in the mode of the mark. -/
theorem searchToken_items {piece more : Bytes} (stale : Bytes) {rounds n i : Nat} {its : List Item}
    (hn : n ≤ piece.length) (hrounds : piece.length ≤ n + rounds)
    (hi : i = 0 ∨ i = 1 ∧ 0 < n ∧ piece.take n = piece.take (n - 1) ++ [60])
    (h : items (modeOf i) (piece.drop n ++ more) = some its) :
    ∃ m j sent its', searchToken (piece ++ stale) piece.length rounds n i
        (if i = 0 then piece.length else min (n + 1) piece.length) = (m, j) ∧
      min (n + 1) piece.length ≤ m ∧ m ≤ piece.length ∧ j ≤ 2 ∧ j ≤ m ∧
      piece.take (m - j) = piece.take (n - i) ++ sent ∧ its = sent.map .byte ++ its' ∧
      items (modeOf j) (piece.drop m ++ more) = some its' := by
  induction rounds generalizing n i its with
  | zero =>
    refine ⟨n, i, [], its, rfl, by omega, hn, ?_, ?_, ?_, rfl, h⟩
    · rcases hi with rfl | ⟨rfl, -⟩ <;> omega
    · rcases hi with rfl | ⟨rfl, hpos, -⟩ <;> omega
    · rw [List.append_nil]
  | succ rounds ih =>
    by_cases hend : n = piece.length
    · -- the piece is at its end
      refine ⟨n, i, [], its, ?_, by omega, hn, ?_, ?_, ?_, rfl, h⟩
      · rw [searchToken, if_neg]
        rintro ⟨hmax, -⟩
        rcases hi with rfl | ⟨rfl, -⟩
        · rw [if_pos rfl] at hmax
          omega
        · rw [if_neg Nat.one_ne_zero] at hmax
          omega
      · rcases hi with rfl | ⟨rfl, -⟩ <;> omega
      · rcases hi with rfl | ⟨rfl, hpos, -⟩ <;> omega
      · rw [List.append_nil]
    · have hlt : n < piece.length := by omega
      have hdrop : piece.drop n = piece[n] :: piece.drop (n + 1) := List.drop_eq_getElem_cons hlt
      have hget : (piece ++ stale)[n]? = some piece[n] := by
        rw [List.getElem?_append_left hlt, List.getElem?_eq_getElem hlt]
      have htake : piece.take (n + 1) = piece.take n ++ [piece[n]] := by
        rw [List.take_succ_eq_append_getElem hlt]
      rw [hdrop, List.cons_append] at h
      generalize piece[n] = b at hdrop hget htake h
      rcases hi with rfl | ⟨rfl, hpos, hbefore⟩
      · -- in text
        have hstep := items_text h
        rw [searchToken, hget, if_pos rfl, if_pos ⟨hlt, Nat.zero_lt_two⟩]
        by_cases hless : b = 60
        · rw [if_pos hless] at hstep
          rw [if_pos (by rw [hless]; rfl)]
          have hmax : (if n + 2 < piece.length then n + 2 else piece.length) =
              min (n + 1 + 1) piece.length := by
            split <;> omega
          obtain ⟨m, j, sent, its', hsearch, hm, hrest⟩ :=
            ih (n := n + 1) (i := 1) (by omega) (by omega)
              (Or.inr ⟨rfl, Nat.succ_pos n, by rw [htake, hless, Nat.add_sub_cancel]⟩) hstep
          refine ⟨m, j, sent, its', ?_, by omega, by simpa using hrest⟩
          rw [if_neg Nat.one_ne_zero] at hsearch
          dsimp only
          rw [hmax]
          exact hsearch
        · rw [if_neg hless] at hstep
          obtain ⟨its₁, hitems, rfl⟩ := hstep
          rw [if_neg (by simpa using hless)]
          obtain ⟨m, j, sent, its', hsearch, hm, hmle, hj, hjm, hsent, rfl, hrest⟩ :=
            ih (n := n + 1) (i := 0) (by omega) (by omega) (Or.inl rfl) hitems
          refine ⟨m, j, b :: sent, its', hsearch, by omega, hmle, hj, hjm, ?_, rfl, hrest⟩
          rw [hsent, Nat.sub_zero, Nat.sub_zero, htake, List.append_assoc]
          rfl
      · -- behind a `<`
        rw [searchToken, hget, if_neg Nat.one_ne_zero, if_pos ⟨by omega, by omega⟩]
        by_cases hpercent : b = 37
        · have hstep := items_less h
          rw [if_pos hpercent] at hstep
          rw [if_pos (by rw [hpercent]; rfl)]
          refine ⟨n + 1, 2, [], its, ?_, by omega, hlt, Nat.le_refl _, by omega, ?_, rfl, hstep⟩
          · cases rounds with
            | zero => rfl
            | succ rounds => rw [searchToken, if_neg (by omega)]
          · rw [List.append_nil]
            congr 1
        · obtain ⟨its₁, hitems, rfl⟩ := items_less_other hpercent h
          rw [if_neg (by simpa using hpercent)]
          obtain ⟨m, j, sent, its', hsearch, hm, hmle, hj, hjm, hsent, rfl, hrest⟩ :=
            ih (n := n + 1) (i := 0) (by omega) (by omega) (Or.inl rfl) hitems
          refine ⟨m, j, 60 :: b :: sent, its', hsearch, by omega, hmle, hj, hjm, ?_, rfl, hrest⟩
          rw [hsent, Nat.sub_zero, htake, hbefore]
          simp

/-- What a function of the table is given to write, the socket takes whole. -/
def CallsWhole (table : SsiTable) (socket : Socket) (its : List Item) : Prop :=
  ∀ name, .call name ∈ its → ∀ datas, ssiWrites table name = some datas →
    ∀ data ∈ datas, TakesWhole socket data

section Round

variable {table : SsiTable} {o : SesBuffer} {told : Bytes}

theorem ssiWriteAll_tells (datas : List Bytes) (h : Tells o told)
    (hwhole : ∀ data ∈ datas, TakesWhole o.socket data) :
    Tells (ssiWriteAll o datas) (told ++ datas.flatten) ∧
      (ssiWriteAll o datas).socket.accepts <:+ o.socket.accepts := by
  induction datas generalizing o told with
  | nil => exact ⟨by simpa [ssiWriteAll] using h, List.suffix_refl _⟩
  | cons data datas ih =>
    have hrest : ∀ data ∈ datas, TakesWhole o.socket data := fun data hdata =>
      hwhole data (List.mem_cons_of_mem _ hdata)
    rw [ssiWriteAll, List.flatten_cons]
    by_cases hdata : data = []
    · rw [if_pos hdata, hdata, List.nil_append]
      exact ih h hrest
    · rw [if_neg hdata, ← List.append_assoc]
      obtain ⟨htells, hsuffix, -⟩ := httpsrvWrite_tells h (hwhole data List.mem_cons_self)
      obtain ⟨htells', hsuffix'⟩ := ih htells fun data hdata => (hrest data hdata).mono hsuffix
      exact ⟨htells', hsuffix'.trans hsuffix⟩

/-- A call puts what the function writes on the wire. -/
theorem ssiHandler_tells {name : Bytes} (h : Tells o told) (hoffset : o.offset = 0)
    (hwhole : ∀ datas, ssiWrites table name = some datas →
      ∀ data ∈ datas, TakesWhole o.socket data) :
    Tells (ssiHandler table o name) (told ++ output table (.call name)) ∧
      (ssiHandler table o name).offset = 0 ∧
      (ssiHandler table o name).socket.accepts <:+ o.socket.accepts := by
  unfold ssiHandler
  rw [output]
  cases hwrites : ssiWrites table name with
  | none =>
    rw [Option.getD_none, List.flatten_nil, List.append_nil]
    exact ⟨h, hoffset, List.suffix_refl _⟩
  | some datas =>
    obtain ⟨htells, hsuffix⟩ := ssiWriteAll_tells datas h (hwhole datas hwrites)
    obtain ⟨hflushed, hempty, hsuffix', -⟩ := sesFlush_tells htells
    exact ⟨hflushed, hempty, hsuffix'.trans hsuffix⟩

/-- A byte that goes straight to the socket, with nothing in the buffer. -/
theorem httpsrvSend_tells (h : Tells o told) (hoffset : o.offset = 0) (b : UInt8) :
    Tells { o with socket := (httpsrvSend o.socket [b]).2 } (told ++ [b]) ∧
      (httpsrvSend o.socket [b]).2.accepts <:+ o.socket.accepts := by
  unfold httpsrvSend
  cases haccepts : o.socket.accepts with
  | nil =>
    exact ⟨h.broken haccepts [b], by simp [haccepts]⟩
  | cons n accepts =>
    have hsent := h.sent_eq hoffset (by rw [haccepts]; exact List.cons_ne_nil n accepts)
    refine ⟨⟨h.length, h.fits, ?_, fun _ => ?_⟩, List.suffix_cons n accepts⟩
    · simp [hsent]
    · simp [hsent, hoffset]

/-- A call of `sendextstr` in front of these items: it sends some of them, and what is left of the
file, behind what it used up and what it leaves in the buffer, has the others. -/
def Sends (table : SsiTable) (p : Page) (told rest : Bytes) (length i : Nat) (its : List Item) :
    Prop :=
  ∃ used j buffer out its', sendextstr table p length = some (used, { p with
      session := { p.session with buffer }
      scriptBuffer := [60, 37].take j }) ∧
    j ≤ 2 ∧ (0 < used + buffer.offset ∨ i = 1 ∧ j = 0) ∧
    Tells buffer (told ++ out.flatMap (output table)) ∧
    buffer.socket.accepts <:+ p.session.buffer.socket.accepts ∧ its = out ++ its' ∧
    items (modeOf j) (rest.drop (used + buffer.offset)) = some its'

theorem flatMap_output_bytes (sent : Bytes) :
    (sent.map Item.byte).flatMap (output table) = sent := by
  induction sent with
  | nil => rfl
  | cons b sent ih => rw [List.map_cons, List.flatMap_cons, ih]; rfl

section Piece

variable {p : Page} {piece stale more : Bytes} {its : List Item}

theorem sendextstr_text (h : Tells p.session.buffer told) (hoffset : p.session.buffer.offset = 0)
    (hdata : p.session.buffer.data = piece ++ stale) (hpiece : piece ≠ [])
    (hscript : p.scriptBuffer = []) (hitems : items .text (piece ++ more) = some its) :
    Sends table p told (piece ++ more) piece.length 0 its := by
  obtain ⟨m, j, sent, its', hsearch, hpos, hm, hj, hjm, hsent, rfl, hrest⟩ :=
    searchToken_items stale (n := 0) (i := 0) (Nat.zero_le _) (Nat.le_of_eq (Nat.zero_add _).symm)
      (Or.inl rfl) (by simpa [modeOf] using hitems)
  rw [if_pos rfl] at hsearch
  rw [List.take_zero, List.nil_append] at hsent
  have hlen : 0 < piece.length := List.length_pos_of_ne_nil hpiece
  have hsize : (piece ++ stale).length = sesBufSize := hdata ▸ h.length
  rw [List.length_append] at hsize
  refine ⟨j, j, { p.session.buffer with offset := m - j }, sent.map .byte, its', ?_, hj, ?_, ?_,
    List.suffix_refl _, rfl, ?_⟩
  · unfold sendextstr
    simp only [hscript, hdata, hoffset, List.drop_zero, hsearch]
  · left
    show 0 < j + (m - j)
    omega
  · rw [flatMap_output_bytes]
    refine ⟨h.length, by show m - j ≤ _; omega, h.sent.trans (List.prefix_append _ _), ?_⟩
    intro halive
    show p.session.buffer.socket.sent ++ p.session.buffer.data.take (m - j) = told ++ sent
    rw [h.sent_eq hoffset halive, hdata, List.take_append_of_le_length (by omega), hsent]
  · show items (modeOf j) ((piece ++ more).drop (j + (m - j))) = some its'
    rw [Nat.add_sub_cancel' hjm, List.drop_append_of_le_length hm]
    exact hrest

theorem sendextstr_less (h : Tells p.session.buffer told) (hoffset : p.session.buffer.offset = 0)
    (hdata : p.session.buffer.data = piece ++ stale) (hpiece : piece ≠ [])
    (hscript : p.scriptBuffer = [60]) (hitems : items .less (piece ++ more) = some its) :
    Sends table p told (piece ++ more) piece.length 1 its := by
  obtain ⟨b, piece, rfl⟩ := List.exists_cons_of_ne_nil hpiece
  have hstep := items_less hitems
  have hhead : (p.session.buffer.data.drop p.session.buffer.offset).head? = some b := by
    rw [hdata, hoffset]
    rfl
  by_cases hpercent : b = 37
  · rw [if_pos hpercent] at hstep
    refine ⟨1, 2, p.session.buffer, [], its, ?_, Nat.le_refl _, Or.inl (by omega), by simpa using h,
      List.suffix_refl _, rfl, ?_⟩
    · unfold sendextstr
      simp only [hscript, hhead, hpercent, if_true]
      rfl
    · rw [hoffset]
      exact hstep
  · rw [if_neg hpercent] at hstep
    obtain ⟨its', hrest, rfl⟩ := hstep
    obtain ⟨htells, hsuffix⟩ := httpsrvSend_tells h hoffset 60
    refine ⟨0, 0, _, [.byte 60], its', ?_, Nat.zero_le _, Or.inr ⟨rfl, rfl⟩, htells, hsuffix, rfl,
      ?_⟩
    · unfold sendextstr
      simp only [hscript, hhead, Option.some.injEq, hpercent, if_false]
      rfl
    · show items .text ((b :: piece ++ more).drop (0 + p.session.buffer.offset)) = some its'
      rw [hoffset]
      exact hrest

/-- The name of a script that ends within the piece. -/
theorem nameLength_append {name back : Bytes} {e : UInt8} (hname : ∀ b ∈ name, endsName b = false)
    (he : endsName e = true) : nameLength (name ++ e :: back) = some name.length := by
  have hnone : name.findIdx? endsName = none := List.findIdx?_eq_none_iff.mpr hname
  rw [nameLength, List.findIdx?_append, hnone, List.findIdx?_cons, if_pos he]
  simp

/-- The name of a script, the byte that ends it and one more byte are in the buffer; that byte is
the next of the file, if there is one. -/
theorem script_in_buffer {name rest : Bytes} {e : UInt8}
    (hsize : (piece ++ stale).length = sesBufSize) (hmore : piece.length = sesBufSize ∨ more = [])
    (hrest : piece ++ more = name ++ e :: rest) (hlen : name.length + 1 < sesBufSize) :
    ∃ c back, piece ++ stale = name ++ e :: c :: back ∧ (rest = [] ∨ rest.head? = some c) := by
  have htotal := congrArg List.length hrest
  simp only [List.length_append, List.length_cons] at htotal hsize
  rcases hmore with hfull | rfl
  · -- the piece fills the buffer
    obtain ⟨c, rest, rfl⟩ : ∃ c rest', rest = c :: rest' :=
      List.exists_cons_of_length_pos (by omega)
    obtain rfl : stale = [] := List.eq_nil_of_length_eq_zero (by omega)
    have hpiece : piece = (name ++ [e, c] ++ rest).take sesBufSize := by
      have hshape : piece ++ more = name ++ [e, c] ++ rest := by simpa using hrest
      rw [← hshape, List.take_left' hfull]
    refine ⟨c, rest.take (sesBufSize - (name ++ [e, c]).length), ?_, Or.inr rfl⟩
    have hfits : (name ++ [e, c]).length ≤ sesBufSize := by
      simp only [List.length_append, List.length_cons, List.length_nil]
      omega
    rw [List.append_nil, hpiece, List.take_append, List.take_of_length_le hfits]
    simp
  · rw [List.append_nil] at hrest
    cases rest with
    | nil =>
      -- behind the file there is what the buffer held before
      rw [List.length_nil] at htotal
      obtain ⟨c, back, rfl⟩ : ∃ c back, stale = c :: back :=
        List.exists_cons_of_length_pos (by omega)
      exact ⟨c, back, by simp [hrest], Or.inl rfl⟩
    | cons c rest => exact ⟨c, rest ++ stale, by simp [hrest], Or.inr rfl⟩

/-- How much the end of a script takes. -/
theorem drop_script {name rest : Bytes} {e c : UInt8} (hc : rest = [] ∨ rest.head? = some c) :
    (name ++ e :: rest).drop (name.length + if e = 37 then if c = 62 then 2 else 1 else 1) =
      behind e rest := by
  rw [← List.drop_drop, List.drop_left, behind]
  by_cases he : e = 37
  · by_cases hend : c = 62
    · rcases hc with rfl | hc
      · simp [he, hend]
      · simp [he, hend, hc]
    · rcases hc with rfl | hc
      · simp [he, hend]
      · simp [he, hend, hc]
  · simp [he]

theorem sendextstr_script (h : Tells p.session.buffer told)
    (hoffset : p.session.buffer.offset = 0) (hdata : p.session.buffer.data = piece ++ stale)
    (hpiece : piece ≠ []) (hmore : piece.length = sesBufSize ∨ more = [])
    (hscript : p.scriptBuffer = [60, 37])
    (hitems : items (.script []) (piece ++ more) = some its)
    (hwhole : CallsWhole table p.session.buffer.socket its) :
    Sends table p told (piece ++ more) piece.length 2 its := by
  obtain ⟨name, e, rest, its', hrest, hname, he, hlen, rfl, hnext⟩ :=
    items_script hitems (Or.inr (by simp [hpiece]))
  rw [List.nil_append] at hlen hwhole hnext ⊢
  have hsize : (piece ++ stale).length = sesBufSize := hdata ▸ h.length
  obtain ⟨c, back, hbuffer, hc⟩ := script_in_buffer hsize hmore hrest hlen
  have hsrc : p.session.buffer.data.drop p.session.buffer.offset = name ++ e :: c :: back := by
    rw [hdata, hoffset, List.drop_zero, hbuffer]
  have hend : (name ++ e :: c :: back)[name.length]? = some e := by simp
  have hnextByte : (name ++ e :: c :: back)[name.length + 1]? = some c := by
    rw [List.getElem?_append_right (by omega)]
    simp
  have hcall : sendextstr table p piece.length =
      some (name.length + (if e = 37 then if c = 62 then 2 else 1 else 1),
        if 1 < name.length ∧ name.length < maxScriptLn then { p with
          session := { p.session with buffer := ssiHandler table p.session.buffer name }
          scriptBuffer := [] } else p) := by
    unfold sendextstr
    simp only [hscript, hsrc, nameLength_append hname he, bind, Option.bind, hend,
      Option.some.injEq, hnextByte, List.take_left]
    by_cases he : e = 37
    · by_cases hvalid : 1 < name.length ∧ name.length < maxScriptLn
      · simp [he, hvalid]
      · simp [he, hvalid]
    · by_cases hvalid : 1 < name.length ∧ name.length < maxScriptLn
      · simp [he, hvalid]
      · simp [he, hvalid]
  have hpos : 0 < name.length + if e = 37 then if c = 62 then 2 else 1 else 1 := by
    split
    · split <;> omega
    · omega
  rw [← drop_script hc, ← hrest] at hnext
  generalize (if e = 37 then if c = 62 then 2 else 1 else 1) = term at hcall hpos hnext
  unfold endScript at hwhole hnext ⊢
  by_cases hvalid : 1 < name.length ∧ name.length < maxScriptLn
  · rw [if_pos hvalid] at hcall
    simp only [if_pos hvalid] at hwhole hnext ⊢
    obtain ⟨htells, hempty, hsuffix⟩ :=
      ssiHandler_tells h hoffset (hwhole name (by simp))
    refine ⟨_, 0, _, [.call name], its', hcall, by omega, Or.inl (by omega), ?_, hsuffix, rfl, ?_⟩
    · simpa using htells
    · rw [hempty]
      exact hnext
  · rw [if_neg hvalid] at hcall
    simp only [if_neg hvalid] at hnext ⊢
    have hmark : ([60, 37] : Bytes).take 2 = p.scriptBuffer := hscript.symm
    refine ⟨name.length + term, 2, p.session.buffer, [], its', ?_, Nat.le_refl _,
      Or.inl (by omega), by simpa using h, List.suffix_refl _, rfl, ?_⟩
    · rw [hcall, hmark]
    · rw [hoffset]
      exact hnext

end Piece

end Round

/-! ## Pages with includes -/

/-- A page is being sent: the client has been told so much, and the next round reads the file from
here, with so much of a mark before it. -/
structure Including (p : Page) (ext told : Bytes) (location i : Nat) : Prop where
  path : strrchr p.path 46 = some ext
  page : (stricmp ext (text ".shtml") || stricmp ext (text ".shtm")) = true
  typed : Typed (some ext) p.session
  isKeepAlive : p.session.isKeepAlive = false
  headerSent : p.session.headerSent = true
  offset : p.session.buffer.offset = 0
  responseLength : p.session.responseLength = location
  scriptBuffer : p.scriptBuffer = [60, 37].take i
  mark : i ≤ 2
  tells : Tells p.session.buffer told

section Rounds

variable {table : SsiTable} {p : Page} {ext told : Bytes} {location i : Nat} {its : List Item}

theorem closing_eq {s : Session} (h : s.isKeepAlive = false) :
    { s with isKeepAlive := false } = s := by
  rw [← h]

/-- A round behind the header: the next piece, if there is one, goes through `sendextstr`. -/
theorem httpsrvSendfile_page (table : SsiTable) (h : Including p ext told location i) :
    httpsrvSendfile table p =
      let piece := (p.file.drop location).take sesBufSize
      let o : SesBuffer := { p.session.buffer with data := store p.session.buffer.data 0 piece }
      let q := { p with session := { p.session with buffer := o } }
      if piece = [] then some (false, q)
      else (sendextstr table q piece.length).map fun r => (true, { r.2 with
        session := { r.2.session with
          responseLength := r.2.session.responseLength + r.1 + r.2.session.buffer.offset
          buffer := (sesFlush r.2.session.buffer).2 } }) := by
  have htyped : processFileType (some ext) p.session = p.session := h.typed
  unfold httpsrvSendfile
  rw [h.path]
  simp only [bind, Option.bind, h.page, if_true, htyped, closing_eq h.isKeepAlive,
    httpsrvSendhdr_sent h.headerSent]
  simp only [readPiece, fsRead, h.responseLength, Int.toNat_natCast, h.offset, Nat.sub_zero]
  split
  · rfl
  · generalize sendextstr table _ _ = r
    cases r with
    | none => rfl
    | some r => rfl

/-- The call of `sendextstr` in each of the modes. -/
theorem Including.sends (h : Including p ext told location i)
    (hitems : items (modeOf i) (p.file.drop location) = some its)
    (hwhole : CallsWhole table p.session.buffer.socket its)
    (hpiece : (p.file.drop location).take sesBufSize ≠ []) :
    Sends table { p with session := { p.session with buffer := { p.session.buffer with
        data := store p.session.buffer.data 0 ((p.file.drop location).take sesBufSize) } } }
      told (p.file.drop location) ((p.file.drop location).take sesBufSize).length i its := by
  have hsplit := List.take_append_drop sesBufSize (p.file.drop location)
  have hshort : ((p.file.drop location).take sesBufSize).length ≤ sesBufSize :=
    List.length_take_le _ _
  have hmore : ((p.file.drop location).take sesBufSize).length = sesBufSize ∨
      (p.file.drop location).drop sesBufSize = [] := by
    by_cases hlong : sesBufSize ≤ (p.file.drop location).length
    · exact Or.inl (List.length_take_of_le hlong)
    · exact Or.inr (List.drop_of_length_le (by omega))
  have hscript := h.scriptBuffer
  have hmark := h.mark
  rw [← hsplit] at hitems
  conv => arg 4; rw [← hsplit]
  generalize (p.file.drop location).take sesBufSize = piece at hitems hpiece hmore hshort ⊢
  generalize (p.file.drop location).drop sesBufSize = more at hitems hmore ⊢
  have htells : Tells { p.session.buffer with data := store p.session.buffer.data 0 piece } told := by
    refine ⟨?_, h.tells.fits, h.tells.sent, fun halive => ?_⟩
    · show (store p.session.buffer.data 0 piece).length = sesBufSize
      rw [length_store (by rw [h.tells.length]; omega), h.tells.length]
    · show p.session.buffer.socket.sent ++ List.take p.session.buffer.offset _ = told
      rw [h.tells.sent_eq h.offset halive, h.offset, List.take_zero, List.append_nil]
  have hdata : store p.session.buffer.data 0 piece = piece ++ p.session.buffer.data.drop piece.length :=
    store_zero _ _
  rcases i with _ | _ | _ | i
  · exact sendextstr_text htells h.offset hdata hpiece hscript hitems
  · exact sendextstr_less htells h.offset hdata hpiece hscript hitems
  · exact sendextstr_script htells h.offset hdata hpiece hmore hscript hitems hwhole
  · omega

theorem items_end (hmark : i ≤ 2) (h : items (modeOf i) [] = some its) : its = [] := by
  rcases i with _ | _ | _ | i
  · exact (Option.some.inj h).symm
  · exact (Option.some.inj h).symm
  · exact (Option.some.inj h).symm
  · omega

/-- A round of a page: at the end of the file, or some items further. -/
theorem include_round (h : Including p ext told location i)
    (hitems : items (modeOf i) (p.file.drop location) = some its)
    (hwhole : CallsWhole table p.session.buffer.socket its) :
    (∃ p', httpsrvSendfile table p = some (false, p') ∧
        Tells (setState p').session.buffer (told ++ its.flatMap (output table))) ∨
      ∃ p' n j out its', httpsrvSendfile table p = some (true, p') ∧ p'.file = p.file ∧
        location < p.file.length ∧ (0 < n ∨ i = 1 ∧ j = 0) ∧ its = out ++ its' ∧
        p'.session.buffer.socket.accepts <:+ p.session.buffer.socket.accepts ∧
        items (modeOf j) (p.file.drop (location + n)) = some its' ∧
        Including (setState p') ext (told ++ out.flatMap (output table)) (location + n) j := by
  have hround := httpsrvSendfile_page table h
  dsimp only at hround
  by_cases hend : (p.file.drop location).take sesBufSize = []
  · left
    rw [if_pos hend, hend, store_zero] at hround
    have hdone : p.file.drop location = [] := by
      have hpos : sesBufSize ≠ 0 := by decide
      simpa [hpos] using List.take_eq_nil_iff.mp hend
    obtain rfl : its = [] := by
      rw [hdone] at hitems
      exact items_end h.mark hitems
    refine ⟨_, hround, ?_⟩
    rw [List.flatMap_nil, List.append_nil]
    exact ⟨h.tells.length, Nat.zero_le _, h.tells.sent, fun halive =>
      (List.append_nil _).trans (h.tells.sent_eq h.offset halive)⟩
  · right
    rw [if_neg hend] at hround
    obtain ⟨used, j, buffer, out, its', hcall, hj, hprogress, htells, hsuffix, hits, hnext⟩ :=
      h.sends hitems hwhole hend
    rw [hcall] at hround
    obtain ⟨hflushed, hempty, hsuffix', -⟩ := sesFlush_tells htells
    refine ⟨_, used + buffer.offset, j, out, its', hround, rfl, ?_, hprogress, hits,
      hsuffix'.trans hsuffix, ?_, ?_⟩
    · by_contra hpast
      rw [List.drop_of_length_le (by omega), List.take_nil] at hend
      exact hend rfl
    · rw [← List.drop_drop]
      exact hnext
    · refine ⟨h.path, h.page, h.typed.update _ _ _ _, h.isKeepAlive, h.headerSent, rfl, ?_, rfl, hj, ?_⟩
      · show p.session.responseLength + (used : Int) + (buffer.offset : Int) = _
        rw [h.responseLength]
        omega
      · have hstate : ({ (sesFlush buffer).2 with offset := 0 } : SesBuffer) = (sesFlush buffer).2 := by
          rw [← hempty]
        show Tells { (sesFlush buffer).2 with offset := 0 } _
        rw [hstate]
        exact hflushed

theorem CallsWhole.mono {socket socket' : Socket} (h : CallsWhole table socket its)
    (hsuffix : socket'.accepts <:+ socket.accepts) : CallsWhole table socket' its :=
  fun name hname datas hwrites data hdata => (h name hname datas hwrites data hdata).mono hsuffix

theorem CallsWhole.right {socket : Socket} {out its' : List Item}
    (h : CallsWhole table socket (out ++ its')) : CallsWhole table socket its' :=
  fun name hname => h name (List.mem_append_right out hname)

/-- The rounds of a page behind the header. -/
theorem sendPage_including (h : Including p ext told location i)
    (hitems : items (modeOf i) (p.file.drop location) = some its)
    (hwhole : CallsWhole table p.session.buffer.socket its) {rounds : Nat}
    (hrounds : 2 * (p.file.length - location) + i % 2 ≤ rounds) :
    ∃ p', sendPage table (rounds + 1) p = some p' ∧
      Tells p'.session.buffer (told ++ its.flatMap (output table)) ∧
      p'.session.buffer.offset = 0 := by
  induction rounds using Nat.strongRecOn generalizing p told location i its with
  | ind rounds ih =>
    rcases include_round h hitems hwhole with ⟨p', hround, htells⟩ |
      ⟨p', n, j, out, its', hround, hfile, hlt, hprogress, rfl, hsuffix, hnext, hincluding⟩
    · refine ⟨setState p', ?_, htells, rfl⟩
      rw [sendPage, hround]
      rfl
    · -- the file behind the round is shorter, or a `<` that was no mark has gone out
      obtain ⟨rounds, rfl⟩ : ∃ k, rounds = k + 1 := by
        refine ⟨rounds - 1, ?_⟩
        omega
      have hfile' : (setState p').file = p.file := hfile
      have hless : 2 * ((setState p').file.length - (location + n)) + j % 2 ≤ rounds := by
        rw [hfile']
        rcases hprogress with hpos | ⟨rfl, rfl⟩
        · omega
        · omega
      obtain ⟨p'', hrest, htells, hempty⟩ := ih rounds (Nat.lt_succ_self _) hincluding
        (by rw [hfile']; exact hnext) (hwhole.right.mono hsuffix) hless
      refine ⟨p'', ?_, ?_, hempty⟩
      · rw [sendPage, hround]
        exact hrest
      · rw [List.flatMap_append, ← List.append_assoc]
        exact htells

end Rounds

/-- The session of a page is closed behind it. -/
def closing (s : Session) : Session := { s with isKeepAlive := false }

/-- The first round is the round of a session that has the type of the page and has sent its
header. -/
theorem httpsrvSendfile_first_page {p : Page} {ext : Bytes} (hpath : strrchr p.path 46 = some ext)
    (hpage : (stricmp ext (text ".shtml") || stricmp ext (text ".shtm")) = true) {s s' : Session}
    (hs : processFileType (some ext) p.session = s)
    (hsend : httpsrvSendhdr (closing s) 0 true = some s') (htyped : Typed (some ext) s')
    (hkeep : s'.isKeepAlive = false) (hsent : s'.headerSent = true) (table : SsiTable) :
    httpsrvSendfile table p = httpsrvSendfile table { p with session := s' } := by
  have hagain : processFileType (some ext) s' = s' := htyped
  unfold closing at hsend
  unfold httpsrvSendfile
  rw [hpath]
  simp only [bind, Option.bind, hpage, if_true, hs, hsend, hagain, closing_eq hkeep,
    httpsrvSendhdr_sent hsent]
  rfl

/-- **The rounds of a page.**  However the file is cut into pieces, the socket takes them and the
functions write: the client has a part of the response from its beginning, and if the connection
holds, it has all of it and reads the items of the page. -/
theorem sendPage_items {p : Page} {before ext : Bytes} (h : Requested p before ext)
    (hpage : (stricmp ext (text ".shtml") || stricmp ext (text ".shtm")) = true)
    {table : SsiTable} {its : List Item} (hitems : items .text p.file = some its)
    (hwhole : CallsWhole table p.session.buffer.socket its) {rounds : Nat}
    (hrounds : 2 * p.file.length ≤ rounds) :
    ∃ p' wire, sendPage table (rounds + 1) p = some p' ∧
      p'.session.buffer.socket.sent <+: before ++ wire ∧
      (p'.session.buffer.socket.accepts ≠ [] → p'.session.buffer.socket.sent = before ++ wire) ∧
      receive wire = some (headerLines (closing (processFileType (some ext) p.session)) 0 true,
        its.flatMap (output table)) := by
  generalize hs : processFileType (some ext) p.session = s
  obtain ⟨hready, hoffset, hresponse, htyped, hlegal⟩ := h.typed hs
  have hlegal := hlegal 0 (by decide)
  have hready' : Ready (closing s) before :=
    ⟨hready.headerSent, hready.isTranscoded, hready.length, hready.sent⟩
  have hlegal' : Legal (closing s) 0 true :=
    ⟨hlegal.1, hlegal.2, hlegal.3, hlegal.4⟩
  obtain ⟨buffer, hsend, htells, hzero, hsuffix⟩ := sendhdr_tells hready' hoffset hlegal'
  have hbuffer : s.buffer = p.session.buffer := by
    rw [← hs]
    unfold processFileType
    split <;> rfl
  have htyped' := htyped.update buffer false true s.responseLength
  have hincluding : Including { p with session := { closing s with buffer, headerSent := true } } ext
      (before ++ (wireLines (headerLines (closing s) 0 true) ++ crlf)) 0 0 :=
    ⟨h.path, hpage, htyped', rfl, rfl, hzero, hresponse, h.scriptBuffer, Nat.zero_le _, htells⟩
  have hwhole' : CallsWhole table buffer.socket its := hwhole.mono (hbuffer ▸ hsuffix)
  obtain ⟨p', hsendPage, htold, hempty⟩ := sendPage_including hincluding hitems hwhole' hrounds
  have hfirst := httpsrvSendfile_first_page h.path hpage hs hsend htyped' rfl rfl table
  have hsame : sendPage table (rounds + 1) p = sendPage table (rounds + 1)
      { p with session := { closing s with buffer, headerSent := true } } := by
    rw [sendPage, sendPage, hfirst]
  rw [List.append_assoc] at htold
  refine ⟨p', _, hsame.trans hsendPage, htold.sent, htold.sent_eq hempty, ?_⟩
  rw [receive_response hlegal', if_neg (by rw [hready'.isTranscoded]; exact Bool.false_ne_true),
    if_neg (Int.lt_irrefl 0)]
  rfl

end EmWinDemo.Http.Includes
