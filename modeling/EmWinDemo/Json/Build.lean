/-
# EmWinDemo.Json.Build -- the tree that `cJSON_Parse` builds in memory

The parser once more, now with the blocks it allocates and links.  `Json.Parse` says which tree a
text has; here `parse_value` is given the address of the item to fill in, and the items of arrays
and objects are appended to the chain of their parent one by one, so that a call that fails leaves
a tree that is only partly there.  `cJSON_malloc` may return null at any call.

`Filled` says what a call has made of the item it was given, and `Open` what stands there while the
items of an array are appended: whatever has been allocated so far hangs on the item, once.
-/
import EmWinDemo.Json.Bounds
import EmWinDemo.Json.Store

namespace EmWinDemo.Json

open EmWinDemo.Lib.CMemory EmWinDemo.Lib.CText EmWinDemo.Lib.Json
open EmWinDemo.Weather.Frees (Addr)

/-! ## Memory -/

/-- What `cJSON_malloc` returns, one call after the other: a new address, or null. -/
structure Pool where
  addr : Nat → Option Addr
  injective : ∀ {m n : Nat} {a : Addr}, addr m = some a → addr n = some a → m = n
  ne_zero : ∀ n, addr n ≠ some 0

/-- The blocks, and how many calls there have been. -/
structure Heap where
  memory : Memory
  used : Nat

/-- A call that works on the memory and may fail. -/
def Act (α : Type) := Heap → Except Fault α × Heap

instance : Monad Act where
  pure a := fun h => (.ok a, h)
  bind x f := fun h => match x h with
    | (.ok a, h) => f a h
    | (.error e, h) => (.error e, h)

/-- A call that does not touch the memory. -/
def still {α : Type} (r : Except Fault α) : Act α := fun h => (r, h)

/-- The memory with another block at an address. -/
def Heap.set (h : Heap) (a : Addr) (b : Block) : Heap :=
  { h with memory := Function.update h.memory a (some b) }

/-- The memory with a new block. -/
def Heap.add (h : Heap) (a : Addr) (b : Block) : Heap := { h.set a b with used := h.used + 1 }

/-- `cJSON_malloc`, and what is first written there.  Every caller returns null if it does. -/
def malloc (pool : Pool) (b : Block) : Act Addr := fun h =>
  match pool.addr h.used with
  | none => (.error .memory, { h with used := h.used + 1 })
  | some a => (.ok a, h.add a b)

/-- `cJSON_New_Item`. -/
def newItem (pool : Pool) : Act Addr := malloc pool (.node Node.zeros)

/-- Assignments through a pointer to an item. -/
def modifyItem (a : Addr) (f : Node → Node) : Act Unit := fun h =>
  match nodeAt h.memory a with
  | none => (.error .overwrite, h)
  | some i => (.ok (), h.set a (.node (f i)))

/-- Bytes written into a buffer that is large enough. -/
def writeBuffer (a : Addr) (bytes : Bytes) : Act Unit := fun h =>
  match h.memory a with
  | some (.buffer _) => (.ok (), h.set a (.buffer bytes))
  | _ => (.error .overwrite, h)

/-! ## The parser -/

/-- `parse_string` gets as far as allocating the buffer. -/
def measured : Bytes → Bool
  | [] => false
  | b :: body => b = 34 && (scan 0 body).isOk

/-- `parse_string`.  The buffer hangs on the item before anything is written into it, and what is
written before a rejection is never read. -/
def buildString (pool : Pool) (item : Addr) (str : Bytes) : Act Bytes :=
  if measured str then do
    let out ← malloc pool (.buffer [])
    modifyItem item fun i => { i with valuestring := out, type := .string }
    let (s, value) ← still (parseString str)
    writeBuffer out (s ++ [0])
    pure value
  else do
    let (_, value) ← still (parseString str)
    pure value

/-- `parse_value` for the items inside. -/
abbrev ValueBuilder := Addr → Bytes → Act Bytes

/-- `skip(parse_value(child, skip(value), ep))`. -/
def buildItem (build : ValueBuilder) (child : Addr) (value : Bytes) : Act Bytes := do
  let value ← still (skip value)
  let value ← build child value
  still (skip value)

/-- A name, which becomes the name of the item, the colon and a value. -/
def buildMember (pool : Pool) (build : ValueBuilder) (child : Addr) (value : Bytes) :
    Act Bytes := do
  let value ← still (skip value)
  let value ← buildString pool child value
  let value ← still (skip value)
  modifyItem child fun i => { i with string := i.valuestring, valuestring := 0 }
  let c ← still (deref value)
  if c ≠ 58 then still (.error (.invalid value))
  else buildItem build child value.tail

/-- `while (*value==',') …`; `child` is the last item so far. -/
def buildLoop (pool : Pool) (close : UInt8) (element : ValueBuilder) :
    Nat → Addr → Bytes → Act Bytes
  | 0, _, _ => still (.error .fuel)
  | n + 1, child, value => do
    let c ← still (deref value)
    if c = 44 then do
      let new ← newItem pool
      modifyItem child fun i => { i with next := new }
      let value ← element new value.tail
      buildLoop pool close element n new value
    else if c = close then pure value.tail
    else still (.error (.invalid value))

/-- What `parse_array` and `parse_object` have in common. -/
def buildElements (pool : Pool) (opening close : UInt8) (type : Kind) (element : ValueBuilder)
    (n : Nat) (item : Addr) (value : Bytes) : Act Bytes := do
  let c ← still (deref value)
  if c ≠ opening then still (.error (.invalid value))
  else do
    modifyItem item fun i => { i with type := type }
    let value ← still (skip value.tail)
    let c ← still (deref value)
    if c = close then pure value.tail
    else do
      let child ← newItem pool
      modifyItem item fun i => { i with child := child }
      let value ← element child value
      buildLoop pool close element n child value

/-- `parse_array`. -/
def buildArray (pool : Pool) (build : ValueBuilder) (n : Nat) (item : Addr) (value : Bytes) :
    Act Bytes :=
  buildElements pool 91 93 .array (buildItem build) n item value

/-- `parse_object`. -/
def buildObject (pool : Pool) (build : ValueBuilder) (n : Nat) (item : Addr) (value : Bytes) :
    Act Bytes :=
  buildElements pool 123 125 .object (buildMember pool build) n item value

/-- `parse_value`. -/
def buildValue (pow : Float → Float → Float) (pool : Pool) : Nat → ValueBuilder
  | 0, _, _ => still (.error .fuel)
  | n + 1, item, value => do
    if ← still (startsWith [110, 117, 108, 108] value) then do
      modifyItem item fun i => { i with type := .null }
      pure (value.drop 4)
    else if ← still (startsWith [102, 97, 108, 115, 101] value) then do
      modifyItem item fun i => { i with type := .false }
      pure (value.drop 5)
    else if ← still (startsWith [116, 114, 117, 101] value) then do
      modifyItem item fun i => { i with type := .true, value := { i.value with valueint := 1 } }
      pure (value.drop 4)
    else do
      let c ← still (deref value)
      if c = 34 then buildString pool item value
      else if c = 45 ∨ isDigit c then do
        let (x, value) ← still (parseNumber pow value)
        modifyItem item fun i => { i with value := x, type := .number }
        pure value
      else if c = 91 then buildArray pool (buildValue pow pool n) n item value
      else if c = 123 then buildObject pool (buildValue pow pool n) n item value
      else still (.error (.invalid value))

/-- The part of `cJSON_ParseWithOpts` between the allocation of the root and its return. -/
def buildRoot (pow : Float → Float → Float) (pool : Pool) (value : Bytes)
    (requireNullTerminated : Bool) (c : Addr) : Act Bytes := do
  let start ← still (skip value)
  let stop ← buildValue pow pool (value.length + 1) c start
  if requireNullTerminated then do
    let stop ← still (skip stop)
    let b ← still (deref stop)
    if b ≠ 0 then still (.error (.invalid stop)) else pure stop
  else pure stop

/-- `cJSON_ParseWithOpts` behind the allocation of the root: the root and `end`.  A failure costs
the tree built so far, which `cJSON_Delete` frees. -/
def finish (c : Addr) : Except Fault Bytes × Heap → Except Fault (Addr × Bytes) × Heap
  | (.ok stop, h) => (.ok (c, stop), h)
  | (.error (.invalid ep), h) => deleted (.invalid ep) h
  | (.error .memory, h) => deleted .memory h
  | (.error e, h) => (.error e, h)
where
  deleted (e : Fault) (h : Heap) : Except Fault (Addr × Bytes) × Heap :=
    match delete (h.used + 1) c h.memory with
    | some memory => (.error e, { h with memory := memory })
    | none => (.error .overwrite, h)

/-- `cJSON_ParseWithOpts`. -/
def buildWithOpts (pow : Float → Float → Float) (pool : Pool) (value : Bytes)
    (requireNullTerminated : Bool) : Act (Addr × Bytes) := fun h =>
  match newItem pool h with
  | (.ok c, h) => finish c (buildRoot pow pool value requireNullTerminated c h)
  | (.error e, h) => (.error e, h)

/-! ## New addresses -/

variable {pool : Pool} {h h' h₀ h₁ h₂ : Heap} {a b : Addr} {i : Node} {c last : Linked}
  {cs : List Linked} {name : Option Buffer}

/-- The addresses still to come are not in use. -/
def Fresh (pool : Pool) (h : Heap) : Prop :=
  ∀ n a, h.used ≤ n → pool.addr n = some a → h.memory a = none

/-- The addresses handed out between the two. -/
def newAddrs (pool : Pool) (h h' : Heap) : List Addr :=
  (List.range' h.used (h'.used - h.used)).filterMap pool.addr

theorem mem_newAddrs {x : Addr} :
    x ∈ newAddrs pool h h' ↔ ∃ n, h.used ≤ n ∧ n < h'.used ∧ pool.addr n = some x := by
  simp only [newAddrs, List.mem_filterMap, List.mem_range'_1]
  constructor
  · rintro ⟨n, ⟨hlow, hhigh⟩, hx⟩
    exact ⟨n, hlow, by omega, hx⟩
  · rintro ⟨n, hlow, hhigh, hx⟩
    exact ⟨n, ⟨hlow, by omega⟩, hx⟩

theorem nodup_newAddrs (pool : Pool) (h h' : Heap) : (newAddrs pool h h').Nodup :=
  (List.nodup_range').filterMap fun _ _ _ hm hn => pool.injective hm hn

theorem newAddrs_append (hlow : h.used ≤ h₁.used) (hhigh : h₁.used ≤ h'.used) :
    newAddrs pool h h₁ ++ newAddrs pool h₁ h' = newAddrs pool h h' := by
  have hsplit := List.range'_append_1 (s := h.used) (m := h₁.used - h.used)
    (n := h'.used - h₁.used)
  rw [show h.used + (h₁.used - h.used) = h₁.used by omega] at hsplit
  rw [newAddrs, newAddrs, newAddrs, ← List.filterMap_append, hsplit]
  congr 2
  omega

theorem newAddrs_self (pool : Pool) (h : Heap) : newAddrs pool h h = [] := by
  rw [newAddrs, Nat.sub_self]
  rfl

theorem newAddrs_none (hused : h'.used = h.used + 1) (hnone : pool.addr h.used = none) :
    newAddrs pool h h' = [] := by
  rw [newAddrs, hused, Nat.add_sub_cancel_left, List.range'_one, List.filterMap_cons, hnone]
  rfl

theorem newAddrs_some (hused : h'.used = h.used + 1) (hsome : pool.addr h.used = some b) :
    newAddrs pool h h' = [b] := by
  rw [newAddrs, hused, Nat.add_sub_cancel_left, List.range'_one, List.filterMap_cons, hsome]
  rfl

theorem Heap.set_self (h : Heap) (a : Addr) (b : Block) : (h.set a b).memory a = some b :=
  Function.update_self ..

theorem Heap.set_of_ne {p : Addr} (hp : p ≠ a) (h : Heap) (b : Block) :
    (h.set a b).memory p = h.memory p :=
  Function.update_of_ne hp ..

theorem Heap.add_self (h : Heap) (a : Addr) (b : Block) : (h.add a b).memory a = some b :=
  h.set_self a b

theorem Heap.add_of_ne {p : Addr} (hp : p ≠ a) (h : Heap) (b : Block) :
    (h.add a b).memory p = h.memory p :=
  h.set_of_ne hp b

/-! ## Frames -/

/-- Between the two only `a` and new blocks have been written. -/
structure Grows (pool : Pool) (h h' : Heap) (a : Addr) : Prop where
  used : h.used ≤ h'.used
  frame : ∀ p, p ≠ a → p ∉ newAddrs pool h h' → h'.memory p = h.memory p

theorem Grows.refl (pool : Pool) (h : Heap) (a : Addr) : Grows pool h h a :=
  ⟨le_refl _, fun _ _ _ => rfl⟩

theorem Grows.trans (h₁₂ : Grows pool h h₁ a) (h₂₃ : Grows pool h₁ h' b)
    (hb : b = a ∨ b ∈ newAddrs pool h h₁) : Grows pool h h' a := by
  refine ⟨h₁₂.used.trans h₂₃.used, fun p hp hnew => ?_⟩
  rw [← newAddrs_append h₁₂.used h₂₃.used, List.mem_append, not_or] at hnew
  have hpb : p ≠ b := by
    rintro rfl
    exact hb.elim hp hnew.1
  rw [h₂₃.frame p hpb hnew.2, h₁₂.frame p hp hnew.1]

/-- A new block. -/
theorem Grows.add (hb : pool.addr h.used = some b) (x : Block) (a : Addr) :
    Grows pool h (h.add b x) a := by
  refine ⟨Nat.le_succ _, fun p _ hmem => ?_⟩
  rw [newAddrs_some rfl hb, List.mem_singleton] at hmem
  rw [Heap.add_of_ne hmem]

/-- An assignment to the item. -/
theorem Grows.set (pool : Pool) (h : Heap) (a : Addr) (x : Block) :
    Grows pool h (h.set a x) a :=
  ⟨le_refl _, fun _ hp _ => h.set_of_ne hp x⟩

/-- What is in use is not among the addresses to come. -/
theorem Fresh.not_new (hfresh : Fresh pool h) {p : Addr} (hp : h.memory p ≠ none) :
    p ∉ newAddrs pool h h' := by
  intro hmem
  obtain ⟨n, hlow, -, hn⟩ := mem_newAddrs.mp hmem
  exact hp (hfresh n p hlow hn)

theorem Fresh.grows (hfresh : Fresh pool h) (ha : h.memory a ≠ none)
    (hgrows : Grows pool h h' a) : Fresh pool h' := by
  intro n p hn hp
  have hnone : h.memory p = none := hfresh n p (hgrows.used.trans hn) hp
  rw [hgrows.frame p, hnone]
  · rintro rfl
    exact ha hnone
  · intro hmem
    obtain ⟨m, -, hm, hpm⟩ := mem_newAddrs.mp hmem
    have := pool.injective hp hpm
    omega

theorem holds_used {μ : Memory} (h : Holds μ a name) : ∀ x ∈ blockOf name, μ x ≠ none := by
  intro x hx
  cases name with
  | none => cases hx
  | some b =>
    obtain ⟨rfl, -, hread⟩ := h
    rw [List.mem_singleton.mp hx]
    exact hread.trans_ne (Option.some_ne_none _)

/-- The blocks of a chain are in use. -/
theorem seg_used {μ : Memory} {p q : Addr} (hseg : Seg μ p cs q) :
    ∀ x ∈ blocksOf cs, μ x ≠ none := by
  induction hseg with
  | nil => exact fun x hx => absurd hx List.not_mem_nil
  | cons hp hitem hstring hvalue _ _ ihkids ihrest =>
    intro x hx
    rw [blocksOf, blocksOfItem] at hx
    simp only [List.cons_append, List.mem_cons, List.mem_append] at hx
    rcases hx with rfl | (hx | hx | hx) | hx
    · exact hitem.trans_ne (Option.some_ne_none _)
    · exact holds_used hstring x hx
    · exact holds_used hvalue x hx
    · exact ihkids x hx
    · exact ihrest x hx

/-- A chain that the call has nothing to do with stays. -/
theorem Grows.seg {p q : Addr} (hgrows : Grows pool h h' a) (hfresh : Fresh pool h)
    (hseg : Seg h.memory p cs q) (ha : a ∉ blocksOf cs) : Seg h'.memory p cs q := by
  refine seg_congr hseg fun x hx => hgrows.frame x ?_ (hfresh.not_new (seg_used hseg x hx))
  rintro rfl
  exact ha hx

/-! ## What a call leaves behind -/

/-- The item at the address of `c` has become the tree `c`.  On it hang the buffer of its name,
which it may have had before, and all new blocks. -/
structure Filled (pool : Pool) (h h' : Heap) (name : Option Buffer) (c : Linked) : Prop where
  grows : Grows pool h h' c.addr
  stands : Seg h'.memory c.addr [c] 0
  blocks : inside c = blockOf name ++ newAddrs pool h h'

/-- An item that waits for its value. -/
def Waits (h : Heap) (a : Addr) (type : Kind) (value : Number) (name : Option Buffer) : Prop :=
  Seg h.memory a [.node a type value name none []] 0

variable {type : Kind} {value : Number}

theorem Waits.used (hitem : Waits h a type value name) : h.memory a ≠ none := by
  obtain ⟨-, -, i, hread, -⟩ := seg_single hitem
  exact hread.trans_ne (Option.some_ne_none _)

/-- The buffer of a name is no item. -/
theorem Waits.not_name (hitem : Waits h a type value name) : a ∉ blockOf name := by
  obtain ⟨-, -, i, hread, -, hhung⟩ := seg_single hitem
  have hname : Holds h.memory i.string name := hhung.string
  cases name with
  | none => exact List.not_mem_nil
  | some b =>
    obtain ⟨haddr, -, hbuffer⟩ := hname
    intro hmem
    rw [haddr, ← List.mem_singleton.mp hmem, hread] at hbuffer
    cases hbuffer

/-- The name stays where it is while the item is filled in. -/
theorem Waits.name_stays (hitem : Waits h a type value name) (hfresh : Fresh pool h)
    (hgrows : Grows pool h h' a) : ∀ x ∈ blockOf name, h'.memory x = h.memory x := by
  intro x hx
  refine hgrows.frame x ?_ (hfresh.not_new (seg_used hitem x ?_))
  · rintro rfl
    exact hitem.not_name hx
  · rw [blocksOf_singleton, blocksOfItem_eq]
    exact List.mem_cons_of_mem a (List.mem_append_left _ hx)

theorem inside_leaf (a : Addr) (type : Kind) (value : Number) (name buffer : Option Buffer) :
    inside (.node a type value name buffer []) = blockOf name ++ blockOf buffer := by
  show blockOf name ++ (blockOf buffer ++ blocksOf []) = _
  rw [blocksOf, List.append_nil]

theorem Filled.refl (pool : Pool) (hitem : Waits h a type value name) :
    Filled pool h h name (.node a type value name none []) := by
  refine ⟨Grows.refl pool h a, hitem, ?_⟩
  rw [inside_leaf, newAddrs_self]
  rfl

/-- A call of `cJSON_malloc` that returns null. -/
theorem Filled.exhausted (hfill : Filled pool h h' name c) (hnone : pool.addr h'.used = none) :
    Filled pool h { h' with used := h'.used + 1 } name c := by
  have hused : h'.used ≤ h'.used + 1 := Nat.le_succ _
  have hnew : newAddrs pool h { h' with used := h'.used + 1 } = newAddrs pool h h' := by
    rw [← newAddrs_append hfill.grows.used hused, newAddrs_none rfl hnone, List.append_nil]
  refine ⟨⟨hfill.grows.used.trans hused, fun p hp hmem => ?_⟩, hfill.stands, ?_⟩
  · exact hfill.grows.frame p hp (hnew ▸ hmem)
  · rw [hnew]
    exact hfill.blocks

/-- An assignment to an item on which nothing but its name hangs. -/
theorem Waits.set (hitem : Waits h a type value name) (i' : Node)
    (hread : h.memory a = some (.node i)) (hnext : i'.next = i.next) (hchild : i'.child = i.child)
    (hvaluestring : i'.valuestring = i.valuestring) (hstring : i'.string = i.string)
    {value' : Number} (hvalue : i'.value = value') :
    Waits (h.set a (.node i')) a i'.type value' name := by
  subst hvalue
  obtain ⟨hne, hzero, hhung⟩ := seg_read hitem hread
  have hleaf : inside (.node a i'.type i'.value name none []) = blockOf name := by
    rw [inside_leaf]
    exact List.append_nil _
  have hhung' : Hung h.memory i' (.node a i'.type i'.value name none []) :=
    ⟨rfl, rfl, hstring ▸ hhung.string, hvaluestring ▸ hhung.valuestring, hchild ▸ hhung.child⟩
  have hset : Hung (h.set a (.node i')).memory i' (.node a i'.type i'.value name none []) := by
    refine hung_congr hhung' fun x hx => h.set_of_ne ?_ _
    rintro rfl
    rw [hleaf] at hx
    exact hitem.not_name hx
  have hseg := hset.seg hne (h.set_self a _)
  rw [hnext, hzero] at hseg
  exact hseg

/-- What was done in front of a call, and has perhaps given the item its name. -/
theorem Filled.after {name' : Option Buffer} (haddr : c.addr = a) (hgrows : Grows pool h h₁ a)
    (hname : blockOf name' = blockOf name ++ newAddrs pool h h₁)
    (hfill : Filled pool h₁ h' name' c) : Filled pool h h' name c := by
  refine ⟨?_, hfill.stands, ?_⟩
  · subst haddr
    exact hgrows.trans hfill.grows (Or.inl rfl)
  · rw [hfill.blocks, hname, List.append_assoc, newAddrs_append hgrows.used hfill.grows.used]

/-- An assignment to the item in front of a call. -/
theorem Filled.after_set {x : Block} (haddr : c.addr = a)
    (hfill : Filled pool (h.set a x) h' name c) : Filled pool h h' name c := by
  refine Filled.after haddr (Grows.set pool h a x) ?_ hfill
  have hnone : newAddrs pool h (h.set a x) = [] := newAddrs_self pool h
  rw [hnone, List.append_nil]

/-! ## A chain under construction -/

/-- A new item at `b`, and `x` written at `q` to link it. -/
def linked (h : Heap) (b q : Addr) (x : Block) : Heap := (h.add b (.node Node.zeros)).set q x

variable {q : Addr} {x : Block}

theorem linked_self (h : Heap) (b q : Addr) (x : Block) : (linked h b q x).memory q = some x :=
  Heap.set_self ..

theorem linked_new (hne : b ≠ q) : (linked h b q x).memory b = some (.node Node.zeros) := by
  rw [linked, Heap.set_of_ne hne, Heap.add_self]

theorem linked_grows (hb : pool.addr h.used = some b) : Grows pool h (linked h b q x) q :=
  (Grows.add hb _ q).trans (Grows.set pool _ q x) (Or.inl rfl)

theorem Fresh.ne (hfresh : Fresh pool h) (hb : pool.addr h.used = some b)
    (hq : h.memory q ≠ none) : b ≠ q := by
  rintro rfl
  exact hq (hfresh h.used b (le_refl _) hb)

/-- A new item waits for its value. -/
theorem waits_zeros {n : Nat} (hb : pool.addr n = some b)
    (hread : h.memory b = some (.node Node.zeros)) : Waits h b .zero ⟨0.0, 0⟩ none := by
  have hne : b ≠ 0 := by
    rintro rfl
    exact pool.ne_zero n hb
  have hhung : Hung h.memory Node.zeros (.node b .zero ⟨0.0, 0⟩ none none []) :=
    ⟨rfl, rfl, rfl, rfl, .nil⟩
  exact hhung.seg hne hread

theorem linked_waits (hfresh : Fresh pool h) (hb : pool.addr h.used = some b)
    (hq : h.memory q ≠ none) :
    Waits (linked h b q x) b .zero ⟨0.0, 0⟩ none :=
  waits_zeros hb (linked_new (hfresh.ne hb hq))

section

variable (hb : pool.addr h.used = some c.addr) (hfill : Filled pool (linked h c.addr q x) h' none c)
include hb hfill

/-- To make a new item and fill it in is to write new blocks and the one that links it. -/
theorem Filled.grows_linked : Grows pool h h' q := by
  have hlinked : Grows pool h (linked h c.addr q x) q := linked_grows hb
  have hnew : newAddrs pool h (linked h c.addr q x) = [c.addr] := newAddrs_some rfl hb
  apply hlinked.trans hfill.grows
  exact Or.inr (hnew ▸ List.mem_singleton_self _)

theorem Filled.blocks_linked : blocksOfItem c = newAddrs pool h h' := by
  have hlinked : Grows pool h (linked h c.addr q x) q := linked_grows hb
  rw [blocksOfItem_eq, hfill.blocks, ← newAddrs_append hlinked.used hfill.grows.used,
    newAddrs_some rfl hb]
  rfl

/-- The link stays. -/
theorem Filled.stays_linked (hfresh : Fresh pool h) (hq : h.memory q ≠ none) :
    h'.memory q = some x := by
  have hused : (linked h c.addr q x).memory q ≠ none :=
    (linked_self h c.addr q x).trans_ne (Option.some_ne_none _)
  have hfresh' : Fresh pool (linked h c.addr q x) := hfresh.grows hq (linked_grows hb)
  rw [hfill.grows.frame q (hfresh.ne hb hq).symm (hfresh'.not_new hused), linked_self]

end

/-- The item at `a` has the children `cs` so far, and then `last`, on which nothing follows. -/
structure Open (pool : Pool) (h₀ h : Heap) (a : Addr) (type : Kind) (value : Number)
    (name : Option Buffer) (cs : List Linked) (last : Linked) : Prop where
  grows : Grows pool h₀ h a
  item : ∃ i, h.memory a = some (.node i) ∧ i.next = 0 ∧ i.type = type ∧ i.value = value ∧
    Holds h.memory i.string name ∧ i.valuestring = 0 ∧ Seg h.memory i.child cs last.addr
  ends : Seg h.memory last.addr [last] 0
  blocks : blocksOf (cs ++ [last]) = newAddrs pool h₀ h

/-- The first child. -/
theorem Open.start (hfresh : Fresh pool h₀) (hitem : Waits h₀ a type value name)
    (hread : h₀.memory a = some (.node i)) (hb : pool.addr h₀.used = some c.addr)
    (hfill : Filled pool (linked h₀ c.addr a (.node { i with child := c.addr })) h none c) :
    Open pool h₀ h a type value name [] c := by
  have hgrows : Grows pool h₀ h a := hfill.grows_linked hb
  obtain ⟨-, hnext, hhung⟩ := seg_read hitem hread
  refine ⟨hgrows, ⟨{ i with child := c.addr }, ?_, hnext, hhung.type, hhung.value, ?_,
    hhung.valuestring, .nil⟩, hfill.stands, ?_⟩
  · exact hfill.stays_linked hb hfresh hitem.used
  · exact holds_congr hhung.string (hitem.name_stays hfresh hgrows)
  · rw [List.nil_append, blocksOf_singleton, hfill.blocks_linked hb]

section

variable (hfresh : Fresh pool h₀) (hitem : Waits h₀ a type value name)
  (hopen : Open pool h₀ h a type value name cs last)

include hopen in
theorem Open.last_mem : last.addr ∈ newAddrs pool h₀ h := by
  rw [← hopen.blocks, blocksOf_append, blocksOf_singleton, blocksOfItem_eq]
  exact List.mem_append_right _ List.mem_cons_self

include hopen in
/-- The last item is none of the others, and nothing that hangs on it. -/
theorem Open.last_once : last.addr ∉ blocksOf cs ∧ last.addr ∉ inside last := by
  have hnodup := nodup_newAddrs pool h₀ h
  rw [← hopen.blocks, blocksOf_append, blocksOf_singleton, blocksOfItem_eq,
    List.nodup_append'] at hnodup
  obtain ⟨-, hlast, hdisjoint⟩ := hnodup
  refine ⟨fun hmem => ?_, (List.nodup_cons.mp hlast).1⟩
  exact hdisjoint hmem List.mem_cons_self

include hfresh hitem hopen in
theorem Open.fresh : Fresh pool h := hfresh.grows hitem.used hopen.grows

include hopen in
theorem Open.used : h.memory a ≠ none := by
  obtain ⟨i, hread, -⟩ := hopen.item
  exact hread.trans_ne (Option.some_ne_none _)

include hfresh hitem hopen in
/-- Another child. -/
theorem Open.push {j : Node} (hread : h.memory last.addr = some (.node j))
    (hb : pool.addr h.used = some c.addr)
    (hfill : Filled pool (linked h c.addr last.addr (.node { j with next := c.addr })) h' none c) :
    Open pool h₀ h' a type value name (cs ++ [last]) c := by
  have hfresh' : Fresh pool h := hopen.fresh hfresh hitem
  -- from where the list was open to where it is again, only the last item is written
  have hstep : Grows pool h h' last.addr := hfill.grows_linked hb
  have hgrows : Grows pool h₀ h' a := hopen.grows.trans hstep (Or.inr hopen.last_mem)
  have hlast : h.memory last.addr ≠ none := hread.trans_ne (Option.some_ne_none _)
  have hne : a ≠ last.addr := by
    intro heq
    exact hfresh.not_new hitem.used (heq ▸ hopen.last_mem)
  obtain ⟨i, hi, hnext, htype, hvalue, hname, hvaluestring, hseg⟩ := hopen.item
  refine ⟨hgrows, ⟨i, ?_, hnext, htype, hvalue, ?_, hvaluestring, ?_⟩, hfill.stands, ?_⟩
  · rw [hstep.frame a hne (hfresh'.not_new hopen.used), hi]
  · refine holds_congr hname fun x hx => ?_
    rw [hitem.name_stays hfresh hgrows x hx, hitem.name_stays hfresh hopen.grows x hx]
  · apply seg_append (hstep.seg hfresh' hseg hopen.last_once.1)
    obtain ⟨hnull, -, hhung⟩ := seg_read hopen.ends hread
    have hhung' : Hung h.memory { j with next := c.addr } last :=
      ⟨hhung.type, hhung.value, hhung.string, hhung.valuestring, hhung.child⟩
    have hstays : Hung h'.memory { j with next := c.addr } last := by
      refine hung_congr hhung' fun x hx => hstep.frame x ?_ ?_
      · rintro rfl
        exact hopen.last_once.2 hx
      · apply hfresh'.not_new
        apply seg_used hopen.ends
        rw [blocksOf_singleton, blocksOfItem_eq]
        exact List.mem_cons_of_mem _ hx
    exact hstays.seg hnull (hfill.stays_linked hb hfresh' hlast)
  · rw [blocksOf_append, hopen.blocks, blocksOf_singleton, hfill.blocks_linked hb,
      newAddrs_append hopen.grows.used hstep.used]

include hitem hopen in
/-- What stands there is a tree, whatever more was to come. -/
theorem Open.filled : Filled pool h₀ h name (.node a type value name none (cs ++ [last])) := by
  obtain ⟨-, hne, -⟩ := seg_single hitem
  obtain ⟨i, hread, hnext, rfl, rfl, hname, hvaluestring, hseg⟩ := hopen.item
  refine ⟨hopen.grows, ?_, ?_⟩
  · have hhung : Hung h.memory i (.node a i.type i.value name none (cs ++ [last])) :=
      ⟨rfl, rfl, hname, hvaluestring, seg_append hseg hopen.ends⟩
    have hstands := hhung.seg hne hread
    rw [hnext] at hstands
    exact hstands
  · show blockOf name ++ (blockOf none ++ blocksOf (cs ++ [last])) = _
    rw [hopen.blocks]
    rfl

end

end EmWinDemo.Json
