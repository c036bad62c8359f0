/-
# EmWinDemo.Json.Store -- trees in memory, and `cJSON_Delete`

Memory holds two kinds of blocks, items and the buffers of strings.  The items of a tree hang on
`child` and `next`, and each may have a buffer for its name and one for its string value.
`Seg μ p cs q` is a part of a chain: the items `cs`, the first of them at `p`, and the last one
going on to `q`.  `blocksOf` lists the addresses of a chain, of its buffers and of everything below
it, each item in front of what hangs on it.

`delete_seg` says what `cJSON_Delete` does to a chain in which no address occurs twice: it ends,
it reads no item and frees no block that has been freed, and afterwards exactly those addresses are
free.
-/
import EmWinDemo.Json.Parse
import EmWinDemo.Weather.Frees

namespace EmWinDemo.Json

open EmWinDemo.Lib.CMemory
open EmWinDemo.Weather.Frees (Addr)

/-! ## Blocks -/

/-- The types of items that parsing makes; that of a new item is zero. -/
inductive Kind where
  | zero
  | false
  | true
  | null
  | number
  | string
  | array
  | object
  deriving DecidableEq

/-- `struct cJSON`, but for `prev`, which is never read. -/
structure Node where
  next : Addr
  child : Addr
  type : Kind
  valuestring : Addr
  value : Number
  string : Addr

/-- An item of zeros. -/
def Node.zeros : Node := ⟨0, 0, .zero, 0, ⟨0.0, 0⟩, 0⟩

inductive Block where
  | node (i : Node)
  | buffer (bytes : Bytes)

/-- The blocks that are allocated. -/
abbrev Memory := Addr → Option Block

/-! ## Trees -/

/-- A buffer and what has been written into it. -/
structure Buffer where
  addr : Addr
  bytes : Bytes

/-- An item with what hangs on it. -/
inductive Linked where
  | node (addr : Addr) (type : Kind) (value : Number) (string valuestring : Option Buffer)
      (child : List Linked)

def Linked.addr : Linked → Addr
  | .node addr _ _ _ _ _ => addr

def Linked.type : Linked → Kind
  | .node _ type _ _ _ _ => type

def Linked.value : Linked → Number
  | .node _ _ value _ _ _ => value

def Linked.string : Linked → Option Buffer
  | .node _ _ _ string _ _ => string

def Linked.valuestring : Linked → Option Buffer
  | .node _ _ _ _ valuestring _ => valuestring

def Linked.child : Linked → List Linked
  | .node _ _ _ _ _ child => child

/-- The address of a buffer, if there is one. -/
def blockOf (b : Option Buffer) : List Addr := (b.map Buffer.addr).toList

mutual

def blocksOfItem : Linked → List Addr
  | .node addr _ _ string valuestring child =>
    addr :: (blockOf string ++ (blockOf valuestring ++ blocksOf child))

def blocksOf : List Linked → List Addr
  | [] => []
  | c :: cs => blocksOfItem c ++ blocksOf cs

end

/-- The blocks that hang on an item. -/
def inside (c : Linked) : List Addr :=
  blockOf c.string ++ (blockOf c.valuestring ++ blocksOf c.child)

theorem blocksOfItem_eq (c : Linked) : blocksOfItem c = c.addr :: inside c := by
  obtain ⟨addr, type, value, string, valuestring, child⟩ := c
  rw [blocksOfItem]
  rfl

theorem blocksOf_append (cs ds : List Linked) :
    blocksOf (cs ++ ds) = blocksOf cs ++ blocksOf ds := by
  induction cs with
  | nil => rfl
  | cons c cs ih => rw [List.cons_append, blocksOf, ih, blocksOf, List.append_assoc]

theorem blocksOf_singleton (c : Linked) : blocksOf [c] = blocksOfItem c := by
  rw [blocksOf, blocksOf, List.append_nil]

/-! ## Parts of a chain -/

/-- The pointer `a` is null, or it points to that buffer. -/
def Holds (μ : Memory) (a : Addr) : Option Buffer → Prop
  | none => a = 0
  | some b => a = b.addr ∧ a ≠ 0 ∧ μ a = some (.buffer b.bytes)

inductive Seg (μ : Memory) : Addr → List Linked → Addr → Prop where
  | nil {q : Addr} : Seg μ q [] q
  | cons {p q : Addr} {i : Node} {string valuestring : Option Buffer} {kids rest : List Linked} :
      p ≠ 0 → μ p = some (.node i) → Holds μ i.string string → Holds μ i.valuestring valuestring →
        Seg μ i.child kids 0 → Seg μ i.next rest q →
          Seg μ p (.node p i.type i.value string valuestring kids :: rest) q

variable {μ μ' : Memory} {p q : Addr} {cs ds : List Linked} {c : Linked} {i : Node}

theorem holds_congr {a : Addr} {b : Option Buffer} (h : Holds μ a b)
    (hμ : ∀ x ∈ blockOf b, μ' x = μ x) : Holds μ' a b := by
  cases b with
  | none => exact h
  | some b =>
    obtain ⟨rfl, hne, hread⟩ := h
    refine ⟨rfl, hne, ?_⟩
    rw [hμ b.addr (List.mem_singleton.mpr rfl), hread]

/-- A part of a chain stands in every memory that agrees with this one on its blocks. -/
theorem seg_congr (h : Seg μ p cs q) (hμ : ∀ a ∈ blocksOf cs, μ' a = μ a) : Seg μ' p cs q := by
  induction h with
  | nil => exact .nil
  | @cons p q i string valuestring kids rest hp hitem hstring hvalue _ _ ihkids ihrest =>
    rw [blocksOf, blocksOfItem] at hμ
    simp only [List.cons_append, List.mem_cons, List.mem_append] at hμ
    refine .cons hp ?_ (holds_congr hstring fun a ha => hμ a ?_)
      (holds_congr hvalue fun a ha => hμ a ?_) (ihkids fun a ha => hμ a ?_)
      (ihrest fun a ha => hμ a ?_)
    · rw [hμ p (Or.inl rfl), hitem]
    · exact Or.inr (Or.inl (Or.inl ha))
    · exact Or.inr (Or.inl (Or.inr (Or.inl ha)))
    · exact Or.inr (Or.inl (Or.inr (Or.inr ha)))
    · exact Or.inr (Or.inr ha)

/-- What hangs on an item. -/
structure Hung (μ : Memory) (i : Node) (c : Linked) : Prop where
  type : i.type = c.type
  value : i.value = c.value
  string : Holds μ i.string c.string
  valuestring : Holds μ i.valuestring c.valuestring
  child : Seg μ i.child c.child 0

theorem Hung.seg (h : Hung μ i c) (hp : c.addr ≠ 0) (hitem : μ c.addr = some (.node i)) :
    Seg μ c.addr [c] i.next := by
  obtain ⟨addr, type, value, string, valuestring, child⟩ := c
  obtain ⟨rfl, rfl, hstring, hvalue, hchild⟩ := h
  exact .cons hp hitem hstring hvalue hchild .nil

theorem seg_nil (h : Seg μ p [] q) : p = q := by
  cases h
  rfl

theorem seg_single (h : Seg μ p [c] q) :
    p = c.addr ∧ p ≠ 0 ∧ ∃ i, μ p = some (.node i) ∧ i.next = q ∧ Hung μ i c := by
  generalize hcs : [c] = cs at h
  cases h with
  | nil => cases hcs
  | @cons p q i string valuestring kids rest hp hitem hstring hvalue hkids hrest =>
    obtain ⟨rfl, rfl⟩ := List.cons.inj hcs
    exact ⟨rfl, hp, i, hitem, seg_nil hrest, rfl, rfl, hstring, hvalue, hkids⟩

/-- The item that is read there. -/
theorem seg_read (h : Seg μ p [c] q) (hread : μ p = some (.node i)) :
    p ≠ 0 ∧ i.next = q ∧ Hung μ i c := by
  obtain ⟨-, hp, j, hj, hnext, hhung⟩ := seg_single h
  obtain rfl : i = j := by
    rw [hread] at hj
    cases hj
    rfl
  exact ⟨hp, hnext, hhung⟩

theorem hung_congr (h : Hung μ i c) (hμ : ∀ a ∈ inside c, μ' a = μ a) : Hung μ' i c where
  type := h.type
  value := h.value
  string := holds_congr h.string fun a ha => hμ a (List.mem_append_left _ ha)
  valuestring := holds_congr h.valuestring fun a ha =>
    hμ a (List.mem_append_right _ (List.mem_append_left _ ha))
  child := seg_congr h.child fun a ha =>
    hμ a (List.mem_append_right _ (List.mem_append_right _ ha))

/-- A part of a chain and what it goes on to. -/
theorem seg_append {r : Addr} (h : Seg μ p cs q) (hq : Seg μ q ds r) : Seg μ p (cs ++ ds) r := by
  induction h with
  | nil => exact hq
  | cons hp hitem hstring hvalue hkids _ _ ih => exact .cons hp hitem hstring hvalue hkids (ih hq)

/-- A chain of no items starts at the null pointer. -/
theorem seg_null (h : Seg μ 0 cs 0) : cs = [] := by
  cases h with
  | nil => rfl
  | cons hp _ _ _ _ _ => exact absurd rfl hp

/-! ## `cJSON_Delete` -/

/-- Reading an item that is not allocated ends a call without a result. -/
def nodeAt (μ : Memory) (a : Addr) : Option Node :=
  match μ a with
  | some (.node i) => some i
  | _ => none

/-- `cJSON_free`, and so does freeing what is not allocated. -/
def free (a : Addr) (μ : Memory) : Option Memory :=
  if (μ a).isSome then some (Function.update μ a none) else none

/-- `if (a) cJSON_free(a);` -/
def freeBuffer (a : Addr) (μ : Memory) : Option Memory := if a ≠ 0 then free a μ else some μ

/-- `cJSON_Delete`, with a bound on the depth and the turns of its loop.  No item here is a
reference, and no name a constant. -/
def delete : Nat → Addr → Memory → Option Memory
  | 0, _, _ => none
  | n + 1, c, μ =>
    if c = 0 then some μ
    else do
      let i ← nodeAt μ c
      let next := i.next
      let μ ← (if i.child ≠ 0 then delete n i.child μ else some μ)
      let i ← nodeAt μ c
      let μ ← freeBuffer i.valuestring μ
      let i ← nodeAt μ c
      let μ ← freeBuffer i.string μ
      let μ ← free c μ
      delete n next μ

/-- The memory without these blocks. -/
def without (μ : Memory) (addrs : List Addr) : Memory := fun p => if p ∈ addrs then none else μ p

theorem without_of_not_mem {addrs : List Addr} (h : p ∉ addrs) : without μ addrs p = μ p :=
  if_neg h

theorem without_append (μ : Memory) (as bs : List Addr) :
    without (without μ as) bs = without μ (as ++ bs) := by
  funext p
  simp only [without, List.mem_append]
  by_cases ha : p ∈ as <;> by_cases hb : p ∈ bs <;> simp [ha, hb]

theorem without_congr {as bs : List Addr} (h : ∀ a, a ∈ as ↔ a ∈ bs) (μ : Memory) :
    without μ as = without μ bs := by
  funext p
  simp only [without, h p]

theorem free_eq {a : Addr} {b : Block} (h : μ a = some b) : free a μ = some (without μ [a]) := by
  rw [free, h, if_pos Option.isSome_some]
  congr 1
  funext p
  by_cases hp : p = a
  · subst hp
    simp [without]
  · simp [without, hp]

theorem freeBuffer_eq {a : Addr} {b : Option Buffer} (h : Holds μ a b) :
    freeBuffer a μ = some (without μ (blockOf b)) := by
  cases b with
  | none =>
    obtain rfl : a = 0 := h
    rw [freeBuffer, if_neg (not_not.mpr rfl)]
    rfl
  | some b =>
    obtain ⟨rfl, hne, hread⟩ := h
    rw [freeBuffer, if_pos hne, free_eq hread]
    rfl

theorem nodeAt_eq {i : Node} (h : μ p = some (.node i)) : nodeAt μ p = some i := by
  rw [nodeAt, h]

/-- **What `cJSON_Delete` frees**: a chain with its buffers and all that is below it, every block
once. -/
theorem delete_seg (h : Seg μ p cs 0) (hnodup : (blocksOf cs).Nodup)
    (hμ : ∀ a ∈ blocksOf cs, μ' a = μ a) {n : Nat} (hn : (blocksOf cs).length < n) :
    delete n p μ' = some (without μ' (blocksOf cs)) := by
  generalize hq : (0 : Addr) = q at h
  induction h generalizing μ' n with
  | nil =>
    subst hq
    obtain ⟨n, rfl⟩ := Nat.exists_eq_succ_of_ne_zero (Nat.ne_of_gt (Nat.zero_lt_of_lt hn))
    rw [delete, if_pos rfl]
    congr 1
  | @cons p q i string valuestring kids rest hp hitem hstring hvalue hkids _ ihkids ihrest =>
    subst hq
    obtain ⟨n, rfl⟩ := Nat.exists_eq_succ_of_ne_zero (Nat.ne_of_gt (Nat.zero_lt_of_lt hn))
    rw [blocksOf, blocksOfItem] at hnodup hμ hn ⊢
    simp only [List.cons_append, List.append_assoc, List.length_cons, List.length_append] at hn
    simp only [List.cons_append, List.append_assoc, List.mem_cons, List.mem_append] at hμ
    simp only [List.cons_append, List.append_assoc, List.nodup_cons, List.nodup_append',
      List.mem_append, not_or, List.disjoint_append_right] at hnodup
    obtain ⟨⟨hpstring, hpvalue, hpkids, hprest⟩, -, ⟨-, ⟨hnodupKids, hnodupRest, hkidsRest⟩,
      hvalueKids, hvalueRest⟩, hstringValue, hstringKids, hstringRest⟩ := hnodup
    have hp' : μ' p = some (.node i) := by rw [hμ p (Or.inl rfl), hitem]
    have hstring' : Holds μ' i.string string := holds_congr hstring fun a ha =>
      hμ a (Or.inr (Or.inl ha))
    have hvalue' : Holds μ' i.valuestring valuestring := holds_congr hvalue fun a ha =>
      hμ a (Or.inr (Or.inr (Or.inl ha)))
    -- first what hangs below the item
    have hbelow : (if i.child ≠ 0 then delete n i.child μ' else some μ') =
        some (without μ' (blocksOf kids)) := by
      by_cases hchild : i.child = 0
      · rw [hchild] at hkids
        rw [if_neg (not_not.mpr hchild), seg_null hkids]
        congr 1
      · rw [if_pos hchild]
        exact ihkids hnodupKids (fun a ha => hμ a (Or.inr (Or.inr (Or.inr (Or.inl ha))))) (by omega)
          rfl
    have hread₁ : nodeAt (without μ' (blocksOf kids)) p = some i :=
      nodeAt_eq (by rw [without_of_not_mem hpkids, hp'])
    -- then its two buffers
    have hvalue₁ : Holds (without μ' (blocksOf kids)) i.valuestring valuestring :=
      holds_congr hvalue' fun a ha => without_of_not_mem (hvalueKids ha)
    have hread₂ : nodeAt (without μ' (blocksOf kids ++ blockOf valuestring)) p = some i :=
      nodeAt_eq (by rw [without_of_not_mem (by simp [hpkids, hpvalue]), hp'])
    have hstring₂ : Holds (without μ' (blocksOf kids ++ blockOf valuestring)) i.string string := by
      refine holds_congr hstring' fun a ha => without_of_not_mem ?_
      rw [List.mem_append, not_or]
      exact ⟨hstringKids ha, hstringValue ha⟩
    have hitem₃ : without μ' (blocksOf kids ++ blockOf valuestring ++ blockOf string) p =
        some (.node i) := by
      rw [without_of_not_mem (by simp [hpkids, hpvalue, hpstring]), hp']
    -- then the rest of the chain, which nothing of this belongs to
    have hothers : ∀ a ∈ blocksOf rest,
        without μ' (blocksOf kids ++ blockOf valuestring ++ blockOf string ++ [p]) a = μ a := by
      intro a ha
      rw [without_of_not_mem, hμ a (Or.inr (Or.inr (Or.inr (Or.inr ha))))]
      simp only [List.mem_append, List.mem_singleton, not_or]
      refine ⟨⟨⟨?_, ?_⟩, ?_⟩, ?_⟩
      · exact fun hmem => hkidsRest hmem ha
      · exact fun hmem => hvalueRest hmem ha
      · exact fun hmem => hstringRest hmem ha
      · rintro rfl
        exact hprest ha
    have hrest := ihrest hnodupRest hothers (n := n) (by omega) rfl
    rw [delete, if_neg hp, nodeAt_eq hp']
    simp only [Option.bind_eq_bind, Option.bind_some, hbelow, hread₁, freeBuffer_eq hvalue₁,
      without_append, hread₂, freeBuffer_eq hstring₂, free_eq hitem₃, hrest]
    congr 1
    apply without_congr
    intro a
    simp only [List.mem_append, List.mem_cons, List.not_mem_nil, or_false, List.cons_append]
    tauto

end EmWinDemo.Json
