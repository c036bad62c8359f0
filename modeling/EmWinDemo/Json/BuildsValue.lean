/-
# EmWinDemo.Json.BuildsValue -- the tree in memory is the parsed value

The parser that fills in items against the parser that returns values: both read the same bytes,
and as long as `cJSON_malloc` returns something they end at the same pointer or with the same
fault.  When they end well the tree that has been built represents the value
(`buildValue_builds`).  Also when they do not, or memory has run out, the blocks allocated so far
form a tree, so that `cJSON_Delete` can be trusted with it.

The specification of a builder asks nothing of the text.  It is the same for the builder of a
value, of an item and of a member, and the loop lemma is proved once for both brackets.
-/
import EmWinDemo.Json.Build

namespace EmWinDemo.Json

open EmWinDemo.Lib.CMemory EmWinDemo.Lib.CText EmWinDemo.Lib.Json
open EmWinDemo.Weather.Frees (Addr)

/-! ## What a tree stands for -/

/-- The item of that name, with what is below it, is the tree of the value.  Names and strings
are in their buffers with the NUL that ends them. -/
inductive Represents : Option Bytes → Tree → Linked → Prop where
  | literalNull {name : Option Bytes} {a : Addr} {string : Option Buffer}
      (hname : string.map Buffer.bytes = name) :
      Represents name .null (.node a .null ⟨0.0, 0⟩ string none [])
  | literalFalse {name : Option Bytes} {a : Addr} {string : Option Buffer}
      (hname : string.map Buffer.bytes = name) :
      Represents name .false (.node a .false ⟨0.0, 0⟩ string none [])
  | literalTrue {name : Option Bytes} {a : Addr} {string : Option Buffer}
      (hname : string.map Buffer.bytes = name) :
      Represents name .true (.node a .true ⟨0.0, 1⟩ string none [])
  | number {name : Option Bytes} {a : Addr} {string : Option Buffer} {x : Number}
      (hname : string.map Buffer.bytes = name) :
      Represents name (.number x) (.node a .number x string none [])
  | string {name : Option Bytes} {a : Addr} {string : Option Buffer} {s : Bytes} {out : Addr}
      (hname : string.map Buffer.bytes = name) :
      Represents name (.string s) (.node a .string ⟨0.0, 0⟩ string (some ⟨out, s ++ [0]⟩) [])
  | array {name : Option Bytes} {a : Addr} {string : Option Buffer} {items : List Tree}
      {kids : List Linked} (hname : string.map Buffer.bytes = name)
      (h : List.Forall₂ (Represents none) items kids) :
      Represents name (.array items) (.node a .array ⟨0.0, 0⟩ string none kids)
  | object {name : Option Bytes} {a : Addr} {string : Option Buffer}
      {members : List (Bytes × Tree)} {kids : List Linked}
      (hname : string.map Buffer.bytes = name)
      (h : List.Forall₂ (fun m c => Represents (some (m.1 ++ [0])) m.2 c) members kids) :
      Represents name (.object members) (.node a .object ⟨0.0, 0⟩ string none kids)

/-- Two calls with the same fault, or with the same pointer and a property of the first result;
unless memory has run out in the second. -/
inductive Agrees {α : Type} (ranOut : Prop) (P : α → Prop) :
    Except Fault (α × Bytes) → Except Fault Bytes → Prop where
  | ok {a : α} {q : Bytes} (h : P a) : Agrees ranOut P (.ok (a, q)) (.ok q)
  | error {f : Fault} : Agrees ranOut P (.error f) (.error f)
  | memory {r : Except Fault (α × Bytes)} (h : ranOut) : Agrees ranOut P r (.error .memory)

theorem Agrees.map {α β : Type} {R S : Prop} {P : α → Prop} {Q : β → Prop}
    {r : Except Fault (α × Bytes)} {o : Except Fault Bytes} (h : Agrees R P r o) (hRS : R → S)
    {f : α → β} (hf : ∀ x, P x → Q (f x)) :
    Agrees S Q (r >>= fun y => .ok (f y.1, y.2)) o := by
  cases h with
  | ok hx => exact .ok (hf _ hx)
  | error => exact .error
  | memory hR => exact .memory (hRS hR)

theorem Agrees.imp {α : Type} {R S : Prop} {P Q : α → Prop} {r : Except Fault (α × Bytes)}
    {o : Except Fault Bytes} (h : Agrees R P r o) (hRS : R → S) (hPQ : ∀ x, P x → Q x) :
    Agrees S Q r o := by
  cases h with
  | ok hx => exact .ok (hPQ _ hx)
  | error => exact .error
  | memory hR => exact .memory (hRS hR)

/-! ## Calls in sequence -/

variable {α β : Type} {pool : Pool} {pow : Float → Float → Float} {h h' h₀ h₁ : Heap}
  {a b q : Addr} {i j : Node} {c last : Linked} {cs : List Linked} {type : Kind}
  {name : Option Buffer}

theorem act_bind_ok {x : Act α} {f : α → Act β} {r : α} (hx : x h = (.ok r, h')) :
    (x >>= f) h = f r h' := by
  simp only [bind, hx]

theorem act_bind_error {x : Act α} {f : α → Act β} {e : Fault} (hx : x h = (.error e, h')) :
    (x >>= f) h = (.error e, h') := by
  simp only [bind, hx]

theorem still_ok_bind (r : α) (f : α → Act β) (h : Heap) :
    (still (.ok r) >>= f) h = f r h := rfl

theorem ok_bind (r : α) (f : α → Except Fault β) : (.ok r >>= f) = f r := rfl

theorem error_bind (e : Fault) (f : α → Except Fault β) : (.error e >>= f) = .error e := rfl

theorem modifyItem_eq (ha : h.memory a = some (.node i)) (f : Node → Node) :
    modifyItem a f h = (.ok (), h.set a (.node (f i))) := by
  rw [modifyItem, nodeAt_eq ha]

theorem malloc_none (hnone : pool.addr h.used = none) (x : Block) :
    malloc pool x h = (.error .memory, { h with used := h.used + 1 }) := by
  rw [malloc, hnone]

theorem malloc_some (hb : pool.addr h.used = some b) (x : Block) :
    malloc pool x h = (.ok b, h.add b x) := by
  rw [malloc, hb]

/-- Allocating an item and linking it. -/
theorem newItem_link (hfresh : Fresh pool h) (hb : pool.addr h.used = some b)
    (hq : h.memory q = some (.node i)) (f : Addr → Node → Node) (k : Addr → Act β) :
    (newItem pool >>= fun new => modifyItem q (f new) >>= fun _ => k new) h =
      k b (linked h b q (.node (f b i))) := by
  have hne : b ≠ q := hfresh.ne hb (hq.trans_ne (Option.some_ne_none _))
  have hread : (h.add b (.node Node.zeros)).memory q = some (.node i) := by
    rw [Heap.add_of_ne hne.symm, hq]
  rw [act_bind_ok (x := newItem pool) (malloc_some hb _)]
  show (modifyItem q (f b) >>= fun _ => k b) (h.add b (.node Node.zeros)) = _
  rw [act_bind_ok (modifyItem_eq hread _)]
  rfl

/-! ## Strings -/

theorem measured_scan {p : Bytes} (hp : measured p = false) : ∃ f, parseString p = .error f := by
  match p with
  | [] => exact ⟨_, rfl⟩
  | b :: body =>
    by_cases hquote : b = 34
    · have hscan : (scan 0 body).isOk = false := by
        rw [measured, decide_eq_true hquote, Bool.true_and] at hp
        exact hp
      cases hs : scan 0 body with
      | error f =>
        refine ⟨f, ?_⟩
        rw [parseString, if_neg (not_not.mpr hquote), hs, error_bind]
      | ok x =>
        rw [hs] at hscan
        cases hscan
    · exact ⟨_, by rw [parseString, if_pos hquote]⟩

/-- A new buffer that hangs on the item, with these bytes in it. -/
def attached (h : Heap) (a out : Addr) (i : Node) (bytes : Bytes) : Heap :=
  (h.add out (.buffer bytes)).set a (.node { i with valuestring := out, type := .string })

theorem attached_grows (hb : pool.addr h.used = some b) (bytes : Bytes) :
    Grows pool h (attached h a b i bytes) a :=
  (Grows.add hb _ a).trans (Grows.set pool _ a _) (Or.inl rfl)

/-- The item with its string. -/
theorem attached_filled {value : Number} (hfresh : Fresh pool h) (hitem : Waits h a type value name)
    (hread : h.memory a = some (.node i)) (hb : pool.addr h.used = some b) (bytes : Bytes) :
    Filled pool h (attached h a b i bytes) name
      (.node a .string value name (some ⟨b, bytes⟩) []) := by
  have hgrows := attached_grows (a := a) (i := i) hb bytes
  have hne : b ≠ a := hfresh.ne hb hitem.used
  obtain ⟨hnull, hnext, hhung⟩ := seg_read hitem hread
  have hbuffer : (attached h a b i bytes).memory b = some (.buffer bytes) := by
    rw [attached, Heap.set_of_ne hne, Heap.add_self]
  refine ⟨hgrows, ?_, ?_⟩
  · have hhung' : Hung (attached h a b i bytes).memory
        { i with valuestring := b, type := .string }
        (.node a .string value name (some ⟨b, bytes⟩) []) := by
      refine ⟨rfl, hhung.value, ?_, ⟨rfl, ?_, hbuffer⟩, ?_⟩
      · exact holds_congr hhung.string (hitem.name_stays hfresh hgrows)
      · rintro rfl
        exact pool.ne_zero _ hb
      · have hchild : i.child = 0 := seg_nil hhung.child
        rw [hchild]
        exact .nil
    have hseg := hhung'.seg hnull (Heap.set_self ..)
    rw [hnext] at hseg
    exact hseg
  · rw [inside_leaf, newAddrs_some rfl hb]
    rfl

/-- `parse_string`: it is rejected before there is a buffer, or memory has run out, or a buffer
hangs on the item, with the string in it if there is one. -/
theorem buildString_cases (hfresh : Fresh pool h) (hread : h.memory a = some (.node i))
    (p : Bytes) :
    (∃ f, parseString p = .error f ∧ buildString pool a p h = (.error f, h)) ∨
      (pool.addr h.used = none ∧
        buildString pool a p h = (.error .memory, { h with used := h.used + 1 })) ∨
      ∃ out, pool.addr h.used = some out ∧
        ((∃ f, parseString p = .error f ∧
            buildString pool a p h = (.error f, attached h a out i [])) ∨
          ∃ s r, parseString p = .ok (s, r) ∧
            buildString pool a p h = (.ok r, attached h a out i (s ++ [0]))) := by
  cases hmeasured : measured p with
  | false =>
    obtain ⟨f, hf⟩ := measured_scan hmeasured
    refine Or.inl ⟨f, hf, ?_⟩
    rw [buildString, if_neg (by simp [hmeasured]), hf]
    rfl
  | true =>
    right
    cases hb : pool.addr h.used with
    | none =>
      refine Or.inl ⟨rfl, ?_⟩
      rw [buildString, if_pos hmeasured, act_bind_error (malloc_none hb _)]
    | some out =>
      right
      refine ⟨out, rfl, ?_⟩
      have hne : out ≠ a := hfresh.ne hb (hread.trans_ne (Option.some_ne_none _))
      have hread' : (h.add out (.buffer [])).memory a = some (.node i) := by
        rw [Heap.add_of_ne hne.symm, hread]
      -- up to the second loop
      have hfirst : buildString pool a p h = (still (parseString p) >>= fun x =>
          writeBuffer out (x.1 ++ [0]) >>= fun _ => pure x.2) (attached h a out i []) := by
        rw [buildString, if_pos hmeasured, act_bind_ok (malloc_some hb _),
          act_bind_ok (modifyItem_eq hread' _)]
        rfl
      rw [hfirst]
      cases hp : parseString p with
      | error f => exact Or.inl ⟨f, rfl, rfl⟩
      | ok x =>
        obtain ⟨s, r⟩ := x
        refine Or.inr ⟨s, r, rfl, ?_⟩
        have hbuffer : (attached h a out i []).memory out = some (.buffer []) := by
          rw [attached, Heap.set_of_ne hne, Heap.add_self]
        have hwrite : writeBuffer out (s ++ [0]) (attached h a out i []) =
            (.ok (), attached h a out i (s ++ [0])) := by
          rw [writeBuffer, hbuffer]
          simp only [attached, Heap.add, Heap.set]
          rw [Function.update_comm hne.symm, Function.update_idem]
        rw [still_ok_bind, act_bind_ok hwrite]
        rfl

/-- The item whose string has become its name. -/
def named (h : Heap) (a out : Addr) (i : Node) (bytes : Bytes) : Heap :=
  (attached h a out i bytes).set a
    (.node { i with string := out, valuestring := 0, type := .string })

theorem named_grows (hb : pool.addr h.used = some b) (bytes : Bytes) :
    Grows pool h (named h a b i bytes) a :=
  (attached_grows hb bytes).trans (Grows.set pool _ a _) (Or.inl rfl)

theorem named_waits {value : Number} (hfresh : Fresh pool h) (hitem : Waits h a type value name)
    (hread : h.memory a = some (.node i)) (hb : pool.addr h.used = some b) (bytes : Bytes) :
    Waits (named h a b i bytes) a .string value (some ⟨b, bytes⟩) := by
  have hne : b ≠ a := hfresh.ne hb hitem.used
  obtain ⟨hnull, hnext, hhung⟩ := seg_read hitem hread
  have hbuffer : (named h a b i bytes).memory b = some (.buffer bytes) := by
    rw [named, Heap.set_of_ne hne, attached, Heap.set_of_ne hne, Heap.add_self]
  have hhung' : Hung (named h a b i bytes).memory
      { i with string := b, valuestring := 0, type := .string }
      (.node a .string value (some ⟨b, bytes⟩) none []) := by
    refine ⟨rfl, hhung.value, ⟨rfl, ?_, hbuffer⟩, rfl, ?_⟩
    · rintro rfl
      exact pool.ne_zero _ hb
    · have hchild : i.child = 0 := seg_nil hhung.child
      rw [hchild]
      exact .nil
  have hseg := hhung'.seg hnull (Heap.set_self ..)
  rw [hnext] at hseg
  exact hseg

/-! ## The specification of a builder -/

/-- `cJSON_malloc` has returned null between the two. -/
def RanOut (pool : Pool) (h h' : Heap) : Prop :=
  ∃ n, h.used ≤ n ∧ n < h'.used ∧ pool.addr n = none

theorem RanOut.mono (hused : h.used ≤ h₁.used) (hran : RanOut pool h₁ h') : RanOut pool h h' := by
  obtain ⟨n, hlow, hhigh, hnone⟩ := hran
  exact ⟨n, hused.trans hlow, hhigh, hnone⟩

/-- What a call has done to the item at `a`: it has become a tree, and the call agrees with the
parser that returns a value. -/
def Outcome (pool : Pool) (h : Heap) (a : Addr) (name : Option Buffer) (P : α → Linked → Prop)
    (r : Except Fault (α × Bytes)) (out : Except Fault Bytes × Heap) : Prop :=
  ∃ c, c.addr = a ∧ Filled pool h out.2 name c ∧
    Agrees (RanOut pool h out.2) (fun x => P x c) r out.1

/-- The builder of a value, for any item that waits for one. -/
def BuildsValue (pool : Pool) (build : ValueBuilder) (parse : ValueParser) : Prop :=
  ∀ h a type name p, Fresh pool h → Waits h a type ⟨0.0, 0⟩ name →
    Outcome pool h a name (Represents (name.map Buffer.bytes)) (parse p) (build a p h)

/-- The builder of an item or a member, for a new item. -/
def BuildsElement (pool : Pool) (rep : α → Linked → Prop) (element : ValueBuilder)
    (parse : Bytes → Except Fault (α × Bytes)) : Prop :=
  ∀ h a p, Fresh pool h → Waits h a .zero ⟨0.0, 0⟩ none →
    Outcome pool h a none rep (parse p) (element a p h)

section

variable {P : α → Linked → Prop} {r : Except Fault (α × Bytes)} {value : Number}

/-- A call that fails before it has done anything. -/
theorem Outcome.fail (hitem : Waits h a type value name) (f : Fault) :
    Outcome pool h a name P (.error f) (.error f, h) :=
  ⟨_, rfl, Filled.refl pool hitem, .error⟩

/-- A call that finds no memory for its first block. -/
theorem Outcome.exhausted (hitem : Waits h a type value name) (hnone : pool.addr h.used = none) :
    Outcome pool h a name P r (.error .memory, { h with used := h.used + 1 }) :=
  ⟨_, rfl, (Filled.refl pool hitem).exhausted hnone,
    .memory ⟨h.used, le_refl _, Nat.lt_succ_self _, hnone⟩⟩

/-- What was done in front of a call, and has perhaps given the item its name. -/
theorem Outcome.after {name' : Option Buffer} {out : Except Fault Bytes × Heap}
    (hgrows : Grows pool h h₁ a) (hname : blockOf name' = blockOf name ++ newAddrs pool h h₁)
    (hout : Outcome pool h₁ a name' P r out) : Outcome pool h a name P r out := by
  obtain ⟨c, hc, hfill, hagree⟩ := hout
  refine ⟨c, hc, Filled.after hc hgrows hname hfill, ?_⟩
  exact hagree.imp (RanOut.mono hgrows.used) fun _ hx => hx

theorem Outcome.imp {Q : α → Linked → Prop} {out : Except Fault Bytes × Heap}
    (hout : Outcome pool h a name P r out) (hPQ : ∀ x c, P x c → Q x c) :
    Outcome pool h a name Q r out := by
  obtain ⟨c, hc, hfill, hagree⟩ := hout
  exact ⟨c, hc, hfill, hagree.imp id fun x hx => hPQ x c hx⟩

/-- A call and what comes behind it: the tree that stands when the call returns is what a failure
leaves, and only if it has not failed the rest is looked at. -/
theorem Outcome.bind {β : Type} {Q : β → Linked → Prop} {R : α → Prop} {ranOut : Prop}
    {x : Act Bytes} {o : Except Fault Bytes} (hx : x h₁ = (o, h')) (hagree : Agrees ranOut R r o)
    (hran : ranOut → RanOut pool h h') (hc : c.addr = a) (hfill : Filled pool h h' name c)
    {f : α × Bytes → Except Fault (β × Bytes)} {k : Bytes → Act Bytes}
    (hk : ∀ y q, R y → Outcome pool h a name Q (f (y, q)) (k q h')) :
    Outcome pool h a name Q (r >>= f) ((x >>= k) h₁) := by
  cases hagree with
  | @ok y q hy =>
    rw [act_bind_ok hx]
    exact hk y q hy
  | error =>
    rw [act_bind_error hx]
    exact ⟨c, hc, hfill, .error⟩
  | memory h =>
    rw [act_bind_error hx]
    exact ⟨c, hc, hfill, .memory (hran h)⟩

/-- The white space behind a value is skipped without touching the memory. -/
theorem Outcome.skip {x : Act Bytes} (hx : Outcome pool h a name P r (x h)) :
    Outcome pool h a name P (r >>= fun y => skip y.2 >>= fun q => .ok (y.1, q))
      ((x >>= fun q => still (skip q)) h) := by
  obtain ⟨c, hc, hfill, hagree⟩ := hx
  apply Outcome.bind rfl hagree id hc hfill
  intro y q hy
  refine ⟨c, hc, hfill, ?_⟩
  show Agrees _ _ (Json.skip q >>= fun q => .ok (y, q)) (Json.skip q)
  cases Json.skip q with
  | error f => exact .error
  | ok q => exact .ok hy

end

/-! ## Items and members -/

theorem buildItem_builds {build : ValueBuilder} {parse : ValueParser}
    (hbuild : BuildsValue pool build parse) :
    BuildsValue pool (buildItem build) (parseItem parse) := by
  intro h a type name p hfresh hitem
  unfold buildItem parseItem
  cases skip p with
  | error f => exact Outcome.fail hitem f
  | ok q => exact (hbuild h a type name q hfresh hitem).skip

theorem buildItem_element {build : ValueBuilder} {parse : ValueParser}
    (hbuild : BuildsValue pool build parse) :
    BuildsElement pool (Represents none) (buildItem build) (parseItem parse) := by
  intro h a p hfresh hitem
  exact buildItem_builds hbuild h a .zero none p hfresh hitem

theorem buildMember_element {build : ValueBuilder} {parse : ValueParser}
    (hbuild : BuildsValue pool build parse) :
    BuildsElement pool (fun m c => Represents (some (m.1 ++ [0])) m.2 c) (buildMember pool build)
      (parseMember parse) := by
  intro h a p hfresh hitem
  obtain ⟨-, -, i, hread, -⟩ := seg_single hitem
  unfold buildMember parseMember
  cases skip p with
  | error f => exact Outcome.fail hitem f
  | ok q =>
    rw [ok_bind, still_ok_bind]
    rcases buildString_cases hfresh hread q with
      ⟨f, hparse, hrun⟩ | ⟨hnone, hrun⟩ | ⟨out, hout, ⟨f, hparse, hrun⟩ | ⟨s, q₁, hparse, hrun⟩⟩
    · rw [act_bind_error hrun, hparse]
      exact Outcome.fail hitem f
    · rw [act_bind_error hrun]
      exact Outcome.exhausted hitem hnone
    · rw [act_bind_error hrun, hparse]
      exact ⟨_, rfl, attached_filled hfresh hitem hread hout [], .error⟩
    · rw [act_bind_ok hrun, hparse, ok_bind]
      dsimp only
      cases skip q₁ with
      | error f => exact ⟨_, rfl, attached_filled hfresh hitem hread hout (s ++ [0]), .error⟩
      | ok q₂ =>
        -- the string becomes the name
        have hstring : (attached h a out i (s ++ [0])).memory a =
            some (.node { i with valuestring := out, type := .string }) := Heap.set_self ..
        rw [ok_bind, still_ok_bind, act_bind_ok (modifyItem_eq hstring _)]
        have hwaits := named_waits hfresh hitem hread hout (s ++ [0])
        have hgrows := named_grows (a := a) (i := i) hout (s ++ [0])
        have hfresh' : Fresh pool (named h a out i (s ++ [0])) := hfresh.grows hitem.used hgrows
        have hname : blockOf (some (⟨out, s ++ [0]⟩ : Buffer)) =
            blockOf none ++ newAddrs pool h (named h a out i (s ++ [0])) :=
          (newAddrs_some rfl hout).symm
        refine Outcome.after hgrows hname ?_
        cases deref q₂ with
        | error f => exact Outcome.fail hwaits f
        | ok b =>
          rw [ok_bind, still_ok_bind]
          split
          · exact Outcome.fail hwaits _
          · obtain ⟨c, hc, hfill, hagree⟩ :=
              buildItem_builds hbuild _ a _ _ q₂.tail hfresh' hwaits
            exact ⟨c, hc, hfill, hagree.map (f := fun v => (s, v)) id fun v hv => hv⟩

/-! ## The loop over elements -/

section

variable {rep : α → Linked → Prop} {element : ValueBuilder}
  {parse : Bytes → Except Fault (α × Bytes)} {wrap : List α → Tree} {close : UInt8}

/-- The item has become one of that type with these elements as its children. -/
def Elements (a : Addr) (type : Kind) (name : Option Buffer) (rep : α → Linked → Prop)
    (wrap : List α → Tree) (v : Tree) (c : Linked) : Prop :=
  ∃ xs kids, v = wrap xs ∧ c = .node a type ⟨0.0, 0⟩ name none kids ∧ List.Forall₂ rep xs kids

/-- **The loop lemma.** Whatever the loop meets, the chain under construction becomes a chain. -/
theorem buildLoop_elements (hfresh₀ : Fresh pool h₀) (hitem : Waits h₀ a type ⟨0.0, 0⟩ name)
    (helement : BuildsElement pool rep element parse) {n : Nat} {done : List α} {p : Bytes}
    (hopen : Open pool h₀ h a type ⟨0.0, 0⟩ name cs last)
    (hdone : List.Forall₂ rep done (cs ++ [last])) :
    Outcome pool h₀ a name (Elements a type name rep wrap) (elementLoop close wrap parse n done p)
      (buildLoop pool close element n last.addr p h) := by
  induction n generalizing cs last done p h with
  | zero => exact ⟨_, rfl, hopen.filled hitem, .error⟩
  | succ n ih =>
    rw [elementLoop, buildLoop]
    match p with
    | [] => exact ⟨_, rfl, hopen.filled hitem, .error⟩
    | b :: p =>
      show Outcome pool h₀ a name _ (if b = 44 then _ else if b = close then _ else _)
        ((if b = 44 then _ else if b = close then _ else _ : Act Bytes) h)
      split
      -- one item more, if there is memory for it
      · cases hb : pool.addr h.used with
        | none =>
          rw [newItem, act_bind_error (malloc_none hb _)]
          refine ⟨_, rfl, (hopen.filled hitem).exhausted hb, .memory ⟨h.used, ?_, ?_, hb⟩⟩
          · exact hopen.grows.used
          · exact Nat.lt_succ_self _
        | some child =>
          have hfresh : Fresh pool h := hopen.fresh hfresh₀ hitem
          obtain ⟨-, -, j, hlast, -⟩ := seg_single hopen.ends
          have hused : h.memory last.addr ≠ none := hlast.trans_ne (Option.some_ne_none _)
          have hlink := newItem_link hfresh hb hlast (fun new i => { i with next := new })
            (fun new => element new p >>= fun q => buildLoop pool close element n new q)
          refine hlink ▸ ?_
          have hfresh' : Fresh pool (linked h child last.addr (.node { j with next := child })) :=
            hfresh.grows hused (linked_grows hb)
          obtain ⟨c, rfl, hfill, hagree⟩ := helement _ _ p hfresh' (linked_waits hfresh hb hused)
          have hopen' := hopen.push hfresh₀ hitem hlast hb hfill
          show Outcome pool h₀ a name _ (parse p >>= _) ((element _ p >>= _) _)
          apply Outcome.bind rfl hagree (RanOut.mono ?_) rfl (hopen'.filled hitem)
          · intro x q hx
            exact ih hopen' (List.rel_append hdone (List.Forall₂.cons hx .nil))
          · exact hopen.grows.used.trans (linked_grows hb).used
      split
      · exact ⟨_, rfl, hopen.filled hitem, .ok ⟨done, _, rfl, rfl, hdone⟩⟩
      · exact ⟨_, rfl, hopen.filled hitem, .error⟩

theorem buildElements_elements (opening close : UInt8) (wrap : List α → Tree)
    (kind : Kind) (hfresh : Fresh pool h) (hitem : Waits h a type ⟨0.0, 0⟩ name)
    (helement : BuildsElement pool rep element parse) (n : Nat) (p : Bytes) :
    Outcome pool h a name (Elements a kind name rep wrap)
      (parseElements opening close wrap parse n p)
      (buildElements pool opening close kind element n a p h) := by
  obtain ⟨-, -, i, hread, -, hhung⟩ := seg_single hitem
  have htype : modifyItem a (fun i => { i with type := kind }) h =
      (.ok (), h.set a (.node { i with type := kind })) := modifyItem_eq hread _
  have hwaits : Waits (h.set a (.node { i with type := kind })) a kind ⟨0.0, 0⟩ name :=
    hitem.set { i with type := kind } hread rfl rfl rfl rfl hhung.value
  have hgrows := Grows.set pool h a (.node { i with type := kind })
  have hname : blockOf name = blockOf name ++
      newAddrs pool h (h.set a (.node { i with type := kind })) := by
    have hnone : newAddrs pool h (h.set a (.node { i with type := kind })) = [] :=
      newAddrs_self pool h
    rw [hnone, List.append_nil]
  have hfresh₁ := hfresh.grows hitem.used hgrows
  unfold parseElements buildElements
  match p with
  | [] => exact Outcome.fail hitem .overread
  | b :: p =>
    show Outcome pool h a name _ (if b ≠ opening then _ else _)
      ((if b ≠ opening then _ else _ : Act Bytes) h)
    split
    · exact Outcome.fail hitem _
    rw [act_bind_ok htype]
    refine Outcome.after hgrows hname ?_
    generalize h.set a (.node { i with type := kind }) = h₁ at hwaits hfresh₁
    show Outcome pool h₁ a name _ (skip p >>= _) ((still (skip p) >>= _ : Act Bytes) h₁)
    cases skip p with
    | error f => exact Outcome.fail hwaits f
    | ok q =>
      rw [ok_bind, still_ok_bind]
      match q with
      | [] => exact Outcome.fail hwaits .overread
      | d :: q =>
        show Outcome pool h₁ a name _ (if d = close then _ else _)
          ((if d = close then _ else _ : Act Bytes) h₁)
        split
        · exact ⟨_, rfl, Filled.refl pool hwaits, .ok ⟨[], [], rfl, rfl, .nil⟩⟩
        · cases hb : pool.addr h₁.used with
          | none =>
            rw [newItem, act_bind_error (malloc_none hb _)]
            exact Outcome.exhausted hwaits hb
          | some child =>
            obtain ⟨-, -, j, hj, -⟩ := seg_single hwaits
            have hlink := newItem_link hfresh₁ hb hj (fun new i => { i with child := new })
              (fun new => element new (d :: q) >>= fun q => buildLoop pool close element n new q)
            refine hlink ▸ ?_
            have hfresh' : Fresh pool (linked h₁ child a (.node { j with child := child })) :=
              hfresh₁.grows hwaits.used (linked_grows hb)
            obtain ⟨c, rfl, hfill, hagree⟩ :=
              helement _ _ (d :: q) hfresh' (linked_waits hfresh₁ hb hwaits.used)
            have hopen := Open.start hfresh₁ hwaits hj hb hfill
            show Outcome pool h₁ a name _ (parse (d :: q) >>= _) ((element _ (d :: q) >>= _) _)
            apply Outcome.bind rfl hagree (RanOut.mono (linked_grows hb).used) rfl
              (hopen.filled hwaits)
            intro x q hx
            exact buildLoop_elements hfresh₁ hwaits helement hopen (List.Forall₂.cons hx .nil)

end

/-! ## Values -/

/-- The two functions `parse_value`, with the same bound. -/
theorem buildValue_builds (pow : Float → Float → Float) (pool : Pool) (n : Nat) :
    BuildsValue pool (buildValue pow pool n) (parseValue pow n) := by
  induction n with
  | zero => exact fun h a type name p _ hitem => Outcome.fail hitem .fuel
  | succ n ih =>
    intro h a type name p hfresh hitem
    obtain ⟨-, -, i, hread, -, hhung⟩ := seg_single hitem
    have hzeros : i.value = ⟨0.0, 0⟩ := hhung.value
    -- one assignment to the item, and nothing that hangs on it
    have hplain : ∀ (i' : Node) (x : Number) {v : Tree} (q : Bytes), i'.next = i.next →
        i'.child = i.child → i'.valuestring = i.valuestring → i'.string = i.string →
        i'.value = x →
        (∀ {string : Option Buffer}, string.map Buffer.bytes = name.map Buffer.bytes →
          Represents (name.map Buffer.bytes) v (.node a i'.type x string none [])) →
        Outcome pool h a name (Represents (name.map Buffer.bytes)) (.ok (v, q))
          (.ok q, h.set a (.node i')) := by
      intro i' x v q hnext hchild hvaluestring hstring hvalue hv
      have hwaits := hitem.set i' hread hnext hchild hvaluestring hstring hvalue
      have hfill : Filled pool h (h.set a (.node i')) name (.node a i'.type x name none []) :=
        Filled.after_set rfl (Filled.refl pool hwaits)
      exact ⟨_, rfl, hfill, .ok (hv rfl)⟩
    rw [parseValue, buildValue]
    cases startsWith [110, 117, 108, 108] p with
    | error f => exact Outcome.fail hitem f
    | ok b =>
    cases b with
    | true =>
      show Outcome pool h a name _ (.ok (Value.null, p.drop 4)) ((modifyItem a _ >>= _) h)
      rw [act_bind_ok (modifyItem_eq hread _)]
      exact hplain { i with type := Kind.null } ⟨0.0, 0⟩ _ rfl rfl rfl rfl hzeros .literalNull
    | false =>
    rw [ok_bind, still_ok_bind]
    simp only [Bool.false_eq_true, if_false]
    cases startsWith [102, 97, 108, 115, 101] p with
    | error f => exact Outcome.fail hitem f
    | ok b =>
    cases b with
    | true =>
      show Outcome pool h a name _ (.ok (Value.false, p.drop 5)) ((modifyItem a _ >>= _) h)
      rw [act_bind_ok (modifyItem_eq hread _)]
      exact hplain { i with type := Kind.false } ⟨0.0, 0⟩ _ rfl rfl rfl rfl hzeros .literalFalse
    | false =>
    rw [ok_bind, still_ok_bind]
    simp only [Bool.false_eq_true, if_false]
    cases startsWith [116, 114, 117, 101] p with
    | error f => exact Outcome.fail hitem f
    | ok b =>
    cases b with
    | true =>
      show Outcome pool h a name _ (.ok (Value.true, p.drop 4)) ((modifyItem a _ >>= _) h)
      rw [act_bind_ok (modifyItem_eq hread _)]
      exact hplain { i with type := Kind.true, value := { i.value with valueint := 1 } } ⟨0.0, 1⟩ _
        rfl rfl rfl rfl (by rw [hzeros]) .literalTrue
    | false =>
    rw [ok_bind, still_ok_bind]
    simp only [Bool.false_eq_true, if_false]
    match p with
    | [] => exact Outcome.fail hitem .overread
    | b :: p =>
      show Outcome pool h a name _ (if b = 34 then _ else _)
        ((if b = 34 then _ else _ : Act Bytes) h)
      split
      · rcases buildString_cases hfresh hread (b :: p) with ⟨f, hparse, hrun⟩ | ⟨hnone, hrun⟩ |
          ⟨out, hout, ⟨f, hparse, hrun⟩ | ⟨s, q, hparse, hrun⟩⟩
        · rw [hparse, hrun]
          exact Outcome.fail hitem f
        · rw [hrun]
          exact Outcome.exhausted hitem hnone
        · rw [hparse, hrun]
          exact ⟨_, rfl, attached_filled hfresh hitem hread hout [], .error⟩
        · rw [hparse, hrun]
          exact ⟨_, rfl, attached_filled hfresh hitem hread hout (s ++ [0]), .ok (.string rfl)⟩
      split
      · show Outcome pool h a name _ (parseNumber pow (b :: p) >>= _)
          ((still (parseNumber pow (b :: p)) >>= _ : Act Bytes) h)
        cases parseNumber pow (b :: p) with
        | error f => exact Outcome.fail hitem f
        | ok x =>
          obtain ⟨x, q⟩ := x
          rw [ok_bind, still_ok_bind]
          show Outcome pool h a name _ (.ok (Value.number x, q)) ((modifyItem a _ >>= _) h)
          rw [act_bind_ok (modifyItem_eq hread _)]
          exact hplain { i with value := x, type := Kind.number } x q rfl rfl rfl rfl rfl .number
      split
      · refine (buildElements_elements 91 93 Value.array .array hfresh hitem
          (buildItem_element ih) n (b :: p)).imp ?_
        rintro v c ⟨xs, kids, rfl, rfl, hxs⟩
        exact .array rfl hxs
      split
      · refine (buildElements_elements 123 125 Value.object .object hfresh hitem
          (buildMember_element ih) n (b :: p)).imp ?_
        rintro v c ⟨xs, kids, rfl, rfl, hxs⟩
        exact .object rfl hxs
      · exact Outcome.fail hitem _

/-! ## Whole texts -/

theorem buildRoot_outcome {root : Addr} (pow : Float → Float → Float) (hfresh : Fresh pool h)
    (hroot : Waits h root .zero ⟨0.0, 0⟩ none) (value : Bytes) (requireNullTerminated : Bool) :
    Outcome pool h root none (Represents none) (parseWithOpts pow value requireNullTerminated)
      (buildRoot pow pool value requireNullTerminated root h) := by
  unfold parseWithOpts buildRoot
  cases skip value with
  | error f => exact Outcome.fail hroot f
  | ok start =>
    rw [ok_bind, still_ok_bind]
    obtain ⟨c, hc, hfill, hagree⟩ :=
      buildValue_builds pow pool (value.length + 1) h root .zero none start hfresh hroot
    apply Outcome.bind rfl hagree id hc hfill
    intro v stop hv
    refine ⟨c, hc, ?_⟩
    generalize (buildValue pow pool (value.length + 1) root start h).2 = h' at hfill ⊢
    cases requireNullTerminated with
    | false => exact ⟨hfill, .ok hv⟩
    | true =>
      show Filled pool h ((still (skip stop) >>= _ : Act Bytes) h').2 _ c ∧
        Agrees _ _ (skip stop >>= _) ((still (skip stop) >>= _ : Act Bytes) h').1
      cases skip stop with
      | error f => exact ⟨hfill, .error⟩
      | ok stop =>
        rw [ok_bind, still_ok_bind]
        match stop with
        | [] => exact ⟨hfill, .error⟩
        | b :: s =>
          show Filled pool h ((if b ≠ 0 then _ else _ : Act Bytes) h').2 _ c ∧
            Agrees _ _ (if b ≠ 0 then _ else _) ((if b ≠ 0 then _ else _ : Act Bytes) h').1
          split
          · exact ⟨hfill, .error⟩
          · exact ⟨hfill, .ok hv⟩

/-- A tree of new blocks: it stands in the memory, all of them are in it, and nothing else has been
written. -/
structure BuiltTree (pool : Pool) (h h' : Heap) (c : Linked) : Prop where
  stands : Seg h'.memory c.addr [c] 0
  blocks : blocksOfItem c = newAddrs pool h h'
  frame : ∀ p, p ∉ newAddrs pool h h' → h'.memory p = h.memory p

/-- Deleting a tree of new blocks gives the memory back as it was. -/
theorem BuiltTree.delete (hbuilt : BuiltTree pool h h' c) (hfresh : Fresh pool h) {n : Nat}
    (hn : h'.used < n) : delete n c.addr h'.memory = some h.memory := by
  have hlen : (blocksOf [c]).length < n := by
    have hle := List.length_filterMap_le pool.addr (List.range' h.used (h'.used - h.used))
    rw [List.length_range'] at hle
    rw [blocksOf_singleton, hbuilt.blocks, newAddrs]
    omega
  have hnodup : (blocksOf [c]).Nodup := by
    rw [blocksOf_singleton, hbuilt.blocks]
    exact nodup_newAddrs pool h h'
  rw [delete_seg hbuilt.stands hnodup (fun _ _ => rfl) hlen, blocksOf_singleton, hbuilt.blocks]
  congr 1
  funext p
  by_cases hp : p ∈ newAddrs pool h h'
  · obtain ⟨m, hlow, -, hm⟩ := mem_newAddrs.mp hp
    rw [without, if_pos hp, hfresh m p hlow hm]
  · rw [without_of_not_mem hp, hbuilt.frame p hp]

/-- The root and what has been built below it, whether the call succeeds or not. -/
theorem buildRoot_built (pow : Float → Float → Float) (hfresh : Fresh pool h)
    (hb : pool.addr h.used = some b) (value : Bytes) (requireNullTerminated : Bool) :
    ∃ c h' o, c.addr = b ∧ BuiltTree pool h h' c ∧
      buildRoot pow pool value requireNullTerminated b (h.add b (.node Node.zeros)) = (o, h') ∧
        Agrees (RanOut pool h h') (fun v => Represents none v c)
          (parseWithOpts pow value requireNullTerminated) o := by
  let h₁ := h.add b (.node Node.zeros)
  have hgrows : Grows pool h h₁ b := Grows.add hb _ b
  have hnew : newAddrs pool h h₁ = [b] := newAddrs_some rfl hb
  have hroot : Waits h₁ b .zero ⟨0.0, 0⟩ none := waits_zeros hb (Heap.add_self ..)
  have hfresh₁ : Fresh pool h₁ := by
    intro n p hn hp
    have hlow : h.used + 1 ≤ n := hn
    have hne : p ≠ b := by
      rintro rfl
      have hsame := pool.injective hb hp
      omega
    rw [Heap.add_of_ne hne]
    exact hfresh n p (Nat.le_of_succ_le hlow) hp
  obtain ⟨c, hc, hfill, hagree⟩ := buildRoot_outcome pow hfresh₁ hroot value requireNullTerminated
  generalize hrun : buildRoot pow pool value requireNullTerminated b h₁ = out at hfill hagree
  obtain ⟨o, h'⟩ := out
  subst hc
  have happend : newAddrs pool h h₁ ++ newAddrs pool h₁ h' = newAddrs pool h h' :=
    newAddrs_append hgrows.used hfill.grows.used
  refine ⟨c, h', o, rfl, ⟨hfill.stands, ?_, fun p hp => ?_⟩, rfl, ?_⟩
  · rw [blocksOfItem_eq, hfill.blocks, ← happend, hnew]
    rfl
  · rw [← happend, hnew, List.mem_append, List.mem_singleton, not_or] at hp
    rw [hfill.grows.frame p hp.1 hp.2, Heap.add_of_ne hp.1]
  · exact hagree.imp (RanOut.mono hgrows.used) fun _ hv => hv

/-- What `finish` makes of a failure. -/
theorem finish_deleted (hbuilt : BuiltTree pool h h' c) (hfresh : Fresh pool h) (e : Fault) :
    finish.deleted c.addr e h' = (.error e, { h' with memory := h.memory }) := by
  rw [finish.deleted, hbuilt.delete hfresh (Nat.lt_succ_self _)]

/-- **Parsing and deleting.** A terminated text that does not end in a backslash is either built as
the tree of its value, which `cJSON_Delete` takes down again to the memory of before, or it is
rejected, or a call of `cJSON_malloc` has returned null; then the memory is as before at once. -/
theorem build_and_delete (pow : Float → Float → Float) (pool : Pool) (h : Heap)
    (hfresh : Fresh pool h) (s : Bytes) (hnul : (0 : UInt8) ∉ s) (hlast : s.getLast? ≠ some 92)
    (requireNullTerminated : Bool) :
    ∃ r h', buildWithOpts pow pool (s ++ [0]) requireNullTerminated h = (r, h') ∧
      ((∃ c v stop, r = .ok (c.addr, stop) ∧
          parseWithOpts pow (s ++ [0]) requireNullTerminated = .ok (v, stop) ∧
          Represents none v c ∧ Seg h'.memory c.addr [c] 0 ∧
          delete (h'.used + 1) c.addr h'.memory = some h.memory) ∨
        (∃ ep, r = .error (.invalid ep) ∧
          parseWithOpts pow (s ++ [0]) requireNullTerminated = .error (.invalid ep) ∧
          h'.memory = h.memory) ∨
        (r = .error .memory ∧ RanOut pool h h' ∧ h'.memory = h.memory)) := by
  unfold buildWithOpts
  cases hb : pool.addr h.used with
  | none =>
    rw [newItem, malloc_none hb]
    refine ⟨_, _, rfl, Or.inr (Or.inr ⟨rfl, ?_, rfl⟩)⟩
    exact ⟨h.used, le_refl _, Nat.lt_succ_self _, hb⟩
  | some root =>
    obtain ⟨c, h', o, rfl, hbuilt, hrun, hagree⟩ :=
      buildRoot_built pow hfresh hb (s ++ [0]) requireNullTerminated
    rw [newItem, malloc_some hb]
    dsimp only
    rw [hrun]
    cases hparse : parseWithOpts pow (s ++ [0]) requireNullTerminated with
    | ok x =>
      obtain ⟨v, stop⟩ := x
      rw [hparse] at hagree
      cases hagree with
      | ok hv =>
        refine ⟨_, _, rfl, Or.inl ⟨c, v, stop, rfl, rfl, hv, hbuilt.stands, ?_⟩⟩
        exact hbuilt.delete hfresh (Nat.lt_succ_self _)
      | memory hran =>
        exact ⟨_, _, finish_deleted hbuilt hfresh .memory, Or.inr (Or.inr ⟨rfl, hran, rfl⟩)⟩
    | error f =>
      rw [hparse] at hagree
      cases hagree with
      | error =>
        -- of the faults, such a text meets only a rejection
        have htext : Proper [] (s ++ [0]) := ⟨s, rfl, hnul, hlast⟩
        have hends := parseWithOpts_ends pow [] (s ++ [0]) requireNullTerminated
        rw [hparse] at hends
        cases hends with
        | @invalid ep _ _ =>
          refine ⟨_, _, finish_deleted hbuilt hfresh (.invalid ep), Or.inr (Or.inl ?_)⟩
          exact ⟨ep, rfl, rfl, rfl⟩
        | overread h => exact absurd htext h
      | memory hran =>
        exact ⟨_, _, finish_deleted hbuilt hfresh .memory, Or.inr (Or.inr ⟨rfl, hran, rfl⟩)⟩

/-- Addresses in steps of 56, the size of an item. -/
def steps : Pool where
  addr n := some (56 * (n + 1))
  injective := by
    intro m n a hm hn
    have hsame : 56 * (m + 1) = 56 * (n + 1) :=
      (Option.some.inj hm).trans (Option.some.inj hn).symm
    omega
  ne_zero n h := Nat.mul_ne_zero (by decide) (Nat.succ_ne_zero n) (Option.some.inj h)

/-- An array that breaks off behind a string and an object. -/
theorem build_and_delete_broken :
    ∃ r h', buildWithOpts firstPowers steps (ascii ['[', '\"', 'a', '\"', ',', '{', '}'] ++ [0])
        true ⟨fun _ => none, 0⟩ = (r, h') ∧
      ((∃ c v stop, r = .ok (c.addr, stop) ∧
          parseWithOpts firstPowers (ascii ['[', '\"', 'a', '\"', ',', '{', '}'] ++ [0]) true =
            .ok (v, stop) ∧
          Represents none v c ∧ Seg h'.memory c.addr [c] 0 ∧
          delete (h'.used + 1) c.addr h'.memory = some fun _ => none) ∨
        (∃ ep, r = .error (.invalid ep) ∧
          parseWithOpts firstPowers (ascii ['[', '\"', 'a', '\"', ',', '{', '}'] ++ [0]) true =
            .error (.invalid ep) ∧
          h'.memory = fun _ => none) ∨
        (r = .error .memory ∧ RanOut steps ⟨fun _ => none, 0⟩ h' ∧ h'.memory = fun _ => none)) :=
  build_and_delete firstPowers steps ⟨fun _ => none, 0⟩ (fun _ _ _ _ => rfl) _ (by decide)
    (by decide) true

/-- Four blocks have been allocated for it. -/
example : (buildWithOpts firstPowers steps (ascii ['[', '\"', 'a', '\"', ',', '{', '}'] ++ [0])
    true ⟨fun _ => none, 0⟩).2.used = 4 := by
  rfl

end EmWinDemo.Json
