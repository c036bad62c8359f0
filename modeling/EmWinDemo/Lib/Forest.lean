/-
# EmWinDemo.Lib.Forest -- a forest of nodes named by handles

The state of a window manager without the pixels: live nodes with a parent, a flag that says
whether a node is shown, and a value.  Handles are positive numbers handed out in order and never
reused; 0 names no node, and as a parent it stands for the root of the forest.  A parent is older
than its children and lives as long as they do: both facts are fields of `Forest`.

`Tracks` is the link to the program that keeps handles in variables: the variable is zero when no
node of a kind is alive, and else the handle of the only one.  Each operation has one lemma for it.
-/
import Mathlib.Logic.Basic
import Mathlib.Tactic.Common
import Mathlib.Order.Nat

namespace EmWinDemo.Lib

structure Node (α : Type*) where
  parent : Nat
  shown : Bool
  val : α
  deriving Repr, DecidableEq

structure Forest (α : Type*) where
  node : Nat → Option (Node α)
  next : Nat
  next_pos : 0 < next
  zero : node 0 = none
  fresh : ∀ h, next ≤ h → node h = none
  parent_lt : ∀ h n, node h = some n → n.parent < h
  parent_live : ∀ h n, node h = some n → n.parent = 0 ∨ (node n.parent).isSome

variable {α : Type*}

namespace Forest

def empty : Forest α where
  node _ := none
  next := 1
  next_pos := Nat.one_pos
  zero := rfl
  fresh _ _ := rfl
  parent_lt _ _ h := by cases h
  parent_live _ _ h := by cases h

theorem lt_next {f : Forest α} {h : Nat} {n : Node α} (hn : f.node h = some n) : h < f.next := by
  by_contra hge
  rw [f.fresh h (not_lt.mp hge)] at hn
  cases hn

theorem ne_zero {f : Forest α} {h : Nat} {n : Node α} (hn : f.node h = some n) : h ≠ 0 := by
  rintro rfl
  rw [f.zero] at hn
  cases hn

/-! ## Ancestors -/

/-- Whether `k` is `h` or a descendant of it, looking at most `fuel` generations up. -/
def belowFrom (f : Forest α) (h : Nat) : Nat → Nat → Bool
  | 0, k => k == h
  | fuel + 1, k => k == h || match f.node k with
    | some n => f.belowFrom h fuel n.parent
    | none => false

/-- Whether `k` is `h` or a descendant of it; no node has more ancestors than its handle says. -/
def below (f : Forest α) (h k : Nat) : Bool := f.belowFrom h k k

/-- Whether `k` and all its ancestors are shown, looking at most `fuel` generations up. -/
def visibleFrom (f : Forest α) : Nat → Nat → Bool
  | 0, _ => false
  | fuel + 1, k => match f.node k with
    | some n => n.shown && (n.parent == 0 || f.visibleFrom fuel n.parent)
    | none => false

def visible (f : Forest α) (k : Nat) : Bool := f.visibleFrom k k

/-- More fuel than the handle changes nothing. -/
theorem belowFrom_eq (f : Forest α) (h : Nat) {k fuel : Nat} (hk : k ≤ fuel) :
    f.belowFrom h fuel k = f.below h k := by
  induction k using Nat.strong_induction_on generalizing fuel with
  | _ k ih =>
    unfold below
    cases hn : f.node k with
    | none =>
      cases fuel <;> cases k <;> simp [belowFrom, hn]
    | some n =>
      have hlt := f.parent_lt k n hn
      obtain ⟨fuel, rfl⟩ : ∃ m, fuel = m + 1 := ⟨fuel - 1, by omega⟩
      obtain ⟨j, rfl⟩ : ∃ m, k = m + 1 := ⟨k - 1, by omega⟩
      simp only [belowFrom, hn]
      have hp : n.parent ≤ j := Nat.lt_succ_iff.mp hlt
      have hpf : n.parent ≤ fuel := le_trans hp (Nat.le_of_succ_le_succ hk)
      rw [ih n.parent hlt hpf, ih n.parent hlt hp]

/-- A node is below what its parent is below, and below itself. -/
theorem below_of_node {f : Forest α} {h k : Nat} {n : Node α} (hn : f.node k = some n) :
    f.below h k = (k == h || f.below h n.parent) := by
  have hlt := f.parent_lt k n hn
  obtain ⟨j, rfl⟩ : ∃ m, k = m + 1 := ⟨k - 1, by omega⟩
  unfold below
  simp only [belowFrom, hn]
  rw [belowFrom_eq f h (Nat.lt_succ_iff.mp hlt)]
  rfl

theorem below_zero {f : Forest α} {h : Nat} (hh : h ≠ 0) : f.below h 0 = false := by
  simpa [below, belowFrom] using hh.symm

theorem visibleFrom_eq (f : Forest α) {k fuel : Nat} (hk : k ≤ fuel) :
    f.visibleFrom fuel k = f.visible k := by
  induction k using Nat.strong_induction_on generalizing fuel with
  | _ k ih =>
    unfold visible
    cases hn : f.node k with
    | none => cases fuel <;> cases k <;> simp [visibleFrom, hn]
    | some n =>
      have hlt := f.parent_lt k n hn
      obtain ⟨fuel, rfl⟩ : ∃ m, fuel = m + 1 := ⟨fuel - 1, by omega⟩
      obtain ⟨j, rfl⟩ : ∃ m, k = m + 1 := ⟨k - 1, by omega⟩
      simp only [visibleFrom, hn]
      have hp : n.parent ≤ j := Nat.lt_succ_iff.mp hlt
      have hpf : n.parent ≤ fuel := le_trans hp (Nat.le_of_succ_le_succ hk)
      rw [ih n.parent hlt hpf, ih n.parent hlt hp]

/-- A node is visible when it is shown and its parent is visible or the root. -/
theorem visible_of_node {f : Forest α} {k : Nat} {n : Node α} (hn : f.node k = some n) :
    f.visible k = (n.shown && (n.parent == 0 || f.visible n.parent)) := by
  have hlt := f.parent_lt k n hn
  obtain ⟨j, rfl⟩ : ∃ m, k = m + 1 := ⟨k - 1, by omega⟩
  unfold visible
  simp only [visibleFrom, hn]
  rw [visibleFrom_eq f (Nat.lt_succ_iff.mp hlt)]
  rfl

theorem exists_node_of_visible {f : Forest α} {k : Nat} (h : f.visible k = true) :
    ∃ n, f.node k = some n := by
  cases hn : f.node k with
  | some n => exact ⟨n, rfl⟩
  | none =>
    unfold visible at h
    cases k <;> simp [visibleFrom, hn] at h

/-- Whether the node `h` itself is shown. -/
def shownAt (f : Forest α) (h : Nat) : Bool := match f.node h with
  | some n => n.shown
  | none => false

theorem shownAt_zero (f : Forest α) : f.shownAt 0 = false := by
  simp [shownAt, f.zero]

theorem shownAt_of_visible {f : Forest α} {k : Nat} (h : f.visible k = true) :
    f.shownAt k = true := by
  obtain ⟨n, hn⟩ := exists_node_of_visible h
  rw [visible_of_node hn, Bool.and_eq_true] at h
  simpa [shownAt, hn] using h.1

/-- The parent of a visible node is the root or visible. -/
theorem visible_parent {f : Forest α} {k : Nat} {n : Node α} (hn : f.node k = some n)
    (h : f.visible k = true) (hp : n.parent ≠ 0) : f.visible n.parent = true := by
  rw [visible_of_node hn, Bool.and_eq_true, Bool.or_eq_true] at h
  rcases h.2 with h0 | hv
  · exact absurd (by simpa using h0) hp
  · exact hv

/-! ## Operations -/

/-- The parent a new node gets: a dead handle stands for the root. -/
def parentFor (f : Forest α) (parent : Nat) : Nat := if (f.node parent).isSome then parent else 0

theorem parentFor_lt (f : Forest α) (parent : Nat) : f.parentFor parent < f.next := by
  unfold parentFor
  split
  · next h =>
    obtain ⟨n, hn⟩ := Option.isSome_iff_exists.mp h
    exact lt_next hn
  · exact f.next_pos

theorem parentFor_of_live {f : Forest α} {parent : Nat} {n : Node α}
    (h : f.node parent = some n) : f.parentFor parent = parent := by
  simp [parentFor, h]

theorem parentFor_zero (f : Forest α) : f.parentFor 0 = 0 := by
  simp [parentFor, f.zero]

/-- A new node; its handle is `f.next`. -/
def create (f : Forest α) (parent : Nat) (shown : Bool) (val : α) : Forest α where
  node k := if k = f.next then some ⟨f.parentFor parent, shown, val⟩ else f.node k
  next := f.next + 1
  next_pos := Nat.succ_pos _
  zero := by
    rw [if_neg (Nat.ne_of_lt f.next_pos), f.zero]
  fresh h hh := by
    rw [if_neg (by omega), f.fresh h (by omega)]
  parent_lt h n hn := by
    split at hn
    · next heq =>
      obtain rfl := Option.some.inj hn
      rw [heq]
      exact f.parentFor_lt parent
    · exact f.parent_lt h n hn
  parent_live h n hn := by
    split at hn
    · obtain rfl := Option.some.inj hn
      unfold parentFor
      by_cases hlive : (f.node parent).isSome
      · right
        obtain ⟨m, hm⟩ := Option.isSome_iff_exists.mp hlive
        have hne : parent ≠ f.next := (lt_next hm).ne
        show (if (if (f.node parent).isSome then parent else 0) = f.next then _
          else f.node (if (f.node parent).isSome then parent else 0)).isSome
        rw [if_pos hlive, if_neg hne]
        exact hlive
      · left
        show (if (f.node parent).isSome then parent else 0) = 0
        rw [if_neg hlive]
    · rcases f.parent_live h n hn with h0 | hlive
      · exact Or.inl h0
      · right
        obtain ⟨m, hm⟩ := Option.isSome_iff_exists.mp hlive
        rw [if_neg (lt_next hm).ne]
        exact hlive

/-- The node `h` and all its descendants are gone. -/
def delete (f : Forest α) (h : Nat) : Forest α where
  node k := if (f.node h).isSome && f.below h k then none else f.node k
  next := f.next
  next_pos := f.next_pos
  zero := by rw [f.zero, ite_self]
  fresh k hk := by rw [f.fresh k hk, ite_self]
  parent_lt k n hn := by
    split at hn
    · cases hn
    · exact f.parent_lt k n hn
  parent_live k n hn := by
    split at hn
    · cases hn
    · next hk =>
      rcases f.parent_live k n hn with h0 | hlive
      · exact Or.inl h0
      · right
        rw [below_of_node hn] at hk
        rw [if_neg]
        · exact hlive
        · intro hp
          simp only [Bool.and_eq_true] at hp
          apply hk
          simp [hp.1, hp.2]

/-- Show or hide one node. -/
def setShown (f : Forest α) (h : Nat) (b : Bool) : Forest α where
  node k := if k = h then (f.node k).map fun n => { n with shown := b } else f.node k
  next := f.next
  next_pos := f.next_pos
  zero := by simp [f.zero]
  fresh k hk := by simp [f.fresh k hk]
  parent_lt k n hn := by
    split at hn
    · obtain ⟨m, hm, rfl⟩ := Option.map_eq_some_iff.mp hn
      exact f.parent_lt k m hm
    · exact f.parent_lt k n hn
  parent_live k n hn := by
    have hold : ∃ m, f.node k = some m ∧ m.parent = n.parent := by
      split at hn
      · obtain ⟨m, hm, rfl⟩ := Option.map_eq_some_iff.mp hn
        exact ⟨m, hm, rfl⟩
      · exact ⟨n, hn, rfl⟩
    obtain ⟨m, hm, hp⟩ := hold
    rw [← hp]
    rcases f.parent_live k m hm with h0 | hlive
    · exact Or.inl h0
    · right
      split
      · simpa using hlive
      · exact hlive

/-! ## What the operations do to a node -/

theorem node_create_self (f : Forest α) (p : Nat) (b : Bool) (v : α) :
    (f.create p b v).node f.next = some ⟨f.parentFor p, b, v⟩ := if_pos rfl

theorem node_create_old {f : Forest α} {k : Nat} {n : Node α} (hn : f.node k = some n) (p : Nat)
    (b : Bool) (v : α) : (f.create p b v).node k = some n := by
  show (if k = f.next then _ else f.node k) = _
  rw [if_neg (lt_next hn).ne, hn]

/-- A node of the forest after a creation is the new one or an old one. -/
theorem node_create {f : Forest α} {p : Nat} {b : Bool} {v : α} {k : Nat} {n : Node α}
    (hn : (f.create p b v).node k = some n) :
    (k = f.next ∧ n = ⟨f.parentFor p, b, v⟩) ∨ f.node k = some n := by
  have hn' : (if k = f.next then some ⟨f.parentFor p, b, v⟩ else f.node k) = some n := hn
  split at hn'
  · next heq => exact Or.inl ⟨heq, (Option.some.inj hn').symm⟩
  · exact Or.inr hn'

/-- A node of the forest after a deletion is an old one outside the deleted tree. -/
theorem node_delete {f : Forest α} {h k : Nat} {n : Node α}
    (hn : (f.delete h).node k = some n) :
    f.node k = some n ∧ ((f.node h).isSome → f.below h k = false) := by
  have hn' : (if (f.node h).isSome && f.below h k then none else f.node k) = some n := hn
  split at hn'
  · cases hn'
  · next hk =>
    refine ⟨hn', fun hlive => ?_⟩
    simpa [hlive] using hk

theorem node_delete_of_not_below {f : Forest α} {h k : Nat} (hk : f.below h k = false) :
    (f.delete h).node k = f.node k := by
  show (if _ then _ else _) = _
  rw [if_neg]
  simp [hk]

/-- Showing or hiding changes no parent and no value. -/
theorem node_setShown {f : Forest α} {h k : Nat} {b : Bool} {n : Node α}
    (hn : (f.setShown h b).node k = some n) :
    ∃ m, f.node k = some m ∧ n.parent = m.parent ∧ n.val = m.val := by
  have hn' : (if k = h then (f.node k).map fun n => { n with shown := b }
      else f.node k) = some n := hn
  split at hn'
  · obtain ⟨m, hm, rfl⟩ := Option.map_eq_some_iff.mp hn'
    exact ⟨m, hm, rfl, rfl⟩
  · exact ⟨n, hn', rfl, rfl⟩

theorem node_setShown_live {f : Forest α} {k : Nat} {n : Node α} (hn : f.node k = some n)
    (h : Nat) (b : Bool) :
    ∃ m, (f.setShown h b).node k = some m ∧ m.parent = n.parent ∧ m.val = n.val := by
  show ∃ m, (if k = h then (f.node k).map _ else f.node k) = some m ∧ _
  rw [hn]
  split
  · exact ⟨_, rfl, rfl, rfl⟩
  · exact ⟨n, rfl, rfl, rfl⟩

/-! ## Which nodes are shown -/

theorem shownAt_create {f : Forest α} {k : Nat} (hk : k ≠ f.next) (p : Nat) (b : Bool) (v : α) :
    (f.create p b v).shownAt k = f.shownAt k := by
  unfold shownAt
  rw [show (f.create p b v).node k = f.node k from if_neg hk]

theorem shownAt_create_self (f : Forest α) (p : Nat) (b : Bool) (v : α) :
    (f.create p b v).shownAt f.next = b := by
  unfold shownAt
  rw [node_create_self]

theorem shownAt_delete {f : Forest α} {h k : Nat} (hk : f.below h k = false) :
    (f.delete h).shownAt k = f.shownAt k := by
  unfold shownAt
  rw [node_delete_of_not_below hk]

theorem shownAt_setShown_self {f : Forest α} {h : Nat} {n : Node α} (hn : f.node h = some n)
    (b : Bool) : (f.setShown h b).shownAt h = b := by
  have hself : (f.setShown h b).node h = some { n with shown := b } := by
    show (if h = h then (f.node h).map _ else f.node h) = _
    rw [if_pos rfl, hn]
    rfl
  unfold shownAt
  rw [hself]

theorem shownAt_setShown_of_ne {f : Forest α} {h k : Nat} (hk : k ≠ h) (b : Bool) :
    (f.setShown h b).shownAt k = f.shownAt k := by
  unfold shownAt
  rw [show (f.setShown h b).node k = f.node k from if_neg hk]

/-- One of two nodes is hidden, then the other is shown. -/
theorem shownAt_swap {f : Forest α} {h g : Nat} {m n : Node α} (hh : f.node h = some m)
    (hg : f.node g = some n) (hne : h ≠ g) :
    ((f.setShown h false).setShown g true).shownAt h = false ∧
      ((f.setShown h false).setShown g true).shownAt g = true := by
  constructor
  · rw [shownAt_setShown_of_ne hne, shownAt_setShown_self hh]
  · obtain ⟨k, hk, -⟩ := node_setShown_live hg h false
    exact shownAt_setShown_self hk true

end Forest

open Forest

/-! ## Handles kept in variables -/

/-- `h` is the handle of the only node whose value satisfies `P`, a child of `p`, and zero when
there is no such node. -/
structure Tracks (f : Forest α) (P : α → Prop) (p h : Nat) : Prop where
  only : ∀ k n, f.node k = some n → P n.val → k = h
  live : h ≠ 0 → ∃ n, f.node h = some n ∧ P n.val ∧ n.parent = p

variable {f : Forest α} {P : α → Prop} {p h : Nat}

theorem tracks_empty (P : α → Prop) (p : Nat) : Tracks (Forest.empty (α := α)) P p 0 where
  only _ _ hn := by cases hn
  live hne := absurd rfl hne

/-- The variable is non-zero exactly while a node of the kind is alive. -/
theorem Tracks.ne_zero_iff (ht : Tracks f P p h) :
    h ≠ 0 ↔ ∃ k n, f.node k = some n ∧ P n.val := by
  constructor
  · intro hne
    obtain ⟨n, hn, hP, -⟩ := ht.live hne
    exact ⟨h, n, hn, hP⟩
  · rintro ⟨k, n, hn, hP⟩
    rw [← ht.only k n hn hP]
    exact ne_zero hn

theorem Tracks.lt_next (ht : Tracks f P p h) : h < f.next := by
  by_cases hne : h = 0
  · rw [hne]
    exact f.next_pos
  · obtain ⟨n, hn, -⟩ := ht.live hne
    exact Forest.lt_next hn

/-- A node of another kind appears. -/
theorem Tracks.create_other (ht : Tracks f P p h) {q : Nat} {b : Bool} {v : α} (hv : ¬P v) :
    Tracks (f.create q b v) P p h where
  only k n hn hP := by
    rcases node_create hn with ⟨-, rfl⟩ | hold
    · exact absurd hP hv
    · exact ht.only k n hold hP
  live hne := by
    obtain ⟨n, hn, hrest⟩ := ht.live hne
    exact ⟨n, node_create_old hn q b v, hrest⟩

/-- The first node of the kind appears, and the variable takes its handle. -/
theorem Tracks.create_self (ht : Tracks f P p 0) {q : Nat} {b : Bool} {v : α} (hv : P v)
    (hq : f.parentFor q = p) : Tracks (f.create q b v) P p f.next where
  only k n hn hP := by
    rcases node_create hn with ⟨rfl, -⟩ | hold
    · rfl
    · exact absurd (ht.only k n hold hP) (ne_zero hold)
  live _ := ⟨_, node_create_self f q b v, hv, hq⟩

/-- A tree goes that does not contain the node. -/
theorem Tracks.delete_other (ht : Tracks f P p h) {g : Nat} (hg : h ≠ 0 → f.below g h = false) :
    Tracks (f.delete g) P p h where
  only k n hn hP := ht.only k n (node_delete hn).1 hP
  live hne := by
    obtain ⟨n, hn, hrest⟩ := ht.live hne
    exact ⟨n, by rw [node_delete_of_not_below (hg hne), hn], hrest⟩

/-- The node itself goes, and the variable is cleared. -/
theorem Tracks.delete_self (ht : Tracks f P p h) : Tracks (f.delete h) P p 0 where
  only k n hn hP := by
    obtain ⟨hold, hout⟩ := node_delete hn
    obtain rfl := ht.only k n hold hP
    have hself := hout (by rw [hold]; rfl)
    rw [below_of_node hold] at hself
    simp at hself
  live hne := absurd rfl hne

/-- Showing or hiding any node. -/
theorem Tracks.setShown (ht : Tracks f P p h) (g : Nat) (b : Bool) :
    Tracks (f.setShown g b) P p h where
  only k n hn hP := by
    obtain ⟨m, hm, -, hval⟩ := node_setShown hn
    exact ht.only k m hm (hval ▸ hP)
  live hne := by
    obtain ⟨n, hn, hP, hp⟩ := ht.live hne
    obtain ⟨m, hm, hparent, hval⟩ := node_setShown_live hn g b
    exact ⟨m, hm, hval ▸ hP, hparent.trans hp⟩

/-! ## Relations between parents and children -/

/-- Each node and its parent are related. -/
def Children (f : Forest α) (R : α → α → Prop) : Prop :=
  ∀ k n m, f.node k = some n → f.node n.parent = some m → R m.val n.val

variable {R : α → α → Prop}

theorem Children.create (hc : Children f R) {q : Nat} {b : Bool} {v : α}
    (hv : ∀ m, f.node q = some m → R m.val v) : Children (f.create q b v) R := by
  intro k n m hn hm
  have hold : ∀ j x, j < f.next → (f.create q b v).node j = some x → f.node j = some x := by
    intro j x hj hx
    rcases node_create hx with ⟨rfl, -⟩ | hx
    · exact absurd hj (lt_irrefl _)
    · exact hx
  rcases node_create hn with ⟨-, rfl⟩ | hn
  · have hm' := hold _ _ (f.parentFor_lt q) hm
    apply hv m
    dsimp only [parentFor] at hm'
    split at hm'
    · exact hm'
    · rw [f.zero] at hm'
      cases hm'
  · have hlt := lt_trans (f.parent_lt k n hn) (Forest.lt_next hn)
    exact hc k n m hn (hold _ _ hlt hm)

theorem Children.delete (hc : Children f R) (g : Nat) : Children (f.delete g) R :=
  fun k n m hn hm => hc k n m (node_delete hn).1 (node_delete hm).1

theorem Children.setShown (hc : Children f R) (g : Nat) (b : Bool) :
    Children (f.setShown g b) R := by
  intro k n m hn hm
  obtain ⟨n', hn', hp, hval⟩ := node_setShown hn
  obtain ⟨m', hm', -, hval'⟩ := node_setShown hm
  rw [hp] at hm'
  rw [hval, hval']
  exact hc k n' m' hn' hm'

end EmWinDemo.Lib
