/-
# EmWinDemo.Lib.Ring -- circular buffers of blocks

A ring of `n` slots with a read mark `r`, the slot last read, holds `count` items in the slots
behind the mark: `contents` lists them, oldest first.  Three operations change the list at its
ends: `contents_push` fills the slot behind the last item, `contents_unpop` the slot of the mark
itself and moves the mark back, and `contents_pop` moves the mark forward.

The slots are values of any type.  `block` is the case of slots that are equal parts of one byte
string, and `block_splice` says that overwriting one part is the update of one slot.
-/
import Mathlib.Data.List.Basic
import Mathlib.Data.Nat.ModEq
import Mathlib.Logic.Function.Basic

namespace EmWinDemo.Lib.Ring

variable {α : Type*} {n r count : Nat} {slots : Nat → α}

/-! ## Slots -/

/-- The slot behind `i`. -/
def next (n i : Nat) : Nat := (i + 1) % n

/-- The slot before `i`. -/
def prev (n i : Nat) : Nat := (i + (n - 1)) % n

/-- The slot of the `k`th item behind the mark. -/
def slot (n r k : Nat) : Nat := (r + 1 + k) % n

theorem next_lt (hr : r < n) : next n r < n := Nat.mod_lt _ (Nat.zero_lt_of_lt hr)

theorem prev_lt (hr : r < n) : prev n r < n := Nat.mod_lt _ (Nat.zero_lt_of_lt hr)

theorem slot_lt (hr : r < n) (k : Nat) : slot n r k < n := Nat.mod_lt _ (Nat.zero_lt_of_lt hr)

theorem next_eq (hr : r < n) : next n r = if r + 1 = n then 0 else r + 1 := by
  unfold next
  split
  · next h => rw [h, Nat.mod_self]
  · exact Nat.mod_eq_of_lt (by omega)

theorem prev_eq (hr : r < n) : prev n r = if r = 0 then n - 1 else r - 1 := by
  unfold prev
  split
  · next h => rw [h, Nat.zero_add, Nat.mod_eq_of_lt (by omega)]
  · rw [show r + (n - 1) = r - 1 + n by omega, Nat.add_mod_right, Nat.mod_eq_of_lt (by omega)]

theorem next_prev (hr : r < n) : next n (prev n r) = r := by
  rw [next, prev, Nat.mod_add_mod, show r + (n - 1) + 1 = r + n by omega, Nat.add_mod_right,
    Nat.mod_eq_of_lt hr]

theorem slot_zero (n r : Nat) : slot n r 0 = next n r := rfl

theorem slot_next (n r k : Nat) : slot n (next n r) k = slot n r (k + 1) := by
  rw [slot, slot, next, Nat.add_assoc, Nat.mod_add_mod]
  congr 1
  omega

theorem next_slot (n r k : Nat) : next n (slot n r k) = slot n r (k + 1) := by
  rw [next, slot, Nat.mod_add_mod]
  rfl

theorem slot_prev (hr : r < n) (k : Nat) : slot n (prev n r) (k + 1) = slot n r k := by
  rw [← slot_next, next_prev hr]

theorem slot_inj {j k : Nat} (hj : j < n) (hk : k < n) (h : slot n r j = slot n r k) : j = k := by
  have hmod : j ≡ k [MOD n] := Nat.ModEq.add_left_cancel' (r + 1) h
  exact hmod.eq_of_lt_of_lt hj hk

/-- Behind the mark, the slot of the mark itself comes last. -/
theorem slot_ne_mark (hr : r < n) {k : Nat} (hk : k + 1 < n) : slot n r k ≠ r := by
  intro h
  have hlast : slot n r (n - 1) = r := by
    rw [slot, show r + 1 + (n - 1) = r + n by omega, Nat.add_mod_right, Nat.mod_eq_of_lt hr]
  have := slot_inj (by omega) (by omega) (h.trans hlast.symm)
  omega

/-! ## Contents -/

/-- The items behind the mark, oldest first. -/
def contents (slots : Nat → α) (n r count : Nat) : List α :=
  (List.range count).map fun k => slots (slot n r k)

@[simp] theorem length_contents : (contents slots n r count).length = count := by
  simp [contents]

theorem contents_congr {slots' : Nat → α}
    (h : ∀ k < count, slots' (slot n r k) = slots (slot n r k)) :
    contents slots' n r count = contents slots n r count :=
  List.map_congr_left fun k hk => h k (List.mem_range.mp hk)

theorem contents_push (hcount : count < n) (x : α) :
    contents (Function.update slots (slot n r count) x) n r (count + 1) =
      contents slots n r count ++ [x] := by
  have hold : contents (Function.update slots (slot n r count) x) n r count =
      contents slots n r count := by
    refine contents_congr fun k hk => Function.update_of_ne ?_ _ _
    intro heq
    have := slot_inj (by omega) hcount heq
    omega
  rw [← hold, contents, List.range_succ, List.map_append]
  simp [contents]

theorem contents_pop :
    contents slots n r (count + 1) = slots (next n r) :: contents slots n (next n r) count := by
  rw [contents, List.range_succ_eq_map, List.map_cons, List.map_map, slot_zero, contents]
  congr 1
  refine List.map_congr_left fun k hk => ?_
  rw [slot_next]
  rfl

theorem contents_unpop (hr : r < n) (hcount : count < n) (x : α) :
    contents (Function.update slots r x) n (prev n r) (count + 1) =
      x :: contents slots n r count := by
  rw [contents_pop, next_prev hr, Function.update_self]
  congr 1
  refine contents_congr fun k hk => Function.update_of_ne ?_ _ _
  exact slot_ne_mark hr (by omega)

/-! ## Blocks of bytes -/

/-- The `i`th part of `size` elements. -/
def block (size : Nat) (storage : List α) (i : Nat) : List α :=
  (storage.drop (i * size)).take size

/-- Elements in the middle of a list are overwritten. -/
def splice (storage : List α) (p : Nat) (item : List α) : List α :=
  storage.take p ++ (item ++ storage.drop (p + item.length))

theorem length_splice {storage item : List α} {p : Nat}
    (h : p + item.length ≤ storage.length) : (splice storage p item).length = storage.length := by
  simp only [splice, List.length_append, List.length_take, List.length_drop]
  omega

theorem mul_bound {i n size : Nat} (hi : i < n) : i * size + size ≤ n * size := by
  rw [← Nat.succ_mul]
  exact Nat.mul_le_mul_right size hi

/-- A part before or behind the overwritten elements. -/
theorem block_splice_of_ne {storage item : List α} {size i j : Nat} (hitem : item.length = size)
    (hstorage : i * size + size ≤ storage.length) (hne : j ≠ i) :
    block size (splice storage (i * size) item) j = block size storage j := by
  have hlen : (storage.take (i * size)).length = i * size :=
    List.length_take_of_le (by omega)
  rcases Nat.lt_or_gt_of_ne hne with hlt | hgt
  · have hle : j * size + size ≤ i * size := mul_bound hlt
    rw [block, block, splice, List.drop_append_of_le_length (by omega),
      List.take_append_of_le_length (by rw [List.length_drop]; omega), List.drop_take,
      List.take_take, Nat.min_eq_left (by omega)]
  · have hle : i * size + size ≤ j * size := mul_bound hgt
    rw [block, block, splice, List.drop_append, List.drop_eq_nil_of_le (by omega),
      List.nil_append, hlen, List.drop_append, List.drop_eq_nil_of_le (by omega),
      List.nil_append, List.drop_drop]
    congr 2
    omega

theorem block_splice_self {storage item : List α} {size i : Nat} (hitem : item.length = size)
    (hstorage : i * size + size ≤ storage.length) :
    block size (splice storage (i * size) item) i = item := by
  have hlen : (storage.take (i * size)).length = i * size :=
    List.length_take_of_le (by omega)
  rw [block, splice, List.drop_left' hlen, List.take_left' hitem]

/-- Overwriting one part is the update of one slot. -/
theorem block_splice {storage item : List α} {size i : Nat} (hitem : item.length = size)
    (hstorage : i * size + size ≤ storage.length) :
    block size (splice storage (i * size) item) = Function.update (block size storage) i item := by
  funext j
  by_cases hj : j = i
  · subst hj
    rw [Function.update_self, block_splice_self hitem hstorage]
  · rw [Function.update_of_ne hj, block_splice_of_ne hitem hstorage hj]

end EmWinDemo.Lib.Ring
