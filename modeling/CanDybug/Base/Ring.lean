import Mathlib.Data.Nat.ModEq
import Mathlib.Logic.Function.Basic
import Mathlib.Data.List.Basic

/-!
# Windows of a memory, straight and around a ring

A memory is a total function from cell indices. `cells` lists a straight run of
cells; `ringCells` lists a run that wraps around a ring of `n` cells. The laws say
how a run splits, grows at either end, and what a store outside it leaves alone.
`store` writes a straight run, and `copy` moves one within the memory; where the cells read
and the cells written are different ones, any order of moving them does the same.
-/

namespace CanDybug.Base

variable {α : Type}

/-- The `k` cells of a memory from index `p` on. -/
def cells (mem : Nat → α) (p k : Nat) : List α := (List.range k).map fun i ↦ mem (p + i)

/-- The `k` cells from index `p` on of a ring of `n` cells. -/
def ringCells (n : Nat) (mem : Nat → α) (p k : Nat) : List α :=
  (List.range k).map fun i ↦ mem ((p + i) % n)

/-- An index less than two turns of a ring wraps at most once. -/
theorem mod_eq_sub {n i : Nat} (h : i < 2 * n) : i % n = if i < n then i else i - n := by
  split
  · next hi => exact Nat.mod_eq_of_lt hi
  · next hi => rw [Nat.mod_eq_sub_mod (by omega), Nat.mod_eq_of_lt (by omega)]

/-! ### Straight runs -/

@[simp] theorem cells_zero (mem : Nat → α) (p : Nat) : cells mem p 0 = [] := rfl

@[simp] theorem length_cells (mem : Nat → α) (p k : Nat) : (cells mem p k).length = k := by
  simp [cells]

@[simp] theorem getElem_cells (mem : Nat → α) (p k i : Nat) (h : i < (cells mem p k).length) :
    (cells mem p k)[i] = mem (p + i) := by
  simp [cells]

/-- A nonempty run is its first cell and the run after it. -/
theorem cells_succ (mem : Nat → α) (p k : Nat) :
    cells mem p (k + 1) = mem p :: cells mem (p + 1) k := by
  simp [cells, List.range_succ_eq_map, Function.comp_def, Nat.add_comm, Nat.add_left_comm]

/-- A run splits at any point. -/
theorem cells_add (mem : Nat → α) (p k l : Nat) :
    cells mem p (k + l) = cells mem p k ++ cells mem (p + k) l := by
  simp [cells, List.range_add, Function.comp_def, Nat.add_assoc]

/-- Taking from a run shortens it. -/
theorem take_cells (mem : Nat → α) (p k l : Nat) :
    (cells mem p k).take l = cells mem p (min l k) := by
  simp [cells, ← List.map_take, List.take_range]

/-- A run depends on its own cells only. -/
theorem cells_congr {mem mem' : Nat → α} {p p' k : Nat}
    (h : ∀ i, i < k → mem (p + i) = mem' (p' + i)) : cells mem p k = cells mem' p' k := by
  apply List.map_congr_left
  intro i hi
  exact h i (List.mem_range.mp hi)

/-- A run of a memory seen from index `q` on. -/
theorem cells_shift (mem : Nat → α) (q p k : Nat) :
    cells (fun i ↦ mem (q + i)) p k = cells mem (q + p) k :=
  cells_congr fun i _ ↦ by rw [Nat.add_assoc]

/-- A store outside a run leaves it alone. -/
theorem cells_update (mem : Nat → α) (p k j : Nat) (x : α) (h : j < p ∨ p + k ≤ j) :
    cells (Function.update mem j x) p k = cells mem p k := by
  apply cells_congr
  intro i hi
  exact Function.update_of_ne (by omega) _ _

/-- Write a run of cells. -/
def store (mem : Nat → α) (p : Nat) : List α → Nat → α
  | [] => mem
  | x :: xs => store (Function.update mem p x) (p + 1) xs

/-- A written run leaves the other cells alone. -/
theorem store_of_ne (mem : Nat → α) (p : Nat) (xs : List α) {i : Nat}
    (h : i < p ∨ p + xs.length ≤ i) : store mem p xs i = mem i := by
  induction xs generalizing mem p with
  | nil => rfl
  | cons x xs ih =>
    rw [List.length_cons] at h
    rw [store, ih _ _ (by omega), Function.update_of_ne (by omega)]

/-- A written run reads back. -/
theorem cells_store (mem : Nat → α) (p : Nat) (xs : List α) :
    cells (store mem p xs) p xs.length = xs := by
  induction xs generalizing mem p with
  | nil => rfl
  | cons x xs ih =>
    rw [List.length_cons, cells_succ, store, ih, store_of_ne _ _ _ (.inl (Nat.lt_succ_self p)),
      Function.update_self]

/-- Copy `n` cells, lowest first. -/
def copy (mem : Nat → α) (dst src : Nat) : Nat → Nat → α
  | 0 => mem
  | n + 1 => copy (Function.update mem dst (mem src)) (dst + 1) (src + 1) n

theorem copy_of_lt (mem : Nat → α) (dst src n : Nat) {i : Nat} (h : i < dst) :
    copy mem dst src n i = mem i := by
  induction n generalizing mem dst src with
  | zero => rfl
  | succ n ih => rw [copy, ih _ _ _ (by omega), Function.update_of_ne (by omega)]

/-- Copied towards lower cells, a run arrives as it was, also where the two overlap. -/
theorem cells_copy (mem : Nat → α) {dst src : Nat} (n : Nat) (h : dst ≤ src) :
    cells (copy mem dst src n) dst n = cells mem src n := by
  induction n generalizing mem dst src with
  | zero => rfl
  | succ n ih =>
    rw [cells_succ, cells_succ, copy, ih _ (by omega), copy_of_lt _ _ _ _ (Nat.lt_succ_self dst),
      Function.update_self, cells_update _ _ _ _ _ (.inl (by omega))]

/-- Copy cells in a given order of their distances from the first. -/
def copyInOrder (mem : Nat → α) (dst src : Nat) : List Nat → Nat → α
  | [] => mem
  | i :: order => copyInOrder (Function.update mem (dst + i) (mem (src + i))) dst src order

/-- Cells that are not copied to are left alone. -/
theorem copyInOrder_of_ne (mem : Nat → α) (dst src : Nat) {order : List Nat} {k : Nat}
    (h : ∀ i ∈ order, k ≠ dst + i) : copyInOrder mem dst src order k = mem k := by
  induction order generalizing mem with
  | nil => rfl
  | cons i order ih =>
    rw [List.forall_mem_cons] at h
    rw [copyInOrder, ih _ h.2, Function.update_of_ne h.1]

/-- If no cell is both read and written, each one arrives as it was. -/
theorem copyInOrder_of_mem (mem : Nat → α) {dst src : Nat} {order : List Nat}
    (h : ∀ i ∈ order, ∀ j ∈ order, src + i ≠ dst + j) {i : Nat} (hi : i ∈ order) :
    copyInOrder mem dst src order (dst + i) = mem (src + i) := by
  induction order generalizing mem with
  | nil => contradiction
  | cons j order ih =>
    have hrest : ∀ i ∈ order, ∀ j ∈ order, src + i ≠ dst + j := fun i hi j hj ↦
      h i (List.mem_cons_of_mem _ hi) j (List.mem_cons_of_mem _ hj)
    have hread : Function.update mem (dst + j) (mem (src + j)) (src + i) = mem (src + i) :=
      Function.update_of_ne (h i hi j List.mem_cons_self) _ _
    rw [copyInOrder]
    by_cases hm : i ∈ order
    · rw [ih _ hrest hm, hread]
    · obtain rfl : i = j := (List.mem_cons.mp hi).resolve_right hm
      rw [copyInOrder_of_ne _ _ _ fun k hk he ↦ hm (by rwa [Nat.add_left_cancel he]),
        Function.update_self]

theorem copyInOrder_range (mem : Nat → α) (dst src n : Nat) :
    copyInOrder mem dst src (List.range n) = copy mem dst src n := by
  have shift (mem : Nat → α) (dst src : Nat) (order : List Nat) :
      copyInOrder mem dst src (order.map Nat.succ) = copyInOrder mem (dst + 1) (src + 1) order := by
    induction order generalizing mem with
    | nil => rfl
    | cons i order ih =>
      rw [List.map_cons, copyInOrder, copyInOrder, ih]
      simp only [Nat.succ_eq_add_one, Nat.add_assoc, Nat.add_comm 1]
  induction n generalizing mem dst src with
  | zero => rfl
  | succ n ih =>
    rw [List.range_succ_eq_map, copyInOrder, shift, ih]
    rfl

/-- Where source and destination are apart, the order of copying makes no difference. -/
theorem copyInOrder_eq_copy (mem : Nat → α) {dst src n : Nat}
    (h : ∀ i j, i < n → j < n → src + i ≠ dst + j) {order : List Nat}
    (hp : order.Perm (List.range n)) : copyInOrder mem dst src order = copy mem dst src n := by
  rw [← copyInOrder_range]
  have hm (i : Nat) : i ∈ order ↔ i ∈ List.range n := hp.mem_iff
  have apart (i : Nat) (hi : i ∈ List.range n) (j : Nat) (hj : j ∈ List.range n) :
      src + i ≠ dst + j := h i j (List.mem_range.mp hi) (List.mem_range.mp hj)
  funext k
  by_cases hk : ∃ i ∈ List.range n, k = dst + i
  · obtain ⟨i, hi, rfl⟩ := hk
    rw [copyInOrder_of_mem mem apart hi]
    exact copyInOrder_of_mem mem (fun i hi j hj ↦ apart i ((hm i).mp hi) j ((hm j).mp hj))
      ((hm i).mpr hi)
  · simp only [not_exists, not_and] at hk
    rw [copyInOrder_of_ne _ _ _ hk, copyInOrder_of_ne _ _ _ fun i hi ↦ hk i ((hm i).mp hi)]

/-! ### Runs around a ring -/

@[simp] theorem ringCells_zero (n : Nat) (mem : Nat → α) (p : Nat) :
    ringCells n mem p 0 = [] := rfl

@[simp] theorem length_ringCells (n : Nat) (mem : Nat → α) (p k : Nat) :
    (ringCells n mem p k).length = k := by
  simp [ringCells]

/-- A run splits at any point, also where it wraps. -/
theorem ringCells_add (n : Nat) (mem : Nat → α) (p k l : Nat) :
    ringCells n mem p (k + l) = ringCells n mem p k ++ ringCells n mem (p + k) l := by
  simp [ringCells, List.range_add, Function.comp_def, Nat.add_assoc]

/-- A nonempty run is its first cell and the run after it. -/
theorem ringCells_succ (n : Nat) (mem : Nat → α) (p k : Nat) :
    ringCells n mem p (k + 1) = mem (p % n) :: ringCells n mem (p + 1) k := by
  rw [Nat.add_comm, ringCells_add]
  rfl

/-- A nonempty run is the run before its last cell and that cell. -/
theorem ringCells_concat (n : Nat) (mem : Nat → α) (p k : Nat) :
    ringCells n mem p (k + 1) = ringCells n mem p k ++ [mem ((p + k) % n)] := by
  rw [ringCells_add]
  rfl

/-- The start of a run counts around the ring. -/
theorem ringCells_mod (n : Nat) (mem : Nat → α) (p k : Nat) :
    ringCells n mem (p % n) k = ringCells n mem p k := by
  simp [ringCells, Nat.mod_add_mod]

/-- A run depends on its own cells only. -/
theorem ringCells_congr {n : Nat} {mem mem' : Nat → α} {p k : Nat}
    (h : ∀ i, i < k → mem ((p + i) % n) = mem' ((p + i) % n)) :
    ringCells n mem p k = ringCells n mem' p k := by
  apply List.map_congr_left
  intro i hi
  exact h i (List.mem_range.mp hi)

/-- Two cells less than one turn apart are different cells. -/
theorem ring_ne {n p i j : Nat} (hi : i < j) (hj : j < i + n) : (p + i) % n ≠ (p + j) % n := by
  intro h
  have hd : n ∣ (p + j) - (p + i) := (Nat.modEq_iff_dvd' (by omega)).mp h
  have hl := Nat.le_of_dvd (by omega) hd
  omega

/-- A store to the cell after a run of less than one turn leaves the run alone. -/
theorem ringCells_update_next (n : Nat) (mem : Nat → α) (p k : Nat) (x : α) (h : k < n) :
    ringCells n (Function.update mem ((p + k) % n) x) p k = ringCells n mem p k := by
  apply ringCells_congr
  intro i hi
  exact Function.update_of_ne (ring_ne hi (by omega)) _ _

/-- A run that reaches at most the last cell is a straight one. -/
theorem ringCells_eq_cells (n : Nat) (mem : Nat → α) (p k : Nat) (h : p + k ≤ n) :
    ringCells n mem p k = cells mem p k := by
  apply List.map_congr_left
  intro i hi
  rw [Nat.mod_eq_of_lt (by have := List.mem_range.mp hi; omega)]

end CanDybug.Base
