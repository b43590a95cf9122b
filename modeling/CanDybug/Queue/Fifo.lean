import CanDybug.Queue.Macros

/-!
# Queues as bounded lists

The abstract value of a queue is the list of its elements, oldest first. Under the
index invariant each macro is the list operation its name says: the unsigned
arithmetic never wraps, a put appends and a get removes the first element.
-/

namespace CanDybug.Queue

open Base

variable {α : Type}

/-- Index invariant of a queue that `QUEUE_DEF` can declare. -/
structure WellFormed (q : Queue α) : Prop where
  head_le : q.head ≤ q.size
  tail_le : q.tail ≤ q.size
  size_lt : q.size + 1 < 4294967296

/-- Number of stored elements. -/
def count (q : Queue α) : Nat :=
  if q.tail ≤ q.head then q.head - q.tail else q.head + (q.size + 1) - q.tail

/-- Stored elements, oldest first: the slots after `tail` up to `head`. -/
def contents (q : Queue α) : List α := ringCells (q.size + 1) q.buffer (q.tail + 1) q.count

theorem length_contents (q : Queue α) : q.contents.length = q.count := length_ringCells _ _ _ _

theorem count_le {q : Queue α} (h : q.WellFormed) : q.count ≤ q.size := by
  have := h.head_le
  unfold count
  split <;> omega

/-- The head is `count` slots after the tail, perhaps once around the ring. -/
theorem tail_add_count {q : Queue α} (h : q.WellFormed) :
    q.tail + q.count = q.head ∨ q.tail + q.count = q.head + (q.size + 1) := by
  have := h.tail_le
  unfold count
  split <;> omega

/-- That distance determines the count. -/
theorem count_eq_of {q : Queue α} (h : q.WellFormed) {c : Nat} (hc : c ≤ q.size)
    (hd : q.tail + c = q.head ∨ q.tail + c = q.head + (q.size + 1)) : q.count = c := by
  have := h.head_le
  have := h.tail_le
  have := count_le h
  have := tail_add_count h
  omega

/-- Free space is what the stored elements leave of the capacity. -/
theorem space_eq {q : Queue α} (h : q.WellFormed) : q.space = q.size - q.count := by
  have hh := h.head_le
  have ht := h.tail_le
  have hs := h.size_lt
  unfold space count
  split
  · next hc =>
    rw [sub32_of_le (a := q.tail) (by omega) (by omega), sub32_of_le (by omega) (by omega)]
    split <;> omega
  · next hc =>
    rw [sub32_of_le (a := q.head) (by omega) (by omega), sub32_of_le (by omega) (by omega)]
    split <;> omega

/-- The last written slot is `count` slots after the last read one. -/
theorem head_eq {q : Queue α} (h : q.WellFormed) : q.head = (q.tail + q.count) % (q.size + 1) := by
  have hh := h.head_le
  have ht := h.tail_le
  have hc := count_le h
  have hd := tail_add_count h
  rw [mod_eq_sub (by omega)]
  split <;> omega

/-- `QUEUE_EMPTY` holds exactly when nothing is stored. -/
theorem empty_iff {q : Queue α} (h : q.WellFormed) : q.empty = true ↔ q.contents = [] := by
  have hh := h.head_le
  have ht := h.tail_le
  rw [← List.length_eq_zero_iff, length_contents]
  unfold empty count
  simp only [beq_iff_eq]
  split <;> omega

/-- `QUEUE_FULL` holds exactly when there is no space. -/
theorem full_iff {q : Queue α} (h : q.WellFormed) : q.full = true ↔ q.space = 0 := by
  have hh := h.head_le
  have ht := h.tail_le
  have hs := h.size_lt
  rw [space_eq h, full, u32_of_lt (by omega)]
  simp only [Bool.or_eq_true, Bool.and_eq_true, beq_iff_eq]
  unfold count
  split <;> omega

theorem count_pos {q : Queue α} (h : q.WellFormed) (he : q.empty = false) : 0 < q.count := by
  rw [← length_contents, List.length_pos_iff]
  intro hc
  rw [(empty_iff h).mpr hc] at he
  contradiction

/-! ### Emptying -/

@[simp] theorem size_reset (q : Queue α) : q.reset.size = q.size := rfl

@[simp] theorem contents_reset (q : Queue α) : q.reset.contents = [] := rfl

@[simp] theorem space_reset (q : Queue α) (h : q.size < 4294967296) : q.reset.space = q.size := by
  simp [space, reset, sub32, Nat.mod_eq_of_lt h]

theorem WellFormed.reset {q : Queue α} (h : q.WellFormed) : q.reset.WellFormed :=
  ⟨Nat.zero_le _, Nat.zero_le _, h.size_lt⟩

/-! ### Getting -/

@[simp] theorem size_get (q : Queue α) : q.get.2.size = q.size := by
  unfold get
  split <;> rfl

@[simp] theorem buffer_get (q : Queue α) : q.get.2.buffer = q.buffer := by
  unfold get
  split <;> rfl

@[simp] theorem head_get (q : Queue α) : q.get.2.head = q.head := by
  unfold get
  split <;> rfl

/-- The tail moves to the next slot of the ring. -/
theorem tail_get {q : Queue α} (h : q.WellFormed) :
    q.get.2.tail = (q.tail + 1) % (q.size + 1) := by
  have ht := h.tail_le
  have hs := h.size_lt
  unfold get
  rw [u32_of_lt (n := q.tail + 1) (by omega), u32_of_lt hs, mod_eq_sub (by omega)]
  split <;> split <;> simp only [] <;> omega

/-- What is read is the slot after the tail. -/
theorem get_fst {q : Queue α} (h : q.WellFormed) :
    q.get.1 = q.buffer ((q.tail + 1) % (q.size + 1)) := by
  have ht := h.tail_le
  have hs := h.size_lt
  unfold get
  rw [u32_of_lt (n := q.tail + 1) (by omega), u32_of_lt hs, mod_eq_sub (by omega)]
  split
  · next he => rw [if_neg (by omega), he, Nat.sub_self]
  · next he => rw [if_pos (by omega)]

theorem WellFormed.get {q : Queue α} (h : q.WellFormed) : q.get.2.WellFormed := by
  refine ⟨by simpa using h.head_le, ?_, by simpa using h.size_lt⟩
  rw [tail_get h, size_get]
  exact Nat.le_of_lt_succ (Nat.mod_lt _ (Nat.succ_pos _))

theorem count_get {q : Queue α} (h : q.WellFormed) (hc : 0 < q.count) :
    q.get.2.count = q.count - 1 := by
  have hh := h.head_le
  have ht := h.tail_le
  have hl := count_le h
  have hd := tail_add_count h
  apply count_eq_of h.get
  · rw [size_get]
    omega
  · rw [tail_get h, head_get, size_get, mod_eq_sub (by omega)]
    split <;> omega

/-- A get from a nonempty queue removes and returns the oldest element. -/
theorem contents_get {q : Queue α} (h : q.WellFormed) (hc : 0 < q.count) :
    q.contents = q.get.1 :: q.get.2.contents := by
  unfold contents
  rw [count_get h hc, get_fst h, tail_get h, size_get, buffer_get]
  obtain ⟨k, hk⟩ := Nat.exists_eq_add_of_lt hc
  rw [Nat.zero_add] at hk
  rw [hk, Nat.add_sub_cancel, ringCells_succ, ← ringCells_mod (p := _ % _ + 1), Nat.mod_add_mod,
    ringCells_mod]

/-- A get frees one slot. -/
theorem space_get {q : Queue α} (h : q.WellFormed) (hc : 0 < q.count) :
    q.get.2.space = q.space + 1 := by
  have := count_le h
  rw [space_eq h.get, space_eq h, count_get h hc, size_get]
  omega

/-! ### Consuming several elements in place -/

/-- Move the tail over `n` elements. -/
def advance (q : Queue α) (n : Nat) : Queue α :=
  { q with tail := (q.tail + n) % (q.size + 1) }

@[simp] theorem size_advance (q : Queue α) (n : Nat) : (q.advance n).size = q.size := rfl

@[simp] theorem head_advance (q : Queue α) (n : Nat) : (q.advance n).head = q.head := rfl

theorem WellFormed.advance {q : Queue α} (h : q.WellFormed) (n : Nat) :
    (q.advance n).WellFormed :=
  ⟨h.head_le, Nat.le_of_lt_succ (Nat.mod_lt _ (Nat.succ_pos _)), h.size_lt⟩

theorem count_advance {q : Queue α} (h : q.WellFormed) {n : Nat} (hn : n ≤ q.count) :
    (q.advance n).count = q.count - n := by
  have hh := h.head_le
  have ht := h.tail_le
  have hl := count_le h
  have hd := tail_add_count h
  apply count_eq_of (h.advance n)
  · rw [size_advance]
    omega
  · change (q.tail + n) % (q.size + 1) + (q.count - n) = q.head ∨
      (q.tail + n) % (q.size + 1) + (q.count - n) = q.head + (q.size + 1)
    rw [mod_eq_sub (by omega)]
    split <;> omega

/-- The slots after the tail are the oldest elements. -/
theorem contents_advance {q : Queue α} (h : q.WellFormed) {n : Nat} (hn : n ≤ q.count) :
    q.contents = ringCells (q.size + 1) q.buffer (q.tail + 1) n ++ (q.advance n).contents := by
  obtain ⟨k, hk⟩ := Nat.exists_eq_add_of_le hn
  have hc : (q.advance n).count = k := by rw [count_advance h hn, hk, Nat.add_sub_cancel_left]
  unfold contents
  rw [hc, hk, ringCells_add, Nat.add_right_comm]
  congr 1
  change _ = ringCells (q.size + 1) q.buffer ((q.tail + n) % (q.size + 1) + 1) k
  rw [← ringCells_mod (p := _ % _ + 1), Nat.mod_add_mod, ringCells_mod]

/-! ### Putting -/

/-- The slot a put writes. -/
def nextSlot (q : Queue α) : Nat := (q.head + 1) % (q.size + 1)

/-- A put writes the slot after the head and moves the head there. -/
theorem put_eq {q : Queue α} (h : q.WellFormed) (x : α) :
    q.put x = { q with head := q.nextSlot, buffer := Function.update q.buffer q.nextSlot x } := by
  have hh := h.head_le
  have hs := h.size_lt
  have hn : (if u32 (q.head + 1) = u32 (q.size + 1) then 0 else u32 (q.head + 1)) =
      q.nextSlot := by
    unfold nextSlot
    rw [u32_of_lt (n := q.head + 1) (by omega), u32_of_lt hs, mod_eq_sub (by omega)]
    split <;> split <;> omega
  simp only [put, hn]

theorem nextSlot_le (q : Queue α) : q.nextSlot ≤ q.size :=
  Nat.le_of_lt_succ (Nat.mod_lt _ (Nat.succ_pos _))

@[simp] theorem size_put (q : Queue α) (x : α) : (q.put x).size = q.size := rfl

@[simp] theorem tail_put (q : Queue α) (x : α) : (q.put x).tail = q.tail := rfl

theorem WellFormed.put {q : Queue α} (h : q.WellFormed) (x : α) : (q.put x).WellFormed := by
  rw [put_eq h]
  exact ⟨q.nextSlot_le, h.tail_le, h.size_lt⟩

theorem count_put {q : Queue α} (h : q.WellFormed) (hc : q.count < q.size) (x : α) :
    (q.put x).count = q.count + 1 := by
  have hh := h.head_le
  have ht := h.tail_le
  have hd := tail_add_count h
  apply count_eq_of (h.put x) hc
  rw [put_eq h]
  simp only [nextSlot]
  rw [mod_eq_sub (by omega)]
  split <;> omega

/-- The slot after the head is not one of the stored ones while there is space. -/
theorem nextSlot_eq {q : Queue α} (h : q.WellFormed) :
    q.nextSlot = (q.tail + 1 + q.count) % (q.size + 1) := by
  unfold nextSlot
  rw [head_eq h, Nat.mod_add_mod]
  congr 1
  omega

/-- Writing the slot after the head changes no stored element. -/
theorem contents_update {q : Queue α} (h : q.WellFormed) (x : α) :
    { q with buffer := Function.update q.buffer q.nextSlot x }.contents = q.contents := by
  rw [nextSlot_eq h]
  exact ringCells_update_next _ _ _ _ _ (Nat.lt_succ_of_le (count_le h))

/-- Stored elements depend on the stored slots only. -/
theorem contents_of_other {q : Queue α} (h : q.WellFormed) {buffer : Nat → α}
    (hb : ∀ i, i ≠ q.nextSlot → buffer i = q.buffer i) :
    { q with buffer }.contents = q.contents := by
  have hc := count_le h
  change ringCells (q.size + 1) buffer (q.tail + 1) q.count = _
  apply ringCells_congr
  intro i hi
  apply hb
  rw [nextSlot_eq h]
  exact ring_ne hi (by omega)

/-- A put into a queue with space appends. -/
theorem contents_put {q : Queue α} (h : q.WellFormed) (hc : q.count < q.size) (x : α) :
    (q.put x).contents = q.contents ++ [x] := by
  have hn := nextSlot_eq h
  have hu := contents_update h x
  unfold contents at *
  rw [count_put h hc, put_eq h]
  simp only [ringCells_concat]
  rw [← hn, Function.update_self]
  exact congrArg (· ++ [x]) hu

theorem empty_put {q : Queue α} (h : q.WellFormed) (hc : q.count < q.size) (x : α) :
    (q.put x).empty = false := by
  rw [← Bool.not_eq_true, empty_iff (h.put x), contents_put h hc]
  exact List.append_ne_nil_of_right_ne_nil _ (List.cons_ne_nil _ _)

/-- A put uses up one slot. -/
theorem space_put {q : Queue α} (h : q.WellFormed) (hc : q.count < q.size) (x : α) :
    (q.put x).space = q.space - 1 := by
  rw [space_eq (h.put x), space_eq h, count_put h hc, size_put]
  omega

/-! ### Putting several elements -/

/-- One put after the other. -/
def putAll (q : Queue α) (xs : List α) : Queue α := xs.foldl put q

@[simp] theorem putAll_nil (q : Queue α) : q.putAll [] = q := rfl

@[simp] theorem putAll_cons (q : Queue α) (x : α) (xs : List α) :
    q.putAll (x :: xs) = (q.put x).putAll xs := rfl

theorem putAll_append (q : Queue α) (xs ys : List α) :
    q.putAll (xs ++ ys) = (q.putAll xs).putAll ys := List.foldl_append

@[simp] theorem size_putAll (q : Queue α) (xs : List α) : (q.putAll xs).size = q.size := by
  induction xs generalizing q with
  | nil => rfl
  | cons x xs ih => rw [putAll_cons, ih, size_put]

@[simp] theorem tail_putAll (q : Queue α) (xs : List α) : (q.putAll xs).tail = q.tail := by
  induction xs generalizing q with
  | nil => rfl
  | cons x xs ih => rw [putAll_cons, ih, tail_put]

theorem WellFormed.putAll {q : Queue α} (h : q.WellFormed) (xs : List α) :
    (q.putAll xs).WellFormed := by
  induction xs generalizing q with
  | nil => exact h
  | cons x xs ih => exact ih (h.put x)

/-- Puts that fit append in order. -/
theorem contents_putAll {q : Queue α} (h : q.WellFormed) (xs : List α)
    (hc : q.count + xs.length ≤ q.size) : (q.putAll xs).contents = q.contents ++ xs := by
  induction xs generalizing q with
  | nil => simp
  | cons x xs ih =>
    rw [List.length_cons] at hc
    rw [putAll_cons, ih (h.put x) (by rw [count_put h (by omega), size_put]; omega),
      contents_put h (by omega), List.append_assoc]
    rfl

/-- The head moves one slot for each element put. -/
theorem head_putAll {q : Queue α} (h : q.WellFormed) (xs : List α) :
    (q.putAll xs).head = (q.head + xs.length) % (q.size + 1) := by
  induction xs generalizing q with
  | nil => exact (Nat.mod_eq_of_lt (Nat.lt_succ_of_le h.head_le)).symm
  | cons x xs ih =>
    rw [putAll_cons, ih (h.put x), put_eq h, List.length_cons]
    simp only [nextSlot]
    rw [Nat.mod_add_mod]
    congr 1
    omega

/-- Puts leave the slots alone that they do not reach. -/
theorem buffer_putAll_of_ne {q : Queue α} (h : q.WellFormed) (xs : List α) {i : Nat}
    (hi : ∀ k, k < xs.length → i ≠ (q.head + 1 + k) % (q.size + 1)) :
    (q.putAll xs).buffer i = q.buffer i := by
  induction xs generalizing q with
  | nil => rfl
  | cons x xs ih =>
    have hp := put_eq h x
    rw [putAll_cons, ih (h.put x), hp]
    · exact Function.update_of_ne (hi 0 (by simp)) _ _
    · intro k hk
      rw [hp]
      simp only [nextSlot]
      rw [Nat.add_assoc, Nat.mod_add_mod, Nat.add_assoc (q.head), ← Nat.add_assoc, Nat.add_comm 1 k]
      exact hi (k + 1) (by simpa using hk)

/-- The slot each element of a sequence of puts ends up in. -/
theorem buffer_putAll {q : Queue α} (h : q.WellFormed) (xs : List α) (hl : xs.length ≤ q.size)
    {k : Nat} (hk : k < xs.length) :
    (q.putAll xs).buffer ((q.head + 1 + k) % (q.size + 1)) = xs[k] := by
  induction xs generalizing q k with
  | nil => simp at hk
  | cons x xs ih =>
    have hp := put_eq h x
    rw [List.length_cons] at hl hk
    cases k with
    | zero =>
      rw [putAll_cons, buffer_putAll_of_ne (h.put x), hp]
      · exact Function.update_self _ _ _
      · intro k hk'
        rw [hp]
        simp only [nextSlot]
        rw [Nat.add_assoc ((q.head + 1) % _), Nat.mod_add_mod]
        exact ring_ne (by omega) (by omega)
    | succ k =>
      have hs := ih (h.put x) (by rw [size_put]; omega) (k := k) (by omega)
      rw [hp] at hs
      simp only [nextSlot] at hs
      rw [Nat.add_assoc ((q.head + 1) % _), Nat.mod_add_mod] at hs
      rw [putAll_cons, List.getElem_cons_succ, ← hs, hp]
      congr 2
      omega

private theorem putRun_eq {q : Queue α} (h : q.WellFormed) (xs : List α)
    (hl : q.head + xs.length ≤ q.size) : q.putRun xs = q.putAll xs := by
  induction xs generalizing q with
  | nil => rfl
  | cons x xs ih =>
    rw [List.length_cons] at hl
    have hs := h.size_lt
    have hn : u32 (q.head + 1) = q.nextSlot := by
      unfold nextSlot
      rw [u32_of_lt (by omega), Nat.mod_eq_of_lt (by omega)]
    have hp : q.put x = { q with
        head := u32 (q.head + 1)
        buffer := Function.update q.buffer (u32 (q.head + 1)) x } := by
      rw [put_eq h, hn]
    rw [putRun, putAll_cons, ← hp]
    apply ih (h.put x)
    rw [hp, u32_of_lt (by omega)]
    simp only []
    omega

-- Between two rounds the second loop is one slot ahead of single puts.
private theorem putWrapped_eq {q : Queue α} (h : q.WellFormed) (xs : List α)
    (hl : q.head + xs.length ≤ q.size) :
    { q with head := q.head + 1 }.putWrapped xs =
      { q.putAll xs with head := (q.putAll xs).head + 1 } := by
  induction xs generalizing q with
  | nil => rfl
  | cons x xs ih =>
    rw [List.length_cons] at hl
    have hs := h.size_lt
    have hn : q.nextSlot = q.head + 1 := Nat.mod_eq_of_lt (by omega)
    have hp : q.put x = { q with
        head := q.head + 1, buffer := Function.update q.buffer (q.head + 1) x } := by
      rw [put_eq h, hn]
    have hh : (q.put x).head = q.head + 1 := by rw [hp]
    rw [putWrapped, putAll_cons, ← ih (h.put x) (by rw [hh, size_put]; omega), hp]
    simp only []
    rw [u32_of_lt (by omega)]

private theorem putWrapped_zero {q : Queue α} (h : q.WellFormed) (hq : q.head = q.size)
    (xs : List α) (hx : xs ≠ []) (hl : xs.length ≤ q.size) :
    { q with head := 0 }.putWrapped xs =
      { q.putAll xs with head := (q.putAll xs).head + 1 } := by
  cases xs with
  | nil => contradiction
  | cons x xs =>
    rw [List.length_cons] at hl
    have hn : q.nextSlot = 0 := by rw [nextSlot, hq, Nat.mod_self]
    have hp : q.put x = { q with head := 0, buffer := Function.update q.buffer 0 x } := by
      rw [put_eq h, hn]
    have hh : (q.put x).head = 0 := by rw [hp]
    rw [putWrapped, putAll_cons, ← putWrapped_eq (h.put x) xs (by rw [hh, size_put]; omega), hp]
    rfl

/-- `QUEUE_PUT_ARRAY` of elements that fit is one put after the other. -/
theorem putArray_eq {q : Queue α} (h : q.WellFormed) (xs : List α) (hl : xs.length ≤ q.space) :
    q.putArray xs = q.putAll xs := by
  have hh := h.head_le
  have ht := h.tail_le
  have hs := h.size_lt
  have hc := count_le h
  have hd := tail_add_count h
  have hsp := space_eq h
  -- `len` is how many of the slots up to the end are free.
  obtain ⟨len, hlen, hend, hfit⟩ : ∃ len,
      (if q.tail > q.head then sub32 (sub32 q.tail q.head) 1 else sub32 q.size q.head) = len ∧
        q.head + len ≤ q.size ∧ (len < xs.length → q.head + len = q.size) := by
    refine ⟨_, rfl, ?_⟩
    split
    · rw [sub32_of_le (a := q.tail) (by omega) (by omega), sub32_of_le (by omega) (by omega)]
      omega
    · rw [sub32_of_le (by omega) (by omega)]
      omega
  simp only [putArray, hlen]
  by_cases hlt : xs.length < len
  · rw [if_pos hlt, sub32_of_le (Nat.le_refl _) (by omega), Nat.sub_self,
      if_neg (Nat.lt_irrefl 0), List.take_length, putRun_eq h xs (by omega)]
  · rw [if_neg hlt, sub32_of_le (by omega) (by omega)]
    have hrun : q.putRun (xs.take len) = q.putAll (xs.take len) :=
      putRun_eq h _ (by rw [List.length_take]; omega)
    by_cases he : xs.length = len
    · rw [he, Nat.sub_self, if_neg (Nat.lt_irrefl 0), hrun, ← he, List.take_length]
    · have hw := h.putAll (xs.take len)
      have hhead : (q.putAll (xs.take len)).head = (q.putAll (xs.take len)).size := by
        rw [head_putAll h, List.length_take, size_putAll, Nat.min_eq_left (by omega),
          hfit (by omega), Nat.mod_eq_of_lt (Nat.lt_succ_self _)]
      have hdrop : (xs.drop len).length = xs.length - len := List.length_drop
      have hne : xs.drop len ≠ [] := by
        rw [← List.length_pos_iff, hdrop]
        omega
      have hall : (q.putAll (xs.take len)).putAll (xs.drop len) = q.putAll xs := by
        rw [← putAll_append, List.take_append_drop]
      have hlast := (h.putAll xs).head_le
      rw [if_pos (by omega), hrun,
        putWrapped_zero hw hhead _ hne (by rw [hdrop, size_putAll]; omega), hall]
      simp only []
      rw [sub32_of_le (Nat.le_add_left _ _) (by rw [size_putAll] at hlast; omega),
        Nat.add_sub_cancel]

end CanDybug.Queue
