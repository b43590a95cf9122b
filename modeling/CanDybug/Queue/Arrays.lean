import CanDybug.Queue.Fifo

/-!
# Arrays from a queue

`QUEUE_GET_ARRAY` reads up to the end of the buffer and then from its beginning, and
corrects the tail by a decrement. For stored elements this is one get after the other,
which removes them from the front in order.
-/

namespace CanDybug.Queue

open Base

variable {α : Type}

/-- One get after the other: what is read, and the queue that is left. -/
def getAll (q : Queue α) : Nat → List α × Queue α
  | 0 => ([], q)
  | n + 1 =>
    let r := getAll q.get.2 n
    (q.get.1 :: r.1, r.2)

@[simp] theorem getAll_zero (q : Queue α) : q.getAll 0 = ([], q) := rfl

theorem getAll_succ (q : Queue α) (n : Nat) :
    q.getAll (n + 1) = (q.get.1 :: (q.get.2.getAll n).1, (q.get.2.getAll n).2) := rfl

/-- Gets move the tail only, one slot for each element. -/
theorem getAll_snd {q : Queue α} (h : q.WellFormed) (n : Nat) :
    (q.getAll n).2 = q.advance n := by
  induction n generalizing q with
  | zero =>
    have ht : q.tail % (q.size + 1) = q.tail := Nat.mod_eq_of_lt (Nat.lt_succ_of_le h.tail_le)
    rw [getAll_zero, advance, Nat.add_zero, ht]
  | succ n ih =>
    rw [getAll_succ, ih h.get, advance, advance, tail_get h, size_get, Nat.mod_add_mod,
      Nat.add_assoc, Nat.add_comm 1 n]
    congr 1
    all_goals simp

/-- Gets of stored elements remove them from the front, in order. -/
theorem contents_getAll {q : Queue α} (h : q.WellFormed) {n : Nat} (hn : n ≤ q.count) :
    q.contents = (q.getAll n).1 ++ (q.getAll n).2.contents := by
  induction n generalizing q with
  | zero => rfl
  | succ n ih =>
    have hc : 0 < q.count := by omega
    rw [contents_get h hc, getAll_succ, ih h.get (by rw [count_get h hc]; omega)]
    rfl

theorem length_getAll (q : Queue α) (n : Nat) : (q.getAll n).1.length = n := by
  induction n generalizing q with
  | zero => rfl
  | succ n ih => rw [getAll_succ, List.length_cons, ih]

theorem getAll_add (q : Queue α) (k n : Nat) :
    q.getAll (k + n) = ((q.getAll k).1 ++ ((q.getAll k).2.getAll n).1,
      ((q.getAll k).2.getAll n).2) := by
  induction k generalizing q with
  | zero => simp
  | succ k ih => rw [Nat.add_right_comm, getAll_succ, ih, getAll_succ, List.cons_append]

private theorem get_of_lt {q : Queue α} (h : q.WellFormed) (ht : q.tail < q.size) :
    q.get = (q.buffer (q.tail + 1), { q with tail := q.tail + 1 }) := by
  have hs := h.size_lt
  rw [get, u32_of_lt (n := q.tail + 1) (by omega), u32_of_lt hs, if_neg (by omega)]

private theorem getRun_eq {q : Queue α} (h : q.WellFormed) (n : Nat)
    (hl : q.tail + n ≤ q.size) : q.getRun n = q.getAll n := by
  induction n generalizing q with
  | zero => rfl
  | succ n ih =>
    have hs := h.size_lt
    have hg := get_of_lt h (by omega)
    have hw := h.get
    rw [hg] at hw
    rw [getRun, getAll_succ, hg, u32_of_lt (by omega), ih hw (by simp only []; omega)]

-- Between two rounds the second loop is one slot ahead of single gets.
private theorem getWrapped_eq {q : Queue α} (h : q.WellFormed) (n : Nat)
    (hl : q.tail + n ≤ q.size) :
    { q with tail := q.tail + 1 }.getWrapped n =
      ((q.getAll n).1, { (q.getAll n).2 with tail := (q.getAll n).2.tail + 1 }) := by
  induction n generalizing q with
  | zero => rfl
  | succ n ih =>
    have hs := h.size_lt
    have hg := get_of_lt h (by omega)
    have hw := h.get
    rw [hg] at hw
    have hn := ih hw (by simp only []; omega)
    rw [getWrapped, getAll_succ, hg]
    simp only [] at hn ⊢
    rw [u32_of_lt (by omega), hn]

private theorem getWrapped_zero {q : Queue α} (h : q.WellFormed) (hq : q.tail = q.size)
    {n : Nat} (hn : 0 < n) (hl : n ≤ q.size) :
    { q with tail := 0 }.getWrapped n =
      ((q.getAll n).1, { (q.getAll n).2 with tail := (q.getAll n).2.tail + 1 }) := by
  obtain ⟨k, rfl⟩ := Nat.exists_eq_add_of_lt hn
  have hg : q.get = (q.buffer 0, { q with tail := 0 }) := by rw [get, hq, if_pos rfl]
  have hw := h.get
  rw [hg] at hw
  have hk := getWrapped_eq hw k (by simp only []; omega)
  rw [Nat.zero_add, getWrapped, getAll_succ, hg]
  simp only [] at hk ⊢
  rw [u32_of_lt (by omega), hk]

/-- `QUEUE_GET_ARRAY` of stored elements is one get after the other. -/
theorem getArray_eq {q : Queue α} (h : q.WellFormed) {n : Nat} (hn : n ≤ q.count) :
    q.getArray n = q.getAll n := by
  have hh := h.head_le
  have ht := h.tail_le
  have hs := h.size_lt
  have hc := count_le h
  have hd := tail_add_count h
  -- `len` is how many of the slots up to the end are stored ones.
  obtain ⟨len, hlen, hend, hstop⟩ : ∃ len,
      (if q.tail < q.head then sub32 q.head q.tail else sub32 q.size q.tail) = len ∧
        q.tail + len ≤ q.size ∧ (len < n → q.tail + len = q.size) := by
    refine ⟨_, rfl, ?_⟩
    split
    · rw [sub32_of_le (by omega) (by omega)]
      omega
    · rw [sub32_of_le (by omega) (by omega)]
      omega
  simp only [getArray, hlen]
  by_cases hlt : n < len
  · rw [if_pos hlt, sub32_of_le (Nat.le_refl _) (by omega), Nat.sub_self,
      if_neg (Nat.lt_irrefl 0), getRun_eq h n (by omega)]
  · rw [if_neg hlt, sub32_of_le (by omega) (by omega), getRun_eq h len hend]
    by_cases he : n = len
    · rw [he, Nat.sub_self, if_neg (Nat.lt_irrefl 0)]
    · have hw : (q.getAll len).2.WellFormed := getAll_snd h len ▸ h.advance len
      have htail : (q.getAll len).2.tail = (q.getAll len).2.size := by
        rw [getAll_snd h, size_advance, advance, hstop (by omega),
          Nat.mod_eq_of_lt (Nat.lt_succ_self _)]
      have hlast : (q.getAll n).2.tail ≤ q.size := getAll_snd h n ▸ (h.advance n).tail_le
      have hall := getAll_add q len (n - len)
      rw [Nat.add_sub_cancel' (by omega)] at hall
      rw [hall] at hlast
      have hsize : (q.getAll len).2.size = q.size := by rw [getAll_snd h, size_advance]
      rw [if_pos (by omega), getWrapped_zero hw htail (by omega) (by omega), hall]
      simp only [] at hlast ⊢
      rw [sub32_of_le (Nat.le_add_left _ _) (by omega), Nat.add_sub_cancel]

end CanDybug.Queue
