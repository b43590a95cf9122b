import CanDybug.Base.Refinement
import CanDybug.Queue.Arrays

/-!
# The macros as a bounded list

`App/queues.h:53–132` once more, as programs that record at which indices they access the
buffer. Each computes what the plain macro does. On a queue of any capacity, any sequence
of calls that respect what the macros themselves report is served as by a list of bounded
length, and stays inside the buffer.
-/

namespace CanDybug

open Base

/-- A queue and the indices at which its buffer has been accessed. -/
structure Traced (α : Type) where
  queue : Queue α
  accessed : List Nat

namespace Traced

variable {α β γ : Type}

/-- Programs over a queue. -/
abbrev Macro (α β : Type) := StateM (Traced α) β

/-- The queue as it is. -/
def current : Macro α (Queue α) := fun t ↦ (t.queue, t)

/-- `Q.buffer[i]`, read. -/
def load (i : Nat) : Macro α α := fun t ↦
  (t.queue.buffer i, { t with accessed := t.accessed ++ [i] })

/-- `Q.buffer[i] = x`. -/
def store (i : Nat) (x : α) : Macro α Unit := fun t ↦
  ((), {
    queue := { t.queue with buffer := Function.update t.queue.buffer i x }
    accessed := t.accessed ++ [i] })

/-- An assignment to `Q.tail`, and its value. -/
def setTail (f : Queue α → Nat) : Macro α Nat := fun t ↦
  (f t.queue, { t with queue := { t.queue with tail := f t.queue } })

/-- An assignment to `Q.head`, and its value. -/
def setHead (f : Queue α → Nat) : Macro α Nat := fun t ↦
  (f t.queue, { t with queue := { t.queue with head := f t.queue } })

/-- `QUEUE_GET`, `queues.h:80–83`. -/
def get : Macro α α := do
  let q ← current
  let tail ← setTail fun q ↦ u32 (q.tail + 1)
  if tail = u32 (q.size + 1) then
    let i ← setTail fun _ ↦ 0
    load i
  else load tail

/-- `QUEUE_PUT`, `queues.h:90–92`. -/
def put (element : α) : Macro α Unit := do
  let q ← current
  let head ← setHead fun q ↦ u32 (q.head + 1)
  if head = u32 (q.size + 1) then
    let i ← setHead fun _ ↦ 0
    store i element
  else store head element

/-- First loop of `QUEUE_GET_ARRAY`, `queues.h:105–106`. -/
def getRun : Nat → Macro α (List α)
  | 0 => return []
  | n + 1 => do
    let i ← setTail fun q ↦ u32 (q.tail + 1)
    let x ← load i
    let xs ← getRun n
    return x :: xs

/-- Second loop of `QUEUE_GET_ARRAY`, `queues.h:109–110`. -/
def getWrapped : Nat → Macro α (List α)
  | 0 => return []
  | n + 1 => do
    let q ← current
    let x ← load q.tail
    let _ ← setTail fun q ↦ u32 (q.tail + 1)
    let xs ← getWrapped n
    return x :: xs

/-- `QUEUE_GET_ARRAY`, `queues.h:100–112`. -/
def getArray (n : Nat) : Macro α (List α) := do
  let q ← current
  let len := if q.tail < q.head then sub32 q.head q.tail else sub32 q.size q.tail
  let len := if n < len then n else len
  let len2 := sub32 n len
  let xs ← getRun len
  if len2 > 0 then
    let _ ← setTail fun _ ↦ 0
    let ys ← getWrapped len2
    let _ ← setTail fun q ↦ sub32 q.tail 1
    return xs ++ ys
  else return xs

/-- First loop of `QUEUE_PUT_ARRAY`, `queues.h:125–126`. -/
def putRun : List α → Macro α Unit
  | [] => return ()
  | x :: xs => do
    let i ← setHead fun q ↦ u32 (q.head + 1)
    store i x
    putRun xs

/-- Second loop of `QUEUE_PUT_ARRAY`, `queues.h:129–130`. -/
def putWrapped : List α → Macro α Unit
  | [] => return ()
  | x :: xs => do
    let q ← current
    store q.head x
    let _ ← setHead fun q ↦ u32 (q.head + 1)
    putWrapped xs

/-- `QUEUE_PUT_ARRAY`, `queues.h:120–132`. -/
def putArray (elements : List α) : Macro α Unit := do
  let q ← current
  let len := if q.tail > q.head then sub32 (sub32 q.tail q.head) 1 else sub32 q.size q.head
  let len := if elements.length < len then elements.length else len
  let len2 := sub32 elements.length len
  putRun (elements.take len)
  if len2 > 0 then
    let _ ← setHead fun _ ↦ 0
    putWrapped (elements.drop len)
    let _ ← setHead fun q ↦ sub32 q.head 1
  else return ()

/-! ### Erasure of the record -/

/-- On `q` the macro gives the result and the queue `r`, and it accesses slots of the
buffer only. -/
def Computes (x : Macro α β) (q : Queue α) (r : β × Queue α) : Prop :=
  ∀ accessed, ∃ new, x ⟨q, accessed⟩ = (r.1, ⟨r.2, accessed ++ new⟩) ∧ ∀ i ∈ new, i ≤ q.size

theorem computes_pure (b : β) (q : Queue α) : Computes (pure b) q (b, q) := fun accessed ↦
  ⟨[], by rw [List.append_nil]; rfl, by simp⟩

theorem computes_current (q : Queue α) : Computes current q (q, q) := computes_pure q q

theorem computes_load {q : Queue α} {i : Nat} (h : i ≤ q.size) :
    Computes (load i) q (q.buffer i, q) := fun _ ↦ ⟨[i], rfl, by simpa using h⟩

theorem computes_store {q : Queue α} {i : Nat} (x : α) (h : i ≤ q.size) :
    Computes (store i x) q ((), { q with buffer := Function.update q.buffer i x }) :=
  fun _ ↦ ⟨[i], rfl, by simpa using h⟩

theorem computes_setTail (f : Queue α → Nat) (q : Queue α) :
    Computes (setTail f) q (f q, { q with tail := f q }) := fun accessed ↦
  ⟨[], by rw [List.append_nil]; rfl, by simp⟩

theorem computes_setHead (f : Queue α → Nat) (q : Queue α) :
    Computes (setHead f) q (f q, { q with head := f q }) := fun accessed ↦
  ⟨[], by rw [List.append_nil]; rfl, by simp⟩

/-- One macro after another on a buffer of the same size. -/
theorem Computes.bind {x : Macro α β} {f : β → Macro α γ} {q q' : Queue α} {b : β}
    {r : γ × Queue α} (hx : Computes x q (b, q')) (hs : q'.size = q.size)
    (hf : Computes (f b) q' r) : Computes (x >>= f) q r := by
  intro accessed
  obtain ⟨new, hn, hi⟩ := hx accessed
  obtain ⟨new', hn', hi'⟩ := hf (accessed ++ new)
  refine ⟨new ++ new', ?_, ?_⟩
  · change f (x ⟨q, accessed⟩).1 (x ⟨q, accessed⟩).2 = _
    rw [hn, hn', List.append_assoc]
  · intro i hm
    rcases List.mem_append.mp hm with hm | hm
    · exact hi i hm
    · exact hs ▸ hi' i hm

/-- What a macro computes, with its result written in another way. -/
theorem Computes.congr {x : Macro α β} {q : Queue α} {r r' : β × Queue α}
    (h : Computes x q r) (hr : r = r') : Computes x q r' := hr ▸ h

/-- `QUEUE_GET` reads a slot of the buffer. -/
theorem computes_get {q : Queue α} (h : q.WellFormed) : Computes get q q.get := by
  have ht := h.tail_le
  have hs := h.size_lt
  refine (computes_current q).bind rfl ((computes_setTail _ q).bind rfl ?_)
  unfold Queue.get
  split
  · exact (computes_setTail _ _).bind rfl (computes_load (Nat.zero_le _))
  · next hne =>
    rw [u32_of_lt (n := q.tail + 1) (by omega), u32_of_lt hs] at hne
    apply computes_load (q := { q with tail := _ })
    rw [u32_of_lt (by omega)]
    simp only []
    omega

/-- `QUEUE_PUT` writes a slot of the buffer. -/
theorem computes_put {q : Queue α} (h : q.WellFormed) (x : α) :
    Computes (put x) q ((), q.put x) := by
  have hh := h.head_le
  have hs := h.size_lt
  refine (computes_current q).bind rfl ((computes_setHead _ q).bind rfl ?_)
  unfold Queue.put
  split
  · exact (computes_setHead _ _).bind rfl (computes_store x (Nat.zero_le _))
  · next hne =>
    rw [u32_of_lt (n := q.head + 1) (by omega), u32_of_lt hs] at hne
    apply computes_store (q := { q with head := _ }) x
    rw [u32_of_lt (by omega)]
    simp only []
    omega

@[simp] private theorem size_getRun (q : Queue α) (n : Nat) : (q.getRun n).2.size = q.size := by
  induction n generalizing q with
  | zero => rfl
  | succ n ih => exact ih _

@[simp] private theorem size_getWrapped (q : Queue α) (n : Nat) :
    (q.getWrapped n).2.size = q.size := by
  induction n generalizing q with
  | zero => rfl
  | succ n ih => exact ih _

private theorem computes_getRun {q : Queue α} (hs : q.size + 1 < 4294967296) {n : Nat}
    (hn : q.tail + n ≤ q.size) : Computes (getRun n) q (q.getRun n) := by
  induction n generalizing q with
  | zero => exact computes_pure [] q
  | succ n ih =>
    have ht : u32 (q.tail + 1) = q.tail + 1 := u32_of_lt (by omega)
    refine (computes_setTail _ q).bind rfl ((computes_load ?_).bind rfl ?_)
    · simp only [ht]
      omega
    · refine (ih (q := { q with tail := u32 (q.tail + 1) }) hs ?_).bind (size_getRun _ n)
        (computes_pure _ _)
      simp only [ht]
      omega

private theorem computes_getWrapped {q : Queue α} (hs : q.size + 1 < 4294967296) {n : Nat}
    (hn : q.tail + n ≤ q.size + 1) : Computes (getWrapped n) q (q.getWrapped n) := by
  induction n generalizing q with
  | zero => exact computes_pure [] q
  | succ n ih =>
    have ht : u32 (q.tail + 1) = q.tail + 1 := u32_of_lt (by omega)
    refine (computes_current q).bind rfl ((computes_load (by omega)).bind rfl ?_)
    refine (computes_setTail _ q).bind rfl ?_
    refine (ih (q := { q with tail := u32 (q.tail + 1) }) hs ?_).bind (size_getWrapped _ n)
      (computes_pure _ _)
    simp only [ht]
    omega

/-- `QUEUE_GET_ARRAY` of stored elements reads slots of the buffer. -/
theorem computes_getArray {q : Queue α} (h : q.WellFormed) {n : Nat} (hn : n ≤ q.count) :
    Computes (getArray n) q (q.getArray n) := by
  have hh := h.head_le
  have ht := h.tail_le
  have hs := h.size_lt
  have hc := Queue.count_le h
  have hlen : q.tail + (if q.tail < q.head then sub32 q.head q.tail else sub32 q.size q.tail) ≤
      q.size := by
    split
    · rw [sub32_of_le (by omega) (by omega)]
      omega
    · rw [sub32_of_le (by omega) (by omega)]
      omega
  apply (computes_current q).bind rfl
  unfold Queue.getArray
  simp only []
  generalize (if q.tail < q.head then sub32 q.head q.tail else sub32 q.size q.tail) = len at hlen ⊢
  have hle : (if n < len then n else len) ≤ n ∧ (if n < len then n else len) ≤ len := by
    split <;> omega
  generalize (if n < len then n else len) = len' at hle ⊢
  apply (computes_getRun hs (by omega)).bind (size_getRun q len')
  rw [sub32_of_le hle.1 (by omega)]
  split
  · apply (computes_setTail _ _).bind rfl
    refine (computes_getWrapped ?_ ?_).bind (size_getWrapped _ _) ?_
    · simpa using hs
    · simp only [size_getRun]
      omega
    · exact (computes_setTail _ _).bind rfl (computes_pure _ _)
  · exact computes_pure _ _

@[simp] private theorem size_putRun (q : Queue α) (xs : List α) : (q.putRun xs).size = q.size := by
  induction xs generalizing q with
  | nil => rfl
  | cons x xs ih => exact ih _

@[simp] private theorem size_putWrapped (q : Queue α) (xs : List α) :
    (q.putWrapped xs).size = q.size := by
  induction xs generalizing q with
  | nil => rfl
  | cons x xs ih => exact ih _

private theorem computes_putRun {q : Queue α} (hs : q.size + 1 < 4294967296) {xs : List α}
    (hn : q.head + xs.length ≤ q.size) : Computes (putRun xs) q ((), q.putRun xs) := by
  induction xs generalizing q with
  | nil => exact computes_pure () q
  | cons x xs ih =>
    rw [List.length_cons] at hn
    have ht : u32 (q.head + 1) = q.head + 1 := u32_of_lt (by omega)
    refine (computes_setHead _ q).bind rfl ((computes_store x ?_).bind rfl ?_)
    · simp only [ht]
      omega
    · apply ih
      · exact hs
      · simp only [ht]
        omega

private theorem computes_putWrapped {q : Queue α} (hs : q.size + 1 < 4294967296) {xs : List α}
    (hn : q.head + xs.length ≤ q.size + 1) :
    Computes (putWrapped xs) q ((), q.putWrapped xs) := by
  induction xs generalizing q with
  | nil => exact computes_pure () q
  | cons x xs ih =>
    rw [List.length_cons] at hn
    have ht : u32 (q.head + 1) = q.head + 1 := u32_of_lt (by omega)
    refine (computes_current q).bind rfl ((computes_store x (by omega)).bind rfl ?_)
    apply (computes_setHead _ _).bind rfl
    apply ih
    · exact hs
    · simp only [ht]
      omega

/-- `QUEUE_PUT_ARRAY` of elements that fit writes slots of the buffer. -/
theorem computes_putArray {q : Queue α} (h : q.WellFormed) {xs : List α}
    (hx : xs.length ≤ q.space) : Computes (putArray xs) q ((), q.putArray xs) := by
  have hh := h.head_le
  have ht := h.tail_le
  have hs := h.size_lt
  have hsp := Queue.space_eq h
  have hlen : q.head + (if q.tail > q.head then sub32 (sub32 q.tail q.head) 1
      else sub32 q.size q.head) ≤ q.size := by
    split
    · rw [sub32_of_le (a := q.tail) (by omega) (by omega), sub32_of_le (by omega) (by omega)]
      omega
    · rw [sub32_of_le (by omega) (by omega)]
      omega
  apply (computes_current q).bind rfl
  unfold Queue.putArray
  simp only []
  generalize (if q.tail > q.head then sub32 (sub32 q.tail q.head) 1
    else sub32 q.size q.head) = len at hlen ⊢
  have hle : (if xs.length < len then xs.length else len) ≤ xs.length ∧
      (if xs.length < len then xs.length else len) ≤ len := by
    split <;> omega
  generalize (if xs.length < len then xs.length else len) = len' at hle ⊢
  refine (computes_putRun hs ?_).bind (size_putRun q _) ?_
  · rw [List.length_take]
    omega
  · rw [sub32_of_le hle.1 (by omega)]
    split
    · apply (computes_setHead _ _).bind rfl
      refine (computes_putWrapped ?_ ?_).bind (size_putWrapped _ _) ?_
      · simpa using hs
      · simp only [size_putRun, List.length_drop]
        omega
      · exact (computes_setHead _ _).bind rfl (computes_pure _ _)
    · exact computes_pure _ _

end Traced

/-! ### A list of bounded length -/

/-- Calls of the macros on a queue. -/
inductive QueueCall (α : Type) where
  | put (x : α)
  | get
  | putArray (xs : List α)
  | getArray (n : Nat)

namespace QueueCall

variable {α : Type}

/-- The call on a queue, and the elements it reads. -/
def onQueue : QueueCall α → Traced α → List α × Traced α
  | put x, t => ([], (Traced.put x t).2)
  | get, t => ([(Traced.get t).1], (Traced.get t).2)
  | putArray xs, t => ([], (Traced.putArray xs t).2)
  | getArray n, t => Traced.getArray n t

/-- The call on a list: puts append, gets take from the front. -/
def onList : QueueCall α → List α → List α × List α
  | put x, l => ([], l ++ [x])
  | get, l => (l.take 1, l.drop 1)
  | putArray xs, l => ([], l ++ xs)
  | getArray n, l => (l.take n, l.drop n)

/-- Where a call may be made: as the macros report, and for at most what is stored. -/
def MayServe : QueueCall α → Traced α → List α → Prop
  | put _, t, _ => t.queue.full = false
  | get, t, _ => t.queue.empty = false
  | putArray xs, t, _ => xs.length ≤ t.queue.space
  | getArray n, _, l => n ≤ l.length

instance decidableMayServe : (k : QueueCall α) → (t : Traced α) → (l : List α) →
    Decidable (k.MayServe t l)
  | put _, _, _ | get, _, _ => inferInstanceAs (Decidable (_ = false))
  | putArray _, _, _ | getArray _, _, _ => inferInstanceAs (Decidable (_ ≤ _))

end QueueCall

/-- A queue of this capacity stores the list, and only its buffer has been accessed. -/
structure Stored {α : Type} (capacity : Nat) (t : Traced α) (l : List α) : Prop where
  wellFormed : t.queue.WellFormed
  size : t.queue.size = capacity
  contents : t.queue.contents = l
  inside : ∀ i ∈ t.accessed, i ≤ capacity

namespace Stored

variable {α : Type} {capacity : Nat} {t : Traced α} {l : List α}

theorem count (h : Stored capacity t l) : t.queue.count = l.length := by
  rw [← h.contents, Queue.length_contents]

/-- A macro leads to a queue that stores what its plain form leaves. -/
theorem computes {β : Type} (h : Stored capacity t l) {x : Traced.Macro α β}
    {r : β × Queue α} (hx : Traced.Computes x t.queue r) (hw : r.2.WellFormed)
    (hs : r.2.size = capacity) : (x t).1 = r.1 ∧ Stored capacity (x t).2 r.2.contents := by
  obtain ⟨new, hn, hi⟩ := hx t.accessed
  rw [show x t = _ from hn]
  refine ⟨rfl, hw, hs, rfl, fun i hm ↦ ?_⟩
  rcases List.mem_append.mp hm with hm | hm
  · exact h.inside i hm
  · exact h.size ▸ hi i hm

/-- What the macros report about what is stored. -/
theorem reports (h : Stored capacity t l) :
    t.queue.space = capacity - l.length ∧ (t.queue.full = true ↔ t.queue.space = 0) ∧
      (t.queue.empty = true ↔ l = []) :=
  ⟨by rw [Queue.space_eq h.wellFormed, h.size, h.count], Queue.full_iff h.wellFormed,
    by rw [Queue.empty_iff h.wellFormed, h.contents]⟩

end Stored

/-- The macros refine the list. -/
theorem queue_refines {α : Type} (capacity : Nat) :
    Refines (QueueCall.onQueue (α := α)) QueueCall.onList QueueCall.MayServe
      (Stored capacity) := by
  intro k t l h hg
  have hq := h.wellFormed
  have hc := h.count
  have hsz := h.size
  have hsp := h.reports.1
  cases k with
  | put x =>
    have hfree : t.queue.count < t.queue.size := by
      have hne := mt (Queue.full_iff hq).mpr (Bool.eq_false_iff.mp hg)
      omega
    have hp := h.computes (Traced.computes_put hq x) (hq.put x) hsz
    rw [Queue.contents_put hq hfree, h.contents] at hp
    exact ⟨rfl, hp.2⟩
  | get =>
    have hpos := Queue.count_pos hq hg
    have hr := h.computes (Traced.computes_get hq) hq.get ((Queue.size_get _).trans hsz)
    have hl := h.contents.symm.trans (Queue.contents_get hq hpos)
    change [(Traced.get t).1] = l.take 1 ∧ Stored capacity (Traced.get t).2 (l.drop 1)
    rw [hr.1, hl]
    exact ⟨rfl, hr.2⟩
  | putArray xs =>
    have hx : xs.length ≤ t.queue.space := hg
    have he := Queue.putArray_eq hq xs hx
    have hp := h.computes (Traced.computes_putArray hq hx) (by rw [he]; exact hq.putAll xs)
      (by rw [he, Queue.size_putAll, hsz])
    have hle := Queue.count_le hq
    rw [he, Queue.contents_putAll hq xs (by omega), h.contents] at hp
    exact ⟨rfl, hp.2⟩
  | getArray n =>
    have hn : n ≤ t.queue.count := hc ▸ hg
    have he := Queue.getArray_eq hq hn
    have ha := Queue.getAll_snd hq n
    have hr := h.computes (Traced.computes_getArray hq hn) (by rw [he, ha]; exact hq.advance n)
      (by rw [he, ha, Queue.size_advance, hsz])
    have hl := h.contents.symm.trans (Queue.contents_getAll hq hn)
    have hlen := Queue.length_getAll t.queue n
    rw [he] at hr
    change (Traced.getArray n t).1 = l.take n ∧
      Stored capacity (Traced.getArray n t).2 (l.drop n)
    rw [hr.1, hl, List.take_left' hlen, List.drop_left' hlen]
    exact ⟨rfl, hr.2⟩

/-- A queue of any capacity, served by any calls that respect what the macros report, is a
list: gets return what was put, in order. Its ends and all accesses stay inside the buffer,
the macros report what is stored, and the array forms are as many single ones. -/
theorem queue_isFifo {α : Type} (capacity : Nat) (hc : capacity + 1 < 4294967296)
    (buffer : Nat → α) (calls : List (QueueCall α))
    (may : Allowed QueueCall.onQueue QueueCall.onList QueueCall.MayServe calls
      ⟨⟨capacity, 0, 0, buffer⟩, []⟩ []) (t : Traced α) (l : List α)
    (ht : t = (serve QueueCall.onQueue calls ⟨⟨capacity, 0, 0, buffer⟩, []⟩).2)
    (hl : l = (serve QueueCall.onList calls []).2) :
    (serve QueueCall.onQueue calls ⟨⟨capacity, 0, 0, buffer⟩, []⟩).1 =
        (serve QueueCall.onList calls []).1 ∧
      t.queue.contents = l ∧ t.queue.head ≤ capacity ∧ t.queue.tail ≤ capacity ∧
      (∀ i ∈ t.accessed, i ≤ capacity) ∧ t.queue.space = capacity - l.length ∧
      (t.queue.full = true ↔ t.queue.space = 0) ∧ (t.queue.empty = true ↔ l = []) ∧
      (∀ xs : List α, xs.length ≤ t.queue.space → t.queue.putArray xs = t.queue.putAll xs) ∧
      ∀ n, n ≤ l.length → t.queue.getArray n = t.queue.getAll n := by
  have start : Stored capacity (⟨⟨capacity, 0, 0, buffer⟩, []⟩ : Traced α) [] :=
    ⟨⟨Nat.zero_le _, Nat.zero_le _, hc⟩, rfl, rfl, by simp⟩
  obtain ⟨hres, h⟩ := (queue_refines capacity).serve start may
  subst ht hl
  obtain ⟨hspace, hfull, hempty⟩ := h.reports
  have hq := h.wellFormed
  refine ⟨hres, h.contents, ?_, ?_, h.inside, hspace, hfull, hempty, ?_, ?_⟩
  · exact hq.head_le.trans_eq h.size
  · exact hq.tail_le.trans_eq h.size
  · exact fun xs hx ↦ Queue.putArray_eq hq xs hx
  · exact fun n hn ↦ Queue.getArray_eq hq (h.count ▸ hn)

/-- A queue of three slots and one is filled, half emptied and filled again past its end,
and then read in one piece across it. -/
theorem queue_isFifo_wrapped :
    (serve QueueCall.onQueue [.putArray [1, 2], .get, .put 3, .put 4, .getArray 3, .put 5]
        ⟨⟨3, 0, 0, fun _ ↦ 0⟩, []⟩).1 = [[], [1], [], [], [2, 3, 4], []] ∧
      (serve QueueCall.onQueue [.putArray [1, 2], .get, .put 3, .put 4, .getArray 3, .put 5]
        (⟨⟨3, 0, 0, fun _ ↦ 0⟩, []⟩ : Traced Nat)).2.queue.contents = [5] := by
  have h := queue_isFifo 3 (by decide) (fun _ ↦ 0)
    [.putArray [1, 2], .get, .put 3, .put 4, .getArray 3, .put 5]
    (by decide +kernel) _ _ rfl rfl
  exact ⟨h.1, h.2.1⟩

end CanDybug
