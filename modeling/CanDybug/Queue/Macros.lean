import CanDybug.Base.Ring
import CanDybug.Base.Words

/-!
# Circular queue macros

`App/queues.h:35–132`. A queue of capacity `size` has `size + 1` slots; `tail` and
`head` name the last slot read and the last slot written, so equal ends mean empty.
The indices are `uint32_t`; the buffer is memory from the queue's first slot on.
-/

namespace CanDybug

open Base

/-- A queue as `QUEUE_DEF` lays it out, `queues.h:35–46`. -/
structure Queue (α : Type) where
  size : Nat
  head : Nat
  tail : Nat
  buffer : Nat → α

namespace Queue

variable {α : Type}

/-- `QUEUE_FULL`, `queues.h:53–55`. -/
def full (q : Queue α) : Bool :=
  q.tail == u32 (q.head + 1) || (q.tail == 0 && q.head == q.size)

/-- `QUEUE_EMPTY`, `queues.h:62–63`. -/
def empty (q : Queue α) : Bool := q.tail == q.head

/-- `QUEUE_SPACE`, `queues.h:70–73`. -/
def space (q : Queue α) : Nat :=
  if q.tail > q.head then sub32 (sub32 q.tail q.head) 1
  else sub32 q.size (sub32 q.head q.tail)

/-- `QUEUE_GET`, `queues.h:80–83`: the tail moves on, and wraps past the last slot. -/
def get (q : Queue α) : α × Queue α :=
  if u32 (q.tail + 1) = u32 (q.size + 1) then (q.buffer 0, { q with tail := 0 })
  else (q.buffer (u32 (q.tail + 1)), { q with tail := u32 (q.tail + 1) })

/-- `QUEUE_PUT`, `queues.h:90–92`: the head moves on, and wraps past the last slot. -/
def put (q : Queue α) (element : α) : Queue α :=
  let head := if u32 (q.head + 1) = u32 (q.size + 1) then 0 else u32 (q.head + 1)
  { q with head, buffer := Function.update q.buffer head element }

/-- First loop of `QUEUE_GET_ARRAY`, `queues.h:105–106`: move the tail, then read. -/
def getRun (q : Queue α) : Nat → List α × Queue α
  | 0 => ([], q)
  | n + 1 =>
    let q := { q with tail := u32 (q.tail + 1) }
    let r := getRun q n
    (q.buffer q.tail :: r.1, r.2)

/-- Second loop of `QUEUE_GET_ARRAY`, `queues.h:109–110`: read, then move the tail. -/
def getWrapped (q : Queue α) : Nat → List α × Queue α
  | 0 => ([], q)
  | n + 1 =>
    let r := getWrapped { q with tail := u32 (q.tail + 1) } n
    (q.buffer q.tail :: r.1, r.2)

/-- `QUEUE_GET_ARRAY`, `queues.h:100–112`. -/
def getArray (q : Queue α) (n : Nat) : List α × Queue α :=
  let len := if q.tail < q.head then sub32 q.head q.tail else sub32 q.size q.tail
  let len := if n < len then n else len
  let len2 := sub32 n len
  let r := q.getRun len
  if len2 > 0 then
    let r' := { r.2 with tail := 0 }.getWrapped len2
    (r.1 ++ r'.1, { r'.2 with tail := sub32 r'.2.tail 1 })
  else r

/-- First loop of `QUEUE_PUT_ARRAY`, `queues.h:125–126`: move the head, then write. -/
def putRun (q : Queue α) : List α → Queue α
  | [] => q
  | x :: xs =>
    putRun { q with
      head := u32 (q.head + 1)
      buffer := Function.update q.buffer (u32 (q.head + 1)) x } xs

/-- Second loop of `QUEUE_PUT_ARRAY`, `queues.h:129–130`: write, then move the head. -/
def putWrapped (q : Queue α) : List α → Queue α
  | [] => q
  | x :: xs =>
    putWrapped { q with
      head := u32 (q.head + 1)
      buffer := Function.update q.buffer q.head x } xs

/-- `QUEUE_PUT_ARRAY`, `queues.h:120–132`; `SIZE` is the number of elements. -/
def putArray (q : Queue α) (elements : List α) : Queue α :=
  let len := if q.tail > q.head then sub32 (sub32 q.tail q.head) 1 else sub32 q.size q.head
  let len := if elements.length < len then elements.length else len
  let len2 := sub32 elements.length len
  let q := q.putRun (elements.take len)
  if len2 > 0 then
    let q := { q with head := 0 }.putWrapped (elements.drop len)
    { q with head := sub32 q.head 1 }
  else q

/-- `Q.head = Q.tail = 0`, the way the firmware empties a queue. -/
def reset (q : Queue α) : Queue α := { q with head := 0, tail := 0 }

end Queue

end CanDybug
