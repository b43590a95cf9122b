import CanDybug.Queue.Fifo

/-!
# The IN pipe

`CanIf_SendInData` and `CanIf_AddMessage`, `App/can_if.c:199–246`, over the queue
`CanIf_IN`. What `USBD_CDC_Transmit` answers is a parameter of each call. The pipe is a
stream: the regions it hands over, and then what is still queued, are the messages it
took, each behind its length byte.
-/

namespace CanDybug

open Base

/-- A region of a buffer that the USB library is asked to send or to fill. -/
structure Region where
  start : Nat
  length : Nat
  deriving DecidableEq

/-- Bytes of a region. -/
def Region.bytes (g : Region) (buffer : Nat → UInt8) : List UInt8 :=
  cells buffer g.start g.length

/-- `CanIf_SendInData`, `can_if.c:199–230`: the region offered, if any, and the queue. -/
def canIfSendInData (accept : Bool) (q : Queue UInt8) : Option Region × Queue UInt8 :=
  if q.tail ≠ q.head then
    let (start, newtail, length) :=
      if q.tail = q.size then
        let length := u32 (q.head + 1)
        (0, sub32 length 1, length)
      else
        let length := if q.tail < q.head then sub32 q.head q.tail else sub32 q.size q.tail
        (u32 (q.tail + 1), u32 (q.tail + length), length)
    (some ⟨start, length⟩, if accept then { q with tail := newtail } else q)
  else (none, q)

/-- `CanIf_AddMessage`, `can_if.c:237–246`. -/
def canIfAddMessage (accept : Bool) (msg : List UInt8) (q : Queue UInt8) :
    Option Region × Queue UInt8 :=
  if q.space > msg.length then
    canIfSendInData accept ((q.put (.ofNat (msg.length + 1))).putArray msg)
  else (none, q)

/-- A message as it enters the stream. -/
def encode (msg : List UInt8) : List UInt8 := .ofNat (msg.length + 1) :: msg

@[simp] theorem length_encode (msg : List UInt8) : (encode msg).length = msg.length + 1 := rfl

/-! ### Handing over a region -/

theorem sendInData_empty {q : Queue UInt8} (h : q.tail = q.head) (accept : Bool) :
    canIfSendInData accept q = (none, q) := by
  rw [canIfSendInData, if_neg (not_not_intro h)]

/-- The region offered by a nonempty queue: the slots after the tail, up to the head or to
the end of the buffer. -/
structure Offered (q : Queue UInt8) (g : Region) : Prop where
  length_pos : 0 < g.length
  length_le : g.length ≤ q.count
  start_eq : g.start = (q.tail + 1) % (q.size + 1)
  inside : g.start + g.length ≤ q.size + 1
  toHeadOrEnd : g.length = q.count ∨ q.tail + g.length = q.size

/-- A nonempty queue offers a region, and drops its bytes if it is accepted. -/
theorem sendInData_spec {q : Queue UInt8} (hq : q.WellFormed) (h : q.tail ≠ q.head) :
    ∃ g, Offered q g ∧ ∀ accept,
      canIfSendInData accept q = (some g, if accept then q.advance g.length else q) := by
  have hh := hq.head_le
  have ht := hq.tail_le
  have hs := hq.size_lt
  by_cases he : q.tail = q.size
  · refine ⟨⟨0, q.head + 1⟩, ⟨by simp, ?_, ?_, by simp; omega, .inl ?_⟩, fun accept ↦ ?_⟩
    · simp only [Queue.count]
      split <;> omega
    · simp [he]
    · simp only [Queue.count]
      split <;> omega
    · rw [canIfSendInData, if_pos h, if_pos he]
      simp only [u32_of_lt (show q.head + 1 < 4294967296 by omega),
        sub32_of_le (Nat.le_add_left 1 q.head) (show q.head + 1 < 4294967296 by omega)]
      have hm : (q.tail + (q.head + 1)) % (q.size + 1) = q.head := by
        rw [he, mod_eq_sub (by omega)]
        split <;> omega
      simp [Queue.advance, hm]
  · -- The length does not reach over the end of the buffer, so nothing wraps.
    obtain ⟨n, hn, hpos, hend, hcount, hstop⟩ : ∃ n,
        (if q.tail < q.head then sub32 q.head q.tail else sub32 q.size q.tail) = n ∧ 0 < n ∧
          q.tail + n ≤ q.size ∧ n ≤ q.count ∧ (n = q.count ∨ q.tail + n = q.size) := by
      refine ⟨_, rfl, ?_⟩
      simp only [Queue.count]
      split
      · rw [sub32_of_le (by omega) (by omega), if_pos (by omega)]
        omega
      · rw [sub32_of_le (by omega) (by omega), if_neg (by omega)]
        omega
    have hin : q.tail + 1 + n ≤ q.size + 1 := by omega
    refine ⟨⟨q.tail + 1, n⟩, ⟨hpos, hcount, ?_, hin, hstop⟩, fun accept ↦ ?_⟩
    · change q.tail + 1 = _
      exact (Nat.mod_eq_of_lt (by omega)).symm
    · rw [canIfSendInData, if_pos h, if_neg he]
      simp only [hn, u32_of_lt (show q.tail + 1 < 4294967296 by omega),
        u32_of_lt (show q.tail + n < 4294967296 by omega), Queue.advance,
        Nat.mod_eq_of_lt (show q.tail + n < q.size + 1 by omega)]

/-- The bytes of the region offered are the oldest bytes queued. -/
theorem Offered.contents {q : Queue UInt8} {g : Region} (h : Offered q g) (hq : q.WellFormed) :
    q.contents = g.bytes q.buffer ++ (q.advance g.length).contents := by
  rw [Queue.contents_advance hq h.length_le, Region.bytes, ← ringCells_mod, ← h.start_eq,
    ringCells_eq_cells _ _ _ _ h.inside]

theorem sendInData_wellFormed {q : Queue UInt8} (hq : q.WellFormed) (accept : Bool) :
    (canIfSendInData accept q).2.WellFormed ∧ (canIfSendInData accept q).2.size = q.size ∧
      (canIfSendInData accept q).2.buffer = q.buffer := by
  by_cases h : q.tail = q.head
  · rw [sendInData_empty h]
    exact ⟨hq, rfl, rfl⟩
  · obtain ⟨g, -, he⟩ := sendInData_spec hq h
    rw [he]
    cases accept
    · exact ⟨hq, rfl, rfl⟩
    · exact ⟨hq.advance _, rfl, rfl⟩

/-! ### Adding a message -/

/-- The queue after the bytes of a message have been put. -/
def appended (q : Queue UInt8) (msg : List UInt8) : Queue UInt8 := q.putAll (encode msg)

/-- A message that fits is appended behind its length byte, and sending goes on. -/
theorem addMessage_fits {q : Queue UInt8} (hq : q.WellFormed) {msg : List UInt8}
    (h : msg.length + 1 ≤ q.size - q.count) (accept : Bool) :
    canIfAddMessage accept msg q = canIfSendInData accept (appended q msg) := by
  have hsp := Queue.space_eq hq
  have hput := Queue.space_put hq (x := .ofNat (msg.length + 1)) (by omega)
  rw [canIfAddMessage, if_pos (by omega), Queue.putArray_eq (hq.put _) _ (by omega)]
  rfl

/-- A message that does not fit is dropped whole. -/
theorem addMessage_full {q : Queue UInt8} (hq : q.WellFormed) {msg : List UInt8}
    (h : ¬ msg.length + 1 ≤ q.size - q.count) (accept : Bool) :
    canIfAddMessage accept msg q = (none, q) := by
  rw [canIfAddMessage, if_neg (by rw [Queue.space_eq hq]; omega)]

theorem appended_contents {q : Queue UInt8} (hq : q.WellFormed) {msg : List UInt8}
    (h : msg.length + 1 ≤ q.size - q.count) :
    (appended q msg).contents = q.contents ++ encode msg :=
  Queue.contents_putAll hq _ (by
    have := Queue.count_le hq
    rw [length_encode]
    omega)

/-! ### The stream -/

/-- `CANIF_IN_DATA_SIZE`, `can_if.h:34`. -/
def canifInDataSize : Nat := 256

/-- A call that reaches the pipe; `accept` is what `USBD_CDC_Transmit` answers if it is
called in turn. -/
inductive InCall where
  | addMessage (msg : List UInt8) (accept : Bool)
  | epInComplete (accept : Bool)

namespace InCall

/-- What a call does: the region it offers, if any, and the queue it leaves. -/
def run : InCall → Queue UInt8 → Option Region × Queue UInt8
  | addMessage msg accept, q => canIfAddMessage accept msg q
  | epInComplete accept, q => canIfSendInData accept q

/-- The message a call finds room for: its bytes and one more are free. -/
def takes : InCall → Queue UInt8 → List (List UInt8)
  | addMessage msg _, q => if msg.length + 1 ≤ q.size - q.contents.length then [msg] else []
  | epInComplete _, _ => []

/-- What `USBD_CDC_Transmit` answers. -/
def accept : InCall → Bool
  | addMessage _ accept => accept
  | epInComplete accept => accept

/-- The bytes a call hands over, as they stand when `USBD_CDC_Transmit` accepts them. -/
def sends (c : InCall) (q : Queue UInt8) : List UInt8 :=
  if c.accept then (c.run q).1.toList.flatMap (·.bytes (c.run q).2.buffer) else []

end InCall

/-- The pipe since it was last opened: its queue, the messages it took, the regions it
offered and the bytes that were accepted. -/
structure InStream where
  queue : Queue UInt8
  taken : List (List UInt8)
  offered : List Region
  sent : List UInt8

namespace InStream

/-- Both ends are zero after `CanIf_Open`; the buffer is as it was. -/
def opened (buffer : Nat → UInt8) : InStream := ⟨⟨canifInDataSize, 0, 0, buffer⟩, [], [], []⟩

/-- One call. -/
def step (p : InStream) (c : InCall) : InStream where
  queue := (c.run p.queue).2
  taken := p.taken ++ c.takes p.queue
  offered := p.offered ++ (c.run p.queue).1.toList
  sent := p.sent ++ c.sends p.queue

/-- Any sequence of calls. -/
def run (p : InStream) (calls : List InCall) : InStream := calls.foldl step p

/-- Invariant of the pipe between calls. -/
structure Valid (p : InStream) : Prop where
  wellFormed : p.queue.WellFormed
  size : p.queue.size = canifInDataSize
  regions : ∀ g ∈ p.offered, 0 < g.length ∧ g.start + g.length ≤ canifInDataSize + 1
  stream : p.sent ++ p.queue.contents = p.taken.flatMap encode

end InStream

/-- A call that offers the region `g` hands over its bytes if it is accepted; what it
leaves is the rest. -/
private theorem sends_send {q : Queue UInt8} (hq : q.WellFormed) (accept : Bool) :
    (InCall.epInComplete accept).sends q ++ (canIfSendInData accept q).2.contents =
      q.contents := by
  by_cases h : q.tail = q.head
  · simp [InCall.sends, InCall.run, sendInData_empty h]
  · obtain ⟨g, hg, he⟩ := sendInData_spec hq h
    cases accept
    · simp [InCall.sends, InCall.accept, he]
    · simp only [InCall.sends, InCall.run, InCall.accept, he, if_true, Option.toList_some,
        List.flatMap_singleton]
      exact (hg.contents hq).symm

/-- The message is taken whole, and the stream goes on with it. -/
theorem addMessage_taken {q : Queue UInt8} (hq : q.WellFormed) {msg : List UInt8}
    (h : msg.length + 1 ≤ q.size - q.contents.length) (accept : Bool) :
    (InCall.addMessage msg accept).sends q ++ (canIfAddMessage accept msg q).2.contents =
      q.contents ++ encode msg := by
  rw [Queue.length_contents] at h
  have hs := sends_send (q := appended q msg) (hq.putAll _) accept
  have ha := addMessage_fits hq h accept
  rw [← appended_contents hq h, ← hs, InCall.sends, InCall.run, ha]
  rfl

private theorem offered_send {q : Queue UInt8} (hq : q.WellFormed) (accept : Bool) :
    ∀ g ∈ (canIfSendInData accept q).1.toList, 0 < g.length ∧ g.start + g.length ≤ q.size + 1 := by
  by_cases h : q.tail = q.head
  · simp [sendInData_empty h]
  · obtain ⟨g, hg, he⟩ := sendInData_spec hq h
    simpa [he] using ⟨hg.length_pos, hg.inside⟩

/-- One call keeps the invariant. -/
theorem InStream.Valid.step {p : InStream} (h : p.Valid) (c : InCall) : (p.step c).Valid := by
  have hq := h.wellFormed
  have hsz := h.size
  -- What `CanIf_SendInData` does is the same for both callers.
  have send (q : Queue UInt8) (hq : q.WellFormed) (hsz : q.size = canifInDataSize)
      (accept : Bool) : (canIfSendInData accept q).2.WellFormed ∧
        (canIfSendInData accept q).2.size = canifInDataSize ∧
        ∀ g ∈ (canIfSendInData accept q).1.toList,
          0 < g.length ∧ g.start + g.length ≤ canifInDataSize + 1 := by
    obtain ⟨hw, hs, -⟩ := sendInData_wellFormed hq accept
    exact ⟨hw, hs.trans hsz, hsz ▸ offered_send hq accept⟩
  cases c with
  | epInComplete accept =>
    obtain ⟨hw, hs, ho⟩ := send p.queue hq hsz accept
    refine ⟨hw, hs, ?_, ?_⟩
    · intro g hg
      exact (List.mem_append.mp hg).elim (h.regions g) (ho g)
    · change (p.sent ++ _) ++ _ = (p.taken ++ []).flatMap encode
      rw [List.append_nil, ← h.stream, List.append_assoc]
      exact congrArg _ (sends_send hq accept)
  | addMessage msg accept =>
    by_cases hf : msg.length + 1 ≤ p.queue.size - p.queue.contents.length
    · have ha := addMessage_fits hq (Queue.length_contents p.queue ▸ hf) accept
      obtain ⟨hw, hs, ho⟩ := send (appended p.queue msg) (hq.putAll _)
        ((Queue.size_putAll _ _).trans hsz) accept
      rw [← ha] at hw hs ho
      refine ⟨hw, hs, ?_, ?_⟩
      · intro g hg
        exact (List.mem_append.mp hg).elim (h.regions g) (ho g)
      · have ht : (InCall.addMessage msg accept).takes p.queue = [msg] := if_pos hf
        change (p.sent ++ _) ++ _ = (p.taken ++ (InCall.addMessage msg accept).takes _).flatMap _
        rw [ht, List.flatMap_append, ← h.stream, List.append_assoc, List.append_assoc]
        rw [List.flatMap_singleton]
        exact congrArg _ (addMessage_taken hq hf accept)
    · have ha := addMessage_full hq (Queue.length_contents p.queue ▸ hf) accept
      have ht : (InCall.addMessage msg accept).takes p.queue = [] := if_neg hf
      have hr : (InCall.addMessage msg accept).run p.queue = (none, p.queue) := ha
      have hn : (InCall.addMessage msg accept).sends p.queue = [] := by
        simp [InCall.sends, hr]
      have he : p.step (.addMessage msg accept) = p := by
        simp [InStream.step, hr, ht, hn]
      rwa [he]

/-- Any sequence of calls keeps the invariant. -/
theorem InStream.Valid.run {p : InStream} (h : p.Valid) (calls : List InCall) :
    (p.run calls).Valid := by
  induction calls generalizing p with
  | nil => exact h
  | cons c calls ih => exact ih (h.step c)

theorem InStream.valid_opened (buffer : Nat → UInt8) : (InStream.opened buffer).Valid where
  wellFormed := ⟨Nat.zero_le _, Nat.zero_le _, (by decide : canifInDataSize + 1 < 4294967296)⟩
  size := rfl
  regions := by simp [opened]
  stream := rfl

/-- Completions whose transmissions are answered as listed, and no messages in between. -/
def drain (q : Queue UInt8) (answers : List Bool) : Queue UInt8 :=
  answers.foldl (fun q accept ↦ (canIfSendInData accept q).2) q

private theorem drain_empty {q : Queue UInt8} (hq : q.WellFormed) (h : q.contents = [])
    (answers : List Bool) : (drain q answers).contents = [] := by
  have he : q.tail = q.head := by simpa [Queue.empty] using (Queue.empty_iff hq).mpr h
  have hd : drain q answers = q := by
    induction answers with
    | nil => rfl
    | cons a answers ih =>
      rw [drain, List.foldl_cons, sendInData_empty he]
      exact ih
  rwa [hd]

-- After the part up to the end of the buffer only the part from its beginning is left.
private theorem drain_last {q : Queue UInt8} (hq : q.WellFormed) (ht : q.tail = q.size)
    (answers : List Bool) (h : 1 ≤ answers.count true) : (drain q answers).contents = [] := by
  induction answers with
  | nil => simp at h
  | cons a answers ih =>
    by_cases hn : q.tail = q.head
    · exact drain_empty hq ((Queue.empty_iff hq).mp (by simp [Queue.empty, hn])) _
    · obtain ⟨g, hg, he⟩ := sendInData_spec hq hn
      rw [drain, List.foldl_cons, he]
      cases a
      · exact ih (by simpa using h)
      · refine drain_empty (hq.advance _) ?_ answers
        have hlen := hg.toHeadOrEnd.resolve_right (by have := hg.length_pos; omega)
        rw [← List.length_eq_zero_iff, Queue.length_contents, Queue.count_advance hq hg.length_le]
        omega

private theorem drain_twice {q : Queue UInt8} (hq : q.WellFormed) (answers : List Bool)
    (h : 2 ≤ answers.count true) : (drain q answers).contents = [] := by
  induction answers with
  | nil => simp at h
  | cons a answers ih =>
    by_cases hn : q.tail = q.head
    · exact drain_empty hq ((Queue.empty_iff hq).mp (by simp [Queue.empty, hn])) _
    · obtain ⟨g, hg, he⟩ := sendInData_spec hq hn
      rw [drain, List.foldl_cons, he]
      cases a
      · exact ih (by simpa using h)
      · rcases hg.toHeadOrEnd with hlen | hend
        · refine drain_empty (hq.advance _) ?_ answers
          rw [← List.length_eq_zero_iff, Queue.length_contents,
            Queue.count_advance hq hg.length_le]
          omega
        · refine drain_last (hq.advance _) ?_ answers (by simpa using h)
          change (q.tail + g.length) % (q.size + 1) = q.size
          rw [hend, Nat.mod_eq_of_lt (Nat.lt_succ_self _)]

/-- The IN stream keeps its integrity, however messages, completions and the answers of
`USBD_CDC_Transmit` follow each other: a message is taken whole when it and its length
byte fit, and else nothing changes; regions are not empty and inside the buffer; accepted
bytes and queued bytes are the taken messages; two accepted transmissions drain the queue. -/
theorem canIfIn_stream (buffer : Nat → UInt8) (calls : List InCall) :
    let p := (InStream.opened buffer).run calls
    (∀ msg accept,
      if msg.length + 1 ≤ canifInDataSize - p.queue.contents.length then
        (InCall.addMessage msg accept).sends p.queue ++
          (canIfAddMessage accept msg p.queue).2.contents = p.queue.contents ++ encode msg
      else canIfAddMessage accept msg p.queue = (none, p.queue)) ∧
    (∀ g ∈ p.offered, 0 < g.length ∧ g.start + g.length ≤ canifInDataSize + 1) ∧
    p.sent ++ p.queue.contents = p.taken.flatMap encode ∧
    ∀ answers : List Bool, 2 ≤ answers.count true → (drain p.queue answers).contents = [] := by
  intro p
  have h : p.Valid := (InStream.valid_opened buffer).run calls
  refine ⟨fun msg accept ↦ ?_, h.regions, h.stream, drain_twice h.wellFormed⟩
  rw [← h.size]
  split
  · next hf => exact addMessage_taken h.wellFormed hf accept
  · next hf =>
    rw [Queue.length_contents] at hf
    exact addMessage_full h.wellFormed hf accept

end CanDybug
