import CanDybug.Frame.Mailbox
import Mathlib.Data.List.Nodup

/-!
# The CAN peripheral

The part of the bxCAN peripheral that the firmware sees. A transmit mailbox has a request
(`TXRQ` set, `TME` clear), a completion (`RQCP` set, with `TXOK`) or neither, never both;
the flags of the transmit status register are read off these. The lists keep the order
in which requests were made and completed, which no register shows.

The receive FIFO overwrites: `CanConfig` (`can_if.c:49–52`) sets the mode, the timing and
`TxFifoMode`, and after the reset in `CanIf_Open` the lock of the FIFO is off.
-/

namespace CanDybug

open Base

/-- Mailboxes are numbered from zero. -/
instance instNeZeroThree : NeZero 3 := ⟨by decide⟩

/-- A transmission request and whether its abort has been requested, `ABRQ`. -/
structure Request where
  mailbox : Fin 3
  aborting : Bool
  deriving DecidableEq

/-- Mark a request for abort if it is the mailbox's. -/
def Request.abort (m : Fin 3) (r : Request) : Request :=
  if r.mailbox = m then { r with aborting := true } else r

@[simp] theorem Request.mailbox_abort (m : Fin 3) (r : Request) :
    (r.abort m).mailbox = r.mailbox := by
  unfold Request.abort
  split <;> rfl

/-- A completed request, `RQCP`: its `TXOK` and what the mailbox held. -/
structure Completion where
  mailbox : Fin 3
  ok : Bool
  held : TxMailBox
  deriving DecidableEq

/-- The transmit mailboxes. Requests and completions are listed oldest first. -/
structure Transmitter where
  mailboxes : Fin 3 → TxMailBox
  requests : List Request
  completed : List Completion
  next : Fin 3
  exclusive : (requests.map (·.mailbox) ++ completed.map (·.mailbox)).Nodup

namespace Transmitter

/-- No mailbox has a request or a completion. -/
def idle (mailboxes : Fin 3 → TxMailBox) : Transmitter := ⟨mailboxes, [], [], 0, List.nodup_nil⟩

/-- `TXRQ` of a mailbox; `TME` is its complement. -/
def pending (u : Transmitter) (m : Fin 3) : Bool := u.requests.any (·.mailbox == m)

/-- `RQCP` of a mailbox. -/
def rqcp (u : Transmitter) (m : Fin 3) : Bool := u.completed.any (·.mailbox == m)

/-- `TXOK` of a mailbox. -/
def txok (u : Transmitter) (m : Fin 3) : Bool :=
  u.completed.any fun c ↦ c.mailbox == m && c.ok

/-- `TME` of any mailbox. -/
def anyEmpty (u : Transmitter) : Bool := (List.finRange 3).any fun m ↦ !u.pending m

/-- `CODE`: an empty mailbox, if there is one; the peripheral chooses which. -/
def code (u : Transmitter) : Fin 3 :=
  if u.pending u.next then ((List.finRange 3).find? fun m ↦ !u.pending m).getD u.next
  else u.next

theorem pending_iff (u : Transmitter) (m : Fin 3) :
    u.pending m = true ↔ ∃ r ∈ u.requests, r.mailbox = m := by
  simp [pending]

theorem rqcp_iff (u : Transmitter) (m : Fin 3) :
    u.rqcp m = true ↔ ∃ c ∈ u.completed, c.mailbox = m := by
  simp [rqcp]

theorem txok_iff (u : Transmitter) (m : Fin 3) :
    u.txok m = true ↔ ∃ c ∈ u.completed, c.mailbox = m ∧ c.ok = true := by
  simp [txok]

/-- A mailbox that has a request has no completion. -/
theorem not_completed {u : Transmitter} {m : Fin 3} (h : u.pending m = true) :
    ∀ c ∈ u.completed, c.mailbox ≠ m := by
  obtain ⟨r, hr, hm⟩ := (u.pending_iff m).mp h
  intro c hc he
  have hd := (List.nodup_append.mp u.exclusive).2.2
  exact hd _ (List.mem_map_of_mem hr) _ (List.mem_map_of_mem hc) (hm.trans he.symm)

/-- While some mailbox is empty, `CODE` names an empty one. -/
theorem pending_code {u : Transmitter} (h : u.anyEmpty = true) : u.pending u.code = false := by
  unfold code
  split
  · next hn =>
    obtain ⟨m, hm⟩ : ∃ m, (List.finRange 3).find? (fun m ↦ !u.pending m) = some m := by
      rw [← Option.isSome_iff_exists, List.find?_isSome]
      simpa [anyEmpty] using h
    rw [hm, Option.getD_some]
    simpa using List.find?_some hm
  · next hn => simpa using hn

private theorem requests_ne {u : Transmitter} {m : Fin 3} (h : ¬ u.pending m = true) :
    ∀ r ∈ u.requests, r.mailbox ≠ m :=
  fun r hr he ↦ h ((u.pending_iff m).mpr ⟨r, hr, he⟩)

private theorem exclusive_complete {u : Transmitter} {m : Fin 3} (h : u.pending m = true)
    (c : Completion) (hc : c.mailbox = m) :
    ((u.requests.filter (·.mailbox != m)).map (·.mailbox) ++
      (u.completed ++ [c]).map (·.mailbox)).Nodup := by
  obtain ⟨hr, hn, hd⟩ := List.nodup_append.mp u.exclusive
  have hs : ((u.requests.filter (·.mailbox != m)).map (·.mailbox)).Sublist
      (u.requests.map (·.mailbox)) := List.filter_sublist.map _
  rw [List.map_append, ← List.append_assoc, List.nodup_append]
  refine ⟨?_, List.nodup_singleton _, ?_⟩
  · exact List.nodup_append.mpr ⟨hr.sublist hs, hn, fun a ha ↦ hd a (hs.subset ha)⟩
  · intro a ha b hb
    obtain rfl : b = c.mailbox := List.mem_singleton.mp hb
    rw [hc]
    rcases List.mem_append.mp ha with ha | ha
    · obtain ⟨r, hr, rfl⟩ := List.mem_map.mp ha
      exact bne_iff_ne.mp (List.mem_filter.mp hr).2
    · obtain ⟨c', hc', rfl⟩ := List.mem_map.mp ha
      exact not_completed h c' hc'

private theorem exclusive_request {u : Transmitter} {m : Fin 3} (h : ¬ u.pending m = true)
    (r : Request) (hr : r.mailbox = m) :
    ((u.requests ++ [r]).map (·.mailbox) ++
      (u.completed.filter (·.mailbox != m)).map (·.mailbox)).Nodup := by
  obtain ⟨hq, hn, hd⟩ := List.nodup_append.mp u.exclusive
  have hs : ((u.completed.filter (·.mailbox != m)).map (·.mailbox)).Sublist
      (u.completed.map (·.mailbox)) := List.filter_sublist.map _
  rw [List.map_append, List.append_assoc, List.nodup_append]
  refine ⟨hq, ?_, ?_⟩
  · refine List.nodup_append.mpr ⟨List.nodup_singleton _, hn.sublist hs, ?_⟩
    intro a ha b hb
    obtain rfl : a = r.mailbox := List.mem_singleton.mp ha
    obtain ⟨c, hc, rfl⟩ := List.mem_map.mp hb
    rw [hr]
    exact (bne_iff_ne.mp (List.mem_filter.mp hc).2).symm
  · intro a ha b hb
    obtain ⟨r', hr', rfl⟩ := List.mem_map.mp ha
    rcases List.mem_append.mp hb with hb | hb
    · obtain rfl : b = r.mailbox := List.mem_singleton.mp hb
      rw [hr]
      exact requests_ne h r' hr'
    · exact hd _ ha _ (hs.subset hb)

private theorem exclusive_abort (u : Transmitter) (m : Fin 3) :
    ((u.requests.map (Request.abort m)).map (·.mailbox) ++
      u.completed.map (·.mailbox)).Nodup := by
  have h : (u.requests.map (Request.abort m)).map (·.mailbox) =
      u.requests.map (·.mailbox) := by
    rw [List.map_map]
    exact List.map_congr_left fun r _ ↦ r.mailbox_abort m
  rw [h]
  exact u.exclusive

/-- A request ends: `RQCP` and `TME` are set, and `TXOK` as the outcome says. -/
def complete (u : Transmitter) (m : Fin 3) (ok : Bool) : Transmitter :=
  if h : u.pending m then
    { u with
      requests := u.requests.filter (·.mailbox != m)
      completed := u.completed ++ [⟨m, ok, u.mailboxes m⟩]
      exclusive := exclusive_complete h _ rfl }
  else u

/-- An abort takes effect: only on a request whose abort was requested, and without `TXOK`. -/
def completeAbort (u : Transmitter) (m : Fin 3) : Transmitter :=
  if u.requests.any fun r ↦ r.mailbox == m && r.aborting then u.complete m false else u

/-- Write the registers of a mailbox. -/
def write (u : Transmitter) (m : Fin 3) (mb : TxMailBox) : Transmitter :=
  { u with mailboxes := Function.update u.mailboxes m mb }

/-- Set `TXRQ`: `RQCP`, `TXOK` and `TME` are cleared. -/
def request (u : Transmitter) (m : Fin 3) : Transmitter :=
  if h : u.pending m then u
  else
    { u with
      requests := u.requests ++ [⟨m, false⟩]
      completed := u.completed.filter (·.mailbox != m)
      exclusive := exclusive_request h _ rfl }

/-- Write `RQCP`: `RQCP` and `TXOK` are cleared. -/
def clearRqcp (u : Transmitter) (m : Fin 3) : Transmitter :=
  { u with
    completed := u.completed.filter (·.mailbox != m)
    exclusive := u.exclusive.sublist
      ((List.Sublist.refl _).append (List.filter_sublist.map _)) }

/-- Write `ABRQ`, which means something to a mailbox that has a request only. -/
def abort (u : Transmitter) (m : Fin 3) : Transmitter :=
  { u with
    requests := u.requests.map (Request.abort m)
    exclusive := exclusive_abort u m }

/-- Reset: all mailboxes are empty. -/
def reset (u : Transmitter) : Transmitter := idle u.mailboxes

/-! ### The flags of the transmit status register -/

/-- The end of a request sets `RQCP` and `TME`, and success also `TXOK`. -/
theorem flags_complete {u : Transmitter} {m : Fin 3} (h : u.pending m = true) (ok : Bool) :
    (u.complete m ok).rqcp m = true ∧ (u.complete m ok).txok m = ok ∧
      (u.complete m ok).pending m = false := by
  have hc := not_completed h
  simp only [complete, dif_pos h]
  refine ⟨by simp [rqcp], ?_, by simp [pending]⟩
  simp only [txok, List.any_append, List.any_cons, List.any_nil, beq_self_eq_true, Bool.true_and,
    Bool.or_false, Bool.or_eq_right_iff_imp]
  intro ho
  obtain ⟨c, hm, hcm⟩ := List.any_eq_true.mp ho
  simp only [Bool.and_eq_true, beq_iff_eq] at hcm
  exact absurd hcm.1 (hc c hm)

/-- Setting `TXRQ` clears `RQCP`, `TXOK` and `TME`. -/
theorem flags_request (u : Transmitter) (m : Fin 3) :
    (u.request m).rqcp m = false ∧ (u.request m).txok m = false ∧
      (u.request m).pending m = true := by
  unfold request
  split
  · next h =>
    have hc := not_completed h
    refine ⟨?_, ?_, h⟩
    · rw [← Bool.not_eq_true, rqcp_iff]
      rintro ⟨c, hm, he⟩
      exact hc c hm he
    · rw [← Bool.not_eq_true, txok_iff]
      rintro ⟨c, hm, he, -⟩
      exact hc c hm he
  · refine ⟨by simp [rqcp], ?_, by simp [pending]⟩
    simp only [txok, List.any_filter, List.any_eq_false]
    grind

/-- Writing `RQCP` clears `RQCP` and `TXOK`. -/
theorem flags_clearRqcp (u : Transmitter) (m : Fin 3) :
    (u.clearRqcp m).rqcp m = false ∧ (u.clearRqcp m).txok m = false := by
  refine ⟨by simp [rqcp, clearRqcp], ?_⟩
  simp only [txok, clearRqcp, List.any_filter, List.any_eq_false]
  grind

end Transmitter

/-- The peripheral: transmitter, receive FIFO 0 and its `FULL` or `FOVR` flag, the low
byte of the error status register, `ERRI`, and the interrupt enable register. -/
structure Can where
  tx : Transmitter
  fifo : List RxMailBox
  rxFlags : Bool
  esr : UInt8
  erri : Bool
  ier : BitVec 32

/-- `CAN_ESR_LEC`. -/
def canEsrLec : UInt8 := 0x70

/-- `CAN_ERROR_ERRORPASSIVE | CAN_ERROR_BUSOFF`. -/
def canErrorBlocking : UInt8 := 0x06

/-- `CAN_ESR_LEC | CAN_ESR_BOFF | CAN_ESR_EPVF | CAN_ESR_EWGF`. -/
def canEsrAny : UInt8 := 0x77

/-- `CAN_IER_FMPIE0 | CAN_IER_TMEIE | CAN_IER_ERRIE | CAN_IER_LECIE`. -/
def canIerEnabled : BitVec 32 := 0x8803

namespace Can

/-- An error that blocks transmission is flagged: error passive or bus off. -/
def blocked (can : Can) : Bool := can.esr &&& canErrorBlocking != 0

/-- The registers of the FIFO's output mailbox. -/
def output (can : Can) : RxMailBox := can.fifo.headD ⟨0, 0, 0, 0⟩

/-- A frame arrives. The third one sets `FULL`; any further one sets `FOVR` and overwrites the
last one stored, since `RFLM`, which would lock the FIFO, keeps its reset value. -/
def receive (can : Can) (rx : RxMailBox) : Can :=
  if can.fifo.length < 3 then
    { can with fifo := can.fifo ++ [rx], rxFlags := can.rxFlags || can.fifo.length == 2 }
  else { can with fifo := can.fifo.dropLast ++ [rx], rxFlags := true }

/-- Set `RFOM`: the output mailbox is released. -/
def release (can : Can) : Can := { can with fifo := can.fifo.tail }

/-- Register values after a reset. -/
def reset (can : Can) : Can :=
  { tx := can.tx.reset, fifo := [], rxFlags := false, esr := 0, erri := false, ier := 0 }

end Can

end CanDybug
