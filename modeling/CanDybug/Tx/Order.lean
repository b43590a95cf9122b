import CanDybug.Out.Posting
import CanDybug.Tx.Balance

/-!
# From the host's stream to the bus

The `README.md` promises that frames are transmitted in the order in which they are sent to
the device. Put together here from the stream of requests, the queue and the mailboxes: what
has been transmitted at any time is in that order, and what has been transmitted when the
device comes to rest is all of it.
-/

namespace CanDybug

open Base

section Session

variable (mailboxes : Fin 3 → TxMailBox) (txq : Nat → TxMailBox) (inb outb : Nat → UInt8)
  (before : List Step) (script : List (List Event)) {steps : List Step}
  (session : ∀ a ∈ steps, a.action.inSession = true) {c : Config}
  (hc : c = run (boot mailboxes txq inb outb)
    (before ++ [⟨.canIfOpen true true, script⟩] ++ steps))

include session hc

/-- A host that sends packets of frames only is never stopped, and what it requests are the
frames of the packets that are complete. -/
theorem requested_packets (hp : Packets (received c.trace)) :
    stopped c.trace = false ∧ dataPipe.scan (received c.trace) = (requested c.trace,
      .fragment (cells c.state.canIfOut.buffer 0 c.state.canIfOut.offset)) := by
  have h := requests_session mailboxes txq inb outb before script session hc
  have hst := h.2 hp
  refine ⟨hst, ?_⟩
  rw [h.1 (straight_of_not_stopped hst), hst]
  rfl

/-- If it has sent them completely, these are the frames requested. -/
theorem requested_all {fs : List Frame} (sent : received c.trace = packets fs) :
    requested c.trace = fs := by
  have hpk : Packets (received c.trace) := ⟨fs, sent ▸ List.prefix_refl _⟩
  have hscan := (requested_packets mailboxes txq inb outb before script session hc hpk).2
  have hall := dataPipe.scan_stream (stream_packets fs) []
  rw [List.append_nil, ← sent, hscan, dataPipe.scan_nil, List.append_nil] at hall
  exact (Prod.mk.inj hall).1

end Session

/-- After a successful `CanIf_Open`, as long as the peripheral transmits in the order of
requests and nothing is delivered after a message that was not valid, and also across bus
errors that reset the queue: the frames requested are those of the longest prefix of the bytes
received that is a concatenation of valid messages, and the frames transmitted are among them,
in their order. -/
theorem transmitted_inOrder (mailboxes : Fin 3 → TxMailBox) (txq : Nat → TxMailBox)
    (inb outb : Nat → UInt8) (before : List Step) (script : List (List Event))
    (steps : List Step) (session : ∀ a ∈ steps, a.action.inSession = true) (c : Config)
    (hc : c = run (boot mailboxes txq inb outb)
      (before ++ [⟨.canIfOpen true true, script⟩] ++ steps))
    (fifo : InRequestOrder c.trace) (straight : Straight c.trace) :
    (∃ whole, dataPipe.LongestPrefix (received c.trace) whole (requested c.trace)) ∧
      List.SublistForall₂ TxMailBox.Holds (transmitted c.trace) (requested c.trace) := by
  have h := requests_session mailboxes txq inb outb before script session hc
  obtain ⟨whole, hw, -⟩ := dataPipe.scan_longest (received c.trace)
  rw [h.1 straight] at hw
  refine ⟨⟨whole, hw⟩, sublistForall₂_of_sublist
    (posted_requested mailboxes txq inb outb before true script session hc) ?_⟩
  subst hc
  exact transmitted_sublist_posted mailboxes txq inb outb _ fifo

/-- Two frames are requested; an error discards them and whatever is in flight; a third comes
from the transfer that was armed before, and is transmitted. -/
def restarted : List Step :=
  [⟨.epOutComplete [5, 0, 1, 2, 7, 4, 2, 0, 3], []⟩, ⟨.event (.txOk 0), []⟩,
    ⟨.event (.error 0x12), []⟩, ⟨.busError, []⟩, ⟨.event (.txAbort 1), []⟩,
    ⟨.epOutComplete [4, 2, 0, 4], []⟩, ⟨.event (.txOk 0), []⟩]

/-- The first and the third have been transmitted, in this order. -/
theorem transmitted_inOrder_restarted :
    ∃ c : Config, c = run (boot (fun _ ↦ ⟨0, 0, 0, 0⟩) (fun _ ↦ ⟨0, 0, 0, 0⟩) (fun _ ↦ 0) fun _ ↦ 0)
        ([] ++ [⟨.canIfOpen true true, []⟩] ++ restarted) ∧
      (∃ whole, dataPipe.LongestPrefix (received c.trace) whole (requested c.trace)) ∧
      List.SublistForall₂ TxMailBox.Holds (transmitted c.trace) (requested c.trace) :=
  ⟨_, rfl, transmitted_inOrder (fun _ ↦ ⟨0, 0, 0, 0⟩) (fun _ ↦ ⟨0, 0, 0, 0⟩) (fun _ ↦ 0)
    (fun _ ↦ 0) [] [] restarted (by decide) _ rfl (by decide +kernel) (by decide +kernel)⟩

/-! ### At rest -/

/-- No mailbox has a request, and no `TXOK` is flagged. -/
def State.resting (s : State) : Bool :=
  s.can.tx.requests.isEmpty && !s.flagged fun _ ↦ true

/-- No acknowledgement is due at rest. -/
theorem resting_iff (s : State) :
    s.resting = true ↔ s.can.tx.requests = [] ∧ s.due = [] := by
  have hflag : s.flagged (fun _ ↦ true) = false ↔ s.due = [] := by
    rw [← Bool.not_eq_true, flagged_iff, State.due, Transmitter.due, List.map_eq_nil_iff,
      List.filter_eq_nil_iff]
    simp
  rw [State.resting, Bool.and_eq_true, Bool.not_eq_true', List.isEmpty_iff, hflag]

/-- At rest nothing is in flight, and nothing waits if all is served. -/
theorem resting_empty {s : State} (hq : s.canTxQ.WellFormed) (rest : s.resting = true)
    (served : s.served = true) : s.can.tx.inFlight = [] ∧ s.canTxQ.contents = [] := by
  simp only [State.resting, Bool.and_eq_true, List.isEmpty_iff, Bool.not_eq_true'] at rest
  obtain ⟨hr, hf⟩ := rest
  have hany : s.can.tx.anyEmpty = true := by
    simp [Transmitter.anyEmpty, Transmitter.pending, hr, List.any_eq_true]
  refine ⟨by rw [Transmitter.inFlight, hr]; rfl, (Queue.empty_iff hq).mp ?_⟩
  simpa [State.served, hany, hf] using served

/-- Nothing was aborted or discarded, and no step has left a frame behind in the queue: at rest
all that was requested has been transmitted. -/
theorem transmitted_requested (mailboxes : Fin 3 → TxMailBox) (txq : Nat → TxMailBox)
    (inb outb : Nat → UInt8) (before : List Step) (script : List (List Event))
    {steps : List Step} (session : ∀ a ∈ steps, a.action.inSession = true) {c : Config}
    (hc : c = run (boot mailboxes txq inb outb)
      (before ++ [⟨.canIfOpen true true, script⟩] ++ steps))
    (fifo : InRequestOrder c.trace) (noAbort : aborted c.trace = [])
    (noReset : discarded c.trace = []) (serves : NeverStrands c.trace)
    (rest : c.state.resting = true) :
    List.Forall₂ TxMailBox.Holds (transmitted c.trace) (requested c.trace) := by
  -- Nothing is left in the mailboxes or in the queue.
  have hserved := strandSound_session mailboxes txq inb outb before script session hc
  obtain ⟨hi, hq⟩ := resting_empty hserved.2.1.queue rest (hserved.1.served serves)
  obtain ⟨hholds, hbal, -⟩ := queue_session mailboxes txq inb outb before true script session hc
  obtain ⟨-, hmail⟩ := mailboxes_run mailboxes txq inb outb _ hc
  rw [noReset, hq, List.append_nil, List.append_nil] at hbal
  rw [noAbort, hi, List.append_nil, List.append_nil] at hmail
  -- As many are transmitted as were requested, and those are in order.
  apply forall₂_of_length_le
  · refine sublistForall₂_of_sublist
      (posted_requested mailboxes txq inb outb before true script session hc) ?_
    subst hc
    exact transmitted_sublist_posted mailboxes txq inb outb _ fifo
  · rw [← hmail.length_eq, ← hbal.length_eq, hholds.length_eq]

/-- The host has sent the packets of some frames, and nothing else, after a successful
`CanIf_Open`. Nothing was aborted or discarded, the peripheral transmits in the order of
requests, and no step has left a frame behind in the queue. When the device comes to rest, it
has transmitted exactly these frames, in this order, whatever the cutting into transfers and
the interleaving. -/
theorem transmitted_all (mailboxes : Fin 3 → TxMailBox) (txq : Nat → TxMailBox)
    (inb outb : Nat → UInt8) (before : List Step) (script : List (List Event))
    (steps : List Step) (session : ∀ a ∈ steps, a.action.inSession = true) (c : Config)
    (hc : c = run (boot mailboxes txq inb outb)
      (before ++ [⟨.canIfOpen true true, script⟩] ++ steps))
    (fs : List Frame) (sent : received c.trace = packets fs) (fifo : InRequestOrder c.trace)
    (noAbort : aborted c.trace = []) (noReset : discarded c.trace = [])
    (serves : NeverStrands c.trace) (rest : c.state.resting = true) :
    List.Forall₂ TxMailBox.Holds (transmitted c.trace) fs := by
  have h := transmitted_requested mailboxes txq inb outb before script session hc fifo noAbort
    noReset serves rest
  rwa [requested_all mailboxes txq inb outb before script session hc sent] at h

/-- Five frames, cut inside the second; three fill the mailboxes, and the last two are posted
as acknowledgements make room. -/
def allSent : List Step :=
  [⟨.epOutComplete [5, 0, 1, 2, 7, 4, 2], []⟩, ⟨.event (.txOk 0), []⟩, ⟨.frameSent, []⟩,
    ⟨.epOutComplete [0, 3, 7, 4, 0, 0, 1, 2, 9, 6, 6, 0, 0, 0, 4, 4, 2, 0, 5], []⟩,
    ⟨.event (.txOk 0), []⟩, ⟨.frameSent, [[], [], [.txOk 1]]⟩, ⟨.event (.txOk 2), []⟩,
    ⟨.frameSent, []⟩, ⟨.event (.txOk 0), []⟩, ⟨.frameSent, []⟩]

/-- The frames of the packets above. -/
def allFrames : List Frame :=
  [⟨.standard 0x102, .data [7] (by decide)⟩, ⟨.standard 3, .remote⟩,
    ⟨.extended 0x102, .data [9] (by decide)⟩, ⟨.extended 4, .remote⟩, ⟨.standard 5, .remote⟩]

/-- All five are on the bus. -/
theorem transmitted_all_sent :
    List.Forall₂ TxMailBox.Holds (transmitted (run (boot (fun _ ↦ ⟨0, 0, 0, 0⟩)
      (fun _ ↦ ⟨0, 0, 0, 0⟩) (fun _ ↦ 0) fun _ ↦ 0)
        ([] ++ [⟨.canIfOpen true true, []⟩] ++ allSent)).trace) allFrames :=
  transmitted_all (fun _ ↦ ⟨0, 0, 0, 0⟩) (fun _ ↦ ⟨0, 0, 0, 0⟩) (fun _ ↦ 0) (fun _ ↦ 0) [] []
    allSent (by decide) _ rfl allFrames (by decide +kernel) (by decide +kernel)
    (by decide +kernel) (by decide +kernel) (by decide +kernel) (by decide +kernel)

end CanDybug
