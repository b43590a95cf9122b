import CanDybug.Tx.Balance

/-!
# From the OUT stream to frames

The bytes that the host sends after `CanIf_Open`, cut into transfers in any way, are read
as one stream: the frames written to mailboxes and those still queued are the frames of the
longest prefix that consists of valid messages, and the buffer holds the rest. Requests are
the messages of the stream, and as long as the queue is not reset none of their frames is lost.
-/

namespace CanDybug

open Base

/-- The transmit queue has not been reset, and nothing was delivered after a message that
was not valid. -/
def Regular (t : Log) : Prop :=
  (∀ e ∈ t, e.1 ≠ .resetTxQ) ∧ ∀ e ∈ afterStop t, e.1.delivers = false

instance (t : Log) : Decidable (Regular t) := inferInstanceAs (Decidable (_ ∧ _))

/-- Without a reset nothing is discarded. -/
theorem discarded_of_not_reset {t : Log} (h : ∀ e ∈ t, e.1 ≠ .resetTxQ) : discarded t = [] := by
  refine List.flatMap_eq_nil_iff.mpr fun e he ↦ ?_
  have hne := h e he
  unfold discardedBy
  split
  · next heq => exact absurd heq hne
  · rfl

/-- As long as the queue has not been reset, what was posted and what is queued are the frames
requested, in their order. -/
theorem posted_contents (mailboxes : Fin 3 → TxMailBox) (txq : Nat → TxMailBox)
    (inb outb : Nat → UInt8) (before : List Step) (script : List (List Event))
    {steps : List Step} (session : ∀ a ∈ steps, a.action.inSession = true) {c : Config}
    (hc : c = run (boot mailboxes txq inb outb)
      (before ++ [⟨.canIfOpen true true, script⟩] ++ steps))
    (noReset : ∀ e ∈ c.trace, e.1 ≠ .resetTxQ) :
    List.Forall₂ TxMailBox.Holds (posted c.trace ++ c.state.canTxQ.contents)
      (requested c.trace) := by
  obtain ⟨hholds, hbal, hsub⟩ := queue_session mailboxes txq inb outb before true script session hc
  rw [discarded_of_not_reset noReset, List.append_nil] at hbal
  -- A sublist with as many frames leaves nothing out.
  rwa [hsub.eq_of_length hbal.length_eq.symm]

/-- After a successful `CanIf_Open`, over any stale contents and with any transfer still
outstanding: as long as the transmit queue is not reset, and up to the transfer in which an
invalid message is met, the frames written to mailboxes followed by those in the queue are
the frames of the longest prefix of the received bytes that is a concatenation of valid
messages, and until an invalid message is met the buffer holds the bytes after it. -/
theorem canIfOut_stream (mailboxes : Fin 3 → TxMailBox) (txq : Nat → TxMailBox)
    (inb outb : Nat → UInt8) (before : List Step) (script : List (List Event))
    (steps : List Step) (hs : ∀ a ∈ steps, a.action.inSession = true)
    (hr : Regular (run (boot mailboxes txq inb outb)
      (before ++ ⟨.canIfOpen true true, script⟩ :: steps)).trace) :
    let c := run (boot mailboxes txq inb outb) (before ++ ⟨.canIfOpen true true, script⟩ :: steps)
    ∃ whole fs, dataPipe.LongestPrefix (received c.trace) whole fs ∧
      List.Forall₂ TxMailBox.Holds (posted c.trace ++ c.state.canTxQ.contents) fs ∧
      (stopped c.trace = false →
        received c.trace = whole ++ cells c.state.canIfOut.buffer 0 c.state.canIfOut.offset) := by
  intro c
  have hc : c = run (boot mailboxes txq inb outb)
      (before ++ [⟨.canIfOpen true true, script⟩] ++ steps) :=
    congrArg (run _) (List.append_cons before _ steps)
  have hscan := (requests_session mailboxes txq inb outb before script hs hc).1 hr.2
  obtain ⟨whole, hw, hrest⟩ := dataPipe.scan_longest (received c.trace)
  rw [hscan] at hw hrest
  refine ⟨whole, requested c.trace, hw,
    posted_contents mailboxes txq inb outb before script hs hc hr.1, fun hst ↦ hrest _ ?_⟩
  rw [hst]
  rfl

/-- Opened once, so that a transfer behind a fragment of three bytes is outstanding. -/
def fragmentLeft : List Step := [⟨.canIfOpen true true, []⟩, ⟨.epOutComplete [5, 0, 1], []⟩]

/-- Two messages, cut inside the second; a mailbox completes while the handler runs. -/
def twoMessages : List Step :=
  [⟨.epOutComplete [5, 0, 1, 2, 7, 4, 2, 0], []⟩, ⟨.event (.txOk 0), []⟩,
    ⟨.epOutComplete [3], []⟩, ⟨.frameSent, [[], [], [.txOk 1]]⟩]

/-- Opening again discards the fragment, and the outstanding transfer starts the stream. -/
theorem canIfOut_stream_reopened :
    let c := run (boot (fun _ ↦ ⟨0, 0, 0, 0⟩) (fun _ ↦ ⟨1, 2, 3, 4⟩) (fun _ ↦ 7) fun _ ↦ 9)
      (fragmentLeft ++ ⟨.canIfOpen true true, []⟩ :: twoMessages)
    ∃ whole fs, dataPipe.LongestPrefix (received c.trace) whole fs ∧
      List.Forall₂ TxMailBox.Holds (posted c.trace ++ c.state.canTxQ.contents) fs ∧
      (stopped c.trace = false →
        received c.trace = whole ++ cells c.state.canIfOut.buffer 0 c.state.canIfOut.offset) := by
  exact canIfOut_stream (fun _ ↦ ⟨0, 0, 0, 0⟩) (fun _ ↦ ⟨1, 2, 3, 4⟩) (fun _ ↦ 7) (fun _ ↦ 9)
    fragmentLeft [] twoMessages (by decide) (by decide +kernel)

end CanDybug
