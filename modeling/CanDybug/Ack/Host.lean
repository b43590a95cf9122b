import CanDybug.Ack.Order
import CanDybug.Out.Steady
import CanDybug.Rx.Host
import CanDybug.Tx.Order

/-!
# From the host to the bus and back

The host sends frames, and for each that the device has transmitted it is told the type of the
frame. Put together here from both directions: with nothing lost on the way, the host reads one
acknowledgement for each frame that it has sent, in the order in which it has sent them.
-/

namespace CanDybug

open Base

/-- Each acknowledgement has the type of its frame. -/
theorem ackBytes_eq {mbs : List TxMailBox} {fs : List Frame}
    (h : List.Forall₂ TxMailBox.Holds mbs fs) :
    mbs.map ackByte = fs.map fun f ↦ canifAckFlag ||| f.type := by
  induction h with
  | nil => rfl
  | cons hm _ ih => rw [List.map_cons, List.map_cons, hm.ackByte, ih]

/-- No request that is being aborted ends without success. -/
theorem aborting_of_aborted {t : Log} (h : aborted t = []) :
    ∀ e ∈ t, ∀ m, e.1 = .event (.txAbort m) → e.2.can.tx.aborting m = false := by
  rintro ⟨o, s⟩ he m rfl
  have hnil : (if s.can.tx.aborting m = true then [s.can.tx.mailboxes m] else []) = [] :=
    List.flatMap_eq_nil_iff.mp h _ he
  by_contra hab
  rw [if_pos (by simpa using hab)] at hnil
  contradiction

/-- The host has sent the packets of some frames after a successful `CanIf_Open` with no IN
transfer in flight. Nothing was aborted or discarded, the peripheral transmits in the order of
requests, no flag is lost or taken before an earlier one of another type, all frames that arrived
have a documented data length, no more than 256 bytes were ever on their way to the host, and IN
transfers complete only when all of the region has been fetched. When the device comes to rest and
the host has fetched everything, it has read the acknowledgements of exactly these frames, in the
order in which it has sent them. -/
theorem acknowledged_all (mailboxes : Fin 3 → TxMailBox) (txq : Nat → TxMailBox)
    (inb outb : Nat → UInt8) (before : List Step) (script : List (List Event))
    (steps : List Step) (session : ∀ a ∈ steps, a.action.inSession = true) (c : Config)
    (hc : c = run (boot mailboxes txq inb outb)
      (before ++ [⟨.canIfOpen true true, script⟩] ++ steps))
    (idle : (run (boot mailboxes txq inb outb) before).state.canIfIn.transfer = none)
    (fs : List Frame) (sent : received c.trace = packets fs) (fifo : InRequestOrder c.trace)
    (noAbort : aborted c.trace = []) (noReset : discarded c.trace = [])
    (taken : TakenInOrder c.trace) (room : InRoom c.trace)
    (standard : ∀ rx ∈ arrived c.trace, rx.Standard) (rest : c.state.resting = true)
    (read : c.state.canIfIn.remaining = []) :
    ∃ ms, hostPipe.scan (fetched c.trace) = (ms, .fragment []) ∧
      ms.flatMap DeviceMessage.acks = fs.map fun f ↦ canifAckFlag ||| f.type := by
  -- Nothing that strands a frame has happened.
  have hvalid := (requested_packets mailboxes txq inb outb before script session hc
    ⟨fs, sent ▸ List.prefix_refl _⟩).1
  have hseen := noBlindClear_session mailboxes txq inb outb before script session hc
    fun e he m hm ↦ taken.1 e he m (.inr hm)
  have serves := neverStrands_of hvalid (aborting_of_aborted noAbort) hseen
  have htransmitted := transmitted_requested mailboxes txq inb outb before script session hc fifo
    noAbort noReset serves rest
  rw [requested_all mailboxes txq inb outb before script session hc sent] at htransmitted
  obtain ⟨-, hacks, -⟩ := told_run mailboxes txq inb outb _ hc standard
  refine ⟨told c.trace, ?_, ?_⟩
  · exact told_all mailboxes txq inb outb before script session hc idle room standard read
  · have hordered : OrderedLog c.state c.trace := hc ▸ ordered_run mailboxes txq inb outb _
    have hall := hordered taken
    rw [show c.state.can.tx.due (fun _ ↦ true) = [] from ((resting_iff _).mp rest).2,
      List.append_nil, List.append_nil] at hall
    rw [hacks, hall, ackBytes_eq htransmitted]

/-- The five frames of `allSent`, with a frame that arrives in between, and the host fetching
what it is told. -/
def allTold : List Step :=
  allSent.take 3 ++ [⟨.event (.fetch 1), []⟩, ⟨.event (.rx ⟨0x0000001C, 1, 7, 0⟩), []⟩,
    ⟨.frameReceived fun _ ↦ 0, [[.fetch 1]]⟩, ⟨.epInComplete, []⟩] ++ allSent.drop 3 ++
    [⟨.event (.fetch 64), []⟩, ⟨.epInComplete, []⟩, ⟨.event (.fetch 64), []⟩, ⟨.epInComplete, []⟩]

/-- The host reads five acknowledgements. -/
theorem acknowledged_all_told :
    ∃ c : Config, c = run (boot (fun _ ↦ ⟨0, 0, 0, 0⟩) (fun _ ↦ ⟨0, 0, 0, 0⟩) (fun _ ↦ 0) fun _ ↦ 0)
        ([] ++ [⟨.canIfOpen true true, []⟩] ++ allTold) ∧
      ∃ ms, hostPipe.scan (fetched c.trace) = (ms, .fragment []) ∧
        ms.flatMap DeviceMessage.acks = allFrames.map fun f ↦ canifAckFlag ||| f.type :=
  ⟨_, rfl, acknowledged_all (fun _ ↦ ⟨0, 0, 0, 0⟩) (fun _ ↦ ⟨0, 0, 0, 0⟩) (fun _ ↦ 0) (fun _ ↦ 0)
    [] [] allTold (by decide) _ rfl rfl allFrames (by decide +kernel) (by decide +kernel)
    (by decide +kernel) (by decide +kernel)
    ⟨by decide +kernel, by decide +kernel⟩ (by decide +kernel) (by decide +kernel)
    (by decide +kernel) (by decide +kernel)⟩

end CanDybug
