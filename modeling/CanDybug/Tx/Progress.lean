import CanDybug.Ack.Account
import CanDybug.Ack.Handled
import CanDybug.Out.Steady
import CanDybug.Tx.Order
import Mathlib.Data.Fintype.Card
import Mathlib.Data.List.Infix

/-!
# The device comes to rest

The bus takes the frames that are requested, and the transmit interrupt is served. Each frame
in a mailbox or in the queue is then to leave it and to be acknowledged, and each of these
happens once: so they are counted, and when their number is used up the device is at rest.
-/

namespace CanDybug

open Base

/-- What is still to happen: frames leave the mailboxes and are acknowledged, flags are
acknowledged. -/
def State.unsettled (s : State) : Nat :=
  2 * (s.can.tx.inFlight.length + s.canTxQ.contents.length) + s.due.length

/-- What has happened. A frame that was aborted or discarded is not acknowledged. -/
def settled (t : Log) : Nat :=
  (transmitted t).length + 2 * ((aborted t).length + (discarded t).length) +
    ((acks t).length + (lost t).length)

theorem flatMap_length_mono {α : Type} {t t' : Log} (h : t <+: t') (f : Op × State → List α) :
    (t.flatMap f).length ≤ (t'.flatMap f).length := (h.flatMap f).length_le

theorem settled_mono {t t' : Log} (h : t <+: t') : settled t ≤ settled t' := by
  have ht := flatMap_length_mono h transmittedBy
  have ha := flatMap_length_mono h abortedBy
  have hd := flatMap_length_mono h discardedBy
  have hk := flatMap_length_mono h ackedBy
  have hl := flatMap_length_mono h lostBy
  unfold settled transmitted aborted discarded acks lost
  omega

/-- An acknowledgement more. -/
theorem settled_acks {t t' : Log} (h : t <+: t') (hlt : (acks t).length < (acks t').length) :
    settled t < settled t' := by
  have ht := flatMap_length_mono h transmittedBy
  have ha := flatMap_length_mono h abortedBy
  have hd := flatMap_length_mono h discardedBy
  have hl := flatMap_length_mono h lostBy
  unfold acks at hlt
  unfold settled transmitted aborted discarded acks lost
  omega

/-- An event that takes a frame out of the mailboxes. -/
theorem settled_event {t : Log} {s : State} {e : Event}
    (h : mailboxFlow.takes (.event e, s) ≠ []) : settled t < settled (t ++ [(.event e, s)]) := by
  have hpos := List.length_pos_iff.mpr h
  change 0 < (transmittedBy (.event e, s) ++ abortedBy (.event e, s)).length at hpos
  rw [List.length_append] at hpos
  simp only [settled, transmitted, aborted, discarded, acks, lost, List.flatMap_append,
    List.flatMap_singleton, List.length_append]
  omega

/-- In a session every frame queued counts twice, wherever it is. -/
theorem settled_session (mailboxes : Fin 3 → TxMailBox) (txq : Nat → TxMailBox)
    (inb outb : Nat → UInt8) (before : List Step) (script : List (List Event))
    {steps : List Step} (session : ∀ a ∈ steps, a.action.inSession = true) {c : Config}
    (hc : c = run (boot mailboxes txq inb outb)
      (before ++ [⟨.canIfOpen true true, script⟩] ++ steps)) :
    settled c.trace + c.state.unsettled = 2 * (queued c.trace).length := by
  obtain ⟨-, hq, -⟩ := queue_session mailboxes txq inb outb before true script session hc
  obtain ⟨-, hm⟩ := mailboxes_run mailboxes txq inb outb _ hc
  have htally : TallyLog c.state c.trace := hc ▸ tally_run mailboxes txq inb outb _
  have hq' := hq.length_eq
  have hm' := hm.length_eq
  have ht' := htally.length_eq
  simp only [List.length_append, List.length_map] at hq' hm' ht'
  unfold settled State.unsettled State.due
  omega

/-- A mailbox has a request or a flag, and the queue holds 64 frames at most. -/
theorem unsettled_le {s : State} (h : Sound s) : s.unsettled ≤ 134 := by
  have hm : (s.can.tx.requests.map (·.mailbox) ++ s.can.tx.completed.map (·.mailbox)).length ≤ 3 :=
    (List.Nodup.length_le_card s.can.tx.exclusive).trans_eq (Fintype.card_fin 3)
  have hq : s.canTxQ.contents.length ≤ canTxQCapacity := by
    rw [Queue.length_contents, ← h.size]
    exact Queue.count_le h.queue
  have hd : s.due.length ≤ s.can.tx.completed.length := by
    rw [State.due_eq, dueFor, List.length_map]
    exact List.length_filter_le _ _
  rw [List.length_append, List.length_map, List.length_map] at hm
  rw [State.unsettled, Transmitter.inFlight, List.length_map]
  simp only [canTxQCapacity, canifOutDataSize] at hq
  omega

/-- When nothing is left to happen the device is at rest and the queue is empty. -/
theorem unsettled_zero {s : State} (h : s.unsettled = 0) :
    s.resting = true ∧ s.can.tx.inFlight = [] ∧ s.canTxQ.contents = [] := by
  unfold State.unsettled at h
  have hi : s.can.tx.inFlight = [] := List.length_eq_zero_iff.mp (by omega)
  refine ⟨(resting_iff s).mpr ⟨?_, List.length_eq_zero_iff.mp (by omega)⟩, hi,
    List.length_eq_zero_iff.mp (by omega)⟩
  exact List.map_eq_nil_iff.mp hi

/-! ### Turns -/

/-- An outcome of a mailbox, a call of `Can_FrameSent`, and anything else. -/
structure Turn where
  outcome : Event
  script : List (List Event)
  others : List Step

def Turn.steps (r : Turn) : List Step :=
  [⟨.event r.outcome, []⟩] ++ [⟨.frameSent, r.script⟩] ++ r.others

/-- The frames that an event takes out of the mailboxes. -/
def State.outcomes (s : State) (e : Event) : List TxMailBox := mailboxFlow.takes (.event e, s)

/-- In each turn that starts with requests pending, one of them ends. -/
def Responsive : Config → List Turn → Prop
  | _, [] => True
  | c, r :: turns =>
    (c.state.can.tx.requests ≠ [] → c.state.outcomes r.outcome ≠ []) ∧
      Responsive (run c r.steps) turns

instance decidableResponsive (c : Config) : (turns : List Turn) → Decidable (Responsive c turns)
  | [] => .isTrue trivial
  | r :: turns =>
    have := decidableResponsive (run c r.steps) turns
    inferInstanceAs (Decidable ((_ → _) ∧ _))

theorem turn_inSession {r : Turn} (others : ∀ a ∈ r.others, a.action.inSession = true) :
    ∀ a ∈ r.steps, a.action.inSession = true := by
  simp only [Turn.steps, List.forall_mem_append, List.forall_mem_singleton]
  exact ⟨⟨rfl, rfl⟩, others⟩

theorem turns_inSession {turns : List Turn}
    (others : ∀ r ∈ turns, ∀ a ∈ r.others, a.action.inSession = true) :
    ∀ a ∈ turns.flatMap Turn.steps, a.action.inSession = true := by
  intro a ha
  obtain ⟨r, hr, ha⟩ := List.mem_flatMap.mp ha
  exact turn_inSession (others r hr) a ha

/-- A turn that starts while something is left to happen makes some of it happen. -/
theorem settled_turn {c : Config} {r : Turn} (linked : LinkedLog c.state c.trace)
    (queue : c.state.canTxQ.WellFormed) (served : c.state.served = true)
    (others : ∀ a ∈ r.others, a.action.inSession = true)
    (responds : c.state.can.tx.requests ≠ [] → c.state.outcomes r.outcome ≠ [])
    (h : c.state.unsettled ≠ 0) : settled c.trace < settled (run c r.steps).trace := by
  rw [Turn.steps, run_append, run_append]
  generalize hc₁ : run c [⟨.event r.outcome, []⟩] = c₁
  have hs₁ : c₁.state = c.state.exec (.event r.outcome) := hc₁ ▸ rfl
  have ht₁ : c₁.trace = c.trace ++ [(.event r.outcome, c.state)] := hc₁ ▸ rfl
  have hsent : c₁.trace <+: (run c₁ [⟨.frameSent, r.script⟩]).trace :=
    trace_session c₁ _ (List.forall_mem_singleton.mpr rfl)
  have hothers := settled_mono (trace_session (run c₁ [⟨.frameSent, r.script⟩]) r.others others)
  by_cases hr : c.state.can.tx.requests = []
  · -- Only flags are left, and all of them are acknowledged.
    have hdue : c.state.due ≠ [] := by
      intro hd
      obtain ⟨hi, hq⟩ := resting_empty queue ((resting_iff _).mpr ⟨hr, hd⟩) served
      exact h (by simp [State.unsettled, hi, hq, hd])
    have hlinked : LinkedLog c₁.state c₁.trace := by
      rw [hs₁, ht₁]
      exact linked_stable _ _ _ linked
    obtain ⟨new, sent, ha, -, hsub, -⟩ := frameSent_handles hlinked r.script
    have hlen : c.state.due.length ≤ new.length := by
      refine Nat.le_trans ?_ hsub.length_le
      rw [hs₁, State.due, State.due, c.state.due_event r.outcome _ fun _ _ ↦ rfl,
        List.length_append]
      exact Nat.le_add_right _ _
    have hpos := List.length_pos_iff.mpr hdue
    have hacks := settled_acks hsent (by rw [ha, List.length_append]; omega)
    have hevent : settled c.trace ≤ settled c₁.trace :=
      settled_mono (ht₁ ▸ List.prefix_append _ _)
    omega
  · have hevent : settled c.trace < settled c₁.trace := ht₁ ▸ settled_event (responds hr)
    exact hevent.trans_le ((settled_mono hsent).trans hothers)

/-- All turns together. -/
theorem unsettled_turns (mailboxes : Fin 3 → TxMailBox) (txq : Nat → TxMailBox)
    (inb outb : Nat → UInt8) (before : List Step) (script : List (List Event))
    {steps : List Step} (session : ∀ a ∈ steps, a.action.inSession = true) {turns : List Turn}
    (others : ∀ r ∈ turns, ∀ a ∈ r.others, a.action.inSession = true) {c c' : Config}
    (hc : c = run (boot mailboxes txq inb outb)
      (before ++ [⟨.canIfOpen true true, script⟩] ++ steps))
    (hc' : c' = run c (turns.flatMap Turn.steps)) (responsive : Responsive c turns)
    (quiet : queued c'.trace = queued c.trace) (serves : NeverStrands c'.trace) :
    c'.state.unsettled ≤ c.state.unsettled - turns.length := by
  induction turns generalizing steps c with
  | nil => exact hc' ▸ Nat.le_refl _
  | cons r turns ih =>
    obtain ⟨hr, hturns⟩ := List.forall_mem_cons.mp others
    obtain ⟨responds, hresp⟩ := responsive
    rw [List.flatMap_cons, run_append] at hc'
    have hin := turn_inSession hr
    have htrace : c.trace <+: (run c r.steps).trace := trace_session c _ hin
    have htrace' : (run c r.steps).trace <+: c'.trace :=
      hc' ▸ trace_session _ _ (turns_inSession hturns)
    -- No frame is queued in this turn.
    have hqueued : queued (run c r.steps).trace = queued c.trace := by
      have hle := (htrace.flatMap queuedBy).sublist
      have hle' := (htrace'.flatMap queuedBy).length_le
      change (queued _).length ≤ (queued _).length at hle'
      rw [quiet] at hle'
      exact (hle.eq_of_length_le hle').symm
    have hc₁ : run c r.steps = run (boot mailboxes txq inb outb)
        (before ++ [⟨.canIfOpen true true, script⟩] ++ (steps ++ r.steps)) := by
      rw [hc, ← run_append, List.append_assoc]
    have session' : ∀ a ∈ steps ++ r.steps, a.action.inSession = true :=
      List.forall_mem_append.mpr ⟨session, hin⟩
    have hrest := ih session' hturns hc₁ hc' hresp (by rw [quiet, hqueued])
    -- What happens and what is left to happen add up to the same.
    have hsum := settled_session mailboxes txq inb outb before script session hc
    have hsum₁ := settled_session mailboxes txq inb outb before script session' hc₁
    rw [hqueued] at hsum₁
    have hserved := strandSound_session mailboxes txq inb outb before script session hc
    have hlinked : LinkedLog c.state c.trace := hc ▸ linked_run mailboxes txq inb outb _
    have hstep := settled_turn hlinked hserved.2.1.queue
      (hserved.1.served (Monitor.along_prefix (htrace.trans htrace') serves)) hr responds
    rw [List.length_cons]
    by_cases h : c.state.unsettled = 0
    · have hmono := settled_mono htrace
      omega
    · have hlt := hstep h
      omega

/-- The device comes to rest. After a successful `CanIf_Open` and any session, with no more
requests and as long as no step leaves a frame behind in the queue: in turns that each begin
with the outcome of a pending request, if there is one, and call `Can_FrameSent`, whatever else
happens in them, everything is settled after twice as many turns as frames are in mailboxes or
in the queue, and one for each flag, which is 134 at most. Nothing is then in a mailbox, queued
or flagged, and every frame queued has been transmitted, or aborted, or discarded by
`Can_BusError`. -/
theorem turns_settle (mailboxes : Fin 3 → TxMailBox) (txq : Nat → TxMailBox)
    (inb outb : Nat → UInt8) (before : List Step) (script : List (List Event))
    (steps : List Step) (session : ∀ a ∈ steps, a.action.inSession = true) (turns : List Turn)
    (others : ∀ r ∈ turns, ∀ a ∈ r.others, a.action.inSession = true) (c c' : Config)
    (hc : c = run (boot mailboxes txq inb outb)
      (before ++ [⟨.canIfOpen true true, script⟩] ++ steps))
    (hc' : c' = run c (turns.flatMap Turn.steps)) (responsive : Responsive c turns)
    (quiet : queued c'.trace = queued c.trace) (serves : NeverStrands c'.trace)
    (enough : c.state.unsettled ≤ turns.length) :
    c.state.unsettled ≤ 134 ∧ c'.state.resting = true ∧ c'.state.canTxQ.contents = [] ∧
      (queued c'.trace).Perm (transmitted c'.trace ++ aborted c'.trace ++ discarded c'.trace) := by
  have hserved := strandSound_session mailboxes txq inb outb before script session hc
  have hle := unsettled_turns mailboxes txq inb outb before script session others hc hc' responsive
    quiet serves
  obtain ⟨hrest, hi, hq⟩ := unsettled_zero (s := c'.state) (by omega)
  have session' : ∀ a ∈ steps ++ turns.flatMap Turn.steps, a.action.inSession = true :=
    List.forall_mem_append.mpr ⟨session, turns_inSession others⟩
  rw [hc, ← run_append, List.append_assoc] at hc'
  obtain ⟨-, hbal, -⟩ := queue_session mailboxes txq inb outb before true script session' hc'
  obtain ⟨-, hm⟩ := mailboxes_run mailboxes txq inb outb _ hc'
  rw [hq, List.append_nil] at hbal
  rw [hi, List.append_nil] at hm
  exact ⟨unsettled_le hserved.2.1, hrest, hq, hbal.trans (hm.append_right _)⟩

/-- Five frames are requested, of which the first is transmitted. -/
def fiveRequested : List Step :=
  [⟨.epOutComplete [4, 2, 0, 1, 4, 2, 0, 2, 4, 2, 0, 3, 4, 2, 0, 4, 4, 2, 0, 5], []⟩,
    ⟨.event (.txOk 0), []⟩]

/-- Two mailboxes hold requests and two frames are queued, with one flag: nine turns are enough.
In the second a mailbox completes while the handler runs. -/
def nineTurns : List Turn :=
  [⟨.txOk 1, [], [⟨.event (.rx ⟨0x20400000, 2, 0x0201, 0⟩), []⟩, ⟨.frameReceived fun _ ↦ 0, []⟩]⟩,
    ⟨.txOk 2, [[], [], [.txOk 0]], [⟨.event (.error 0x11), []⟩, ⟨.busError, []⟩]⟩,
    ⟨.txOk 1, [], [⟨.event (.fetch 64), []⟩, ⟨.epInComplete, []⟩]⟩] ++
    List.replicate 6 ⟨.ready true, [], []⟩

/-- All five are on the bus. -/
theorem turns_settle_nine :
    ∃ c c' : Config, c = run (boot (fun _ ↦ ⟨0, 0, 0, 0⟩) (fun _ ↦ ⟨0, 0, 0, 0⟩) (fun _ ↦ 0)
        fun _ ↦ 0) ([] ++ [⟨.canIfOpen true true, []⟩] ++ fiveRequested) ∧
      c' = run c (nineTurns.flatMap Turn.steps) ∧
      c.state.unsettled ≤ 134 ∧ c'.state.resting = true ∧ c'.state.canTxQ.contents = [] ∧
      (queued c'.trace).Perm (transmitted c'.trace ++ aborted c'.trace ++ discarded c'.trace) :=
  ⟨_, _, rfl, rfl, turns_settle (fun _ ↦ ⟨0, 0, 0, 0⟩) (fun _ ↦ ⟨0, 0, 0, 0⟩) (fun _ ↦ 0)
    (fun _ ↦ 0) [] [] fiveRequested (by decide) nineTurns (by decide) _ _ rfl rfl
    (by decide +kernel) (by decide +kernel) (by decide +kernel) (by decide +kernel)⟩

end CanDybug
