import CanDybug.In.Stream

/-!
# Capacity of the IN pipe

`CanIf_AddMessage` compares a message with the space of the queue, where the region in flight
counts as free. If a message fits beside both what is queued and what is in flight, it is taken,
and it ends before the region. So as long as no more than 256 bytes are on their way at a time,
the pipe loses nothing and the host reads all that was offered.
-/

namespace CanDybug

open Base

namespace InPipe

/-- Bytes that the region in flight occupies, until the transfer completes. -/
def inFlight (p : InPipe) : Nat := p.transfer.elim 0 (·.region.length)

/-- The region in flight ends at the tail. -/
def Behind (p : InPipe) : Prop :=
  ∀ t, p.transfer = some t → t.region.start + t.region.length = p.queue.tail + 1

/-- A message fits beside what is in flight and what is queued, and a transfer completes when
nothing of it is left. -/
def Fits (p : InPipe) : InStep → Prop
  | .addMessage msg _ => p.inFlight + p.queue.count + (msg.length + 1) ≤ p.queue.size
  | .epInComplete _ => p.unfetched = []
  | _ => True

instance decidableFits (p : InPipe) : (s : InStep) → Decidable (p.Fits s)
  | .addMessage _ _ => inferInstanceAs (Decidable (_ ≤ _))
  | .epInComplete _ => inferInstanceAs (Decidable (p.unfetched = []))
  | .canIfOpen | .fetch _ | .drop => .isTrue trivial

/-- What fits is taken, and ends before the region in flight. -/
theorem Fits.proper {p : InPipe} (hv : p.Valid) (hb : p.Behind) {s : InStep} (h : p.Fits s) :
    p.Proper s := by
  cases s with
  | addMessage msg ready =>
    intro t ht _
    obtain ⟨hl, -⟩ := hv.region t ht
    have hsp := Queue.space_eq hv.wellFormed
    have hin : p.inFlight = t.region.length := by rw [inFlight, ht]; rfl
    simp only [Fits, hin] at h
    have hgap := gap_behind hv.wellFormed (hb t ht) hl (by omega)
    omega
  | epInComplete ready => exact h
  | canIfOpen | fetch | drop => trivial

theorem Fits.taken {p : InPipe} (hv : p.Valid) {msg : List UInt8} {ready : Bool}
    (h : p.Fits (.addMessage msg ready)) : p.takenBy (.addMessage msg ready) = [msg] := by
  have hsp := Queue.space_eq hv.wellFormed
  simp only [Fits] at h
  exact if_pos (by omega)

/-- The tail moves to the end of a region that is accepted. -/
theorem behind_after {p : InPipe} {q : Queue UInt8} (hq : q.WellFormed) {accept : Bool}
    (h : ∀ t, p.transfer = some t → t.region.start + t.region.length = q.tail + 1) :
    (p.after accept (canIfSendInData accept q)).Behind := by
  by_cases he : q.tail = q.head
  · rw [sendInData_empty he]
    cases accept with
    | false => exact h
    | true => exact nofun
  · obtain ⟨g, hg, hs⟩ := sendInData_spec hq he
    rw [hs]
    cases accept with
    | false => exact h
    | true =>
      intro t ht
      obtain rfl : (⟨g, g.bytes q.buffer, []⟩ : Transfer) = t := Option.some.inj ht
      change g.start + g.length = (q.tail + g.length) % (q.size + 1) + 1
      have hpos := hg.length_pos
      have hin := hg.inside
      have htail := hq.tail_le
      have hstart := hg.start_eq
      rw [mod_eq_sub (by omega)] at hstart
      rw [mod_eq_sub (by omega)]
      split at hstart <;> split <;> omega

/-- Only `CanIf_Open` moves the tail away from the region in flight. -/
theorem Behind.step {p : InPipe} (hb : p.Behind) (hv : p.Valid) {s : InStep}
    (hs : s = .canIfOpen → p.transfer = none) : (p.step s).Behind := by
  have hq := hv.wellFormed
  cases s with
  | addMessage msg ready =>
    change (p.addMessage msg ready).Behind
    rw [addMessage_eq hv]
    split
    · exact behind_after (hq.putAll _) fun t ht ↦ (hb t ht).trans
        (congrArg (· + 1) (Queue.tail_putAll p.queue (encode msg)).symm)
    · exact hb
  | epInComplete ready =>
    change (p.epInComplete ready).Behind
    unfold epInComplete
    split
    · exact behind_after hq nofun
    · exact hb
  | canIfOpen =>
    intro t ht
    rw [show (p.step .canIfOpen).transfer = p.transfer from rfl, hs rfl] at ht
    contradiction
  | fetch n =>
    intro t ht
    obtain ⟨t', ht', rfl⟩ := Option.map_eq_some_iff.mp ht
    exact hb t' ht'
  | drop => exact nofun

end InPipe

/-! ### The pipe of the device -/

/-- Each message offered fits. -/
def InRoom (t : Log) : Prop := ∀ e ∈ t, ∀ st ∈ e.1.inStep e.2, e.2.canIfIn.Fits st

instance decidableInRoom (t : Log) : Decidable (InRoom t) :=
  inferInstanceAs (Decidable (∀ e ∈ t, ∀ st ∈ e.1.inStep e.2, e.2.canIfIn.Fits st))

/-- If all messages fit, they are all taken, and none reaches into a region in flight. -/
def CapacityLog (s : State) (t : Log) : Prop :=
  s.canIfIn.Valid ∧ s.canIfIn.Behind ∧ (InRoom t → ProperIn t ∧ taken t = offered t)

private theorem takenBy_fits {o : Op} {s : State} (hv : s.canIfIn.Valid)
    (h : ∀ st ∈ o.inStep s, s.canIfIn.Fits st) : takenBy (o, s) = o.offered := by
  cases o with
  | addMessage msg => exact (h _ rfl).taken hv
  | event e => cases e <;> rfl
  | _ => rfl

theorem CapacityLog.step {s : State} {t : Log} (h : CapacityLog s t) {o : Op}
    (ho : o = .emptyBuffers → s.canIfIn.transfer = none) :
    CapacityLog (s.exec o) (t ++ [(o, s)]) := by
  obtain ⟨hv, hb, hr⟩ := h
  have hopen (st : InStep) (hst : o.inStep s = some st) :
      st = .canIfOpen → s.canIfIn.transfer = none := by
    rintro rfl
    cases o with
    | emptyBuffers => exact ho rfl
    | event e => cases e <;> cases hst
    | _ => cases hst
  refine ⟨valid_exec hv o, ?_, fun hroom ↦ ?_⟩
  · rw [canIfIn_exec]
    cases hst : o.inStep s with
    | none => exact hb
    | some st => exact hb.step hv (hopen st hst)
  · obtain ⟨hp, ht⟩ := hr fun e he ↦ hroom e (List.mem_append_left _ he)
    have hfits := hroom (o, s) (by simp)
    constructor
    · intro e he st hst
      rcases List.mem_append.mp he with he | he
      · exact hp e he st hst
      · obtain rfl := List.mem_singleton.mp he
        exact (hfits st hst).proper hv hb
    · have htaken : taken (t ++ [(o, s)]) = taken t ++ takenBy (o, s) := by simp [taken]
      rw [htaken, offered_concat, ht, takenBy_fits hv hfits]

theorem capacityLog_kept : Kept CapacityLog :=
  kept_of_ops fun o ho _ _ h ↦ h.step (by rintro rfl; contradiction)

private theorem capacityLog_open :
    Triple (fun s _ ↦ s.canIfIn.Valid ∧ s.canIfIn.transfer = none) (canIfOpen true true)
      fun _ ↦ CapacityLog := by
  have idle (e : Event) (s : State) (h : s.canIfIn.transfer = none) :
      (s.exec (.event e)).canIfIn.transfer = none := by
    cases e with
    | fetch n => exact congrArg (Option.map _) h
    | _ => exact h
  refine canIfOpen_begin (E := fun s t ↦ CapacityLog s t ∧ s.canIfIn.transfer = none)
    (S := fun s t ↦ CapacityLog s t ∧ s.canIfIn.transfer = none) ?_ ?_ ?_ ?_ (by simp) ?_ ?_
  · exact fun e s t ⟨hv, hi⟩ ↦ ⟨valid_exec hv (.event e), idle e s hi⟩
  · exact fun e s t ⟨h, hi⟩ ↦ ⟨h.step (o := .event e) (by simp), idle e s hi⟩
  · rintro s t ⟨hv, hi⟩
    refine ⟨⟨hv, fun t ht ↦ ?_, fun _ ↦ ⟨by simp [ProperIn], rfl⟩⟩, hi⟩
    rw [show (s.exec .resetCan).canIfIn.transfer = s.canIfIn.transfer from rfl, hi] at ht
    contradiction
  · exact fun s t ⟨h, hi⟩ _ ↦ ⟨h.step (o := .canStart) (by simp), hi⟩
  · exact fun _ s t ⟨h, hi⟩ ↦ h.step fun _ ↦ hi
  · exact keeps_canIfReceiveOutData capacityLog_kept.stable
      (fun s t h ↦ h.step (o := .receiveOutData) (by simp))
      fun g s t h ↦ h.step (o := .usbReceive g) (by simp)

/-- In every session that starts with no transfer in flight. -/
theorem capacity_session (mailboxes : Fin 3 → TxMailBox) (txq : Nat → TxMailBox)
    (inb outb : Nat → UInt8) (before : List Step) (script : List (List Event))
    {steps : List Step} (session : ∀ a ∈ steps, a.action.inSession = true) {c : Config}
    (hc : c = run (boot mailboxes txq inb outb)
      (before ++ [⟨.canIfOpen true true, script⟩] ++ steps))
    (idle : (run (boot mailboxes txq inb outb) before).state.canIfIn.transfer = none) :
    CapacityLog c.state c.trace ∧ (ProperIn c.trace →
      fetched c.trace ++ c.state.canIfIn.remaining = (taken c.trace).flatMap encode) := by
  constructor
  · subst hc
    have hopen : Triple (fun s _ ↦ s.canIfIn.Valid ∧ s.canIfIn.transfer = none)
        (Step.program ⟨.canIfOpen true true, script⟩) fun _ ↦ CapacityLog :=
      Triple.bind (keeps_schedule script) fun _ ↦ capacityLog_open
    rw [run_append, run_append]
    exact capacityLog_kept.session
      (hopen _ ⟨valid_run mailboxes txq inb outb before, idle⟩) steps session
  · intro proper
    have intact : (run (boot mailboxes txq inb outb) before).state.canIfIn.Intact := by
      intro t ht
      rw [idle] at ht
      contradiction
    obtain ⟨stale, hs, -, h⟩ :=
      inLog_session mailboxes txq inb outb before script session hc intact
    rw [InPipe.unfetched, idle] at hs
    rw [← inFlow_entered, ← List.nil_append (inFlow.entered _), ← List.suffix_nil.mp hs]
    exact (h proper).2.symm

/-- After a successful `CanIf_Open` with no transfer in flight: as long as each message offered
fits into 256 bytes together with all that is queued and in flight, and transfers complete only
when all of the region has been fetched, the pipe takes every message, none reaches into the
region in flight, and what the host has fetched and is still to fetch are all the messages
offered, in order. -/
theorem offered_fetched (mailboxes : Fin 3 → TxMailBox) (txq : Nat → TxMailBox)
    (inb outb : Nat → UInt8) (before : List Step) (script : List (List Event))
    (steps : List Step) (session : ∀ a ∈ steps, a.action.inSession = true) (c : Config)
    (hc : c = run (boot mailboxes txq inb outb)
      (before ++ [⟨.canIfOpen true true, script⟩] ++ steps))
    (idle : (run (boot mailboxes txq inb outb) before).state.canIfIn.transfer = none)
    (room : InRoom c.trace) :
    taken c.trace = offered c.trace ∧ ProperIn c.trace ∧
      fetched c.trace ++ (c.state.canIfIn.unfetched ++ c.state.canIfIn.queue.contents) =
        (offered c.trace).flatMap encode := by
  obtain ⟨hcap, hfetched⟩ :=
    capacity_session mailboxes txq inb outb before script session hc idle
  obtain ⟨proper, htaken⟩ := hcap.2.2 room
  exact ⟨htaken, proper, htaken ▸ hfetched proper⟩

/-- Three frames arrive, and the host fetches their messages in two transfers. -/
def threeFetched : List Step :=
  List.replicate 3 ⟨.event (.rx ⟨0x0000001C, 8, 0x04030201, 0x08070605⟩), []⟩ ++
    ⟨.frameReceived fun _ ↦ 0, []⟩ ::
      (List.replicate 2 [⟨.event (.fetch 64), []⟩, ⟨.epInComplete, []⟩]).flatten

/-- Seven times that goes around the buffer once. -/
theorem offered_fetched_around :
    ∃ c : Config, c = run (boot (fun _ ↦ ⟨0, 0, 0, 0⟩) (fun _ ↦ ⟨0, 0, 0, 0⟩) (fun _ ↦ 0) fun _ ↦ 0)
        ([] ++ [⟨.canIfOpen true true, []⟩] ++ (List.replicate 7 threeFetched).flatten) ∧
      taken c.trace = offered c.trace ∧ ProperIn c.trace ∧
      fetched c.trace ++ (c.state.canIfIn.unfetched ++ c.state.canIfIn.queue.contents) =
        (offered c.trace).flatMap encode :=
  ⟨_, rfl, offered_fetched (fun _ ↦ ⟨0, 0, 0, 0⟩) (fun _ ↦ ⟨0, 0, 0, 0⟩) (fun _ ↦ 0) (fun _ ↦ 0)
    [] [] (List.replicate 7 threeFetched).flatten (by decide) _ rfl rfl (by decide +kernel)⟩

end CanDybug
