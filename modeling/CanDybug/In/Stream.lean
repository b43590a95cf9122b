import CanDybug.Base.Flow
import CanDybug.Device.Run
import Mathlib.Data.List.Flatten

/-!
# What the host fetches

The bytes that the host fetches of the regions in flight, the rest of the region, and what is
queued behind it are one stream: the messages taken since `CanIf_Open`, each behind its length
byte, after what was left of a region in flight then. This needs that no message reaches into
the region in flight, and that a transfer completes when all of it has been fetched.
-/

namespace CanDybug

open Base

namespace InPipe

/-- The bytes of the transfer in flight that the host is still to fetch. -/
def unfetched (p : InPipe) : List UInt8 :=
  match p.transfer with
  | none => []
  | some t => t.queued.drop t.fetched.length

/-- All bytes that are still to reach the host. -/
def remaining (p : InPipe) : List UInt8 := p.unfetched ++ p.queue.contents

/-- The bytes that a step fetches from the region in flight. -/
def fetchedBy (p : InPipe) : InStep → List UInt8
  | .fetch n =>
    match p.transfer with
    | none => []
    | some t => ((t.region.bytes p.queue.buffer).drop t.fetched.length).take n
  | _ => []

/-- The message that a step finds room for. -/
def takenBy (p : InPipe) : InStep → List (List UInt8)
  | .addMessage msg _ => if msg.length + 1 ≤ p.queue.space then [msg] else []
  | _ => []

/-- A message that is taken ends before the region in flight, and a transfer completes when
nothing of it is left. -/
def Proper (p : InPipe) : InStep → Prop
  | .epInComplete _ => p.unfetched = []
  | s => p.Separate s

instance decidableSeparate (p : InPipe) : (s : InStep) → Decidable (p.Separate s)
  | .addMessage msg _ => inferInstanceAs (Decidable (∀ t ∈ p.transfer,
      msg.length + 1 ≤ p.queue.space → msg.length + 1 ≤ gap p.queue t.region ∧
        gap p.queue t.region + t.region.length ≤ p.queue.size + 1))
  | .epInComplete _ | .canIfOpen | .fetch _ | .drop => .isTrue trivial

instance decidableProper (p : InPipe) : (s : InStep) → Decidable (p.Proper s)
  | .epInComplete _ => inferInstanceAs (Decidable (p.unfetched = []))
  | .addMessage msg ready => decidableSeparate p (.addMessage msg ready)
  | .canIfOpen | .fetch _ | .drop => .isTrue trivial

instance decidableIntact (p : InPipe) : Decidable p.Intact :=
  inferInstanceAs (Decidable (∀ t ∈ p.transfer,
    t.region.bytes p.queue.buffer = t.queued ∧ t.fetched <+: t.queued))

theorem Proper.separate {p : InPipe} {s : InStep} (h : p.Proper s) : p.Separate s := by
  cases s with
  | epInComplete => trivial
  | _ => exact h

/-- Handing over the region at the front of the queue drops nothing and changes no order. -/
theorem remaining_after {p : InPipe} {q : Queue UInt8} (hq : q.WellFormed) {accept : Bool}
    (h : accept = true → p.unfetched = []) :
    (p.after accept (canIfSendInData accept q)).remaining = p.unfetched ++ q.contents := by
  by_cases he : q.tail = q.head
  · rw [sendInData_empty he]
    cases accept with
    | false => rfl
    | true =>
      rw [h rfl]
      rfl
  · obtain ⟨g, hg, hs⟩ := sendInData_spec hq he
    rw [hs]
    cases accept with
    | false => rfl
    | true =>
      rw [h rfl, hg.contents hq]
      rfl

/-- What is fetched is the beginning of what is left of the region. -/
theorem unfetched_fetch {p : InPipe} (hi : p.Intact) (n : Nat) :
    p.unfetched = p.fetchedBy (.fetch n) ++ (p.fetch n).unfetched := by
  rw [fetchedBy, unfetched, unfetched, fetch]
  cases ht : p.transfer with
  | none => rfl
  | some t =>
    simp only [Option.map_some]
    rw [(hi t ht).1]
    obtain ⟨r, hr⟩ := List.take_prefix n (t.queued.drop t.fetched.length)
    rw [List.length_append, ← List.drop_drop]
    generalize (t.queued.drop t.fetched.length).take n = f at hr ⊢
    rw [← hr, List.drop_left]

/-- One step of a session: what remains and what is taken is what is fetched and remains. -/
theorem remaining_step {p : InPipe} (hv : p.Valid) (hi : p.Intact) {s : InStep}
    (ho : s ≠ .canIfOpen) (hd : s ≠ .drop) (h : p.Proper s) :
    p.remaining ++ (p.takenBy s).flatMap encode = p.fetchedBy s ++ (p.step s).remaining := by
  have hq := hv.wellFormed
  cases s with
  | canIfOpen | drop => contradiction
  | addMessage msg ready =>
    change _ = [] ++ (p.addMessage msg ready).remaining
    rw [addMessage_eq hv, takenBy, List.nil_append]
    split
    · next hf =>
      have hacc : p.accepts ready = true → p.unfetched = [] := by
        intro ha
        have ht : p.transfer = none := by simpa using (Bool.and_eq_true_iff.mp ha).2
        rw [unfetched, ht]
      have hfit : msg.length + 1 ≤ p.queue.size - p.queue.count := by
        rwa [← Queue.space_eq hq]
      rw [remaining_after (q := appended p.queue msg) (hq.putAll _) hacc,
        appended_contents hq hfit, List.flatMap_singleton, remaining, List.append_assoc]
    · exact List.append_nil _
  | epInComplete ready =>
    change p.remaining ++ [] = [] ++ (p.epInComplete ready).remaining
    rw [List.append_nil, List.nil_append, epInComplete]
    split
    · have ha := remaining_after (p := { p with transfer := none }) hq
        fun (_ : ready = true) ↦ rfl
      rw [ha, remaining, show p.unfetched = [] from h]
      rfl
    · rfl
  | fetch n =>
    change p.remaining ++ [] = p.fetchedBy (.fetch n) ++ (p.fetch n).remaining
    rw [List.append_nil, remaining, unfetched_fetch hi n, List.append_assoc]
    rfl

end InPipe

/-! ### The pipe of the device -/

/-- What an operation is to the IN pipe. -/
def Op.inStep (o : Op) (s : State) : Option InStep :=
  match o with
  | event (.fetch n) => some (.fetch n)
  | emptyBuffers => some .canIfOpen
  | dropTransfers => some .drop
  | addMessage msg => some (.addMessage msg s.ready)
  | epInComplete => some (.epInComplete s.ready)
  | _ => none

/-- The device does to its IN pipe what the pipe's own model does. -/
theorem canIfIn_exec (o : Op) (s : State) :
    (s.exec o).canIfIn = (o.inStep s).elim s.canIfIn s.canIfIn.step := by
  cases o with
  | event e => cases e <;> rfl
  | deliver bytes =>
    unfold State.exec
    cases s.armed <;> rfl
  | _ => rfl

theorem valid_exec {s : State} (h : s.canIfIn.Valid) (o : Op) : (s.exec o).canIfIn.Valid := by
  rw [canIfIn_exec]
  cases o.inStep s with
  | none => exact h
  | some st => exact h.step st

/-- The bytes that an operation fetches. -/
def fetchedBy (e : Op × State) : List UInt8 := (e.1.inStep e.2).elim [] e.2.canIfIn.fetchedBy

/-- The bytes that the host has fetched. -/
def fetched (t : Log) : List UInt8 := t.flatMap fetchedBy

/-- The message that the IN pipe takes. -/
def takenBy (e : Op × State) : List (List UInt8) := (e.1.inStep e.2).elim [] e.2.canIfIn.takenBy

/-- The messages that the IN pipe has taken. -/
def taken (t : Log) : List (List UInt8) := t.flatMap takenBy

/-- The message that an operation offers to `CanIf_AddMessage`. -/
def Op.offered : Op → List (List UInt8)
  | addMessage msg => [msg]
  | _ => []

/-- The messages offered to `CanIf_AddMessage`. -/
def offered (t : Log) : List (List UInt8) := t.flatMap fun e ↦ e.1.offered

@[simp] theorem offered_concat (t : Log) (e : Op × State) :
    offered (t ++ [e]) = offered t ++ e.1.offered := by
  simp [offered]

/-- The pipe takes no other messages than those offered. -/
theorem taken_sublist_offered (t : Log) : (taken t).Sublist (offered t) := by
  apply List.Sublist.flatMap_right
  rintro ⟨o, s⟩ -
  cases o with
  | addMessage msg =>
    change (if _ then [msg] else []).Sublist [msg]
    split
    · exact List.Sublist.refl _
    · exact List.nil_sublist _
  | event e => cases e <;> exact List.nil_sublist _
  | _ => exact List.nil_sublist _

/-- Every step of the IN pipe is proper. -/
def ProperIn (t : Log) : Prop :=
  ∀ e ∈ t, ∀ st ∈ e.1.inStep e.2, e.2.canIfIn.Proper st

instance decidableProperIn (t : Log) : Decidable (ProperIn t) :=
  inferInstanceAs (Decidable (∀ e ∈ t, ∀ st ∈ e.1.inStep e.2, e.2.canIfIn.Proper st))

/-- Bytes through the IN pipe. -/
def inFlow : Flow State Op UInt8 := ⟨fun e ↦ (takenBy e).flatMap encode, fetchedBy⟩

theorem inFlow_entered (t : Log) : inFlow.entered t = (taken t).flatMap encode :=
  List.flatMap_assoc.symm

/-- The pipe is valid; and if all was proper, the region in flight is intact, and the host has
fetched, and is still to fetch, `first` and then the messages taken. -/
def InLog (first : List UInt8) (s : State) (t : Log) : Prop :=
  s.canIfIn.Valid ∧ (ProperIn t → s.canIfIn.Intact ∧
    inFlow.Balance (· = ·) first (fun s ↦ s.canIfIn.remaining) s t)

/-- Operations that leave the IN pipe as it is, or belong to a session. -/
def Op.streams : Op → Bool
  | emptyBuffers | dropTransfers => false
  | _ => true

theorem Op.inStep_streams {o : Op} (ho : o.streams = true) {s : State} {st : InStep}
    (h : o.inStep s = some st) : st ≠ .canIfOpen ∧ st ≠ .drop := by
  constructor
  · rintro rfl
    cases o with
    | event e => cases e <;> cases h
    | _ => first | contradiction | cases h
  · rintro rfl
    cases o with
    | event e => cases e <;> cases h
    | _ => first | contradiction | cases h

theorem InLog.keep {first : List UInt8} {o : Op} (ho : o.streams = true) :
    OpKeeps device (InLog first) o := by
  rintro s t ⟨hv, h⟩
  refine ⟨valid_exec hv o, fun hp ↦ ?_⟩
  obtain ⟨hi, hb⟩ := h fun e he ↦ hp e (List.mem_append_left _ he)
  cases hs : o.inStep s with
  | none =>
    have hexec : (s.exec o).canIfIn = s.canIfIn := by rw [canIfIn_exec, hs]; rfl
    refine ⟨hexec.symm ▸ hi, hb.same law_eq ?_ ?_ (congrArg InPipe.remaining hexec)⟩
    · change (takenBy (o, s)).flatMap encode = []
      rw [takenBy, hs]
      rfl
    · change fetchedBy (o, s) = []
      rw [fetchedBy, hs]
      rfl
  | some st =>
    have hproper := hp (o, s) (by simp) st hs
    have hne := Op.inStep_streams ho hs
    have hexec : (s.exec o).canIfIn = s.canIfIn.step st := by rw [canIfIn_exec, hs]; rfl
    refine ⟨hexec.symm ▸ hi.step hv hproper.separate, hb.step law_eq ?_⟩
    have hstep := InPipe.remaining_step hv hi hne.1 hne.2 hproper
    change s.canIfIn.remaining ++ (takenBy (o, s)).flatMap encode =
      fetchedBy (o, s) ++ (s.exec o).canIfIn.remaining
    rw [takenBy, fetchedBy, hs, hexec]
    exact hstep

theorem inLog_kept (first : List UInt8) : Kept (InLog first) :=
  kept_of_ops fun o ho ↦ InLog.keep (by cases o <;> first | rfl | contradiction)

/-! ### Opening -/

/-- The part of a session before the queue is emptied: of the bytes left of the region in
flight, `first`, the host may have fetched some. -/
private def Leftover (first : List UInt8) (s : State) (t : Log) : Prop :=
  s.canIfIn.Valid ∧ s.canIfIn.Intact ∧
    inFlow.Balance (· = ·) first (fun s ↦ s.canIfIn.unfetched) s t

private theorem Leftover.same {first : List UInt8} {o : Op} {s : State} {t : Log}
    (h : Leftover first s t) (ho : o.inStep s = none) :
    Leftover first (s.exec o) (t ++ [(o, s)]) := by
  have hexec : (s.exec o).canIfIn = s.canIfIn := by rw [canIfIn_exec, ho]; rfl
  refine ⟨hexec.symm ▸ h.1, hexec.symm ▸ h.2.1,
    h.2.2.same law_eq ?_ ?_ (congrArg InPipe.unfetched hexec)⟩
  · change (takenBy (o, s)).flatMap encode = []
    rw [takenBy, ho]
    rfl
  · change fetchedBy (o, s) = []
    rw [fetchedBy, ho]
    rfl

private theorem leftover_stable (first : List UInt8) : Stable device (Leftover first) := by
  rintro e s t h
  cases e with
  | fetch n =>
    refine ⟨h.1.step (.fetch n), h.2.1.step h.1 (s := .fetch n) trivial, h.2.2.step law_eq ?_⟩
    exact (List.append_nil _).trans (InPipe.unfetched_fetch h.2.1 n)
  | _ => exact h.same rfl

/-- No more than `stale` is left of the region in flight. -/
private def Unopened (stale : List UInt8) (s : State) (_ : Log) : Prop :=
  s.canIfIn.Valid ∧ s.canIfIn.Intact ∧ s.canIfIn.unfetched <:+ stale

/-- Nothing but what is left of the region in flight stays over `CanIf_Open`. -/
private theorem inLog_open (stale : List UInt8) :
    Triple (Unopened stale) (canIfOpen true true)
      fun _ s t ↦ ∃ first, first <:+ stale ∧ InLog first s t := by
  refine canIfOpen_begin (E := fun s t ↦ ∃ first, first <:+ stale ∧ Leftover first s t)
    (S := fun s t ↦ ∃ first, first <:+ stale ∧ Leftover first s t) ?_ ?_ ?_ ?_ (by simp) ?_ ?_
  · rintro e s t ⟨hv, hi, hs⟩
    cases e with
    | fetch n =>
      refine ⟨hv.step (.fetch n), hi.step hv (s := .fetch n) trivial, ?_⟩
      exact (InPipe.unfetched_fetch hi n ▸ List.suffix_append _ _ :
        (s.canIfIn.fetch n).unfetched <:+ s.canIfIn.unfetched).trans hs
    | _ => exact ⟨hv, hi, hs⟩
  · rintro e s t ⟨first, hf, h⟩
    exact ⟨first, hf, leftover_stable first e s t h⟩
  · rintro s t ⟨hv, hi, hs⟩
    exact ⟨s.canIfIn.unfetched, hs, hv, hi, Flow.balance_nil law_eq rfl⟩
  · rintro s t ⟨first, hf, h⟩ -
    exact ⟨first, hf, h.same rfl⟩
  · rintro - s t ⟨first, hf, hv, hi, hb⟩
    refine ⟨first, hf, hv.step .canIfOpen, fun _ ↦ ⟨hi.step hv (s := .canIfOpen) trivial, ?_⟩⟩
    apply hb.step law_eq
    -- The queue is empty now.
    change s.canIfIn.unfetched ++ [] =
      [] ++ (s.canIfIn.unfetched ++ s.canIfIn.queue.reset.contents)
    have he : s.canIfIn.queue.reset.contents = [] :=
      (Queue.empty_iff hv.wellFormed.reset).mp (by simp [Queue.empty, Queue.reset])
    rw [he, List.append_nil, List.nil_append]
  · apply keeps_canIfReceiveOutData
    · rintro e s t ⟨first, hf, h⟩
      exact ⟨first, hf, (inLog_kept first).stable e s t h⟩
    · rintro s t ⟨first, hf, h⟩
      exact ⟨first, hf, InLog.keep rfl s t h⟩
    · rintro g s t ⟨first, hf, h⟩
      exact ⟨first, hf, InLog.keep rfl s t h⟩

/-- The IN pipe is valid in every state of every run. -/
theorem valid_run (mailboxes : Fin 3 → TxMailBox) (txq : Nat → TxMailBox)
    (inb outb : Nat → UInt8) (steps : List Step) :
    (run (boot mailboxes txq inb outb) steps).state.canIfIn.Valid :=
  run_of_ops (I := fun s _ ↦ s.canIfIn.Valid) (c := boot mailboxes txq inb outb)
    (fun o _ _ h ↦ valid_exec h o) (fun _ _ h ↦ h) (InPipe.valid_initial inb) steps

/-- In every session, if the region in flight was intact before. -/
theorem inLog_session (mailboxes : Fin 3 → TxMailBox) (txq : Nat → TxMailBox)
    (inb outb : Nat → UInt8) (before : List Step) (script : List (List Event))
    {steps : List Step} (session : ∀ a ∈ steps, a.action.inSession = true) {c : Config}
    (hc : c = run (boot mailboxes txq inb outb)
      (before ++ [⟨.canIfOpen true true, script⟩] ++ steps))
    (intact : (run (boot mailboxes txq inb outb) before).state.canIfIn.Intact) :
    ∃ stale, stale <:+ (run (boot mailboxes txq inb outb) before).state.canIfIn.unfetched ∧
      InLog stale c.state c.trace := by
  subst hc
  have hopen (stale : List UInt8) : Triple (Unopened stale)
      (Step.program ⟨.canIfOpen true true, script⟩)
      fun _ s t ↦ ∃ first, first <:+ stale ∧ InLog first s t :=
    Triple.bind (keeps_schedule script) fun _ ↦ inLog_open stale
  have hvalid := valid_run mailboxes txq inb outb before
  obtain ⟨stale, hs, hlog⟩ := hopen _ _ ⟨hvalid, intact, List.suffix_refl _⟩
  rw [run_append, run_append]
  exact ⟨stale, hs, (inLog_kept stale).session hlog steps session⟩

/-- After a successful `CanIf_Open`, as long as no message reaches into the region in flight
and transfers complete when all of the region has been fetched: the bytes that the host has
fetched, then the rest of the region, and then the queue, are what was left of the region in
flight when the interface was opened, and after it the messages taken since, each whole and
behind its length byte. -/
theorem fetched_stream (mailboxes : Fin 3 → TxMailBox) (txq : Nat → TxMailBox)
    (inb outb : Nat → UInt8) (before : List Step) (script : List (List Event))
    (steps : List Step) (session : ∀ a ∈ steps, a.action.inSession = true) (c : Config)
    (hc : c = run (boot mailboxes txq inb outb)
      (before ++ [⟨.canIfOpen true true, script⟩] ++ steps))
    (intact : (run (boot mailboxes txq inb outb) before).state.canIfIn.Intact)
    (proper : ProperIn c.trace) :
    ∃ stale, stale <:+ (run (boot mailboxes txq inb outb) before).state.canIfIn.unfetched ∧
      fetched c.trace ++ (c.state.canIfIn.unfetched ++ c.state.canIfIn.queue.contents) =
        stale ++ (taken c.trace).flatMap encode := by
  obtain ⟨stale, hs, -, h⟩ := inLog_session mailboxes txq inb outb before script session hc intact
  rw [← inFlow_entered]
  exact ⟨stale, hs, (h proper).2.symm⟩

/-- A frame is received, and of its message the host fetches two bytes. -/
def halfFetched : List Step :=
  [⟨.canIfOpen true true, []⟩, ⟨.event (.rx ⟨0x20400000, 2, 0x0201, 0⟩), []⟩,
    ⟨.frameReceived fun _ ↦ 0, []⟩, ⟨.event (.fetch 2), []⟩]

/-- It fetches the rest, then an acknowledgement, and the length byte of a bus error that was
queued meanwhile. -/
def restFetched : List Step :=
  [⟨.event (.fetch 64), []⟩, ⟨.epInComplete, []⟩, ⟨.epOutComplete [4, 2, 0, 1], []⟩,
    ⟨.event (.txOk 0), []⟩, ⟨.frameSent, []⟩, ⟨.event (.error 0x11), []⟩,
    ⟨.busError, [[.fetch 1]]⟩, ⟨.event (.fetch 1), []⟩, ⟨.epInComplete, []⟩,
    ⟨.event (.fetch 1), []⟩]

/-- What is left of the frame comes first. -/
theorem fetched_stream_halved :
    ∃ c : Config, c = run (boot (fun _ ↦ ⟨0, 0, 0, 0⟩) (fun _ ↦ ⟨0, 0, 0, 0⟩) (fun _ ↦ 0) fun _ ↦ 0)
        (halfFetched ++ [⟨.canIfOpen true true, [[.fetch 1]]⟩] ++ restFetched) ∧
      ∃ stale, stale <:+ (run (boot (fun _ ↦ ⟨0, 0, 0, 0⟩) (fun _ ↦ ⟨0, 0, 0, 0⟩) (fun _ ↦ 0)
          fun _ ↦ 0) halfFetched).state.canIfIn.unfetched ∧
        fetched c.trace ++ (c.state.canIfIn.unfetched ++ c.state.canIfIn.queue.contents) =
          stale ++ (taken c.trace).flatMap encode :=
  ⟨_, rfl, fetched_stream (fun _ ↦ ⟨0, 0, 0, 0⟩) (fun _ ↦ ⟨0, 0, 0, 0⟩) (fun _ ↦ 0) (fun _ ↦ 0)
    halfFetched [[.fetch 1]] restFetched (by decide) _ rfl (by decide +kernel)
    (by decide +kernel)⟩

end CanDybug
