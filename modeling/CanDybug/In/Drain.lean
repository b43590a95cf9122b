import CanDybug.In.Stream

/-!
# The host that keeps reading

A transfer takes what is queued up to the end of the buffer, so what wraps around takes two. As
long as the endpoint accepts and no message is added, three completions are enough: of a
transfer in flight, and of these two.
-/

namespace CanDybug

open Base

namespace InPipe

/-- How many transfers the queue takes. -/
def segments (q : Queue UInt8) : Nat :=
  if q.tail = q.head then 0 else if q.tail < q.head ∨ q.tail = q.size then 1 else 2

theorem segments_pos {q : Queue UInt8} (h : q.tail ≠ q.head) : 0 < segments q := by
  rw [segments, if_neg h]
  split <;> omega

/-- Each transfer is one less. -/
theorem segments_advance {q : Queue UInt8} {g : Region} (hq : q.WellFormed) (hg : Offered q g) :
    segments (q.advance g.length) + 1 ≤ segments q := by
  have hpos := hg.length_pos
  have hlen := hg.length_le
  have hh := hq.head_le
  have ht := hq.tail_le
  have hne : q.tail ≠ q.head := by
    intro he
    rw [Queue.count, he, if_pos (Nat.le_refl _)] at hlen
    omega
  by_cases hall : g.length = q.count
  · have he : (q.advance g.length).empty = true := by
      rw [Queue.empty_iff (hq.advance _), ← List.length_eq_zero_iff, Queue.length_contents,
        Queue.count_advance hq hlen, hall, Nat.sub_self]
    have hstart : (q.advance g.length).tail = (q.advance g.length).head := by
      simpa [Queue.empty] using he
    rw [segments, if_pos hstart]
    exact segments_pos hne
  · -- What is left goes on at the beginning of the buffer.
    have hend := hg.toHeadOrEnd.resolve_left hall
    have htail : (q.advance g.length).tail = (q.advance g.length).size := by
      change (q.tail + g.length) % (q.size + 1) = q.size
      rw [hend, Nat.mod_eq_of_lt (Nat.lt_succ_self _)]
    have hwraps : ¬(q.tail < q.head ∨ q.tail = q.size) := by
      rintro (hlt | he)
      · rw [Queue.count, if_pos hlt.le] at hlen hall
        omega
      · omega
    rw [segments, segments, if_neg hne, if_neg hwraps, if_pos (Or.inr htail)]
    split <;> omega

/-- The transfers until everything has been fetched: one in flight, and those of the queue. -/
def hops (p : InPipe) : Nat := p.transfer.isSome.toNat + segments p.queue

theorem hops_le (p : InPipe) : p.hops ≤ 3 := by
  have hs : segments p.queue ≤ 2 := by
    rw [segments]
    split
    · omega
    · split <;> omega
  exact Nat.add_le_add (Bool.toNat_le _) hs

/-- With no transfer left nothing is. -/
theorem hops_zero {p : InPipe} (hq : p.queue.WellFormed) (h : p.hops = 0) : p.remaining = [] := by
  obtain ⟨ht, hs⟩ := Nat.add_eq_zero_iff.mp h
  have htransfer : p.transfer = none := by simpa using ht
  have hempty : p.queue.tail = p.queue.head := by
    by_contra hne
    exact (segments_pos hne).ne' hs
  rw [remaining, unfetched, htransfer, (Queue.empty_iff hq).mp (by simp [Queue.empty, hempty])]
  rfl

/-- They depend on whether a transfer is in flight, not on what has been fetched of it. -/
theorem hops_congr {p p' : InPipe} (ht : p'.transfer.isSome = p.transfer.isSome)
    (hq : p'.queue = p.queue) : p'.hops = p.hops := by
  rw [hops, hops, ht, hq]

/-- A completion is one transfer less, whether the next one is accepted or not. -/
theorem hops_epInComplete {p : InPipe} (hq : p.queue.WellFormed) (ht : p.transfer ≠ none)
    (ready : Bool) : (p.epInComplete ready).hops + 1 ≤ p.hops := by
  obtain ⟨tr, htr⟩ := Option.ne_none_iff_exists'.mp ht
  rw [epInComplete, if_pos (by rw [htr]; rfl), hops, hops, htr]
  by_cases hne : p.queue.tail = p.queue.head
  · rw [sendInData_empty hne]
    have hle : 0 + segments p.queue + 1 ≤ 1 + segments p.queue := by omega
    cases ready <;> exact hle
  · obtain ⟨g, hg, hs⟩ := sendInData_spec hq hne
    have hadv := segments_advance hq hg
    rw [hs]
    cases ready with
    | false =>
      change 0 + segments p.queue + 1 ≤ 1 + segments p.queue
      omega
    | true =>
      change 1 + segments (p.queue.advance g.length) + 1 ≤ 1 + segments p.queue
      omega

/-- Nothing waits without a transfer in flight. -/
def Busy (p : InPipe) : Prop := p.transfer.isSome = true ∨ p.queue.contents = []

instance decidableBusy (p : InPipe) : Decidable p.Busy := inferInstanceAs (Decidable (_ ∨ _))

/-- If the endpoint accepts the next transfer. -/
theorem Busy.epInComplete {p : InPipe} (h : p.Busy) (hq : p.queue.WellFormed) :
    (p.epInComplete true).Busy := by
  unfold InPipe.epInComplete
  split
  · by_cases hne : p.queue.tail = p.queue.head
    · rw [sendInData_empty hne]
      exact .inr ((Queue.empty_iff hq).mp (by simp [Queue.empty, hne]))
    · obtain ⟨g, -, hs⟩ := sendInData_spec hq hne
      rw [hs]
      exact .inl rfl
  · exact h

/-- And then no transfer is left, if none is in flight. -/
theorem Busy.hops_zero {p : InPipe} (h : p.Busy) (hq : p.queue.WellFormed)
    (ht : p.transfer = none) : p.hops = 0 := by
  have hc : p.queue.contents = [] := h.resolve_left (by simp [ht])
  have he : p.queue.tail = p.queue.head := by
    simpa [Queue.empty] using (Queue.empty_iff hq).mpr hc
  rw [hops, ht, segments, if_pos he]
  rfl

end InPipe

/-! ### The pipe of the device -/

/-- Completions of IN transfers. -/
def completions (t : Log) : Nat := t.countP fun e ↦ e.1 == .epInComplete

/-- Since the trace `start`, with the endpoint accepting and no message taken: nothing waits
without a transfer in flight, and each completion has left one transfer less of the first `n`. -/
def Draining (start : Log) (n : Nat) (s : State) (t : Log) : Prop :=
  s.canIfIn.Valid ∧ ∃ rest, t = start ++ rest ∧
    ((∀ e ∈ rest, e.2.ready = true) → taken rest = [] →
      s.canIfIn.Busy ∧ (s.canIfIn.hops = 0 ∨ s.canIfIn.hops + completions rest ≤ n))

/-- Only a message that is taken and a completion change what has to be transferred. -/
theorem pipe_same {o : Op} (ho : o.streams = true) (hne : o ≠ .epInComplete) {s : State}
    (hv : s.canIfIn.Valid) (ht : takenBy (o, s) = []) :
    (device.exec o s).canIfIn.transfer.isSome = s.canIfIn.transfer.isSome ∧
      (device.exec o s).canIfIn.queue = s.canIfIn.queue := by
  have hexec : (device.exec o s).canIfIn = _ := canIfIn_exec o s
  rw [hexec]
  rw [takenBy] at ht
  cases hs : o.inStep s with
  | none => exact ⟨rfl, rfl⟩
  | some st =>
    rw [hs] at ht
    obtain ⟨hopen, hdrop⟩ := Op.inStep_streams ho hs
    cases st with
    | canIfOpen | drop => contradiction
    | epInComplete ready =>
      cases o with
      | event e => cases e <;> cases hs
      | epInComplete => contradiction
      | _ => cases hs
    | fetch n => exact ⟨Option.isSome_map, rfl⟩
    | addMessage msg ready =>
      have hfull : ¬ msg.length + 1 ≤ s.canIfIn.queue.space := by
        intro hf
        change (if _ then [msg] else []) = [] at ht
        rw [if_pos hf] at ht
        contradiction
      change (s.canIfIn.addMessage msg ready).transfer.isSome = _ ∧
        (s.canIfIn.addMessage msg ready).queue = _
      rw [InPipe.addMessage_eq hv, if_neg hfull]
      exact ⟨rfl, rfl⟩

theorem Draining.keep {start : Log} {n : Nat} {o : Op} (ho : o.streams = true) :
    OpKeeps device (Draining start n) o := by
  rintro s t ⟨hv, rest, rfl, h⟩
  refine ⟨valid_exec hv o, rest ++ [(o, s)], List.append_assoc _ _ _, fun hready htaken ↦ ?_⟩
  rw [List.forall_mem_append, List.forall_mem_singleton] at hready
  rw [taken, List.flatMap_append, List.flatMap_singleton, List.append_eq_nil_iff] at htaken
  obtain ⟨hb, hn⟩ := h hready.1 htaken.1
  have hcount : completions (rest ++ [(o, s)]) =
      completions rest + if o = .epInComplete then 1 else 0 := by
    rw [completions, List.countP_append, List.countP_singleton]
    simp [completions]
  by_cases he : o = .epInComplete
  · subst he
    have hexec : (device.exec .epInComplete s).canIfIn = s.canIfIn.epInComplete true := by
      have hp : (device.exec .epInComplete s).canIfIn = s.canIfIn.epInComplete s.ready :=
        canIfIn_exec _ s
      rw [hp, show s.ready = true from hready.2]
    rw [hexec, hcount, if_pos rfl]
    refine ⟨hb.epInComplete hv.wellFormed, ?_⟩
    by_cases ht : s.canIfIn.transfer = none
    · have hsame : s.canIfIn.epInComplete true = s.canIfIn := by
        rw [InPipe.epInComplete, ht]
        rfl
      rw [hsame]
      exact .inl (hb.hops_zero hv.wellFormed ht)
    · have hless := InPipe.hops_epInComplete hv.wellFormed ht true
      omega
  · obtain ⟨ht, hq⟩ := pipe_same ho he hv htaken.2
    rw [hcount, if_neg he, Nat.add_zero, InPipe.hops_congr ht hq, InPipe.Busy, ht, hq]
    exact ⟨hb, hn⟩

/-- What has been recorded since. -/
def since (c c' : Config) : Log := c'.trace.drop c.trace.length

/-- Three completions drain the pipe. After a successful `CanIf_Open` with an intact region, and
in any session that is proper: if since some state, in which nothing waits without a transfer in
flight, the endpoint has accepted all transfers and no message has been taken, and three
transfers or more have completed, then the host has fetched all messages taken, after what was
left of a region in flight at the start. -/
theorem completions_drain (mailboxes : Fin 3 → TxMailBox) (txq : Nat → TxMailBox)
    (inb outb : Nat → UInt8) (before : List Step) (script : List (List Event))
    (steps more : List Step) (session : ∀ a ∈ steps ++ more, a.action.inSession = true)
    (c c' : Config) (hc : c = run (boot mailboxes txq inb outb)
      (before ++ [⟨.canIfOpen true true, script⟩] ++ steps)) (hc' : c' = run c more)
    (intact : (run (boot mailboxes txq inb outb) before).state.canIfIn.Intact)
    (proper : ProperIn c'.trace) (busy : c.state.canIfIn.Busy)
    (ready : ∀ e ∈ since c c', e.2.ready = true) (quiet : taken (since c c') = [])
    (enough : 3 ≤ completions (since c c')) :
    ∃ stale, stale <:+ (run (boot mailboxes txq inb outb) before).state.canIfIn.unfetched ∧
      fetched c'.trace = stale ++ (taken c'.trace).flatMap encode := by
  have hvalid : c.state.canIfIn.Valid := hc ▸ valid_run mailboxes txq inb outb _
  have hstart : Draining c.trace c.state.canIfIn.hops c.state c.trace :=
    ⟨hvalid, [], (List.append_nil _).symm, fun _ _ ↦ ⟨busy, .inr (Nat.le_refl _)⟩⟩
  have kept : Kept (Draining c.trace c.state.canIfIn.hops) :=
    kept_of_ops fun o ho ↦ Draining.keep (by cases o <;> first | rfl | contradiction)
  obtain ⟨hv, rest, hrest, h⟩ :=
    kept.session hstart more (List.forall_mem_append.mp session).2
  have hsince : since c c' = rest := by
    rw [since, hc', hrest, List.drop_left]
  rw [hsince] at ready quiet enough
  obtain ⟨-, hhops⟩ := h ready quiet
  have hle := c.state.canIfIn.hops_le
  have hremaining : c'.state.canIfIn.remaining = [] := by
    rw [hc']
    exact InPipe.hops_zero hv.wellFormed (by omega)
  rw [hc, ← run_append, List.append_assoc] at hc'
  obtain ⟨stale, hs, -, hlog⟩ :=
    inLog_session mailboxes txq inb outb before script session hc' intact
  have hbal := (hlog proper).2
  rw [Flow.Balance, hremaining, List.append_nil, inFlow_entered] at hbal
  exact ⟨stale, hs, hbal.symm⟩

/-- Three frames arrive and are received. -/
def threeReceived : List Step :=
  List.replicate 3 ⟨.event (.rx ⟨0x0000001C, 8, 0x04030201, 0x08070605⟩), []⟩ ++
    [⟨.frameReceived fun _ ↦ 0, []⟩]

/-- Fifteen messages have been fetched, and twelve are queued around the end of the buffer. -/
def wrapped : List Step :=
  (List.replicate 5 threeReceived).flatten ++
    (List.replicate 2 [⟨.event (.fetch 256), []⟩, ⟨.epInComplete, []⟩]).flatten ++
    (List.replicate 4 threeReceived).flatten

/-- The message in flight, and the two parts of the queue; the host is slow with the second. -/
def threeCompleted : List Step :=
  [⟨.event (.fetch 64), []⟩, ⟨.epInComplete, []⟩, ⟨.event (.fetch 8), []⟩,
    ⟨.event (.error 0x01), []⟩, ⟨.event (.fetch 64), []⟩, ⟨.epInComplete, []⟩,
    ⟨.event (.fetch 256), []⟩, ⟨.epInComplete, []⟩]

/-- All twenty-seven messages have been fetched. -/
theorem completions_drain_wrapped :
    ∃ c' : Config, c' = run (run (boot (fun _ ↦ ⟨0, 0, 0, 0⟩) (fun _ ↦ ⟨0, 0, 0, 0⟩) (fun _ ↦ 0)
        fun _ ↦ 0) ([] ++ [⟨.canIfOpen true true, []⟩] ++ wrapped)) threeCompleted ∧
      ∃ stale, stale <:+ (run (boot (fun _ ↦ ⟨0, 0, 0, 0⟩) (fun _ ↦ ⟨0, 0, 0, 0⟩) (fun _ ↦ 0)
          fun _ ↦ 0) []).state.canIfIn.unfetched ∧
        fetched c'.trace = stale ++ (taken c'.trace).flatMap encode :=
  ⟨_, rfl, completions_drain (fun _ ↦ ⟨0, 0, 0, 0⟩) (fun _ ↦ ⟨0, 0, 0, 0⟩) (fun _ ↦ 0) (fun _ ↦ 0)
    [] [] wrapped threeCompleted (by decide) _ _ rfl rfl (by decide +kernel) (by decide +kernel)
    (by decide +kernel) (by decide +kernel) (by decide +kernel) (by decide +kernel)⟩

end CanDybug
