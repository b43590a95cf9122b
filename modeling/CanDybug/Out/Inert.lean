import CanDybug.Device.Log
import CanDybug.Out.Space

/-!
# After a failed open

`Can_Start` enables the interrupts and resets the transmit queue whatever `CAN_eInit` returned,
and where `CAN_eBitrateConfig` rejects the rate the queue is not reset at all. So a failed
`CanIf_Open` leaves the interface inert only in the second case, and then only if nothing was
queued or all OUT transfers that are still to complete meet a message that is not valid.
-/

namespace CanDybug

open Base

/-- A handler of CAN interrupts. -/
def Action.isInterrupt : Action → Bool
  | frameReceived _ | frameSent | busError | canIrq _ => true
  | _ => false

/-- A `CanIf_Open` that succeeds. -/
def Action.succeeds : Action → Bool
  | canIfOpen true true => true
  | _ => false

/-- A `CanIf_Open` in which `CAN_eInit` fails. -/
def Action.initFails : Action → Bool
  | canIfOpen true false => true
  | _ => false

/-- Handlers of CAN interrupts run only where an interrupt is enabled. -/
def Enabled : Config → List Step → Prop
  | _, [] => True
  | c, a :: steps =>
    (a.action.isInterrupt = true → c.state.can.ier ≠ 0) ∧ Enabled (run c [a]) steps

/-- No interrupt is enabled, and none of the frames queued before has been written to a
mailbox; the first ones written are these. -/
def Inert (queued : List TxMailBox) (c : Config) : Prop :=
  c.state.can.ier = 0 ∧ (posted c.trace).take queued.length = []

/-- The data of a transfer (the fragment before it, and the bytes that arrive) reaches a message
that is not valid. -/
def EndsInvalid (e : Op × State) : Prop :=
  e.1.delivers = true → (dataPipe.scan (e.2.data e.1.delivered)).2 = .invalid

instance decidableEndsInvalid (e : Op × State) : Decidable (EndsInvalid e) :=
  inferInstanceAs (Decidable (_ → _))

/-- A frame is queued, nothing is requested, and nothing has been written to a mailbox. -/
structure Waiting (s : State) (t : Log) : Prop where
  requests : s.can.tx.requests = []
  queued : s.canTxQ.empty = false
  posted : posted t = []

/-- Each transfer has met a message that is not valid. -/
structure Silent (s : State) (t : Log) : Prop extends Waiting s t where
  invalid : ∀ e ∈ t, EndsInvalid e

/-- A transfer was valid to its end, and a frame was written to a mailbox. -/
def Flows (_ : State) (t : Log) : Prop := (∃ e ∈ t, ¬ EndsInvalid e) ∧ posted t ≠ []

/-! ### Operations -/

theorem ier_exec {o : Op} (ho : o ≠ .canStart) {s : State} (h : s.can.ier = 0) :
    (s.exec o).can.ier = 0 := by
  cases o with
  | event e =>
    cases e with
    | rx frame =>
      change (s.can.receive frame).ier = 0
      unfold Can.receive
      split <;> exact h
    | _ => exact h
  | deliver bytes => rwa [(s.exec_delivered bytes).1]
  | canStart => contradiction
  | resetCan => rfl
  | _ => exact h

theorem Waiting.keep {s s' : State} {t : Log} (h : Waiting s t) {o : Op}
    (hr : s'.can.tx.requests = s.can.tx.requests) (hq : s'.canTxQ.empty = s.canTxQ.empty)
    (hp : postedBy (o, s) = []) : Waiting s' (t ++ [(o, s)]) := by
  refine ⟨hr.trans h.requests, hq.trans h.queued, ?_⟩
  rw [posted_concat, h.posted, hp]
  rfl

/-- Only transfers are judged. -/
theorem forall_endsInvalid_concat (t : Log) {o : Op} (ho : o.delivers = false) (s : State) :
    (∀ e ∈ t ++ [(o, s)], EndsInvalid e) ↔ ∀ e ∈ t, EndsInvalid e := by
  rw [List.forall_mem_append, List.forall_mem_singleton, and_iff_left]
  intro hd
  rw [ho] at hd
  contradiction

theorem Silent.keep {s s' : State} {t : Log} (h : Silent s t) {o : Op}
    (hr : s'.can.tx.requests = s.can.tx.requests) (hq : s'.canTxQ.empty = s.canTxQ.empty)
    (hp : postedBy (o, s) = []) (ho : o.delivers = false) : Silent s' (t ++ [(o, s)]) :=
  ⟨h.toWaiting.keep hr hq hp, (forall_endsInvalid_concat t ho s).mpr h.invalid⟩

/-- Events make no requests. -/
theorem requests_event {s : State} (e : Event) (h : s.can.tx.requests = []) :
    (s.exec (.event e)).can.tx.requests = [] := by
  have he := s.txEvent e
  generalize (s.exec (.event e)).can.tx = u at he ⊢
  cases he with
  | idle => exact h
  | sent m hm => simp [Transmitter.pending, h] at hm
  | aborted r hr => simp [h] at hr

theorem silent_stable : Stable device Silent := fun e s _ h ↦
  h.keep ((requests_event e h.requests).trans h.requests.symm)
    (congrArg Queue.empty (s.exec_event e).1) rfl rfl

private theorem valid_concat {t : Log} (h : ∃ e ∈ t, ¬ EndsInvalid e) (e : Op × State) :
    ∃ e' ∈ t ++ [e], ¬ EndsInvalid e' :=
  h.imp fun _ he ↦ ⟨List.mem_append_left _ he.1, he.2⟩

theorem Flows.concat {s s' : State} {t : Log} (h : Flows s t) (e : Op × State) :
    Flows s' (t ++ [e]) := by
  refine ⟨valid_concat h.1 e, ?_⟩
  rw [posted_concat]
  exact List.append_ne_nil_of_left_ne_nil h.2 _

/-! ### Completion of an OUT transfer -/

/-- A transfer was valid to its end, and a frame is written to a mailbox or about to be. -/
private def Flowing (s : State) (t : Log) : Prop :=
  (∃ e ∈ t, ¬ EndsInvalid e) ∧
    (posted t ≠ [] ∨ s.canTxQ.empty = false ∧ s.can.tx.requests = [])

/-- All mailboxes are empty, so `Can_PostFrames` writes at least the first frame. -/
private theorem flows_canPostFrames :
    Triple (fun s t ↦ Flowing s t ∧ s.canTxQ.WellFormed) canPostFrames fun _ ↦ Flows := by
  have hw : Stable device fun (_ : State) (t : Log) ↦ ∃ e ∈ t, ¬ EndsInvalid e :=
    fun e s t h ↦ valid_concat h _
  have hi : Stable device Flowing := by
    rintro e s t ⟨hm, h | ⟨hq, hr⟩⟩
    · have hf : Flows s (t ++ [(.event e, s)]) := Flows.concat (s := s) ⟨hm, h⟩ _
      exact hf.imp_right .inl
    · exact ⟨valid_concat hm _, .inr ⟨(congrArg Queue.empty (s.exec_event e).1).trans hq,
        requests_event e hr⟩⟩
  refine canPostFrames_rule hi (fun _ ↦ hw) (R := fun _ ↦ Flows) (fun _ _ _ _ h ↦ h.concat _)
    ?_ ?_ (fun _ _ h _ _ ↦ valid_concat h.1 _) ?_ ?_
  · rintro s t ⟨hm, h | ⟨hq, -⟩⟩ he
    · exact ⟨hm, h⟩
    · rw [hq] at he
      contradiction
  · rintro s t ⟨hm, h | ⟨-, hr⟩⟩ - he
    · exact Flows.concat (s := s) ⟨hm, h⟩ _
    · simp [Transmitter.anyEmpty, Transmitter.pending, hr] at he
  · intro m s t h _
    refine ⟨valid_concat h _, ?_⟩
    rw [posted_concat]
    exact List.append_ne_nil_of_right_ne_nil _ (List.cons_ne_nil _ _)
  · intro m s t h
    have hf : Flows s (t ++ [(.setTXRQ m, s)]) := h.concat _
    exact hf.imp_right .inl

private theorem flows_tail : Triple (fun s t ↦ Flowing s t ∧ SoundLog s t)
    (do canPostFrames; canIfReceiveOutData)
    fun _ s t ↦ (Silent s t ∨ Flows s t) ∧ SoundLog s t := by
  have receive : Keeps Flows canIfReceiveOutData :=
    keeps_canIfReceiveOutData (fun _ _ _ h ↦ h.concat _) (fun _ _ h ↦ h.concat _)
      fun _ _ _ h ↦ h.concat _
  refine Triple.bind ((flows_canPostFrames.and soundLog_canPostFrames).pre fun _ _ h ↦
    ⟨⟨h.1, h.2.1.queue⟩, h.2⟩) fun _ ↦ ?_
  exact (receive.and soundLog_receive).post fun _ _ _ h ↦ ⟨.inr h.1, h.2⟩

/-- In the loop: all transfers met an invalid message if what is left of the last one does. -/
private def SilentAt (pbuf length : Nat) (s : State) (t : Log) : Prop :=
  Waiting s t ∧ ((∀ e ∈ t, EndsInvalid e) ↔
    (dataPipe.scan (cells s.canIfOut.buffer pbuf length)).2 = .invalid)

private theorem silentAt_start {s : State} {t : Log} (hs : Sound s) (h : Silent s t) {g : Region}
    (hg : s.armed = some g) (bytes : List UInt8) :
    SilentAt (g.start - s.canIfOut.offset) (bytes.length + s.canIfOut.offset)
      (loopStart s bytes g) (t ++ loopEntries s bytes g) := by
  have hd := s.exec_delivered bytes
  rw [SilentAt, cells_loopStart hs hg, loopEntries, List.append_cons]
  constructor
  · have hw : Waiting (s.exec (.deliver bytes)) (t ++ [(.deliver bytes, s)]) :=
      h.toWaiting.keep (congrArg (·.tx.requests) hd.1) (congrArg Queue.empty hd.2) rfl
    exact hw.keep (o := .sentinel _) rfl rfl rfl
  · rw [forall_endsInvalid_concat _ rfl, List.forall_mem_append, List.forall_mem_singleton,
      and_iff_right h.invalid]
    exact ⟨fun h ↦ h rfl, fun h _ ↦ h⟩

/-- Either a message is not valid and all stays silent, or a frame is written. -/
private theorem silent_out (bytes : List UInt8) :
    Triple (fun s t ↦ Silent s t ∧ SoundLog s t) (outCompletion bytes)
      fun _ s t ↦ (Silent s t ∨ Flows s t) ∧ SoundLog s t := by
  refine outCompletion_rule (L := SilentAt) (M := Flowing) (fun _ _ h ↦ .inl h)
    (fun g s t hs h hg _ ↦ silentAt_start hs.1 h hg bytes) ?_ ?_ ?_ ?_ flows_tail
  · intro pbuf length s t hr ⟨h, hi⟩ n he hn h0 ha
    obtain ⟨f, mb, hrow, -, hput⟩ := accepted_spec hr.sound.1.queue ha
    obtain ⟨-, -, hc⟩ := hr.space_pos hn hrow
    refine ⟨h.keep rfl ?_ rfl, ?_⟩
    · rw [hput, h.queued]
      exact Queue.empty_put hr.sound.1.queue hc mb
    · rw [scan_cells_some he hn h0 hrow] at hi
      exact (forall_endsInvalid_concat t rfl s).trans hi
  · rintro pbuf length s t hr ⟨h, hi⟩ n he hn h0 ha s' rfl
    obtain ⟨hdec, buffer, hput, -⟩ := rejected_spec hr.sound.1.queue ha
    rw [scan_cells_none he hn h0 hdec] at hi
    have hs : Silent s t := ⟨h, hi.mpr rfl⟩
    have hs' : Silent (s.exec (.handleRequest (pbuf + 1) (n - 1)))
        (t ++ [(.handleRequest (pbuf + 1) (n - 1), s)]) :=
      hs.keep rfl (by rw [hput]; rfl) rfl rfl
    exact .inl (hs'.keep (o := .stop) rfl rfl rfl rfl)
  · intro pbuf length s t _ ⟨h, hi⟩ hl h0
    rw [scan_cells_zero rfl hl h0] at hi
    have hs : Silent s t := ⟨h, hi.mpr rfl⟩
    exact .inl (hs.keep (o := .stop) rfl rfl rfl rfl)
  · intro pbuf length s t _ ⟨h, hi⟩ hn
    rw [scan_cells_short rfl hn] at hi
    have hv : ∃ e ∈ t, ¬ EndsInvalid e := by
      by_contra hne
      push Not at hne
      have hi := hi.mp hne
      contradiction
    exact ⟨valid_concat hv _, .inr ⟨h.queued, h.requests⟩⟩

/-! ### Steps -/

/-- What may run while no interrupt is enabled, and enables none. -/
def Action.dormant (a : Action) : Bool := !(a.isInterrupt || a.succeeds || a.initFails)

private theorem ier_step {a : Step} (ha : a.action.dormant = true) :
    Keeps (fun s _ ↦ s.can.ier = 0) a.program := by
  have op {o : Op} (ho : o ≠ .canStart) : OpKeeps device (fun s _ ↦ s.can.ier = 0) o :=
    fun _ _ h ↦ ier_exec ho h
  have hs : Stable device fun s _ ↦ s.can.ier = 0 := fun e ↦ op (o := .event e) (by simp)
  have reset (s : State) (_ : Log) (_ : s.can.ier = 0) : (s.exec .resetCan).can.ier = 0 := rfl
  obtain ⟨action, script⟩ := a
  refine keeps_bind (keeps_schedule _) fun _ ↦ ?_
  cases action with
  | canIfOpen bitrate init =>
    cases bitrate with
    | false => exact keeps_reset hs reset (keeps_pure ())
    | true => cases init <;> contradiction
  | canClose dropped => exact keeps_canClose hs reset (op (by simp)) dropped
  | epOutComplete bytes =>
    have receive := keeps_canIfReceiveOutData hs (op (by simp)) fun g ↦ op (by simp)
    have post := keeps_canPostFrames (keeps_postOne hs (op (by simp))
      (fun m _ _ h _ ↦ ier_exec (o := .postFrame m) (by simp) h) fun m ↦ op (by simp))
    exact keeps_outCompletion (fun _ ↦ op (by simp)) (fun _ ↦ op (by simp))
      (fun _ _ ↦ op (by simp)) (op (by simp)) (fun _ _ ↦ op (by simp)) post receive bytes
  | epInComplete => exact keeps_write hs (op (by simp))
  | event e => exact keeps_perform (hs e)
  | frameReceived | frameSent | busError | canIrq => contradiction

private theorem silent_reset (s : State) (t : Log) (h : Silent s t) :
    Silent (s.exec .resetCan) [] := ⟨⟨rfl, h.queued, rfl⟩, List.forall_mem_nil _⟩

/-- A silent state stays silent, or a transfer is valid to its end and a frame flows. -/
private theorem silent_step {a : Step} (ha : a.action.dormant = true) :
    Triple (fun s t ↦ Silent s t ∧ SoundLog s t) a.program
      fun _ s t ↦ (Silent s t ∨ Flows s t) ∧ SoundLog s t := by
  have kept {x : Firmware Unit} (h : Keeps Silent x) (h' : Keeps SoundLog x) :
      Triple (fun s t ↦ Silent s t ∧ SoundLog s t) x
        fun _ s t ↦ (Silent s t ∨ Flows s t) ∧ SoundLog s t :=
    (h.and h').post fun _ _ _ h ↦ ⟨.inl h.1, h.2⟩
  obtain ⟨action, script⟩ := a
  refine Triple.bind (keeps_schedule _) fun _ ↦ ?_
  cases action with
  | canIfOpen bitrate init =>
    cases bitrate with
    | false =>
      exact kept (keeps_reset silent_stable silent_reset (keeps_pure ()))
        (soundLog_canIfOpen false init)
    | true => cases init <;> contradiction
  | canClose dropped =>
    exact kept (keeps_canClose silent_stable silent_reset
      (fun _ _ h ↦ h.keep rfl rfl rfl rfl) dropped) (soundLog_canClose dropped)
  | epOutComplete bytes => exact silent_out bytes
  | epInComplete =>
    exact kept (keeps_write silent_stable fun _ _ h ↦ h.keep rfl rfl rfl rfl)
      (soundLog_kept.program .epInComplete rfl)
  | event e => exact kept (keeps_perform (silent_stable e)) (keeps_perform (soundLog_stable e))
  | frameReceived | frameSent | busError | canIrq => contradiction

/-! ### Runs -/

private theorem forall_inits {p : Config → Prop} (c : Config) (a : Step) (steps : List Step) :
    (∀ n, p (run c ((a :: steps).take n))) ↔ p c ∧ ∀ n, p (run (run c [a]) (steps.take n)) := by
  constructor
  · intro h
    exact ⟨h 0, fun n ↦ h (n + 1)⟩
  · rintro ⟨h, hs⟩ n
    cases n with
    | zero => exact h
    | succ n => exact hs n

/-- While no interrupt is enabled, only what is dormant runs. -/
private theorem dormant_of_enabled {c : Config} (hc : c.state.can.ier = 0) {a : Step}
    (he : a.action.isInterrupt = true → c.state.can.ier ≠ 0) (hs : a.action.succeeds = false)
    (hi : a.action.initFails = false) : a.action.dormant = true := by
  have hn : a.action.isInterrupt = false := by
    by_contra h
    exact he (by simpa using h) hc
  simp [Action.dormant, hn, hs, hi]

private theorem ier_run {steps : List Step} (hs : ∀ a ∈ steps, a.action.succeeds = false)
    (hi : ∀ a ∈ steps, a.action.initFails = false) {c : Config} (hc : c.state.can.ier = 0)
    (he : Enabled c steps) (n : Nat) : (run c (steps.take n)).state.can.ier = 0 := by
  revert n
  induction steps generalizing c with
  | nil => simpa [run] using hc
  | cons a steps ih =>
    have ha := dormant_of_enabled hc he.1 (hs a List.mem_cons_self) (hi a List.mem_cons_self)
    refine (forall_inits (p := fun c ↦ c.state.can.ier = 0) c a steps).mpr ⟨hc, ?_⟩
    exact ih (fun b hb ↦ hs b (List.mem_cons_of_mem _ hb))
      (fun b hb ↦ hi b (List.mem_cons_of_mem _ hb)) (ier_step ha c hc) he.2

/-- From a silent state on, a frame is written exactly if a transfer is valid to its end. -/
private theorem silent_run {steps : List Step} (hs : ∀ a ∈ steps, a.action.succeeds = false)
    (hi : ∀ a ∈ steps, a.action.initFails = false) {c : Config} (hc : c.state.can.ier = 0)
    (he : Enabled c steps) (h : Silent c.state c.trace ∧ SoundLog c.state c.trace) :
    (∀ n, posted (run c (steps.take n)).trace = []) ↔
      ∀ n, ∀ e ∈ (run c (steps.take n)).trace, EndsInvalid e := by
  induction steps generalizing c with
  | nil =>
    simp only [run, List.take_nil, forall_const]
    exact iff_of_true h.1.posted h.1.invalid
  | cons a steps ih =>
    have ha := dormant_of_enabled hc he.1 (hs a List.mem_cons_self) (hi a List.mem_cons_self)
    rw [forall_inits (p := fun c ↦ posted c.trace = []),
      forall_inits (p := fun c ↦ ∀ e ∈ c.trace, EndsInvalid e), and_iff_right h.1.posted,
      and_iff_right h.1.invalid]
    have hstep : (Silent (run c [a]).state (run c [a]).trace ∨
        Flows (run c [a]).state (run c [a]).trace) ∧
        SoundLog (run c [a]).state (run c [a]).trace := silent_step ha c h
    obtain ⟨hn | hn, hsound⟩ := hstep
    · have hrest := ih (fun b hb ↦ hs b (List.mem_cons_of_mem _ hb))
        (fun b hb ↦ hi b (List.mem_cons_of_mem _ hb)) (ier_step ha c hc) he.2 ⟨hn, hsound⟩
      exact hrest
    · obtain ⟨⟨e, he, hv⟩, hp⟩ := hn
      exact ⟨fun h ↦ absurd (h 0) hp, fun h ↦ absurd (h 0 e he) hv⟩

/-- Where `CAN_eInit` fails the interrupts are enabled. -/
private theorem ier_initFails (c : Config) {a : Step} (ha : a.action.initFails = true) :
    (run c [a]).state.can.ier = canIerEnabled := by
  obtain ⟨action, script⟩ := a
  have h : Triple (fun _ _ ↦ True) (Step.program ⟨action, script⟩)
      fun _ s _ ↦ s.can.ier = canIerEnabled := by
    refine Triple.bind (Triple.forget _) fun _ ↦ ?_
    cases action with
    | canIfOpen bitrate init =>
      cases bitrate <;> cases init <;> try contradiction
      refine Triple.bind (Triple.forget _) fun _ ↦ ?_
      refine Triple.bind (Triple.forget _) fun _ ↦ ?_
      refine Triple.bind (R := fun _ s _ ↦ s.can.ier = canIerEnabled)
        (Triple.access _ (fun _ _ _ _ ↦ trivial) fun _ _ _ ↦ rfl) fun _ ↦ ?_
      exact keeps_pure ()
    | _ => contradiction
  exact h c trivial

/-- Where the rate is rejected no interrupt is enabled, and what is queued stays queued. -/
private theorem rejected_open (init : Bool) (script : List (List Event)) (c : Config)
    (hc : SoundLog c.state c.trace) (c' : Config)
    (h : c' = run c [⟨.canIfOpen false init, script⟩]) :
    c'.state.can.ier = 0 ∧ SoundLog c'.state c'.trace ∧
      (c.state.canTxQ.empty = false → Silent c'.state c'.trace) := by
  subst h
  have hier : Triple (fun _ _ ↦ True) (Step.program ⟨.canIfOpen false init, script⟩)
      fun _ s _ ↦ s.can.ier = 0 := by
    refine Triple.bind (Triple.forget _) fun _ ↦ ?_
    refine Triple.bind (R := fun _ s _ ↦ s.can.ier = 0)
      (Triple.access _ (fun _ _ _ _ ↦ trivial) fun _ _ _ ↦ rfl) fun _ ↦ ?_
    exact Triple.bind (R := fun _ s _ ↦ s.can.ier = 0) (Triple.restart fun _ _ h ↦ h) fun _ ↦
      keeps_pure ()
  have hsilent : Triple (fun s _ ↦ s.canTxQ.empty = false)
      (Step.program ⟨.canIfOpen false init, script⟩) fun _ ↦ Silent := by
    refine Triple.bind (keeps_schedule _) fun _ ↦ ?_
    refine Triple.bind (R := fun _ s _ ↦ Silent s []) (Triple.access _ (fun e s _ h ↦ ?_)
      fun s t h ↦ ⟨⟨rfl, h, rfl⟩, List.forall_mem_nil _⟩) fun _ ↦ ?_
    · exact (congrArg Queue.empty (s.exec_event e).1).trans h
    · exact Triple.bind (R := fun _ ↦ Silent) (Triple.restart fun _ _ h ↦ h) fun _ ↦
        keeps_pure ()
  have hsound : Keeps SoundLog (Step.program ⟨.canIfOpen false init, script⟩) :=
    keeps_bind (keeps_schedule _) fun _ ↦ soundLog_canIfOpen false init
  exact ⟨hier c trivial, hsound c hc, hsilent c⟩

/-- After any run, and from a `CanIf_Open` that fails until one succeeds: the interface stays
inert exactly if the rate was rejected, then and in any further failing call, and nothing was
queued or the data of every OUT transfer that completes reaches a message that is not valid. -/
theorem failedOpen_inert (mailboxes : Fin 3 → TxMailBox) (txq : Nat → TxMailBox)
    (inb outb : Nat → UInt8) (before : List Step) (bitrate init : Bool)
    (script : List (List Event)) (fails : (bitrate && init) = false) (steps : List Step)
    (noOpen : ∀ a ∈ steps, a.action.succeeds = false) (c₀ c : Config)
    (hc₀ : c₀ = run (boot mailboxes txq inb outb) before)
    (hc : c = run c₀ [⟨.canIfOpen bitrate init, script⟩]) (enabled : Enabled c steps) :
    (∀ n, Inert c₀.state.canTxQ.contents (run c (steps.take n))) ↔
      (bitrate = false ∧ ∀ a ∈ steps, a.action.initFails = false) ∧
        (c₀.state.canTxQ.contents = [] ∨
          ∀ n, ∀ e ∈ (run c (steps.take n)).trace, EndsInvalid e) := by
  have hsound : SoundLog c₀.state c₀.trace := hc₀ ▸ soundLog_run mailboxes txq inb outb before
  have hne : canIerEnabled ≠ 0 := by decide
  by_cases hb : bitrate = false ∧ ∀ a ∈ steps, a.action.initFails = false
  · obtain ⟨rfl, hi⟩ := hb
    obtain ⟨hier, hs, hsilent⟩ := rejected_open init script c₀ hsound c hc
    have hier := ier_run noOpen hi hier enabled
    rw [and_iff_right ⟨rfl, hi⟩]
    simp only [Inert, hier, true_and, List.take_eq_nil_iff, List.length_eq_zero_iff]
    by_cases hq : c₀.state.canTxQ.contents = []
    · simp [hq]
    · have he : c₀.state.canTxQ.empty = false := by
        rw [← Bool.not_eq_true, Queue.empty_iff hsound.1.queue]
        exact hq
      simp only [hq, false_or]
      exact silent_run noOpen hi (hier 0) enabled ⟨hsilent he, hs⟩
  · -- Some call enables the interrupts.
    refine iff_of_false (fun h ↦ ?_) fun h ↦ hb h.1
    refine hb ⟨?_, fun a ha ↦ ?_⟩
    · by_contra hb
      have hf : (Action.canIfOpen bitrate init).initFails = true := by
        cases bitrate <;> cases init <;> first | rfl | contradiction
      have h0 : c.state.can.ier = 0 := (h 0).1
      rw [hc, ier_initFails c₀ hf] at h0
      exact hne h0
    · by_contra hi
      obtain ⟨k, hk, rfl⟩ := List.getElem_of_mem ha
      have h0 := (h (k + 1)).1
      rw [List.take_succ_eq_append_getElem hk, run_append,
        ier_initFails _ (by simpa using hi)] at h0
      exact hne h0

/-- Four frames, of which three fill the mailboxes; the next transfer is armed. -/
def fourFrames : List Step :=
  [⟨.canIfOpen true true, []⟩,
    ⟨.epOutComplete [4, 2, 0, 1, 4, 2, 0, 2, 4, 2, 0, 3, 4, 2, 0, 4], []⟩]

/-- The fourth frame is queued. -/
def oneQueued : Config :=
  run (boot (fun _ ↦ ⟨0, 0, 0, 0⟩) (fun _ ↦ ⟨0, 0, 0, 0⟩) (fun _ ↦ 0) fun _ ↦ 0) fourFrames

/-- The rate is rejected. -/
def oneStale : Config := run oneQueued [⟨.canIfOpen false true, []⟩]

/-- The transfer armed before meets a message that is not valid. -/
theorem failedOpen_inert_stopped :
    (∀ n, Inert oneQueued.state.canTxQ.contents
        (run oneStale (List.take n [⟨.epOutComplete [4, 2, 0, 5, 0], []⟩]))) ↔
      (false = false ∧ ∀ a ∈ [(⟨.epOutComplete [4, 2, 0, 5, 0], []⟩ : Step)],
          a.action.initFails = false) ∧
        (oneQueued.state.canTxQ.contents = [] ∨ ∀ n, ∀ e ∈
          (run oneStale (List.take n [⟨.epOutComplete [4, 2, 0, 5, 0], []⟩])).trace,
            EndsInvalid e) :=
  failedOpen_inert (fun _ ↦ ⟨0, 0, 0, 0⟩) (fun _ ↦ ⟨0, 0, 0, 0⟩) (fun _ ↦ 0) (fun _ ↦ 0) fourFrames
    false true [] rfl [⟨.epOutComplete [4, 2, 0, 5, 0], []⟩] (by decide) oneQueued oneStale rfl rfl
    ⟨nofun, trivial⟩

/-- The transfer armed before completes, and the queued frame is written to a mailbox. -/
theorem failedOpen_posts :
    ¬ ∀ mailboxes txq inb outb before bitrate init script, (bitrate && init) = false →
      ∀ steps : List Step, (∀ a ∈ steps, a.action.succeeds = false) → ∀ c₀ c,
      c₀ = run (boot mailboxes txq inb outb) before →
      c = run c₀ [⟨.canIfOpen bitrate init, script⟩] → Enabled c steps →
      ∀ n, Inert c₀.state.canTxQ.contents (run c (steps.take n)) := by
  intro h
  have hn := h (fun _ ↦ ⟨0, 0, 0, 0⟩) (fun _ ↦ ⟨0, 0, 0, 0⟩) (fun _ ↦ 0) (fun _ ↦ 0) fourFrames
    false true [] rfl [⟨.epOutComplete [4, 2, 0, 5], []⟩] (by decide) oneQueued oneStale rfl rfl
    ⟨nofun, trivial⟩ 1
  have hp := congrArg List.length hn.2
  revert hp
  decide +kernel

/-- Where `CAN_eInit` fails the interrupts are enabled all the same. -/
example : (run (boot (fun _ ↦ ⟨0, 0, 0, 0⟩) (fun _ ↦ ⟨0, 0, 0, 0⟩) (fun _ ↦ 0) fun _ ↦ 0)
    [⟨.canIfOpen true false, []⟩]).state.can.ier = canIerEnabled := rfl

end CanDybug
