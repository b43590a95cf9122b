import CanDybug.Out.Loop

/-!
# The transmit queue never overflows

`Can_HandleRequest` puts without testing for space. What makes this safe is a numeric
invariant: while an OUT transfer is outstanding, four times the free slots are at least the
buffer's 128 bytes, and an accepted message has at least four.
-/

namespace CanDybug

open Base

/-- An accepted request finds a free slot, and is appended to what is queued. -/
def Fits (e : Op × State) : Prop :=
  match e.1 with
  | .handleRequest msg length => e.2.accepts msg length = true →
      1 ≤ e.2.canTxQ.space ∧
        ∃ mb, (e.2.exec e.1).canTxQ.contents = e.2.canTxQ.contents ++ [mb]
  | _ => True

/-- Every accepted request of a trace fits. -/
def NeverOverflows (t : Log) : Prop := ∀ e ∈ t, Fits e

/-- Invariant of the OUT pipe between handlers. A transfer was armed at the offset, or the
offset has been reset since; in both cases the fragment and the transfer fit the buffer. -/
structure Sound (s : State) : Prop where
  queue : s.canTxQ.WellFormed
  size : s.canTxQ.size = canTxQCapacity
  offset_le : s.canIfOut.offset ≤ canifOutDataSize
  armed : ∀ g, s.armed = some g →
    (g.start = s.canIfOut.offset ∨ s.canIfOut.offset = 0) ∧
      g.start + g.length ≤ canifOutDataSize ∧ canifOutDataSize ≤ 4 * s.canTxQ.space

/-- Operations that touch neither the transmit queue, nor the offset, nor the transfer. -/
def Op.plain : Op → Bool
  | event _ | read _ | resetCan | sentinel _ | receiveOutData | setTXRQ _ | clearRQCP _
  | setABRQ _ | clearERRI | releaseFifo | addMessage _ | epInComplete => true
  | _ => false

theorem Op.plain_spec {o : Op} (h : o.plain = true) (s : State) :
    (s.exec o).canTxQ = s.canTxQ ∧ (s.exec o).canIfOut.offset = s.canIfOut.offset ∧
      (s.exec o).armed = s.armed := by
  cases o with
  | event e => exact ⟨(s.exec_event e).1, congrArg _ (s.exec_event e).2.1, (s.exec_event e).2.2⟩
  | read | resetCan | sentinel | receiveOutData | setTXRQ | clearRQCP | setABRQ | clearERRI
  | releaseFifo | addMessage | epInComplete => exact ⟨rfl, rfl, rfl⟩
  | _ => contradiction

theorem Sound.plain {s : State} (h : Sound s) {o : Op} (ho : o.plain = true) :
    Sound (s.exec o) := by
  obtain ⟨hq, hf, ha⟩ := o.plain_spec ho s
  exact ⟨hq ▸ h.queue, hq ▸ h.size, hf ▸ h.offset_le, by rw [ha, hf, hq]; exact h.armed⟩

/-- A reset queue has space for any transfer. -/
theorem Sound.reset {s s' : State} (h : Sound s) (hq : s'.canTxQ = s.canTxQ.reset)
    (ho : s'.canIfOut = s.canIfOut) (ha : s'.armed = s.armed) : Sound s' := by
  refine ⟨hq ▸ h.queue.reset, hq ▸ h.size, ho ▸ h.offset_le, fun g hg ↦ ?_⟩
  obtain ⟨hst, hl, -⟩ := h.armed g (ha ▸ hg)
  have hsp := Queue.space_reset s.canTxQ (by have := h.queue.size_lt; omega)
  rw [ho, hq, hsp, h.size]
  exact ⟨hst, hl, by decide⟩

/-- Posting a queued frame only makes space. -/
theorem Sound.postFrame {s : State} (h : Sound s) (he : s.canTxQ.empty = false) (m : Fin 3) :
    Sound (s.exec (.postFrame m)) := by
  have hc := Queue.count_pos h.queue he
  refine ⟨h.queue.get, (Queue.size_get _).trans h.size, h.offset_le, fun g hg ↦ ?_⟩
  obtain ⟨ho, hl, hs⟩ := h.armed g hg
  refine ⟨ho, hl, ?_⟩
  change _ ≤ 4 * s.canTxQ.get.2.space
  rw [Queue.space_get h.queue hc]
  omega

/-- The invariant with what is claimed of the trace. -/
def SoundLog (s : State) (t : Log) : Prop := Sound s ∧ NeverOverflows t

theorem NeverOverflows.concat {t : Log} (h : NeverOverflows t) {e : Op × State} (he : Fits e) :
    NeverOverflows (t ++ [e]) := by
  intro e' hm
  rcases List.mem_append.mp hm with hm | hm
  · exact h e' hm
  · rwa [List.mem_singleton.mp hm]

theorem SoundLog.plain {o : Op} (ho : o.plain = true) : OpKeeps device SoundLog o := by
  rintro s t ⟨h, ht⟩
  refine ⟨h.plain ho, ht.concat ?_⟩
  cases o with
  | handleRequest => contradiction
  | _ => trivial

theorem soundLog_stable : Stable device SoundLog := fun _ ↦ SoundLog.plain rfl

/-! ### Posting frames and receiving more data -/

theorem soundLog_canPostFrames : Keeps SoundLog canPostFrames :=
  keeps_canPostFrames (keeps_postOne soundLog_stable (SoundLog.plain rfl)
    (fun _ _ _ h he ↦ ⟨h.1.postFrame he _, h.2.concat trivial⟩) fun _ ↦ SoundLog.plain rfl)

theorem soundLog_receive : Keeps SoundLog canIfReceiveOutData := by
  -- The events do not change what the condition has tested.
  have hw : Stable device fun s t ↦ SoundLog s t ∧ canifOutDataSize ≤ 4 * s.canTxQ.space := by
    intro e s t h
    refine ⟨SoundLog.plain rfl s t h.1, ?_⟩
    change canifOutDataSize ≤ 4 * (s.exec (.event e)).canTxQ.space
    rw [(s.exec_event e).1]
    exact h.2
  have tested : OpKeeps device SoundLog .receiveOutData := SoundLog.plain rfl
  refine canIfReceiveOutData_rule soundLog_stable hw (fun s t h _ ↦ tested s t h) ?_ ?_
  · intro s t h hgo
    refine ⟨tested s t h, ?_⟩
    have hd : canifOutDataSize / 4 ≤ s.canTxQ.space := by
      simpa using (Bool.and_eq_true_iff.mp hgo).1
    unfold canifOutDataSize at *
    omega
  · rintro s t ⟨⟨h, ht⟩, hsp⟩ r rfl
    have hle := h.offset_le
    refine ⟨⟨h.queue, h.size, hle, fun g hg ↦ ?_⟩, ht.concat trivial⟩
    cases ha : s.armed with
    | some g' =>
      apply h.armed g
      rw [ha]
      simpa [State.exec, ha] using hg
    | none =>
      obtain rfl : g = ⟨s.canIfOut.offset, u16 (sub32 canifOutDataSize s.canIfOut.offset)⟩ := by
        simpa [State.exec, ha, eq_comm] using hg
      refine ⟨.inl rfl, ?_, hsp⟩
      unfold canifOutDataSize at *
      simp only [sub32_of_le hle (by omega),
        u16_of_lt (show 128 - s.canIfOut.offset < 65536 by omega)]
      omega

/-! ### Completion of an OUT transfer -/

/-- Invariant of the loop of `CanIf_EpOutComplete`: nothing is armed, the space suffices for
the bytes that are left, and the sentinel stands behind them. -/
structure Round (pbuf length : Nat) (s : State) (t : Log) : Prop where
  sound : SoundLog s t
  armed : s.armed = none
  inside : pbuf + length ≤ canifOutDataSize
  space : length ≤ 4 * s.canTxQ.space
  sentinel : s.canIfOut.buffer (pbuf + length) = 1

/-- While a round runs, an accepted message finds a free slot. -/
theorem Round.space_pos {pbuf length : Nat} {s : State} {t : Log} (h : Round pbuf length s t)
    {n : Nat} (hn : n ≤ length) {f : Frame}
    (hrow : Row (cells s.canIfOut.buffer (pbuf + 1) (n - 1)) f) :
    4 ≤ n ∧ 1 ≤ s.canTxQ.space ∧ s.canTxQ.count < s.canTxQ.size := by
  have hlen := hrow.length
  have hsp := h.space
  have hspace := Queue.space_eq h.sound.1.queue
  rw [length_cells] at hlen
  omega

private theorem Round.accept {pbuf length : Nat} {s : State} {t : Log}
    (h : Round pbuf length s t) {n : Nat} (hn : n ≤ length)
    (ha : s.accepts (pbuf + 1) (n - 1) = true) :
    Round (pbuf + n) (length - n) (s.exec (.handleRequest (pbuf + 1) (n - 1)))
      (t ++ [(.handleRequest (pbuf + 1) (n - 1), s)]) := by
  obtain ⟨hs, ht⟩ := h.sound
  obtain ⟨f, mb, hrow, -, hput⟩ := accepted_spec hs.queue ha
  obtain ⟨h4, hfree, hcount⟩ := h.space_pos hn hrow
  have hin := h.inside
  have hsp := h.space
  have hfits : Fits (.handleRequest (pbuf + 1) (n - 1), s) := fun _ ↦
    ⟨hfree, mb, (congrArg Queue.contents hput).trans (Queue.contents_put hs.queue hcount mb)⟩
  refine ⟨⟨⟨?_, ?_, hs.offset_le, ?_⟩, ht.concat hfits⟩, h.armed, by omega, ?_, ?_⟩
  · rw [hput]
    exact hs.queue.put mb
  · rw [hput]
    exact hs.size
  · rw [show (s.exec (.handleRequest (pbuf + 1) (n - 1))).armed = none from h.armed]
    exact nofun
  · rw [hput, Queue.space_put hs.queue hcount]
    omega
  · rw [Nat.add_assoc, Nat.add_sub_cancel' hn]
    exact h.sentinel

private theorem soundLog_stop {s : State} {t : Log} (h : SoundLog s t) (harm : s.armed = none) :
    SoundLog (s.exec .stop) (t ++ [(.stop, s)]) := by
  refine ⟨⟨h.1.queue, h.1.size, Nat.zero_le _, fun g hg ↦ ?_⟩, h.2.concat trivial⟩
  rw [show (s.exec .stop).armed = s.armed from rfl, harm] at hg
  contradiction

private theorem soundLog_reject {s : State} {t : Log} (h : SoundLog s t) (harm : s.armed = none)
    (msg length : Nat) (ha : s.accepts msg length = false) :
    SoundLog (s.exec (.handleRequest msg length)) (t ++ [(.handleRequest msg length, s)]) := by
  obtain ⟨hs, ht⟩ := h
  obtain ⟨-, buffer, hput, -⟩ := rejected_spec hs.queue ha
  refine ⟨⟨?_, ?_, hs.offset_le, ?_⟩, ht.concat fun hr ↦ ?_⟩
  · rw [hput]
    exact ⟨hs.queue.head_le, hs.queue.tail_le, hs.queue.size_lt⟩
  · rw [hput]
    exact hs.size
  · rw [show (s.exec (.handleRequest msg length)).armed = s.armed from rfl, harm]
    exact nofun
  · rw [show s.accepts msg length = false from ha] at hr
    contradiction

private theorem soundLog_move {pbuf length : Nat} {s : State} {t : Log}
    (h : Round pbuf length s t) :
    SoundLog (s.exec (.moveFragment pbuf length)) (t ++ [(.moveFragment pbuf length, s)]) := by
  obtain ⟨hs, ht⟩ := h.sound
  have hin := h.inside
  refine ⟨⟨hs.queue, hs.size, by change length ≤ _; omega, fun g hg ↦ ?_⟩, ht.concat trivial⟩
  rw [show (s.exec (.moveFragment pbuf length)).armed = s.armed from rfl, h.armed] at hg
  contradiction

/-- The state in which the loop starts: the bytes are delivered, the sentinel is stored. -/
def loopStart (s : State) (bytes : List UInt8) (g : Region) : State :=
  (s.exec (.deliver bytes)).exec
    (.sentinel (g.start - s.canIfOut.offset + (bytes.length + s.canIfOut.offset)))

/-- What the trace says of the start of the loop. -/
def loopEntries (s : State) (bytes : List UInt8) (g : Region) : Log :=
  [(.deliver bytes, s),
    (.sentinel (g.start - s.canIfOut.offset + (bytes.length + s.canIfOut.offset)),
      s.exec (.deliver bytes))]

theorem exec_deliver {s : State} {g : Region} (h : s.armed = some g) (bytes : List UInt8) :
    s.exec (.deliver bytes) = { s with
      armed := none
      canIfOut := { s.canIfOut with buffer := store s.canIfOut.buffer g.start bytes } } := by
  simp only [State.exec, h]

/-- The fragment, and the bytes that arrive. -/
def State.data (s : State) (bytes : List UInt8) : List UInt8 :=
  cells s.canIfOut.buffer 0 s.canIfOut.offset ++ bytes

/-- The window that the loop reads is the data of the transfer. -/
theorem cells_loopStart {s : State} (h : Sound s) {g : Region} (hg : s.armed = some g)
    (bytes : List UInt8) :
    cells (loopStart s bytes g).canIfOut.buffer (g.start - s.canIfOut.offset)
        (bytes.length + s.canIfOut.offset) = s.data bytes := by
  rw [loopStart, exec_deliver hg]
  change cells (Function.update (store s.canIfOut.buffer g.start bytes) _ 1) _ _ = _
  rw [cells_update _ _ _ _ _ (.inr (Nat.le_refl _)), State.data]
  rcases (h.armed g hg).1 with ho | ho
  · rw [ho, Nat.sub_self, Nat.add_comm, cells_add, Nat.zero_add, cells_store]
    congr 1
    exact cells_congr fun i hi ↦ store_of_ne _ _ _ (.inl (by omega))
  · rw [ho, Nat.sub_zero, Nat.add_zero, cells_store]
    rfl

private theorem round_start {s : State} {t : Log} (h : SoundLog s t) {g : Region}
    (hg : s.armed = some g) {bytes : List UInt8} (hb : bytes.length ≤ g.length) :
    Round (g.start - s.canIfOut.offset) (bytes.length + s.canIfOut.offset)
      (loopStart s bytes g) (t ++ loopEntries s bytes g) := by
  obtain ⟨hs, ht⟩ := h
  obtain ⟨ho, hl, hsp⟩ := hs.armed g hg
  have hd := exec_deliver hg bytes
  refine ⟨⟨?_, ?_⟩, ?_, by omega, ?_, Function.update_self _ _ _⟩
  · rw [loopStart, hd]
    exact ⟨hs.queue, hs.size, hs.offset_le, nofun⟩
  · intro e he
    rcases List.mem_append.mp he with he | he
    · exact ht e he
    · rcases List.mem_pair.mp he with rfl | rfl <;> trivial
  · rw [loopStart, hd]
    rfl
  · rw [loopStart, hd]
    change _ ≤ 4 * s.canTxQ.space
    omega

/-- What holds after the loop: whether a message was not valid, or the data ended. -/
private def Exit (J : Assertion State Op) (L : Nat → Nat → Assertion State Op) :
    Option (Nat × Nat) → Assertion State Op
  | none => J
  | some (pbuf, length) => L pbuf length

/-- Rule for the completion of an OUT transfer. `L` is an invariant of the loop, which an
accepted message keeps; a message that is not valid leads to `J`, the end of the data to `M`;
and from `M` posting frames and receiving more data lead to `J`. -/
theorem outCompletion_rule {I J M : Assertion State Op} {L : Nat → Nat → Assertion State Op}
    {bytes : List UInt8} (idle : ∀ s t, I s t → J s t)
    (start : ∀ g s t, SoundLog s t → I s t → s.armed = some g → bytes.length ≤ g.length →
      L (g.start - s.canIfOut.offset) (bytes.length + s.canIfOut.offset) (loopStart s bytes g)
        (t ++ loopEntries s bytes g))
    (accept : ∀ pbuf length s t, Round pbuf length s t → L pbuf length s t →
      ∀ n, n = (s.canIfOut.buffer pbuf).toNat → n ≤ length → n ≠ 0 →
      s.accepts (pbuf + 1) (n - 1) = true →
      L (pbuf + n) (length - n) (s.exec (.handleRequest (pbuf + 1) (n - 1)))
        (t ++ [(.handleRequest (pbuf + 1) (n - 1), s)]))
    (reject : ∀ pbuf length s t, Round pbuf length s t → L pbuf length s t →
      ∀ n, n = (s.canIfOut.buffer pbuf).toNat → n ≤ length → n ≠ 0 →
      s.accepts (pbuf + 1) (n - 1) = false →
      ∀ s', s' = s.exec (.handleRequest (pbuf + 1) (n - 1)) →
      J (s'.exec .stop) (t ++ [(.handleRequest (pbuf + 1) (n - 1), s)] ++ [(.stop, s')]))
    (zero : ∀ pbuf length s t, Round pbuf length s t → L pbuf length s t → length ≠ 0 →
      (s.canIfOut.buffer pbuf).toNat = 0 → J (s.exec .stop) (t ++ [(.stop, s)]))
    (done : ∀ pbuf length s t, Round pbuf length s t → L pbuf length s t →
      length < (s.canIfOut.buffer pbuf).toNat →
      M (s.exec (.moveFragment pbuf length)) (t ++ [(.moveFragment pbuf length, s)]))
    (tail : Triple (fun s t ↦ M s t ∧ SoundLog s t) (do canPostFrames; canIfReceiveOutData)
      fun _ s t ↦ J s t ∧ SoundLog s t) :
    Triple (fun s t ↦ I s t ∧ SoundLog s t) (outCompletion bytes)
      fun _ s t ↦ J s t ∧ SoundLog s t := by
  refine Triple.bind (R := fun a s t ↦ (I s t ∧ SoundLog s t) ∧ s.armed = a)
    (Triple.observe fun s t h ↦ ⟨h, rfl⟩) fun a ↦ ?_
  cases a with
  | none => exact Triple.pure () fun s t h ↦ ⟨idle s t h.1.1, h.1.2⟩
  | some g =>
    refine Triple.ite (fun hb ↦ ?_) fun _ ↦ Triple.pure () fun s t h ↦ ⟨idle s t h.1.1, h.1.2⟩
    -- What holds after the first three steps is fixed by the state before them.
    refine Triple.bind (R := fun _ s' t' ↦ ∃ s t, (I s t ∧ SoundLog s t) ∧ s.armed = some g ∧
      s' = s.exec (.deliver bytes) ∧ t' = t ++ [(.deliver bytes, s)])
      (Triple.perform _ fun s t h ↦ ⟨s, t, h.1, h.2, rfl, rfl⟩) fun _ ↦ ?_
    refine Triple.bind (R := fun offset s' t' ↦ ∃ s t, (I s t ∧ SoundLog s t) ∧
      s.armed = some g ∧ s.canIfOut.offset = offset ∧
      s' = s.exec (.deliver bytes) ∧ t' = t ++ [(.deliver bytes, s)])
      (Triple.observe ?_) fun offset ↦ ?_
    · rintro _ _ ⟨s, t, h, ha, rfl, rfl⟩
      exact ⟨s, t, h, ha, by rw [exec_deliver ha], rfl, rfl⟩
    refine Triple.bind (R := fun _ s t ↦
      Round (g.start - offset) (u16 (bytes.length + offset)) s t ∧
        L (g.start - offset) (u16 (bytes.length + offset)) s t)
      (Triple.perform _ ?_) fun _ ↦ ?_
    · rintro _ _ ⟨s, t, ⟨hi, h⟩, ha, rfl, rfl, rfl⟩
      have hu : u16 (bytes.length + s.canIfOut.offset) = bytes.length + s.canIfOut.offset := by
        have := h.1.offset_le
        have := h.1.armed g ha
        unfold canifOutDataSize at *
        exact u16_of_lt (by omega)
      rw [hu, List.append_assoc]
      exact ⟨round_start h ha hb, start g s t h hi ha hb⟩
    · refine Triple.bind (R := Exit (fun s t ↦ J s t ∧ SoundLog s t) fun pbuf length s t ↦
        (Round pbuf length s t ∧ L pbuf length s t) ∧ length < (s.canIfOut.buffer pbuf).toNat)
        (outLoop_rule (L := fun pbuf length s t ↦ Round pbuf length s t ∧ L pbuf length s t)
          ?_ ?_ ?_ ?_ _ _ _ (Nat.lt_succ_self _)) fun r ↦ ?_
      · rintro pbuf length s t ⟨hr, hl⟩ hn h0 ha
        exact ⟨hr.accept hn ha, accept pbuf length s t hr hl _ rfl hn h0 ha⟩
      · rintro pbuf length s t ⟨hr, hl⟩ hn h0 ha s' rfl
        exact ⟨reject pbuf length s t hr hl _ rfl hn h0 ha _ rfl,
          soundLog_stop (soundLog_reject hr.sound hr.armed _ _ ha) hr.armed⟩
      · rintro pbuf length s t ⟨hr, hl⟩ h0
        -- The sentinel is not a length byte of zero.
        have hne : length ≠ 0 := by
          rintro rfl
          have hs := hr.sentinel
          rw [Nat.add_zero] at hs
          rw [hs] at h0
          contradiction
        exact ⟨zero pbuf length s t hr hl hne h0, soundLog_stop hr.sound hr.armed⟩
      · exact fun pbuf length s t h hn ↦ ⟨h, hn⟩
      · cases r with
        | none => exact Triple.pure () fun _ _ h ↦ h
        | some r =>
          refine Triple.bind (R := fun _ s t ↦ M s t ∧ SoundLog s t) (Triple.perform _ ?_)
            fun _ ↦ tail
          rintro s t ⟨⟨hr, hl⟩, hn⟩
          exact ⟨done r.1 r.2 s t hr hl hn, soundLog_move hr⟩

private theorem soundLog_out (bytes : List UInt8) : Keeps SoundLog (outCompletion bytes) := by
  have tail : Keeps (fun s t ↦ True ∧ SoundLog s t) (do canPostFrames; canIfReceiveOutData) :=
    keeps_bind (keeps_and (fun _ _ ↦ trivial) soundLog_canPostFrames) fun _ ↦
      keeps_and (fun _ _ ↦ trivial) soundLog_receive
  have h : Triple (fun s t ↦ True ∧ SoundLog s t) (outCompletion bytes) fun _ s t ↦
      True ∧ SoundLog s t :=
    outCompletion_rule (L := fun _ _ _ _ ↦ True) (by simp) (by simp) (by simp) (by simp) (by simp)
      (by simp) tail
  exact h.weaken (fun _ _ h ↦ ⟨trivial, h⟩) fun _ _ _ h ↦ h.2

/-! ### Runs -/

theorem soundLog_scanMailbox (m : Fin 3) : Keeps SoundLog (scanMailbox m) :=
  keeps_scanMailbox soundLog_stable (fun _ _ ↦ SoundLog.plain rfl) (fun _ ↦ SoundLog.plain rfl)
    (fun _ ↦ SoundLog.plain rfl) m

theorem soundLog_kept : Kept SoundLog where
  stable := soundLog_stable
  tsr := SoundLog.plain rfl
  rfr := SoundLog.plain rfl
  fifo := SoundLog.plain rfl
  esr := SoundLog.plain rfl
  message _ _ := SoundLog.plain rfl
  release := SoundLog.plain rfl
  completion := SoundLog.plain rfl
  out := soundLog_out
  sent := keeps_canFrameSent soundLog_scanMailbox soundLog_canPostFrames soundLog_receive
  error := keeps_canBusError soundLog_stable (SoundLog.plain rfl)
    (fun _ _ ↦ SoundLog.plain rfl) (SoundLog.plain rfl) (fun _ ↦ SoundLog.plain rfl)
    fun _ _ h ↦ ⟨h.1.reset rfl rfl rfl, h.2.concat trivial⟩

theorem soundLog_reset (s : State) (t : Log) (h : SoundLog s t) :
    SoundLog (s.exec .resetCan) [] :=
  ⟨h.1.plain rfl, by simp [NeverOverflows]⟩

theorem soundLog_canStart : OpKeeps device SoundLog .canStart :=
  fun _ _ h ↦ ⟨h.1.reset rfl rfl rfl, h.2.concat trivial⟩

/-- A transfer that is outstanding when the offset is reset still fits the buffer. -/
theorem soundLog_emptyBuffers : OpKeeps device SoundLog .emptyBuffers :=
  fun _ _ ⟨h, ht⟩ ↦ ⟨⟨h.queue, h.size, Nat.zero_le _, fun g hg ↦ ⟨.inr rfl, (h.armed g hg).2⟩⟩,
    ht.concat trivial⟩

theorem soundLog_canIfOpen (bitrate init : Bool) : Keeps SoundLog (canIfOpen bitrate init) :=
  keeps_canIfOpen soundLog_stable soundLog_reset soundLog_canStart soundLog_emptyBuffers
    soundLog_receive bitrate init

theorem soundLog_dropTransfers : OpKeeps device SoundLog .dropTransfers :=
  fun _ _ ⟨h, ht⟩ ↦ ⟨⟨h.queue, h.size, h.offset_le, nofun⟩, ht.concat trivial⟩

theorem soundLog_canClose (dropped : Bool) : Keeps SoundLog (canClose dropped) :=
  keeps_canClose soundLog_stable soundLog_reset soundLog_dropTransfers dropped

theorem soundLog_boot (mailboxes : Fin 3 → TxMailBox) (txq : Nat → TxMailBox)
    (inb outb : Nat → UInt8) :
    SoundLog (boot mailboxes txq inb outb).state (boot mailboxes txq inb outb).trace :=
  ⟨⟨⟨Nat.zero_le _, Nat.zero_le _, (by decide : canTxQCapacity + 1 < 4294967296)⟩, rfl,
    Nat.zero_le _, nofun⟩, by simp [NeverOverflows, boot]⟩

/-- The invariant holds in every state of every run. -/
theorem soundLog_run (mailboxes : Fin 3 → TxMailBox) (txq : Nat → TxMailBox)
    (inb outb : Nat → UInt8) (steps : List Step) :
    SoundLog (run (boot mailboxes txq inb outb) steps).state
      (run (boot mailboxes txq inb outb) steps).trace :=
  soundLog_kept.run soundLog_canIfOpen soundLog_canClose (soundLog_boot mailboxes txq inb outb)
    steps

/-- What `CanIf_Open` establishes after any run holds at the end of the session. -/
theorem opened_session {I : Assertion State Op} (kept : Kept I) {bitrate init : Bool}
    (opens : Triple SoundLog (canIfOpen bitrate init) fun _ ↦ I)
    (mailboxes : Fin 3 → TxMailBox) (txq : Nat → TxMailBox) (inb outb : Nat → UInt8)
    (before : List Step) (script : List (List Event)) {steps : List Step}
    (session : ∀ a ∈ steps, a.action.inSession = true) {c : Config}
    (hc : c = run (boot mailboxes txq inb outb)
      (before ++ [⟨.canIfOpen bitrate init, script⟩] ++ steps)) : I c.state c.trace := by
  subst hc
  have hopen : Triple SoundLog (Step.program ⟨.canIfOpen bitrate init, script⟩) fun _ ↦ I :=
    Triple.bind (keeps_schedule _) fun _ ↦ opens
  rw [run_append, run_append]
  exact kept.session (hopen _ (soundLog_run mailboxes txq inb outb before)) steps session

/-- Whenever `Can_HandleRequest` moves the head of the transmit queue, in any run, the queue
has a free slot: the frame is appended, and nothing queued is overwritten. -/
theorem canTxQ_never_overflows (mailboxes : Fin 3 → TxMailBox) (txq : Nat → TxMailBox)
    (inb outb : Nat → UInt8) (steps : List Step) :
    NeverOverflows (run (boot mailboxes txq inb outb) steps).trace :=
  (soundLog_run mailboxes txq inb outb steps).2

end CanDybug
