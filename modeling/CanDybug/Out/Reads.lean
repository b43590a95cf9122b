import CanDybug.Out.Buffer

/-!
# What decoding a request reads

`Can_HandleRequest` reads the identifier that the type of a request announces before it looks
at the length. Its own text, over bytes that log where they are read, gives the indices of
`CanIf_OUT.buffer`; they stay inside the buffer unless a request that is too short for its
identifier stands at the end.
-/

namespace CanDybug

open Base

/-- Read a byte of a memory, and log its index. -/
def logged (mem : Nat → UInt8) (i : Nat) : StateM (List Nat) UInt8 := fun l ↦ (mem i, l ++ [i])

/-- The indices of `CanIf_OUT.buffer` that `Can_HandleRequest` reads. -/
def State.requestReads (s : State) (msg length : Nat) : List Nat :=
  (canHandleRequestM (fun i ↦ logged s.canIfOut.buffer (msg + i)) length s.canTxQ []).2

/-- Identifier bytes that a type announces. -/
def identifierLength (type : UInt8) : Nat :=
  if type = canifFrameSdat ∨ type = canifFrameSrtr then 2
  else if type = canifFrameEdat ∨ type = canifFrameErtr then 4
  else 0

private theorem log_pure {α : Type} (a : α) (l : List Nat) :
    (pure a : StateM (List Nat) α) l = (a, l) := rfl

private theorem log_bind {α β : Type} (x : StateM (List Nat) α) (k : α → StateM (List Nat) β)
    (l : List Nat) : (x >>= k) l = k (x l).1 (x l).2 := rfl

private theorem logged_bind {α : Type} (mem : Nat → UInt8) (i : Nat)
    (k : UInt8 → StateM (List Nat) α) (l : List Nat) :
    (logged mem i >>= k) l = k (mem i) (l ++ [i]) := rfl

private theorem mapM_logged (mem : Nat → UInt8) (f : Nat → Nat) (ks l : List Nat) :
    ks.mapM (fun i ↦ logged mem (f i)) l = (ks.map fun i ↦ mem (f i), l ++ ks.map f) := by
  induction ks generalizing l with
  | nil => simp [log_pure]
  | cons k ks ih =>
    rw [List.mapM_cons, logged_bind, log_bind, ih, log_pure]
    simp

-- What `Can_HandleRequest` does when it has read the identifier.
private def finishM {m : Type → Type} [Monad m] (msg : Nat → m UInt8) (length : Nat)
    (q : Queue TxMailBox) (tir : BitVec 32) (header : Nat) : m (Bool × Queue TxMailBox) := do
  let newhead := if q.head = q.size then 0 else u32 (q.head + 1)
  let new := { q.buffer newhead with TIR := tir }
  let flen : Int := (length : Int) - (header : Nat)
  if flen < 0 ∨ flen > 8 ∨ (tir &&& canIdtypeStdRtr ≠ 0 ∧ flen ≠ 0) then
    return (false, { q with buffer := Function.update q.buffer newhead new })
  else
    let bytes ← (List.range flen.toNat).mapM fun i ↦ msg (header + i)
    let new := { new with TDTR := BitVec.ofInt 32 flen }.memcpyData 0 bytes
    return (true, { q with head := newhead, buffer := Function.update q.buffer newhead new })

private theorem canHandleRequestM_eq {m : Type → Type} [Monad m] [LawfulMonad m]
    (msg : Nat → m UInt8) (length : Nat) (q : Queue TxMailBox) :
    canHandleRequestM msg length q = do
      let type ← msg 0
      if type = canifFrameSdat ∨ type = canifFrameSrtr ∨ type = canifFrameEdat ∨
          type = canifFrameErtr then
        if word type &&& canIdtypeExtData = 0 then
          let b₁ ← msg 1
          let b₂ ← msg 2
          finishM msg length q (word type ||| word b₁ <<< (8 + 21) ||| word b₂ <<< 21) 3
        else
          let b₁ ← msg 1
          let b₂ ← msg 2
          let b₃ ← msg 3
          let b₄ ← msg 4
          finishM msg length q (word type ||| word b₁ <<< (24 + 3) ||| word b₂ <<< (16 + 3) |||
            word b₃ <<< (8 + 3) ||| word b₄ <<< 3) 5
      else return (false, q) := by
  unfold canHandleRequestM
  refine bind_congr fun type ↦ ?_
  by_cases ht : type = canifFrameSdat ∨ type = canifFrameSrtr ∨ type = canifFrameEdat ∨
      type = canifFrameErtr
  · by_cases hx : word type &&& canIdtypeExtData = 0
    · simp only [if_pos ht, if_pos hx, pure_bind]
      rfl
    · simp only [if_pos ht, if_neg hx, pure_bind]
      rfl
  · simp only [if_neg ht]

private theorem finishM_logged (mem : Nat → UInt8) (msg length : Nat) (q : Queue TxMailBox)
    (tir : BitVec 32) (header : Nat) (l : List Nat) :
    finishM (fun i ↦ logged mem (msg + i)) length q tir header l =
      (Id.run (finishM (fun i ↦ pure (mem (msg + i))) length q tir header), l ++
        if (Id.run (finishM (fun i ↦ pure (mem (msg + i))) length q tir header)).1 = true then
          (List.range (length - header)).map fun i ↦ msg + (header + i)
        else []) := by
  have hn : ((length : Int) - (header : Nat)).toNat = length - header := by omega
  unfold finishM
  by_cases hc : (length : Int) - (header : Nat) < 0 ∨ (length : Int) - (header : Nat) > 8 ∨
      (tir &&& canIdtypeStdRtr ≠ 0 ∧ (length : Int) - (header : Nat) ≠ 0)
  · simp only [if_pos hc, log_pure, Id.run_pure, Bool.false_eq_true, if_false, List.append_nil]
  · simp only [if_neg hc, List.mapM_pure, pure_bind, hn, log_bind, mapM_logged]
    rfl

/-- Logging changes nothing in the result. It shows the type, the identifier that the type
announces, and the data if the request is accepted. -/
theorem canHandleRequest_logged (mem : Nat → UInt8) (msg length : Nat) (q : Queue TxMailBox) :
    canHandleRequestM (fun i ↦ logged mem (msg + i)) length q [] =
      (canHandleRequest (fun i ↦ mem (msg + i)) length q,
        (List.range (1 + identifierLength (mem msg))).map (msg + ·) ++
          if (canHandleRequest (fun i ↦ mem (msg + i)) length q).1 = true then
            (List.range (length - (1 + identifierLength (mem msg)))).map fun i ↦
              msg + (1 + identifierLength (mem msg) + i)
          else []) := by
  unfold canHandleRequest
  rw [canHandleRequestM_eq, canHandleRequestM_eq]
  simp only [pure_bind, logged_bind, Nat.add_zero]
  by_cases ht : mem msg = canifFrameSdat ∨ mem msg = canifFrameSrtr ∨ mem msg = canifFrameEdat ∨
      mem msg = canifFrameErtr
  · by_cases hx : word (mem msg) &&& canIdtypeExtData = 0
    · have hi : identifierLength (mem msg) = 2 := by
        rcases ht with ht | ht | ht | ht <;> rw [ht] at hx ⊢ <;> revert hx <;> decide
      simp only [if_pos ht, if_pos hx, logged_bind, hi, finishM_logged]
      rfl
    · have hi : identifierLength (mem msg) = 4 := by
        rcases ht with ht | ht | ht | ht <;> rw [ht] at hx ⊢ <;> revert hx <;> decide
      simp only [if_pos ht, if_neg hx, logged_bind, hi, finishM_logged]
      rfl
  · have hi : identifierLength (mem msg) = 0 := by
      simp only [not_or] at ht
      simp [identifierLength, ht]
    simp only [if_neg ht, hi]
    rfl

/-! ### Where the reads lie -/

/-- A request reads inside the buffer, its last byte included. -/
def ReadsInside (e : Op × State) : Prop :=
  match e.1 with
  | .handleRequest msg length => ∀ i ∈ e.2.requestReads msg length, i ≤ canifOutDataSize
  | _ => True

/-- A request that is too short for its identifier is not too close to the end. -/
def IdentifierInside (e : Op × State) : Prop :=
  match e.1 with
  | .handleRequest msg length =>
    length < 1 + identifierLength (e.2.canIfOut.buffer msg) →
      msg + identifierLength (e.2.canIfOut.buffer msg) ≤ canifOutDataSize
  | _ => True

instance decidableReadsInside : (e : Op × State) → Decidable (ReadsInside e)
  | (.handleRequest msg length, s) =>
    inferInstanceAs (Decidable (∀ i ∈ s.requestReads msg length, i ≤ canifOutDataSize))
  | (.event _, _) | (.read _, _) | (.resetCan, _) | (.canStart, _) | (.emptyBuffers, _)
  | (.dropTransfers, _) | (.deliver _, _) | (.sentinel _, _) | (.stop, _)
  | (.moveFragment _ _, _) | (.receiveOutData, _) | (.usbReceive _, _) | (.postFrame _, _)
  | (.setTXRQ _, _) | (.clearRQCP _, _) | (.setABRQ _, _) | (.clearERRI, _)
  | (.releaseFifo, _) | (.resetTxQ, _) | (.addMessage _, _) | (.epInComplete, _) =>
    .isTrue trivial

/-- A request that ends inside the buffer. -/
theorem readsInside_iff {s : State} {msg length : Nat} (h : msg + length ≤ canifOutDataSize) :
    ReadsInside (.handleRequest msg length, s) ↔
      IdentifierInside (.handleRequest msg length, s) := by
  have he : s.requestReads msg length = _ :=
    congrArg Prod.snd (canHandleRequest_logged s.canIfOut.buffer msg length s.canTxQ)
  simp only [ReadsInside, IdentifierInside, he]
  generalize identifierLength (s.canIfOut.buffer msg) = n
  constructor
  · intro hr _
    refine hr _ (List.mem_append_left _ ?_)
    exact List.mem_map_of_mem (List.mem_range.mpr (by omega))
  · intro hn i hi
    rcases List.mem_append.mp hi with hi | hi
    · obtain ⟨k, hk, rfl⟩ := List.mem_map.mp hi
      have hk := List.mem_range.mp hk
      omega
    · split at hi
      · obtain ⟨k, hk, rfl⟩ := List.mem_map.mp hi
        have hk := List.mem_range.mp hk
        omega
      · simp at hi

/-! ### Runs -/

/-- Each request reads inside the buffer exactly if it meets the condition. -/
private def Judged (_ : State) (t : Log) : Prop := ∀ e ∈ t, ReadsInside e ↔ IdentifierInside e

private theorem Judged.concat {s s' : State} {t : Log} (h : Judged s t) {e : Op × State}
    (he : ReadsInside e ↔ IdentifierInside e) : Judged s' (t ++ [e]) :=
  List.forall_mem_append.mpr ⟨h, List.forall_mem_singleton.mpr he⟩

private theorem judged_other {o : Op} (ho : ∀ msg length, o ≠ .handleRequest msg length)
    (s : State) : ReadsInside (o, s) ↔ IdentifierInside (o, s) := by
  cases o <;> first | exact absurd rfl (ho _ _) | exact Iff.rfl

/-- A message handled in the loop ends where the data does, at the latest. -/
private theorem judged_request {pbuf length n : Nat} {s : State} {t : Log}
    (hr : Round pbuf length s t) (h : Judged s t) (hn : n ≤ length) (h0 : n ≠ 0) :
    Judged s (t ++ [(.handleRequest (pbuf + 1) (n - 1), s)]) := by
  have hin := hr.inside
  exact h.concat (readsInside_iff (by omega))

/-- In every run, and since the last `CanIf_Open` or `Can_Close`: every request is read inside
the buffer exactly if none that is too short for its identifier is too close to the end. -/
theorem request_readsInside (mailboxes : Fin 3 → TxMailBox) (txq : Nat → TxMailBox)
    (inb outb : Nat → UInt8) (steps : List Step) :
    (∀ e ∈ (run (boot mailboxes txq inb outb) steps).trace, ReadsInside e) ↔
      ∀ e ∈ (run (boot mailboxes txq inb outb) steps).trace, IdentifierInside e := by
  have receive : Triple (fun s t ↦ Judged s t ∧ SoundLog s t) canIfReceiveOutData
      fun _ ↦ Judged :=
    (keeps_canIfReceiveOutData (fun e s t h ↦ h.concat (judged_other (by simp [device]) s))
      (fun s t h ↦ h.concat (judged_other (by simp) s))
      fun g s t h ↦ h.concat (judged_other (by simp) s)).pre fun _ _ h ↦ h.1
  have each := outBuffer_run (I := Judged) (L := fun _ _ ↦ Judged)
    (c := boot mailboxes txq inb outb) ?_ (fun _ _ _ ↦ by simp [Judged]) receive ?_ ?_ ?_ ?_ ?_
    ⟨by simp [Judged, boot], soundLog_boot mailboxes txq inb outb⟩ steps
  · exact forall₂_congr each
  · intro o ho s t _ h
    refine h.concat (judged_other ?_ s)
    rintro msg length rfl
    contradiction
  · intro bytes g s t _ h _ _
    rw [loopEntries, List.append_cons]
    have hd : Judged s (t ++ [(.deliver bytes, s)]) := h.concat (judged_other (by simp) s)
    exact hd.concat (judged_other (by simp) _)
  · intro pbuf length s t hr h n _ hn h0 _
    exact judged_request hr h hn h0
  · rintro pbuf length s t hr h n - hn h0 - s' rfl
    exact (judged_request hr h hn h0).concat (judged_other (by simp) _)
  · intro pbuf length s t _ h _ _
    exact h.concat (judged_other (by simp) s)
  · intro pbuf length s t _ h _
    exact h.concat (judged_other (by simp) s)

/-- Nine messages of 14 bytes, and behind them one of two bytes whose type announces an
extended identifier. -/
def truncatedAtEnd : List Step :=
  [⟨.canIfOpen true true, []⟩, ⟨.epOutComplete
    ((List.replicate 9 [14, 4, 0, 0, 0, 1, 1, 2, 3, 4, 5, 6, 7, 8]).flatten ++ [2, 4]), []⟩]

/-- Its identifier is read from up to three bytes behind the buffer. -/
theorem request_readsBehind :
    ¬ ∀ mailboxes txq inb outb steps,
      ∀ e ∈ (run (boot mailboxes txq inb outb) steps).trace, ReadsInside e := by
  intro h
  have hn := h (fun _ ↦ ⟨0, 0, 0, 0⟩) (fun _ ↦ ⟨0, 0, 0, 0⟩) (fun _ ↦ 0) (fun _ ↦ 0) truncatedAtEnd
  revert hn
  decide +kernel

end CanDybug
