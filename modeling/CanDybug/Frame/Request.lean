import CanDybug.Frame.Mailbox
import CanDybug.Queue.Fifo

/-!
# Requests of the host

`Can_HandleRequest`, `App/can_if.c:266–327`, on the body of one message. The function
is generic in how a byte is read, so that the same text gives its result over a memory
and the indices it reads. It accepts the bodies of the `README.md` table and no others;
a body it rejects leaves every stored frame, the head and the tail as they were.
-/

namespace CanDybug

open Base

/-- `Can_HandleRequest`, `can_if.c:266–327`. `msg i` reads `msg[i]`; `flen` is signed. -/
def canHandleRequestM {m : Type → Type} [Monad m] (msg : Nat → m UInt8) (length : Nat)
    (q : Queue TxMailBox) : m (Bool × Queue TxMailBox) := do
  let type ← msg 0
  if type = canifFrameSdat ∨ type = canifFrameSrtr ∨ type = canifFrameEdat ∨
      type = canifFrameErtr then
    let newhead := if q.head = q.size then 0 else u32 (q.head + 1)
    let (tir, header) ←
      if word type &&& canIdtypeExtData = 0 then do
        let b₁ ← msg 1
        let b₂ ← msg 2
        pure (word type ||| word b₁ <<< (8 + 21) ||| word b₂ <<< 21, 3)
      else do
        let b₁ ← msg 1
        let b₂ ← msg 2
        let b₃ ← msg 3
        let b₄ ← msg 4
        pure (word type ||| word b₁ <<< (24 + 3) ||| word b₂ <<< (16 + 3) |||
          word b₃ <<< (8 + 3) ||| word b₄ <<< 3, 5)
    -- The identifier register of the slot after the head is written before any check.
    let new := { q.buffer newhead with TIR := tir }
    let flen : Int := (length : Int) - (header : Nat)
    if flen < 0 ∨ flen > 8 ∨ (tir &&& canIdtypeStdRtr ≠ 0 ∧ flen ≠ 0) then
      return (false, { q with buffer := Function.update q.buffer newhead new })
    else
      let bytes ← (List.range flen.toNat).mapM fun i ↦ msg (header + i)
      let new := { new with TDTR := BitVec.ofInt 32 flen }.memcpyData 0 bytes
      return (true, { q with head := newhead, buffer := Function.update q.buffer newhead new })
  else
    return (false, q)

/-- `Can_HandleRequest` over a memory that starts at the body. -/
def canHandleRequest (msg : Nat → UInt8) (length : Nat) (q : Queue TxMailBox) :
    Bool × Queue TxMailBox :=
  Id.run (canHandleRequestM (fun i ↦ pure (msg i)) length q)

/-- The request was turned down: nothing stored changed, perhaps a free slot did. -/
def Rejected (q : Queue TxMailBox) (r : Bool × Queue TxMailBox) : Prop :=
  r.1 = false ∧ ∃ buffer, r.2 = { q with buffer } ∧
    ∀ i, i ≠ q.nextSlot → buffer i = q.buffer i

/-- The request was queued as a mailbox that holds the frame. -/
def Queued (q : Queue TxMailBox) (f : Frame) (r : Bool × Queue TxMailBox) : Prop :=
  ∃ mb : TxMailBox, mb.Holds f ∧ r = (true, q.put mb)

theorem Rejected.size {q : Queue TxMailBox} {r : Bool × Queue TxMailBox} (h : Rejected q r) :
    r.2.size = q.size := by
  obtain ⟨-, buffer, hr, -⟩ := h
  rw [hr]

/-! ### Composition of the identifier register -/

private theorem standard_bits (b₁ b₀ : UInt8) :
    word b₁ <<< (8 + 21) ||| word b₀ <<< 21 =
      ((b₁.toBitVec ++ b₀.toBitVec).setWidth 11).setWidth 32 <<< 21 := by
  apply BitVec.eq_of_getLsbD_eq
  intro i hi
  simp only [word, BitVec.getLsbD_or, BitVec.getLsbD_shiftLeft, BitVec.getLsbD_setWidth,
    BitVec.getLsbD_append]
  interval_cases i <;> simp

private theorem extended_bits (b₃ b₂ b₁ b₀ : UInt8) :
    word b₃ <<< (24 + 3) ||| (word b₂ <<< (16 + 3) ||| (word b₁ <<< (8 + 3) ||| word b₀ <<< 3)) =
      ((b₃.toBitVec ++ b₂.toBitVec ++ b₁.toBitVec ++ b₀.toBitVec).setWidth 29).setWidth 32 <<<
        3 := by
  apply BitVec.eq_of_getLsbD_eq
  intro i hi
  simp only [word, BitVec.getLsbD_or, BitVec.getLsbD_shiftLeft, BitVec.getLsbD_setWidth,
    BitVec.getLsbD_append]
  interval_cases i <;> simp

/-- The register composed from the bytes of a standard request. -/
theorem standard_tir (b₁ b₀ : UInt8) (f : Frame) (hf : f.id = standardId b₁ b₀) :
    word f.type ||| word b₁ <<< (8 + 21) ||| word b₀ <<< 21 = f.ir := by
  rw [BitVec.or_assoc, standard_bits, Frame.ir, hf]
  rfl

/-- The register composed from the bytes of an extended request. -/
theorem extended_tir (b₃ b₂ b₁ b₀ : UInt8) (f : Frame) (hf : f.id = extendedId b₃ b₂ b₁ b₀) :
    word f.type ||| word b₃ <<< (24 + 3) ||| word b₂ <<< (16 + 3) ||| word b₁ <<< (8 + 3) |||
      word b₀ <<< 3 = f.ir := by
  rw [BitVec.or_assoc, BitVec.or_assoc, BitVec.or_assoc, extended_bits, Frame.ir, hf]
  rfl

/-! ### Acceptance -/

-- The part of the function after the identifier bytes are read.
private def finish (msg : Nat → UInt8) (length : Nat) (q : Queue TxMailBox) (tir : BitVec 32)
    (header : Nat) : Bool × Queue TxMailBox :=
  let new := { q.buffer q.nextSlot with TIR := tir }
  if (length : Int) - header < 0 ∨ (length : Int) - header > 8 ∨
      (tir &&& canIdtypeStdRtr ≠ 0 ∧ (length : Int) - header ≠ 0) then
    (false, { q with buffer := Function.update q.buffer q.nextSlot new })
  else
    (true, q.put ({ new with TDTR := BitVec.ofInt 32 ((length : Int) - header) }.memcpyData 0
      (cells msg header ((length : Int) - header).toNat)))

private theorem canHandleRequest_eq {q : Queue TxMailBox} (hq : q.WellFormed)
    (msg : Nat → UInt8) (length : Nat) :
    canHandleRequest msg length q =
      if msg 0 = canifFrameSdat ∨ msg 0 = canifFrameSrtr ∨ msg 0 = canifFrameEdat ∨
          msg 0 = canifFrameErtr then
        if word (msg 0) &&& canIdtypeExtData = 0 then
          finish msg length q
            (word (msg 0) ||| word (msg 1) <<< (8 + 21) ||| word (msg 2) <<< 21) 3
        else
          finish msg length q
            (word (msg 0) ||| word (msg 1) <<< (24 + 3) ||| word (msg 2) <<< (16 + 3) |||
              word (msg 3) <<< (8 + 3) ||| word (msg 4) <<< 3) 5
      else (false, q) := by
  have hh := hq.head_le
  have hs := hq.size_lt
  have hn : (if q.head = q.size then 0 else u32 (q.head + 1)) = q.nextSlot := by
    rw [Queue.nextSlot, u32_of_lt (by omega), mod_eq_sub (by omega)]
    split <;> split <;> omega
  unfold canHandleRequest canHandleRequestM
  simp only [pure_bind, hn, List.mapM_pure, finish, Queue.put_eq hq, cells]
  split
  · split
    · split <;> rfl
    · split <;> rfl
  · rfl

private theorem finish_rejected {q : Queue TxMailBox} (msg : Nat → UInt8) (length : Nat)
    (tir : BitVec 32) (header : Nat)
    (h : length < header ∨ 8 < length - header ∨
      (tir &&& canIdtypeStdRtr ≠ 0 ∧ length ≠ header)) :
    Rejected q (finish msg length q tir header) := by
  have hc : (length : Int) - header < 0 ∨ (length : Int) - header > 8 ∨
      (tir &&& canIdtypeStdRtr ≠ 0 ∧ (length : Int) - header ≠ 0) := by
    rcases h with h | h | ⟨h, hl⟩
    · exact .inl (by omega)
    · exact .inr (.inl (by omega))
    · exact .inr (.inr ⟨h, by omega⟩)
  unfold finish
  rw [if_pos hc]
  exact ⟨rfl, _, rfl, fun i hi ↦ Function.update_of_ne hi _ _⟩

private theorem finish_queued {q : Queue TxMailBox} (msg : Nat → UInt8) (n header : Nat)
    (f : Frame) (hd : cells msg header n = f.data) (hr : f.payload = .remote → n = 0) :
    Queued q f (finish msg (header + n) q f.ir header) := by
  have hl : n = f.data.length := by rw [← hd, length_cells]
  have h8 := f.length_data_le
  have hn : ((header + n : Nat) : Int) - header = n := by omega
  unfold finish
  simp only [hn]
  rw [if_neg]
  · refine ⟨_, ⟨?_, ?_, ?_⟩, rfl⟩
    · simp
    · simp [hl, BitVec.ofInt_natCast]
    · rw [Int.toNat_natCast, hd]
      exact dataBytes_memcpyData _ _ h8
  · rintro (h | h | ⟨h, hz⟩)
    · omega
    · omega
    · have := mt (ir_and_rtr f).mpr h
      simp only [ne_eq, not_not] at this
      exact hz (by rw [hr this]; rfl)

private theorem cells_three (msg : Nat → UInt8) (n : Nat) :
    cells msg 0 (3 + n) = msg 0 :: msg 1 :: msg 2 :: cells msg 3 n := by
  rw [cells_add]
  rfl

private theorem cells_five (msg : Nat → UInt8) (n : Nat) :
    cells msg 0 (5 + n) = msg 0 :: msg 1 :: msg 2 :: msg 3 :: msg 4 :: cells msg 5 n := by
  rw [cells_add]
  rfl

variable {q : Queue TxMailBox} (hq : q.WellFormed) (msg : Nat → UInt8)

include hq

private theorem standard_queued (n : Nat) (f : Frame) (ht : msg 0 = f.type)
    (hf : f.id = standardId (msg 1) (msg 2)) (hd : cells msg 3 n = f.data)
    (hr : f.payload = .remote → n = 0) : Queued q f (canHandleRequest msg (3 + n) q) := by
  obtain ⟨id, payload⟩ := f
  subst hf
  have hf := standard_tir (msg 1) (msg 2) ⟨standardId (msg 1) (msg 2), payload⟩ rfl
  have hk : Queued q ⟨standardId (msg 1) (msg 2), payload⟩
      (finish msg (3 + n) q (Frame.ir ⟨standardId (msg 1) (msg 2), payload⟩) 3) :=
    finish_queued msg n 3 _ hd hr
  rw [← hf, ← ht] at hk
  rw [canHandleRequest_eq hq]
  rcases Frame.type_standard _ payload with htype | htype
  · rw [if_pos (.inl (ht.trans htype)), if_pos (by rw [ht.trans htype]; decide)]
    exact hk
  · rw [if_pos (.inr (.inl (ht.trans htype))), if_pos (by rw [ht.trans htype]; decide)]
    exact hk

private theorem extended_queued (n : Nat) (f : Frame) (ht : msg 0 = f.type)
    (hf : f.id = extendedId (msg 1) (msg 2) (msg 3) (msg 4)) (hd : cells msg 5 n = f.data)
    (hr : f.payload = .remote → n = 0) : Queued q f (canHandleRequest msg (5 + n) q) := by
  obtain ⟨id, payload⟩ := f
  subst hf
  have hf := extended_tir (msg 1) (msg 2) (msg 3) (msg 4)
    ⟨extendedId (msg 1) (msg 2) (msg 3) (msg 4), payload⟩ rfl
  have hk : Queued q ⟨extendedId (msg 1) (msg 2) (msg 3) (msg 4), payload⟩
      (finish msg (5 + n) q
        (Frame.ir ⟨extendedId (msg 1) (msg 2) (msg 3) (msg 4), payload⟩) 5) :=
    finish_queued msg n 5 _ hd hr
  rw [← hf, ← ht] at hk
  rw [canHandleRequest_eq hq]
  rcases Frame.type_extended _ payload with htype | htype
  · rw [if_pos (.inr (.inr (.inl (ht.trans htype)))), if_neg (by rw [ht.trans htype]; decide)]
    exact hk
  · rw [if_pos (.inr (.inr (.inr (ht.trans htype)))), if_neg (by rw [ht.trans htype]; decide)]
    exact hk

/-- A body of the table is queued as a mailbox that holds its frame. -/
theorem canHandleRequest_queued (length : Nat) (f : Frame) (h : Row (cells msg 0 length) f) :
    Queued q f (canHandleRequest msg length q) := by
  have hl : (cells msg 0 length).length = length := length_cells _ _ _
  generalize hb : cells msg 0 length = body at h hl
  cases h with
  | standardData b₁ b₀ bytes le =>
    obtain rfl : length = 3 + bytes.length := by simp only [List.length_cons] at hl; omega
    rw [cells_three] at hb
    simp only [List.cons.injEq] at hb
    obtain ⟨h0, h1, h2, hd⟩ := hb
    exact standard_queued hq msg _ _ h0 (by rw [h1, h2]) hd (by simp)
  | standardRemote b₁ b₀ =>
    obtain rfl : length = 3 + 0 := hl.symm
    rw [cells_three] at hb
    simp only [List.cons.injEq] at hb
    obtain ⟨h0, h1, h2, hd⟩ := hb
    exact standard_queued hq msg _ _ h0 (by rw [h1, h2]) hd fun _ ↦ rfl
  | extendedData b₃ b₂ b₁ b₀ bytes le =>
    obtain rfl : length = 5 + bytes.length := by simp only [List.length_cons] at hl; omega
    rw [cells_five] at hb
    simp only [List.cons.injEq] at hb
    obtain ⟨h0, h1, h2, h3, h4, hd⟩ := hb
    exact extended_queued hq msg _ _ h0 (by rw [h1, h2, h3, h4]) hd (by simp)
  | extendedRemote b₃ b₂ b₁ b₀ =>
    obtain rfl : length = 5 + 0 := hl.symm
    rw [cells_five] at hb
    simp only [List.cons.injEq] at hb
    obtain ⟨h0, h1, h2, h3, h4, hd⟩ := hb
    exact extended_queued hq msg _ _ h0 (by rw [h1, h2, h3, h4]) hd fun _ ↦ rfl

/-- A body that is not of the table is turned down. -/
theorem canHandleRequest_rejected (length : Nat) (h : ∀ f, ¬ Row (cells msg 0 length) f) :
    Rejected q (canHandleRequest msg length q) := by
  have standard (n : Nat) (hl : length = 3 + n) :
      cells msg 0 length = msg 0 :: msg 1 :: msg 2 :: cells msg 3 n := by rw [hl, cells_three]
  have extended (n : Nat) (hl : length = 5 + n) :
      cells msg 0 length = msg 0 :: msg 1 :: msg 2 :: msg 3 :: msg 4 :: cells msg 5 n := by
    rw [hl, cells_five]
  rw [canHandleRequest_eq hq]
  split
  next ht =>
    rcases ht with ht | ht | ht | ht
    · rw [ht, if_pos (by decide)]
      apply finish_rejected
      by_contra hc
      have hb := standard (length - 3) (by omega)
      rw [ht] at hb
      exact h _ (hb ▸ Row.standardData _ _ _ (by rw [length_cells]; omega))
    · rw [ht, if_pos (by decide)]
      apply finish_rejected
      by_contra hc
      have hrtr := standard_tir (msg 1) (msg 2) ⟨standardId (msg 1) (msg 2), .remote⟩ rfl
      have hne := mt (ir_and_rtr ⟨standardId (msg 1) (msg 2), .remote⟩).mp (by simp)
      rw [← hrtr] at hne
      obtain rfl : length = 3 := by
        by_contra hl
        exact hc (.inr (.inr ⟨hne, hl⟩))
      have hb := standard 0 rfl
      rw [ht] at hb
      exact h _ (hb ▸ Row.standardRemote _ _)
    · rw [ht, if_neg (by decide)]
      apply finish_rejected
      by_contra hc
      have hb := extended (length - 5) (by omega)
      rw [ht] at hb
      exact h _ (hb ▸ Row.extendedData _ _ _ _ _ (by rw [length_cells]; omega))
    · rw [ht, if_neg (by decide)]
      apply finish_rejected
      by_contra hc
      have hrtr := extended_tir (msg 1) (msg 2) (msg 3) (msg 4)
        ⟨extendedId (msg 1) (msg 2) (msg 3) (msg 4), .remote⟩ rfl
      have hne := mt (ir_and_rtr ⟨extendedId (msg 1) (msg 2) (msg 3) (msg 4), .remote⟩).mp
        (by simp)
      rw [← hrtr] at hne
      obtain rfl : length = 5 := by
        by_contra hl
        exact hc (.inr (.inr ⟨hne, hl⟩))
      have hb := extended 0 rfl
      rw [ht] at hb
      exact h _ (hb ▸ Row.extendedRemote _ _ _ _)
  next => exact ⟨rfl, q.buffer, rfl, fun _ _ ↦ rfl⟩

/-- `Can_HandleRequest` accepts exactly the bodies of the table, and what it queues holds
the frame the body stands for. -/
theorem canHandleRequest_spec (length : Nat) :
    match decodeBody (cells msg 0 length) with
    | some f => Queued q f (canHandleRequest msg length q)
    | none => Rejected q (canHandleRequest msg length q) := by
  split
  next f hf => exact canHandleRequest_queued hq msg length f ((decodeBody_iff _ _).mp hf)
  next hn =>
    apply canHandleRequest_rejected hq msg length
    intro f hf
    rw [(decodeBody_iff _ _).mpr hf] at hn
    contradiction

omit hq in
private theorem finish_local {msg msg' : Nat → UInt8} {length header : Nat}
    (h : ∀ i, i < length → msg' i = msg i) (hl : header ≤ length) (tir : BitVec 32) :
    finish msg' length q tir header = finish msg length q tir header := by
  have hn : ((length : Int) - header).toNat = length - header := by omega
  unfold finish
  rw [hn, cells_congr fun i hi ↦ h (header + i) (by omega)]

/-- Nothing behind a request has a part in its being accepted. -/
theorem canHandleRequest_local {msg' : Nat → UInt8} {length : Nat}
    (h : ∀ i, i < length → msg' i = msg i) (ha : (canHandleRequest msg length q).1 = true) :
    canHandleRequest msg' length q = canHandleRequest msg length q := by
  -- A request that is too short for its identifier is turned down.
  have short {tir : BitVec 32} {header : Nat}
      (hf : (finish msg length q tir header).1 = true) : header ≤ length := by
    by_contra hl
    rw [(finish_rejected msg length tir header (.inl (by omega))).1] at hf
    contradiction
  rw [canHandleRequest_eq hq] at ha
  rw [canHandleRequest_eq hq, canHandleRequest_eq hq]
  by_cases ht : msg 0 = canifFrameSdat ∨ msg 0 = canifFrameSrtr ∨ msg 0 = canifFrameEdat ∨
      msg 0 = canifFrameErtr
  · by_cases hx : word (msg 0) &&& canIdtypeExtData = 0
    · rw [if_pos ht, if_pos hx] at ha
      have hl := short ha
      rw [h 0 (by omega), h 1 (by omega), h 2 (by omega), if_pos ht, if_pos hx, if_pos ht,
        if_pos hx]
      exact finish_local h hl _
    · rw [if_pos ht, if_neg hx] at ha
      have hl := short ha
      rw [h 0 (by omega), h 1 (by omega), h 2 (by omega), h 3 (by omega), h 4 (by omega),
        if_pos ht, if_neg hx, if_pos ht, if_neg hx]
      exact finish_local h hl _
  · rw [if_neg ht] at ha
    contradiction

end CanDybug
