import CanDybug.Frame.Request

/-!
# The grammar of requests

What `Can_HandleRequest` accepts and what it leaves behind, in terms of bytes and numbers: a
type byte, the identifier in big-endian order, and the data. Nothing behind the body has a
part in it, although bytes there may be read and an identifier made of them may be written to
a slot that is free.
-/

namespace CanDybug

open Base

/-- Number of bytes in big-endian order. -/
def bigEndian (bytes : List UInt8) : Nat := bytes.foldl (fun n b ↦ 256 * n + b.toNat) 0

/-- The bodies of requests, each with its type, identifier bytes and data bytes. -/
inductive Grammar : List UInt8 → UInt8 → List UInt8 → List UInt8 → Prop
  | standardData (b₁ b₀ : UInt8) (data : List UInt8) (hd : data.length ≤ 8) :
    Grammar (0x00 :: b₁ :: b₀ :: data) 0x00 [b₁, b₀] data
  | standardRemote (b₁ b₀ : UInt8) : Grammar [0x02, b₁, b₀] 0x02 [b₁, b₀] []
  | extendedData (b₃ b₂ b₁ b₀ : UInt8) (data : List UInt8) (hd : data.length ≤ 8) :
    Grammar (0x04 :: b₃ :: b₂ :: b₁ :: b₀ :: data) 0x04 [b₃, b₂, b₁, b₀] data
  | extendedRemote (b₃ b₂ b₁ b₀ : UInt8) :
    Grammar [0x06, b₃, b₂, b₁, b₀] 0x06 [b₃, b₂, b₁, b₀] []

/-- Identifier register of a request: the type bits, and above them the identifier modulo
`2 ^ 11` in `STID` or modulo `2 ^ 29` in `EXID`. -/
def requestTir (type : UInt8) (id : List UInt8) : Nat :=
  if id.length = 2 then type.toNat + bigEndian id % 2 ^ 11 * 2 ^ 21
  else type.toNat + bigEndian id % 2 ^ 29 * 2 ^ 3

/-! ### The registers as numbers -/

private theorem toNat_append_byte {w : Nat} (x : BitVec w) (b : BitVec 8) :
    (x ++ b).toNat = 256 * x.toNat + b.toNat := by
  rw [BitVec.toNat_append, ← Nat.shiftLeft_add_eq_or_of_lt b.isLt, Nat.shiftLeft_eq]
  omega

/-- Type bits below an identifier of `w` bits that is shifted by `k`. -/
private theorem toNat_ir {w k : Nat} (type : UInt8) (id : BitVec w) (hw : w + k = 32)
    (ht : type.toNat < 2 ^ k) :
    (word type ||| id.setWidth 32 <<< k).toNat = type.toNat + id.toNat * 2 ^ k := by
  have hid : id.toNat * 2 ^ k < 2 ^ 32 := by
    rw [← hw, Nat.pow_add]
    exact Nat.mul_lt_mul_of_pos_right id.isLt (Nat.two_pow_pos k)
  have hlt : id.toNat < 2 ^ 32 := id.isLt.trans_le (Nat.pow_le_pow_right Nat.two_pos (by omega))
  have hword : (word type).toNat = type.toNat := by
    have := type.toNat_lt
    simp only [word, BitVec.toNat_setWidth, UInt8.toNat_toBitVec]
    omega
  rw [BitVec.toNat_or, hword, BitVec.toNat_shiftLeft, BitVec.toNat_setWidth,
    Nat.mod_eq_of_lt hlt, Nat.shiftLeft_eq, Nat.mod_eq_of_lt hid, Nat.or_comm, Nat.mul_comm,
    ← Nat.two_pow_add_eq_or_of_lt ht]
  exact Nat.add_comm _ _

private theorem standard_toNat (b₁ b₀ : UInt8) (payload : Payload) (f : Frame)
    (hf : f = ⟨standardId b₁ b₀, payload⟩) : f.ir.toNat = requestTir f.type [b₁, b₀] := by
  subst hf
  have ht : (Frame.mk (standardId b₁ b₀) payload).type.toNat < 2 ^ 21 := by
    have := (Frame.mk (standardId b₁ b₀) payload).type.toNat_lt
    omega
  apply (toNat_ir _ _ rfl ht).trans
  rw [BitVec.toNat_setWidth, toNat_append_byte]
  simp [requestTir, bigEndian]

private theorem extended_toNat (b₃ b₂ b₁ b₀ : UInt8) (payload : Payload) (f : Frame)
    (hf : f = ⟨extendedId b₃ b₂ b₁ b₀, payload⟩) :
    f.ir.toNat = requestTir f.type [b₃, b₂, b₁, b₀] := by
  subst hf
  have ht : (Frame.mk (extendedId b₃ b₂ b₁ b₀) payload).type.toNat < 2 ^ 3 := by
    rcases Frame.type_extended _ payload with h | h <;> rw [extendedId, h] <;> decide
  apply (toNat_ir _ _ rfl ht).trans
  rw [BitVec.toNat_setWidth, toNat_append_byte, toNat_append_byte, toNat_append_byte]
  simp [requestTir, bigEndian]

/-- The grammar has the rows of the table and no others. -/
theorem Grammar.row {body id data : List UInt8} {type : UInt8} (h : Grammar body type id data) :
    ∃ f, Row body f ∧ f.data = data ∧ f.ir.toNat = requestTir type id := by
  cases h with
  | standardData b₁ b₀ data hd =>
    exact ⟨_, .standardData b₁ b₀ data hd, rfl, standard_toNat b₁ b₀ _ _ rfl⟩
  | standardRemote b₁ b₀ => exact ⟨_, .standardRemote b₁ b₀, rfl, standard_toNat b₁ b₀ _ _ rfl⟩
  | extendedData b₃ b₂ b₁ b₀ data hd =>
    exact ⟨_, .extendedData b₃ b₂ b₁ b₀ data hd, rfl, extended_toNat b₃ b₂ b₁ b₀ _ _ rfl⟩
  | extendedRemote b₃ b₂ b₁ b₀ =>
    exact ⟨_, .extendedRemote b₃ b₂ b₁ b₀, rfl, extended_toNat b₃ b₂ b₁ b₀ _ _ rfl⟩

theorem Row.grammar {body : List UInt8} {f : Frame} (h : Row body f) :
    ∃ type id data, Grammar body type id data := by
  cases h with
  | standardData b₁ b₀ bytes le => exact ⟨_, _, _, .standardData b₁ b₀ bytes le⟩
  | standardRemote b₁ b₀ => exact ⟨_, _, _, .standardRemote b₁ b₀⟩
  | extendedData b₃ b₂ b₁ b₀ bytes le => exact ⟨_, _, _, .extendedData b₃ b₂ b₁ b₀ bytes le⟩
  | extendedRemote b₃ b₂ b₁ b₀ => exact ⟨_, _, _, .extendedRemote b₃ b₂ b₁ b₀⟩

theorem grammar_iff (body : List UInt8) :
    (∃ type id data, Grammar body type id data) ↔ ∃ f, Row body f := by
  constructor
  · rintro ⟨type, id, data, h⟩
    obtain ⟨f, hf, -⟩ := h.row
    exact ⟨f, hf⟩
  · rintro ⟨f, h⟩
    exact h.grammar

/-! ### `Can_HandleRequest` -/

/-- What is in a queue besides the slot after its head: the ends, and the frames between. -/
def Queue.stored (q : Queue TxMailBox) : Nat × Nat × List TxMailBox :=
  (q.head, q.tail, q.contents)

section Outcome

variable {q : Queue TxMailBox} (hq : q.WellFormed) {msg : Nat → UInt8} {length : Nat}

include hq

/-- A request is queued if its body is of the table, and turned down if not. -/
private theorem outcome (msg : Nat → UInt8) (length : Nat) :
    (∃ f, Row (cells msg 0 length) f ∧ Queued q f (canHandleRequest msg length q)) ∨
      (¬ ∃ f, Row (cells msg 0 length) f) ∧ Rejected q (canHandleRequest msg length q) := by
  by_cases h : ∃ f, Row (cells msg 0 length) f
  · obtain ⟨f, hf⟩ := h
    exact .inl ⟨f, hf, canHandleRequest_queued hq msg length f hf⟩
  · exact .inr ⟨h, canHandleRequest_rejected hq msg length (not_exists.mp h)⟩

private theorem accepted_iff :
    (canHandleRequest msg length q).1 = true ↔ ∃ f, Row (cells msg 0 length) f := by
  obtain ⟨f, hf, mb, -, he⟩ | ⟨hn, hr⟩ := outcome hq msg length
  · rw [he]
    exact iff_of_true rfl ⟨f, hf⟩
  · rw [hr.1]
    exact iff_of_false Bool.false_ne_true hn

/-- A request that is turned down leaves the queue as it is but for the free slot. -/
private theorem stored_of_rejected (h : (canHandleRequest msg length q).1 = false) :
    (canHandleRequest msg length q).2.stored = q.stored := by
  obtain ⟨f, -, mb, -, he⟩ | ⟨-, -, buffer, he, hb⟩ := outcome hq msg length
  · rw [he] at h
    contradiction
  · rw [he, Queue.stored, Queue.contents_of_other hq hb]
    rfl

private theorem buffer_of_other {i : Nat} (hi : i ≠ q.nextSlot) :
    (canHandleRequest msg length q).2.buffer i = q.buffer i := by
  obtain ⟨f, -, mb, -, he⟩ | ⟨-, -, buffer, he, hb⟩ := outcome hq msg length
  · rw [he, Queue.put_eq hq]
    exact Function.update_of_ne hi _ _
  · rw [he]
    exact hb i hi

/-- What is appended has the type, the identifier and the data of the request. -/
private theorem appended_of_grammar (hc : q.count < q.size) {type : UInt8} {id data : List UInt8}
    (h : Grammar (cells msg 0 length) type id data) :
    ∃ mb, (canHandleRequest msg length q).2.contents = q.contents ++ [mb] ∧
      mb.TIR.toNat = requestTir type id ∧ mb.TDTR.toNat = data.length ∧
        dataBytes mb.TDLR mb.TDHR data.length = data := by
  obtain ⟨f, hf, hd, hir⟩ := h.row
  obtain ⟨mb, hmb, he⟩ := canHandleRequest_queued hq msg length f hf
  have h8 : data.length ≤ 8 := hd ▸ f.length_data_le
  refine ⟨mb, ?_, hmb.tir ▸ hir, ?_, hd ▸ hmb.data⟩
  · rw [he]
    exact Queue.contents_put hq hc mb
  · rw [hmb.tdtr, hd, BitVec.toNat_ofNat]
    exact Nat.mod_eq_of_lt (by omega)

private theorem stored_local {msg' : Nat → UInt8} (h : ∀ i, i < length → msg' i = msg i) :
    (canHandleRequest msg' length q).1 = (canHandleRequest msg length q).1 ∧
      (canHandleRequest msg' length q).2.stored = (canHandleRequest msg length q).2.stored := by
  cases ha : (canHandleRequest msg length q).1 with
  | true =>
    rw [canHandleRequest_local hq msg h ha]
    exact ⟨ha, rfl⟩
  | false =>
    have hc : cells msg' 0 length = cells msg 0 length := cells_congr fun i hi ↦ by
      rw [Nat.zero_add]
      exact h i hi
    have hn : ¬ (canHandleRequest msg' length q).1 = true := by
      rw [accepted_iff hq, hc, ← accepted_iff hq, ha]
      exact Bool.false_ne_true
    have ha' := Bool.eq_false_iff.mpr hn
    exact ⟨ha', (stored_of_rejected hq ha').trans (stored_of_rejected hq ha).symm⟩

end Outcome

/-- Over any bytes and any queue with a free slot. `Can_HandleRequest` accepts exactly the
bodies of the grammar; it appends a frame with their type, identifier and data, or leaves
everything stored as it is; and it writes to no slot but the one after the head. Bytes behind
the body make no difference to what it returns and to what is stored. -/
theorem canHandleRequest_grammar (q : Queue TxMailBox) (hq : q.WellFormed)
    (free : q.full = false) (msg : Nat → UInt8) (length : Nat) (r : Bool × Queue TxMailBox)
    (hr : r = canHandleRequest msg length q) :
    (r.1 = true ↔ ∃ type id data, Grammar (cells msg 0 length) type id data) ∧
      (∀ type id data, Grammar (cells msg 0 length) type id data → ∃ mb,
        r.2.contents = q.contents ++ [mb] ∧ mb.TIR.toNat = requestTir type id ∧
          mb.TDTR.toNat = data.length ∧ dataBytes mb.TDLR mb.TDHR data.length = data) ∧
      (r.1 = false → r.2.stored = q.stored) ∧
      (∀ i, i ≠ q.nextSlot → r.2.buffer i = q.buffer i) ∧
      ∀ msg' : Nat → UInt8, (∀ i, i < length → msg' i = msg i) →
        (canHandleRequest msg' length q).1 = r.1 ∧
          (canHandleRequest msg' length q).2.stored = r.2.stored := by
  subst hr
  have hcount : q.count < q.size := by
    have hspace := Queue.space_eq hq
    have hfull := (Queue.full_iff hq).not
    simp only [free, Bool.false_eq_true, not_false_eq_true, true_iff] at hfull
    omega
  refine ⟨?_, ?_, ?_, ?_, ?_⟩
  · rw [accepted_iff hq, grammar_iff]
  · exact fun type id data hg ↦ appended_of_grammar hq hcount hg
  · exact stored_of_rejected hq
  · exact fun i hi ↦ buffer_of_other hq hi
  · exact fun msg' h ↦ stored_local hq h

/-- An extended data frame with one byte, from a body that has more behind it, is put to the
first slot; the identifier loses its upper three bits. -/
theorem canHandleRequest_grammar_wrapped :
    ∃ mb, (canHandleRequest (fun i ↦ [0x04, 0xFF, 0xFF, 0xFF, 0xFE, 0xAA].getD i 0x55) 6
        ⟨3, 3, 2, fun _ ↦ ⟨1, 2, 3, 4⟩⟩).2.contents = [⟨1, 2, 3, 4⟩] ++ [mb] ∧
      mb.TIR.toNat = 4 + 0x1FFFFFFE * 2 ^ 3 ∧ mb.TDTR.toNat = 1 ∧
      dataBytes mb.TDLR mb.TDHR 1 = [0xAA] :=
  (canHandleRequest_grammar ⟨3, 3, 2, fun _ ↦ ⟨1, 2, 3, 4⟩⟩ ⟨by decide, by decide, by decide⟩ rfl
    (fun i ↦ [0x04, 0xFF, 0xFF, 0xFF, 0xFE, 0xAA].getD i 0x55) 6 _ rfl).2.1 0x04
    [0xFF, 0xFF, 0xFF, 0xFE] [0xAA] (.extendedData 0xFF 0xFF 0xFF 0xFE [0xAA] (by decide))

end CanDybug
