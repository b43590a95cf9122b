import CanDybug.Frame.Receive
import CanDybug.In.Pipe

/-!
# Messages of the device

The whole `README.md` table "Data pipe packets" as the host reads it: the packets of frames, and
the two messages that only the device sends, acknowledgements and bus errors.
-/

namespace CanDybug

open Base

/-- The four types of frames, the low digit of an acknowledgement. -/
inductive FrameType where
  | sdat
  | srtr
  | edat
  | ertr
  deriving DecidableEq

/-- Type byte of the packets of these frames. -/
def FrameType.code : FrameType → UInt8
  | sdat => canifFrameSdat
  | srtr => canifFrameSrtr
  | edat => canifFrameEdat
  | ertr => canifFrameErtr

/-- What the device tells the host. -/
inductive DeviceMessage where
  /-- A frame was read from the bus. -/
  | frame (f : Frame)
  /-- A frame of this type was sent by the device. -/
  | sent (type : FrameType)
  /-- A bus error, with the low byte of the error status. -/
  | busError (info : UInt8)
  deriving DecidableEq

/-- The rows of the table, without the length byte. -/
inductive DeviceRow : List UInt8 → DeviceMessage → Prop
  | frame {b : List UInt8} {f : Frame} (h : Row b f) : DeviceRow b (.frame f)
  | sent (type : FrameType) : DeviceRow [canifAckFlag ||| type.code] (.sent type)
  | busError (info : UInt8) : DeviceRow [canifBusError, info] (.busError info)

/-- Decode a message by the table. The three kinds differ in their lengths. -/
def decodeMessage : List UInt8 → Option DeviceMessage
  | [code] =>
    ([.sdat, .srtr, .edat, .ertr] : List FrameType).find? (canifAckFlag ||| ·.code == code)
      |>.map .sent
  | [code, info] => if code = canifBusError then some (.busError info) else none
  | b => (decodeBody b).map .frame

/-- The framing of what the device sends. -/
def hostPipe : Framing UInt8 DeviceMessage := ⟨UInt8.toNat, decodeMessage⟩

theorem decodeMessage_sent (type : FrameType) :
    decodeMessage [canifAckFlag ||| type.code] = some (.sent type) := by
  cases type <;> rfl

theorem decodeMessage_busError (info : UInt8) :
    decodeMessage [canifBusError, info] = some (.busError info) := rfl

theorem decodeMessage_long {b : List UInt8} (h : 3 ≤ b.length) :
    decodeMessage b = (decodeBody b).map .frame := by
  match b with
  | [] | [_] | [_, _] => simp at h
  | _ :: _ :: _ :: _ => rfl

/-- The decoder follows the table. -/
theorem decodeMessage_iff (b : List UInt8) (m : DeviceMessage) :
    decodeMessage b = some m ↔ DeviceRow b m := by
  constructor
  · intro h
    unfold decodeMessage at h
    split at h
    · next code =>
      obtain ⟨type, ht, rfl⟩ := Option.map_eq_some_iff.mp h
      have hc := List.find?_some ht
      rw [← eq_of_beq hc]
      exact .sent type
    · next code info =>
      split at h
      · next hc =>
        cases h
        rw [hc]
        exact .busError info
      · contradiction
    · obtain ⟨f, hf, rfl⟩ := Option.map_eq_some_iff.mp h
      exact .frame ((decodeBody_iff _ _).mp hf)
  · intro h
    cases h with
    | frame h =>
      rw [decodeMessage_long h.length.1, (decodeBody_iff _ _).mpr h]
      rfl
    | sent type => exact decodeMessage_sent type
    | busError info => exact decodeMessage_busError info

/-- With its length byte a message of the device has 2 to 14 bytes. -/
theorem DeviceRow.length {b : List UInt8} {m : DeviceMessage} (h : DeviceRow b m) :
    b.length ≤ 13 := by
  cases h with
  | frame h => exact h.length.2
  | sent => simp
  | busError => simp

/-- Behind its length byte the host reads it. -/
theorem message_encode {b : List UInt8} {m : DeviceMessage} (h : decodeMessage b = some m) :
    hostPipe.Message (encode b) m := by
  refine ⟨_, b, rfl, ?_, h⟩
  have hl := ((decodeMessage_iff b m).mp h).length
  change (UInt8.ofNat (b.length + 1)).toNat = _
  rw [UInt8.toNat_ofNat', Nat.mod_eq_of_lt (by omega), length_encode]

/-- Messages one behind the other are a stream. -/
theorem stream_encode {msgs : List (List UInt8)}
    (h : ∀ msg ∈ msgs, (decodeMessage msg).isSome = true) :
    hostPipe.Stream (msgs.flatMap encode) (msgs.filterMap decodeMessage) := by
  induction msgs with
  | nil => exact .nil
  | cons msg msgs ih =>
    obtain ⟨hm, hms⟩ := List.forall_mem_cons.mp h
    obtain ⟨m, hm⟩ := Option.isSome_iff_exists.mp hm
    rw [List.flatMap_cons, List.filterMap_cons_some hm]
    exact .cons (message_encode hm) (ih hms)

/-- The frame of a message, if it is that of a frame. -/
def DeviceMessage.frames : DeviceMessage → List Frame
  | frame f => [f]
  | _ => []

/-- The acknowledgement of a message, if it is one. -/
def DeviceMessage.acks : DeviceMessage → List UInt8
  | sent type => [canifAckFlag ||| type.code]
  | _ => []

/-- The type byte made of two register bits is that of one of the four types. -/
theorem typeByte_code (w : BitVec 32) :
    ∃ type : FrameType, byteAt (w &&& canIdtypeExtRtr) 0 = type.code := by
  rw [type_byte]
  split <;> split
  · exact ⟨.sdat, rfl⟩
  · exact ⟨.srtr, rfl⟩
  · exact ⟨.edat, rfl⟩
  · exact ⟨.ertr, rfl⟩

end CanDybug
