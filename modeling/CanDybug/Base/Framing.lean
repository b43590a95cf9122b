import Mathlib.Data.List.Basic

/-!
# Length-prefixed framing of a stream

A message is a length element, counting itself, and a body that decodes. `scan` reads
messages from the front of a stream until it meets an incomplete or an invalid one;
reading a stream in pieces, each time from the fragment the piece before left, reads
the same messages as reading it at once, and what is read is the longest prefix of
the stream that is a concatenation of messages.
-/

namespace CanDybug.Base

/-- A framing: the length an element announces and the decoder of bodies. -/
structure Framing (β φ : Type) where
  len : β → Nat
  decode : List β → Option φ

/-- How reading a stream ends: inside a message, or at one that is not valid. -/
inductive Rest (β : Type) where
  | fragment (bytes : List β)
  | invalid
  deriving DecidableEq

/-- Length of the message that reading ends inside of. -/
def Rest.length {β : Type} : Rest β → Nat
  | fragment bytes => bytes.length
  | invalid => 0

namespace Framing

variable {β φ : Type} (F : Framing β φ)

/-- One whole message and what it decodes to. -/
def Message (m : List β) (f : φ) : Prop :=
  ∃ b body, m = b :: body ∧ F.len b = m.length ∧ F.decode body = some f

/-- A concatenation of messages and what they decode to. -/
inductive Stream : List β → List φ → Prop
  | nil : Stream [] []
  | cons {m f bytes fs} : F.Message m f → Stream bytes fs → Stream (m ++ bytes) (f :: fs)

/-- The longest prefix of a stream that is a concatenation of messages. -/
structure LongestPrefix (bytes whole : List β) (fs : List φ) : Prop where
  isPrefix : whole <+: bytes
  stream : F.Stream whole fs
  longest : ∀ w gs, w <+: bytes → F.Stream w gs → w.length ≤ whole.length

/-- Read messages until one is incomplete or not valid. -/
def scan (bytes : List β) : List φ × Rest β :=
  match bytes with
  | [] => ([], .fragment [])
  | b :: t =>
    if F.len b = 0 then ([], .invalid)
    else if t.length + 1 < F.len b then ([], .fragment (b :: t))
    else match F.decode (t.take (F.len b - 1)) with
      | none => ([], .invalid)
      | some f => (f :: (scan (t.drop (F.len b - 1))).1, (scan (t.drop (F.len b - 1))).2)
termination_by bytes.length
decreasing_by all_goals simp only [List.length_drop, List.length_cons]; omega

theorem scan_nil : F.scan [] = ([], .fragment []) := by
  rw [scan]

/-- A message that announces no bytes at all is not valid. -/
theorem scan_zero {b : β} (t : List β) (h : F.len b = 0) : F.scan (b :: t) = ([], .invalid) := by
  rw [scan]
  simp [h]

/-- An incomplete message is left as a fragment, whatever it would decode to. -/
theorem scan_short {b : β} {t : List β} (hb : F.len b ≠ 0) (h : t.length + 1 < F.len b) :
    F.scan (b :: t) = ([], .fragment (b :: t)) := by
  rw [scan]
  simp [hb, h]

/-- A complete message whose body does not decode is not valid. -/
theorem scan_none {b : β} {t : List β} (hb : F.len b ≠ 0) (h : F.len b ≤ t.length + 1)
    (hd : F.decode (t.take (F.len b - 1)) = none) : F.scan (b :: t) = ([], .invalid) := by
  rw [scan]
  simp [hb, hd, show ¬ t.length + 1 < F.len b by omega]

/-- A complete message is read and reading goes on after it. -/
theorem scan_some {b : β} {t : List β} {f : φ} (hb : F.len b ≠ 0) (h : F.len b ≤ t.length + 1)
    (hd : F.decode (t.take (F.len b - 1)) = some f) :
    F.scan (b :: t) = (f :: (F.scan (t.drop (F.len b - 1))).1,
      (F.scan (t.drop (F.len b - 1))).2) := by
  rw [scan]
  simp [hb, hd, show ¬ t.length + 1 < F.len b by omega]

/-- Reading starts with the message the stream starts with. -/
theorem scan_message {m : List β} {f : φ} (hm : F.Message m f) (rest : List β) :
    F.scan (m ++ rest) = (f :: (F.scan rest).1, (F.scan rest).2) := by
  obtain ⟨b, body, rfl, hl, hd⟩ := hm
  simp only [List.length_cons] at hl
  have hn : F.len b - 1 = body.length := by omega
  have ht : (body ++ rest).take (F.len b - 1) = body := by rw [hn, List.take_left]
  have hr : (body ++ rest).drop (F.len b - 1) = rest := by rw [hn, List.drop_left]
  rw [List.cons_append, F.scan_some (by omega) (by rw [List.length_append]; omega) (by rw [ht, hd]),
    hr]

/-- Reading goes through any concatenation of messages. -/
theorem scan_stream {whole : List β} {fs : List φ} (h : F.Stream whole fs) (rest : List β) :
    F.scan (whole ++ rest) = (fs ++ (F.scan rest).1, (F.scan rest).2) := by
  induction h with
  | nil => rfl
  | cons hm _ ih => rw [List.append_assoc, F.scan_message hm, ih]; rfl

/-- Reading the beginning of a concatenation of messages ends inside a message at most. -/
theorem scan_beginning {whole : List β} {fs : List φ} (h : F.Stream whole fs) {bytes : List β}
    (hb : bytes <+: whole) : ∃ gs r, F.scan bytes = (gs, .fragment r) ∧ gs <+: fs := by
  induction h generalizing bytes with
  | nil =>
    rw [List.prefix_nil.mp hb, scan_nil]
    exact ⟨[], [], rfl, List.nil_prefix⟩
  | @cons m f bytes' fs hm _ ih =>
    by_cases hl : m.length ≤ bytes.length
    · -- The first message is complete.
      obtain ⟨rest, rfl⟩ := List.prefix_of_prefix_length_le (List.prefix_append m bytes') hb hl
      obtain ⟨gs, r, hs, hp⟩ := ih ((List.prefix_append_right_inj m).mp hb)
      refine ⟨f :: gs, r, ?_, List.prefix_cons_inj f |>.mpr hp⟩
      rw [F.scan_message hm, hs]
    · refine ⟨[], bytes, ?_, List.nil_prefix⟩
      obtain ⟨b, body, rfl, hlen, -⟩ := hm
      cases bytes with
      | nil => exact F.scan_nil
      | cons a t =>
        obtain ⟨rfl, -⟩ := List.cons_prefix_cons.mp hb
        simp only [List.length_cons] at hl hlen
        exact F.scan_short (by omega) (by omega)

/-- What reading returns: a concatenation of messages, and then nothing, a message
that is not complete, or one that is not valid. -/
theorem scan_spec (bytes : List β) :
    ∃ whole rest, bytes = whole ++ rest ∧ F.Stream whole (F.scan bytes).1 ∧
      F.scan rest = ([], (F.scan bytes).2) ∧
      ∀ r, (F.scan bytes).2 = .fragment r → rest = r := by
  induction bytes using scan.induct F with
  | case1 => exact ⟨[], [], rfl, by rw [scan_nil]; exact .nil, by rw [scan_nil],
      by simp [scan_nil, eq_comm]⟩
  | case2 b t hb =>
    have h := F.scan_zero t hb
    exact ⟨[], b :: t, rfl, by rw [h]; exact .nil, by rw [h], by simp [h]⟩
  | case3 b t hb hl =>
    have h := F.scan_short hb hl
    exact ⟨[], b :: t, rfl, by rw [h]; exact .nil, by rw [h], by simp [h, eq_comm]⟩
  | case4 b t hb hl hd =>
    have h := F.scan_none hb (by omega) hd
    exact ⟨[], b :: t, rfl, by rw [h]; exact .nil, by rw [h], by simp [h]⟩
  | case5 b t hb hl f hd ih =>
    have h := F.scan_some hb (by omega) hd
    obtain ⟨whole, rest, he, hs, hr, hf⟩ := ih
    refine ⟨(b :: t.take (F.len b - 1)) ++ whole, rest, ?_, ?_, ?_, ?_⟩
    · rw [List.append_assoc, ← he, List.cons_append, List.take_append_drop]
    · rw [h]
      refine .cons ⟨b, _, rfl, ?_, hd⟩ hs
      rw [List.length_cons, List.length_take]
      omega
    · rw [h, hr]
    · rw [h]
      exact hf

/-- The incomplete message is part of what was read. -/
theorem scan_length_le (bytes : List β) : (F.scan bytes).2.length ≤ bytes.length := by
  obtain ⟨whole, rest, he, -, -, hf⟩ := F.scan_spec bytes
  cases h : (F.scan bytes).2 with
  | invalid => exact Nat.zero_le _
  | fragment r =>
    rw [he, hf r h, List.length_append]
    exact Nat.le_add_left _ _

/-- Read again, the incomplete message is left as it is. -/
theorem scan_fragment {bytes r : List β} (h : (F.scan bytes).2 = .fragment r) :
    F.scan r = ([], .fragment r) := by
  obtain ⟨_, rest, -, -, hs, hf⟩ := F.scan_spec bytes
  rwa [hf r h, h] at hs

/-- It announces more bytes than there are. -/
theorem fragment_short {bytes t : List β} {b : β} (h : (F.scan bytes).2 = .fragment (b :: t)) :
    t.length + 1 < F.len b := by
  have hs := F.scan_fragment h
  by_contra hl
  have hl : F.len b ≤ t.length + 1 := Nat.le_of_not_lt hl
  by_cases hb : F.len b = 0
  · rw [F.scan_zero t hb] at hs
    cases hs
  · cases hd : F.decode (t.take (F.len b - 1)) with
    | none =>
      rw [F.scan_none hb hl hd] at hs
      cases hs
    | some f =>
      rw [F.scan_some hb hl hd] at hs
      cases hs

/-- Reading a stream in two pieces, the second from the fragment the first left. -/
theorem scan_append {xs r : List β} {fs : List φ} (h : F.scan xs = (fs, .fragment r))
    (ys : List β) : F.scan (xs ++ ys) = (fs ++ (F.scan (r ++ ys)).1, (F.scan (r ++ ys)).2) := by
  obtain ⟨whole, rest, he, hs, -, hf⟩ := F.scan_spec xs
  rw [h] at hs hf
  rw [he, List.append_assoc, F.scan_stream hs, hf r rfl]

/-- What reading returns is the longest prefix that is a concatenation of messages. -/
theorem scan_longest (bytes : List β) :
    ∃ whole, F.LongestPrefix bytes whole (F.scan bytes).1 ∧
      ∀ r, (F.scan bytes).2 = .fragment r → bytes = whole ++ r := by
  obtain ⟨whole, rest, he, hs, hr, hf⟩ := F.scan_spec bytes
  refine ⟨whole, ⟨⟨rest, he.symm⟩, hs, ?_⟩, fun r h ↦ by rw [he, hf r h]⟩
  rintro w gs ⟨rest', hw⟩ hws
  by_contra hlt
  -- A longer concatenation would extend `whole` by messages that `rest` starts with.
  obtain ⟨extra, rfl⟩ : ∃ extra, w = whole ++ extra := by
    have hp : whole <+: w := List.prefix_of_prefix_length_le ⟨rest, he.symm⟩ ⟨rest', hw⟩ (by omega)
    obtain ⟨extra, hx⟩ := hp
    exact ⟨extra, hx.symm⟩
  have hrest : rest = extra ++ rest' := by
    rw [List.append_assoc, he] at hw
    exact (List.append_cancel_left hw).symm
  have hscan : F.scan (whole ++ extra) = (gs, .fragment []) := by
    have h := F.scan_stream hws []
    rwa [List.append_nil, scan_nil, List.append_nil] at h
  rw [F.scan_stream hs] at hscan
  have hx : (F.scan extra).2 = .fragment [] := (Prod.mk.inj hscan).2
  have hxe' : F.scan extra = ((F.scan extra).1, .fragment []) := by rw [← hx]
  have happ := F.scan_append hxe' rest'
  rw [← hrest, hr] at happ
  have hnil : (F.scan extra).1 = [] := (List.append_eq_nil_iff.mp (Prod.mk.inj happ).1.symm).1
  obtain ⟨we, re, hxe, hse, -, hfe⟩ := F.scan_spec extra
  rw [hnil] at hse
  rw [hfe [] hx, List.append_nil] at hxe
  have hwe : we = [] := by cases hse; rfl
  rw [hxe, hwe] at hlt
  simp at hlt

end Framing

end CanDybug.Base
