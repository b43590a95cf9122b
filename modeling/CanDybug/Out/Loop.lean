import CanDybug.Device.Run

/-!
# The loop of `CanIf_EpOutComplete`

The rule by which everything about the rounds of the loop is proved, what one call of
`Can_HandleRequest` in it does, and how far reading messages from the data has come with it.
-/

namespace CanDybug

open Base

/-- Loop rule: an invariant `L` that an accepted message keeps, and what a rejected one, an
empty one and the end of the data lead to. A round consumes at least one byte, so the fuel
is never used up. -/
theorem outLoop_rule {L : Nat → Nat → Assertion State Op}
    {Q : Option (Nat × Nat) → Assertion State Op}
    (accept : ∀ pbuf length s t, L pbuf length s t →
      (s.canIfOut.buffer pbuf).toNat ≤ length → (s.canIfOut.buffer pbuf).toNat ≠ 0 →
      s.accepts (pbuf + 1) ((s.canIfOut.buffer pbuf).toNat - 1) = true →
      L (pbuf + (s.canIfOut.buffer pbuf).toNat) (length - (s.canIfOut.buffer pbuf).toNat)
        (s.exec (.handleRequest (pbuf + 1) ((s.canIfOut.buffer pbuf).toNat - 1)))
        (t ++ [(.handleRequest (pbuf + 1) ((s.canIfOut.buffer pbuf).toNat - 1), s)]))
    (reject : ∀ pbuf length s t, L pbuf length s t →
      (s.canIfOut.buffer pbuf).toNat ≤ length → (s.canIfOut.buffer pbuf).toNat ≠ 0 →
      s.accepts (pbuf + 1) ((s.canIfOut.buffer pbuf).toNat - 1) = false →
      ∀ s', s' = s.exec (.handleRequest (pbuf + 1) ((s.canIfOut.buffer pbuf).toNat - 1)) →
      Q none (s'.exec .stop)
        (t ++ [(.handleRequest (pbuf + 1) ((s.canIfOut.buffer pbuf).toNat - 1), s)] ++
          [(.stop, s')]))
    (zero : ∀ pbuf length s t, L pbuf length s t → (s.canIfOut.buffer pbuf).toNat = 0 →
      Q none (s.exec .stop) (t ++ [(.stop, s)]))
    (done : ∀ pbuf length s t, L pbuf length s t → length < (s.canIfOut.buffer pbuf).toNat →
      Q (some (pbuf, length)) s t)
    (fuel pbuf length : Nat) (hf : length < fuel) :
    Triple (L pbuf length) (outLoop fuel pbuf length) Q := by
  induction fuel generalizing pbuf length with
  | zero => omega
  | succ fuel ih =>
    refine Triple.bind (R := fun n s t ↦ n = (s.canIfOut.buffer pbuf).toNat ∧ L pbuf length s t)
      (Triple.observe fun s t h ↦ ⟨rfl, h⟩) fun n ↦ Triple.ite (fun hn ↦ ?_) fun hn ↦ ?_
    · refine Triple.ite (fun h0 ↦ ?_) fun h0 ↦ ?_
      · refine Triple.bind (R := fun _ ↦ Q none) (Triple.perform _ ?_) fun _ ↦
          Triple.pure none fun _ _ h ↦ h
        rintro s t ⟨he, h⟩
        exact zero pbuf length s t h (he ▸ h0)
      · refine Triple.bind (R := fun ok s t ↦
          (ok = true → L (pbuf + n) (length - n) s t) ∧
            (ok = false → Q none (s.exec .stop) (t ++ [(.stop, s)]))) (Triple.call _ ?_)
          fun ok ↦ Triple.ite (fun hok ↦ ?_) fun hok ↦ ?_
        · rintro s t ⟨rfl, h⟩
          exact ⟨accept pbuf length s t h hn h0, fun hr ↦ reject pbuf length s t h hn h0 hr _ rfl⟩
        · exact (ih _ _ (by omega)).pre fun _ _ h ↦ h.1 hok
        · refine Triple.bind (R := fun _ ↦ Q none) (Triple.perform _ ?_) fun _ ↦
            Triple.pure none fun _ _ h ↦ h
          intro s t h
          exact h.2 (by simpa using hok)
    · refine Triple.pure _ ?_
      rintro s t ⟨rfl, h⟩
      exact done pbuf length s t h (by omega)

/-- An accepted request decodes, and is queued as a mailbox that holds its frame. -/
theorem accepted_spec {s : State} (hq : s.canTxQ.WellFormed) {msg length : Nat}
    (ha : s.accepts msg length = true) :
    ∃ f mb, Row (cells s.canIfOut.buffer msg length) f ∧ mb.Holds f ∧
      (s.exec (.handleRequest msg length)).canTxQ = s.canTxQ.put mb := by
  have h := canHandleRequest_spec hq (fun i ↦ s.canIfOut.buffer (msg + i)) length
  rw [cells_shift] at h
  split at h
  · next f hf =>
    obtain ⟨mb, hmb, he⟩ := h
    exact ⟨f, mb, (decodeBody_iff _ _).mp hf, hmb, congrArg Prod.snd he⟩
  · cases h.1.symm.trans ha

/-- A rejected one does not, and leaves no more than the free slot changed. -/
theorem rejected_spec {s : State} (hq : s.canTxQ.WellFormed) {msg length : Nat}
    (ha : s.accepts msg length = false) :
    decodeBody (cells s.canIfOut.buffer msg length) = none ∧
      ∃ buffer, (s.exec (.handleRequest msg length)).canTxQ = { s.canTxQ with buffer } ∧
        ∀ i, i ≠ s.canTxQ.nextSlot → buffer i = s.canTxQ.buffer i := by
  have h := canHandleRequest_spec hq (fun i ↦ s.canIfOut.buffer (msg + i)) length
  rw [cells_shift] at h
  split at h
  · obtain ⟨mb, -, he⟩ := h
    cases (congrArg Prod.fst he).symm.trans ha
  · next hn =>
    obtain ⟨-, buffer, he, hb⟩ := h
    exact ⟨hn, buffer, he, hb⟩

/-! ### Reading messages from the data -/

section Window

variable {buffer : Nat → UInt8} {pbuf length n : Nat} (he : n = (buffer pbuf).toNat)

include he

/-- A valid message in front of the data is read, and reading goes on where the loop does. -/
theorem scan_cells_some (hn : n ≤ length) (h0 : n ≠ 0) {f : Frame}
    (hrow : Row (cells buffer (pbuf + 1) (n - 1)) f) :
    dataPipe.scan (cells buffer pbuf length) =
      (f :: (dataPipe.scan (cells buffer (pbuf + n) (length - n))).1,
        (dataPipe.scan (cells buffer (pbuf + n) (length - n))).2) := by
  obtain ⟨k, rfl⟩ := Nat.exists_eq_succ_of_ne_zero h0
  have hm : dataPipe.Message (cells buffer pbuf k.succ) f :=
    ⟨buffer pbuf, cells buffer (pbuf + 1) k, cells_succ _ _ _, by rw [length_cells, he]; rfl,
      (decodeBody_iff _ _).mpr hrow⟩
  rw [← dataPipe.scan_message hm, ← cells_add, Nat.add_sub_cancel' hn]

/-- A complete message that is not valid ends the reading. -/
theorem scan_cells_none (hn : n ≤ length) (h0 : n ≠ 0)
    (hd : decodeBody (cells buffer (pbuf + 1) (n - 1)) = none) :
    dataPipe.scan (cells buffer pbuf length) = ([], .invalid) := by
  obtain ⟨l, rfl⟩ : ∃ l, length = l + 1 := ⟨length - 1, by omega⟩
  have hlen : dataPipe.len (buffer pbuf) = n := he.symm
  rw [cells_succ, dataPipe.scan_none (by rw [hlen]; exact h0)
    (by rw [hlen, length_cells]; exact hn)]
  rw [hlen, take_cells, Nat.min_eq_left (by omega)]
  exact hd

/-- So does one that announces no byte. -/
theorem scan_cells_zero (hl : length ≠ 0) (h0 : n = 0) :
    dataPipe.scan (cells buffer pbuf length) = ([], .invalid) := by
  obtain ⟨l, rfl⟩ : ∃ l, length = l + 1 := ⟨length - 1, by omega⟩
  rw [cells_succ]
  exact dataPipe.scan_zero _ (he.symm.trans h0)

/-- What is left when the loop ends is an incomplete message, or nothing. -/
theorem scan_cells_short (hn : length < n) :
    dataPipe.scan (cells buffer pbuf length) = ([], .fragment (cells buffer pbuf length)) := by
  cases length with
  | zero => exact dataPipe.scan_nil
  | succ l =>
    have hlen : dataPipe.len (buffer pbuf) = n := he.symm
    rw [cells_succ, dataPipe.scan_short (by rw [hlen]; omega) (by rw [hlen, length_cells]; omega)]

end Window

end CanDybug
