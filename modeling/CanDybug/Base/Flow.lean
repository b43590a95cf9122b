import CanDybug.Base.Program
import Mathlib.Data.List.Forall2
import Mathlib.Data.List.Perm.Basic

/-!
# Flows through a store

A store takes items in, holds some and gives some out. What it held at first and what went
in are what came out and what it holds: as lists, if it keeps the order, else up to their
order. The balance is stated over a trace, with the store read off the state; an operation
keeps it if it does so between the states before and after it.
-/

namespace CanDybug.Base

variable {σ ο ε α : Type}

/-- A law by which a store balances: it may be applied inside longer lists. -/
structure Law (R : List α → List α → Prop) : Prop where
  refl : ∀ a, R a a
  trans : ∀ a b c, R a b → R b c → R a c
  append : ∀ a b c d, R a b → R c d → R (a ++ c) (b ++ d)

/-- Nothing is lost and the order is kept. -/
theorem law_eq : Law fun a b : List α ↦ a = b where
  refl _ := rfl
  trans _ _ _ := Eq.trans
  append _ _ _ _ h h' := h ▸ h' ▸ rfl

/-- Nothing is lost. -/
theorem law_perm : Law fun a b : List α ↦ a.Perm b where
  refl := List.Perm.refl
  trans _ _ _ := List.Perm.trans
  append _ _ _ _ := List.Perm.append

/-- The order is kept, and something may be lost. -/
theorem law_sublist : Law fun a b : List α ↦ b.Sublist a where
  refl := List.Sublist.refl
  trans _ _ _ h h' := h'.trans h
  append _ _ _ _ := List.Sublist.append

/-- What is left of a list that stands for another one stands for a part of it. -/
theorem sublistForall₂_of_sublist {α β : Type} {R : α → β → Prop} {l l' : List α}
    {k : List β} (h : List.SublistForall₂ R l k) (hs : l'.Sublist l) :
    List.SublistForall₂ R l' k := by
  induction h generalizing l' with
  | nil => exact List.sublist_nil.mp hs ▸ .nil
  | cons hr _ ih =>
    cases hs with
    | cons _ hs => exact .cons_right (ih hs)
    | cons_cons _ hs => exact .cons hr (ih hs)
  | cons_right _ ih => exact .cons_right (ih hs)

/-- A sublist as long as the list leaves nothing out. -/
theorem forall₂_of_length_le {α β : Type} {R : α → β → Prop} {l : List α} {k : List β}
    (h : List.SublistForall₂ R l k) (hl : k.length ≤ l.length) : List.Forall₂ R l k := by
  obtain ⟨m, hm, hs⟩ := List.sublistForall₂_iff.mp h
  rw [hm.length_eq] at hl
  exact hs.eq_of_length_le hl ▸ hm

/-- What an entry of a trace puts into a store and what it takes out of it. -/
structure Flow (σ ο α : Type) where
  puts : ο × σ → List α
  takes : ο × σ → List α

namespace Flow

/-- All that went in. -/
def entered (F : Flow σ ο α) (t : Trace σ ο) : List α := t.flatMap F.puts

/-- All that came out. -/
def left (F : Flow σ ο α) (t : Trace σ ο) : List α := t.flatMap F.takes

variable {F : Flow σ ο α}

@[simp] theorem entered_concat (t : Trace σ ο) (e : ο × σ) :
    F.entered (t ++ [e]) = F.entered t ++ F.puts e := by
  simp [entered]

@[simp] theorem left_concat (t : Trace σ ο) (e : ο × σ) :
    F.left (t ++ [e]) = F.left t ++ F.takes e := by
  simp [left]

/-- The store has balanced since it held the items `first`. -/
def Balance (F : Flow σ ο α) (R : List α → List α → Prop) (first : List α) (held : σ → List α)
    (s : σ) (t : Trace σ ο) : Prop :=
  R (first ++ F.entered t) (F.left t ++ held s)

variable {R : List α → List α → Prop} {first : List α} {held held' : σ → List α}

/-- A trace starts balanced. -/
theorem balance_nil (law : Law R) {s : σ} (h : held s = first) : F.Balance R first held s [] := by
  change R (first ++ []) ([] ++ held s)
  rw [h, List.append_nil, List.nil_append]
  exact law.refl first

/-- One entry: what was held and goes in is what comes out and is held. -/
theorem Balance.step (law : Law R) {s s' : σ} {t : Trace σ ο} {o : ο}
    (h : F.Balance R first held s t)
    (he : R (held s ++ F.puts (o, s)) (F.takes (o, s) ++ held' s')) :
    F.Balance R first held' s' (t ++ [(o, s)]) := by
  have hin := law.append _ _ _ _ h (law.refl (F.puts (o, s)))
  have hout := law.append _ _ _ _ (law.refl (F.left t)) he
  rw [Balance, entered_concat, left_concat, ← List.append_assoc, List.append_assoc (F.left t)]
  rw [List.append_assoc (F.left t)] at hin
  exact law.trans _ _ _ hin hout

/-- Nothing goes in and nothing comes out. -/
theorem Balance.same (law : Law R) {s s' : σ} {t : Trace σ ο} {o : ο}
    (h : F.Balance R first held s t) (hp : F.puts (o, s) = []) (ht : F.takes (o, s) = [])
    (hh : held' s' = held s) : F.Balance R first held' s' (t ++ [(o, s)]) := by
  apply h.step law
  rw [hp, ht, hh, List.append_nil, List.nil_append]
  exact law.refl _

end Flow

end CanDybug.Base
