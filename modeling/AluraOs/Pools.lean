-- Pools: a machine that hands out the members of a finite set and takes
-- them back. What it hands out is free before, and nothing else changes.
import Mathlib.Tactic
import Mathlib.Data.Finset.Card

namespace pools

variable {α : Type*} [DecidableEq α]

/-- What a caller of the pool sees. -/
inductive Event (α : Type*) where
  | taken (a : α)
  | refused
  | returned (a : α)
  deriving DecidableEq

/-- One call on the pool with the members `all`, of which `used` are out. -/
inductive Step (all : Finset α) : Finset α → Event α → Finset α → Prop
  | taken {used : Finset α} {a : α} : a ∈ all → a ∉ used → Step all used (.taken a) (insert a used)
  | refused {used : Finset α} : all ⊆ used → Step all used .refused used
  | returned {used : Finset α} {a : α} : Step all used (.returned a) (used.erase a)

/-- A run of calls. -/
inductive Steps (all : Finset α) : Finset α → List (Event α) → Finset α → Prop
  | nil {used : Finset α} : Steps all used [] used
  | cons {used used' used'' : Finset α} {e : Event α} {es : List (Event α)} :
      Step all used e used' → Steps all used' es used'' → Steps all used (e :: es) used''

variable {all used used' : Finset α}

theorem Steps.split {used'' : Finset α} {es fs : List (Event α)}
    (h : Steps all used (es ++ fs) used'') :
    ∃ used', Steps all used es used' ∧ Steps all used' fs used'' := by
  induction es generalizing used with
  | nil => exact ⟨used, Steps.nil, h⟩
  | cons e es ih =>
    cases h with
    | cons hs ht =>
      obtain ⟨u, h1, h2⟩ := ih ht
      exact ⟨u, Steps.cons hs h1, h2⟩

/-- A member that is out stays out until it is returned. -/
theorem Steps.stays_out {es : List (Event α)} {a : α} (h : Steps all used es used')
    (ha : a ∈ used) (hr : Event.returned a ∉ es) : a ∈ used' := by
  induction h with
  | nil => exact ha
  | cons hs _ ih =>
    simp only [List.mem_cons, not_or] at hr
    apply ih _ hr.2
    cases hs with
    | taken _ _ => exact Finset.mem_insert_of_mem ha
    | refused _ => exact ha
    | returned =>
      refine Finset.mem_erase.mpr ⟨?_, ha⟩
      rintro rfl
      exact hr.1 rfl

/-- Between two takings of one member it is returned. -/
theorem Steps.no_double {es fs gs : List (Event α)} {a : α}
    (h : Steps all used (es ++ .taken a :: fs ++ .taken a :: gs) used') :
    Event.returned a ∈ fs := by
  by_contra hr
  rw [List.append_assoc] at h
  obtain ⟨u, -, h⟩ := h.split
  rw [List.cons_append] at h
  cases h with
  | cons hs h =>
    obtain ⟨v, h1, h2⟩ := h.split
    cases hs with
    | taken _ _ =>
      have hout : a ∈ v := h1.stays_out (Finset.mem_insert_self _ _) hr
      cases h2 with
      | cons hs2 _ =>
        cases hs2 with
        | taken _ hn => exact hn hout

/-! ## Ledgers -/

/-- The history of a pool, the latest event first, when nothing but what is out is ever
returned. `used` is what is out at the end. -/
inductive Ledger (start : Finset α) : List (Event α) → Finset α → Prop
  | nil : Ledger start [] start
  | taken {history : List (Event α)} {used : Finset α} {a : α} :
      Ledger start history used → a ∉ used → Ledger start (.taken a :: history) (insert a used)
  | returned {history : List (Event α)} {used : Finset α} {a : α} :
      Ledger start history used → a ∈ used → Ledger start (.returned a :: history) (used.erase a)

variable {start : Finset α}

/-- What is not out, and is not taken later, is never returned later. -/
theorem Ledger.not_returned {es fs : List (Event α)} {a : α} (h : Ledger start (es ++ fs) used)
    (hn : ∀ used', Ledger start fs used' → a ∉ used') (ht : Event.taken a ∉ es) :
    Event.returned a ∉ es ∧ a ∉ used := by
  induction es generalizing used with
  | nil => exact ⟨by simp, hn used h⟩
  | cons e es ih =>
    simp only [List.mem_cons, not_or] at ht
    cases h with
    | taken h' _ =>
      obtain ⟨h1, h2⟩ := ih h' ht.2
      refine ⟨by simp [h1], fun hm => ?_⟩
      rcases Finset.mem_insert.mp hm with rfl | hm
      · exact ht.1 rfl
      · exact h2 hm
    | returned h' hb =>
      obtain ⟨h1, h2⟩ := ih h' ht.2
      refine ⟨?_, fun hm => h2 (Finset.mem_of_mem_erase hm)⟩
      simp only [List.mem_cons, Event.returned.injEq, h1, or_false]
      rintro rfl
      exact h2 hb

/-- Between two returns of one member it is taken again. -/
theorem Ledger.returned_once {es fs gs : List (Event α)} {a : α}
    (h : Ledger start (es ++ .returned a :: fs ++ .returned a :: gs) used) :
    Event.taken a ∈ fs := by
  by_contra ht
  rw [List.append_assoc, List.cons_append] at h
  have hlast : ∀ u, Ledger start (.returned a :: gs) u → a ∉ u := by
    intro u hu
    cases hu with
    | returned _ _ => simp
  have h2 : ∃ u, Ledger start (.returned a :: (fs ++ .returned a :: gs)) u := by
    clear hlast
    induction es generalizing used with
    | nil => exact ⟨used, h⟩
    | cons e es ih =>
      cases h with
      | taken h' _ => exact ih h'
      | returned h' _ => exact ih h'
  obtain ⟨u, hu⟩ := h2
  cases hu with
  | returned h' hb => exact (h'.not_returned hlast ht).2 hb

end pools
