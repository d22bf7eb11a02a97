import Mathlib.Data.List.Induction

namespace Foundation
variable {σ β ε τ ι : Type}

/-- A value computed from a source and kept, with a mark that asks for it to be computed again. -/
structure Memo (σ β : Type) where
  source : σ
  cache : β
  stale : Bool

namespace Memo
variable (f : σ → Except ε β)

def value (m : Memo σ β) : Except ε β := if m.stale then f m.source else .ok m.cache

def refreshed (m : Memo σ β) : Memo σ β :=
  if m.stale then
    match f m.source with
    | .ok b => { m with cache := b }
    | .error _ => m
  else m

inductive Use (σ : Type) where
  | skip
  -- read the value, and take the mark away
  | read
  -- read the value, and leave the mark
  | peek
  -- change the source, and set the mark
  | touch (s : σ)
  -- change the source behind the back of the cache
  | overwrite (s : σ)

def use (m : Memo σ β) : Use σ → Memo σ β
  | .skip => m
  | .read => match m.value f with
      | .ok _ => { m.refreshed f with stale := false }
      | .error _ => m
  | .peek => m.refreshed f
  | .touch s => { m with source := s, stale := true }
  | .overwrite s => { m with source := s }

def Coherent (m : Memo σ β) : Prop := m.stale = false → f m.source = .ok m.cache

def KeepsCache (m : Memo σ β) (s : σ) : Prop := m.stale = true ∨ f s = .ok m.cache

variable {f}

theorem value_eq_iff {m : Memo σ β} : m.value f = f m.source ↔ m.Coherent f := by
  cases h : m.stale <;> simp [value, Coherent, h, eq_comm]

theorem refreshed_of_ok {m : Memo σ β} {b : β} (h : m.value f = .ok b) :
    m.refreshed f = { m with cache := b } := by
  unfold value at h
  unfold refreshed
  split at h
  · rename_i stale
    rw [if_pos stale, h]
  · rename_i fresh
    cases h
    rw [if_neg fresh]

theorem refreshed_of_error {m : Memo σ β} {e : ε} (h : m.value f = .error e) :
    m.refreshed f = m := by
  unfold value at h
  unfold refreshed
  split at h
  · rename_i stale
    rw [if_pos stale, h]
  · cases h

theorem coherent_read {m : Memo σ β} (h : m.Coherent f) : (m.use f .read).Coherent f := by
  unfold use
  cases read : m.value f with
  | error e => exact h
  | ok b =>
      intro _
      have right : f m.source = .ok b := (value_eq_iff.mpr h) ▸ read
      simpa [refreshed_of_ok read] using right

theorem coherent_peek {m : Memo σ β} (h : m.Coherent f) : (m.use f .peek).Coherent f := by
  unfold use
  cases read : m.value f with
  | error e => rwa [refreshed_of_error read]
  | ok b =>
      intro _
      have right : f m.source = .ok b := (value_eq_iff.mpr h) ▸ read
      simpa [refreshed_of_ok read] using right

theorem coherent_touch (m : Memo σ β) (s : σ) : (m.use f (.touch s)).Coherent f := by
  simp [use, Coherent]

theorem coherent_overwrite {m : Memo σ β} {s : σ} :
    (m.use f (.overwrite s)).Coherent f ↔ m.KeepsCache f s := by
  cases h : m.stale <;> simp [use, Coherent, KeepsCache, h]

/-- In a system whose every step uses one memo, the memo is coherent all the way exactly when no
overwrite takes the value away from the cache. -/
theorem coherent_along_iff (step : τ → ι → τ) (memo : τ → Memo σ β) (f : τ → σ → Except ε β)
    (kind : τ → ι → Use σ) (fixed : ∀ t i, f (step t i) = f t)
    (uses : ∀ t i, memo (step t i) = (memo t).use (f t) (kind t i)) (start : τ)
    (coherent : (memo start).Coherent (f start)) (inputs : List ι) :
    (∀ done rest, inputs = done ++ rest →
        (memo (done.foldl step start)).Coherent (f (done.foldl step start))) ↔
      ∀ done i rest, inputs = done ++ i :: rest → ∀ s, kind (done.foldl step start) i = .overwrite s →
        (memo (done.foldl step start)).KeepsCache (f (done.foldl step start)) s := by
  constructor
  · intro all done i rest split s overwrite
    have next := all (done ++ [i]) rest (by simp [split])
    rw [List.foldl_append, List.foldl_cons, List.foldl_nil, fixed, uses, overwrite] at next
    exact coherent_overwrite.mp next
  · intro met done rest split
    induction done using List.reverseRecOn generalizing rest with
    | nil => exact coherent
    | append_singleton done i ih =>
        have before := ih (i :: rest) (by simpa using split)
        have here := met done i rest (by simpa using split)
        rw [List.foldl_append, List.foldl_cons, List.foldl_nil, fixed, uses]
        cases used : kind (done.foldl step start) i with
        | skip => exact before
        | read => exact coherent_read before
        | peek => exact coherent_peek before
        | touch s => exact coherent_touch _ s
        | overwrite s => exact coherent_overwrite.mpr (here s used)

end Memo
end Foundation
