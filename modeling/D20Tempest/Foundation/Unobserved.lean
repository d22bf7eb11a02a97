import D20Tempest.Foundation.Action
import D20Tempest.Foundation.OrderedMap

namespace Foundation
variable {σ τ α β γ ι ρ : Type}

/-! ## What is seen of a state -/

/-- What a call returns, and what is seen of the state it leaves, depend on what is seen of the state it finds. -/
def Respects (view : σ → τ) (x : Action σ α) : Prop :=
  ∀ s t, view s = view t → returned (x s) = returned (x t) ∧ view (finalState (x s)) = view (finalState (x t))

def Unseen (view : σ → τ) (s s' : σ) : Prop := view s' = view s

abbrev Silent (view : σ → τ) (x : Action σ α) : Prop := Moves (Unseen view) x

section Actions
variable {view : σ → τ}

instance : Std.Refl (Unseen view) := ⟨fun _ => rfl⟩

instance : IsTrans σ (Unseen view) := ⟨fun _ _ _ first second => second.trans first⟩

theorem Respects.pure (a : α) : Respects view (pure a : Action σ α) := Simulates.pure a

theorem Respects.throw (e : Fault) : Respects view (throw e : Action σ α) := Simulates.throw e

theorem Respects.evaluate (x : Except Fault α) : Respects view (evaluate x : Action σ α) := by
  cases x with
  | ok a => exact Respects.pure a
  | error e => exact Respects.throw e

theorem Respects.bind {x : Action σ α} {f : α → Action σ β} (first : Respects view x)
    (next : ∀ a, Respects view (f a)) : Respects view (x >>= f) := by
  have simulates : Simulates (fun s t => view s = view t) x x := first
  exact simulates.bind next

theorem Respects.map {x : Action σ α} (respects : Respects view x) (g : α → β) : Respects view (g <$> x) := by
  rw [← bind_pure_comp]
  exact respects.bind fun a => Respects.pure (g a)

theorem Respects.get_bind {f : α → Action σ β} {g : σ → α} (seen : ∀ s t, view s = view t → g s = g t)
    (next : ∀ a, Respects view (f a)) : Respects view (do f (g (← get))) := by
  intro s t same
  have left := next (g s) s t same
  rwa [show (do f (g (← get)) : Action σ β) s = f (g s) s from rfl,
    show (do f (g (← get)) : Action σ β) t = f (g s) t from congrArg (f · t) (seen s t same).symm]

theorem respects_attempt {x : Action σ α} (silent : Silent view x) : Respects view (attempt x) := by
  intro s t same
  exact ⟨rfl, (silent s).trans (same.trans (silent t).symm)⟩

theorem silent_attempt {x : Action σ α} (silent : Silent view x) : Silent view (attempt x) := silent

theorem silent_map {x : Action σ α} (silent : Silent view x) (g : α → β) : Silent view (g <$> x) := by
  rw [← bind_pure_comp]
  exact Moves.bind silent fun a => Moves.pure (g a)

end Actions

/-! ## Deleting calls -/

section Deletion
variable (step : ι → Action σ ρ)

def results : σ → List ι → List (Except Fault ρ)
  | _, [] => []
  | s, i :: rest => returned (step i s) :: results (finalState (step i s)) rest

/-- The results of the calls that are marked to be kept, in the run of them all. -/
def keptResults : σ → List (ι × Bool) → List (Except Fault ρ)
  | _, [] => []
  | s, (i, keep) :: rest =>
      if keep then returned (step i s) :: keptResults (finalState (step i s)) rest
      else keptResults (finalState (step i s)) rest

def kept (marked : List (ι × Bool)) : List ι := (marked.filter Prod.snd).map Prod.fst

variable {step} {view : σ → τ}

theorem Simulates.results {rel : σ → τ → Prop} {step' : ι → Action τ ρ} (each : ∀ i, Simulates rel (step i) (step' i))
    (inputs : List ι) {s : σ} {t : τ} (related : rel s t) : results step s inputs = results step' t inputs := by
  induction inputs generalizing s t with
  | nil => rfl
  | cons i rest ih =>
      obtain ⟨result, left⟩ := each i s t related
      rw [Foundation.results, Foundation.results, result, ih left]

theorem keptResults_eq (respects : ∀ i, Respects view (step i)) (marked : List (ι × Bool))
    (silent : ∀ i, (i, false) ∈ marked → Silent view (step i)) {s t : σ} (same : view s = view t) :
    keptResults step s marked = results step t (kept marked) := by
  induction marked generalizing s t with
  | nil => rfl
  | cons mark rest ih =>
      obtain ⟨i, keep⟩ := mark
      have later : ∀ i, (i, false) ∈ rest → Silent view (step i) := fun i mem => silent i (List.mem_cons_of_mem _ mem)
      cases keep with
      | true =>
          obtain ⟨result, left⟩ := respects i s t same
          show returned (step i s) :: keptResults step (finalState (step i s)) rest =
            returned (step i t) :: results step (finalState (step i t)) (kept rest)
          rw [result, ih later left]
      | false =>
          have unseen := silent i (List.mem_cons_self ..) s
          exact ih later (unseen.trans same)

end Deletion

/-! ## Maps of states -/

section Visits
variable {κ : Type} [LinearOrder κ] {view : α → γ} {f : Action α β}

def entriesView (view : α → γ) (entries : List (κ × α)) : List (κ × γ) := entries.map fun e => (e.1, view e.2)

omit [LinearOrder κ] in
theorem respects_visitEntries (respects : Respects view f) (xs ys : List (κ × α))
    (same : entriesView view xs = entriesView view ys) :
    returned (OrderedMap.visitEntries f xs) = returned (OrderedMap.visitEntries f ys) ∧
      entriesView view (OrderedMap.leftEntries (OrderedMap.visitEntries f xs)) =
        entriesView view (OrderedMap.leftEntries (OrderedMap.visitEntries f ys)) := by
  induction xs generalizing ys with
  | nil =>
      cases ys with
      | nil => exact ⟨rfl, rfl⟩
      | cons y ys => cases same
  | cons x xs ih =>
      cases ys with
      | nil => cases same
      | cons y ys =>
          obtain ⟨key, a⟩ := x
          obtain ⟨key', b⟩ := y
          obtain ⟨head, tail⟩ := List.cons.inj same
          obtain ⟨rfl, seen⟩ := Prod.mk.inj head
          obtain ⟨result, left⟩ := respects a b seen
          obtain ⟨results, lefts⟩ := ih ys tail
          rw [OrderedMap.visitEntries, OrderedMap.visitEntries]
          rcases same_outcome result with ⟨c, runA, runB⟩ | ⟨e, runA, runB⟩
          · rw [runA, runB]
            rcases same_outcome results with ⟨cs, runXs, runYs⟩ | ⟨e, runXs, runYs⟩
            · rw [runXs, runYs] at lefts ⊢
              exact ⟨rfl, congrArg₂ List.cons (congrArg (Prod.mk key) left) lefts⟩
            · rw [runXs, runYs] at lefts ⊢
              exact ⟨rfl, congrArg₂ List.cons (congrArg (Prod.mk key) left) lefts⟩
          · rw [runA, runB]
            exact ⟨rfl, congrArg₂ List.cons (congrArg (Prod.mk key) left) tail⟩

omit [LinearOrder κ] in
theorem silent_visitEntries (silent : Silent view f) (xs : List (κ × α)) :
    entriesView view (OrderedMap.leftEntries (OrderedMap.visitEntries f xs)) = entriesView view xs := by
  induction xs with
  | nil => rfl
  | cons x xs ih =>
      obtain ⟨key, a⟩ := x
      have left := silent a
      rw [OrderedMap.visitEntries]
      cases runA : f a with
      | error e a' =>
          rw [runA] at left
          exact congrArg₂ List.cons (congrArg (Prod.mk key) left) rfl
      | ok b a' =>
          rw [runA] at left
          cases runXs : OrderedMap.visitEntries f xs with
          | ok bs left' =>
              rw [runXs] at ih
              exact congrArg₂ List.cons (congrArg (Prod.mk key) left) ih
          | error e left' =>
              rw [runXs] at ih
              exact congrArg₂ List.cons (congrArg (Prod.mk key) left) ih

def mapView (view : α → γ) (m : OrderedMap κ α) : OrderedMap κ γ := m.map fun _ a => view a

theorem mapView_eq_iff {m n : OrderedMap κ α} :
    mapView view m = mapView view n ↔ entriesView view m.entries = entriesView view n.entries := by
  have entries : ∀ m : OrderedMap κ α, (mapView view m).entries = entriesView view m.entries :=
    fun m => OrderedMap.map_entries m _
  rw [← entries, ← entries]
  exact ⟨congrArg OrderedMap.entries, OrderedMap.ext⟩

theorem find_mapView (m : OrderedMap κ α) (key : κ) : (mapView view m).find key = (m.find key).map view :=
  OrderedMap.find_map m _ key

theorem mapView_assign (m : OrderedMap κ α) (key : κ) (value : α) :
    mapView view (m.assign key value) = (mapView view m).assign key (view value) := by
  apply OrderedMap.ext_find
  intro other
  rw [find_mapView, OrderedMap.find_assign, OrderedMap.find_assign, find_mapView]
  split <;> rfl

theorem visit_outcome (f : Action α β) (m : OrderedMap κ α) :
    returned (m.visit f) = returned (OrderedMap.visitEntries f m.entries) ∧
      (finalState (m.visit f)).entries = OrderedMap.leftEntries (OrderedMap.visitEntries f m.entries) := by
  unfold OrderedMap.visit
  dsimp only
  split
  · rename_i visited
    exact ⟨(congrArg returned visited).symm, rfl⟩
  · rename_i visited
    exact ⟨(congrArg returned visited).symm, rfl⟩

theorem respects_visit (respects : Respects view f) :
    Respects (mapView view) (OrderedMap.visit f : Action (OrderedMap κ α) (List (κ × β))) := by
  intro m n same
  obtain ⟨result, left⟩ := respects_visitEntries respects m.entries n.entries (mapView_eq_iff.mp same)
  obtain ⟨resultM, leftM⟩ := visit_outcome f m
  obtain ⟨resultN, leftN⟩ := visit_outcome f n
  refine ⟨resultM.trans (result.trans resultN.symm), mapView_eq_iff.mpr ?_⟩
  rw [leftM, leftN, left]

theorem silent_visit (silent : Silent view f) :
    Silent (mapView view) (OrderedMap.visit f : Action (OrderedMap κ α) (List (κ × β))) := by
  intro m
  refine mapView_eq_iff.mpr ?_
  rw [(visit_outcome f m).2, silent_visitEntries silent]

end Visits
end Foundation
