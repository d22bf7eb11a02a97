import Mathlib.Data.List.Induction
import Mathlib.Order.Defs.Unbundled
import Mathlib.Tactic.Common

namespace Foundation

/-- How a call ends other than by returning: an exception, or a use the language leaves undefined. -/
inductive Fault where
  | typeError
  | parseError
  | invalidArgument
  | narrowingError
  | filesystemError
  | scriptError
  | lengthError
  -- undefined behaviour from here on
  | nullPointer
  | danglingPointer
  | absentKey
  | unrepresentable
  | outOfRange
  deriving DecidableEq

/-- Code over a state: what was changed before an exception stays changed. -/
abbrev Action (σ α : Type) := EStateM Fault σ α

variable {σ α β ι : Type}

def finalState : EStateM.Result Fault σ α → σ
  | .ok _ s => s
  | .error _ s => s

@[simp] theorem finalState_ok (a : α) (s : σ) : finalState (.ok a s : EStateM.Result Fault σ α) = s := rfl
@[simp] theorem finalState_error (e : Fault) (s : σ) :
    finalState (.error e s : EStateM.Result Fault σ α) = s := rfl

def returned : EStateM.Result Fault σ α → Except Fault α
  | .ok a _ => .ok a
  | .error e _ => .error e

def evaluate : Except Fault α → Action σ α
  | .ok a => pure a
  | .error e => throw e

@[simp] theorem evaluate_ok (a : α) : (evaluate (.ok a) : Action σ α) = pure a := rfl
@[simp] theorem evaluate_error (e : Fault) : (evaluate (.error e) : Action σ α) = throw e := rfl

theorem ok_of_isOk {x : Action σ Unit} {s : σ} (returns : (returned (x s)).isOk = true) :
    x s = .ok () (finalState (x s)) := by
  cases result : x s with
  | ok u t => rfl
  | error e t => simp [result, returned, Except.isOk, Except.toBool] at returns

theorem eq_ok_of_returned {r : EStateM.Result Fault σ α} {a : α} {s : σ} (returns : returned r = .ok a) (left : finalState r = s) :
    r = .ok a s := by
  cases r with
  | ok b t => rw [Except.ok.inj returns, ← left, finalState_ok]
  | error e t => cases returns

theorem same_outcome {τ : Type} {r : EStateM.Result Fault σ α} {r' : EStateM.Result Fault τ α} (result : returned r = returned r') :
    (∃ a, r = .ok a (finalState r) ∧ r' = .ok a (finalState r')) ∨
      ∃ e, r = .error e (finalState r) ∧ r' = .error e (finalState r') := by
  cases r with
  | ok a s =>
      cases r' with
      | ok b t =>
          obtain rfl := Except.ok.inj result
          exact .inl ⟨a, rfl, rfl⟩
      | error e t => cases result
  | error e s =>
      cases r' with
      | ok b t => cases result
      | error e' t =>
          obtain rfl := Except.error.inj result
          exact .inr ⟨e, rfl, rfl⟩

def attempt (x : Action σ α) : Action σ Unit := fun s => .ok () (finalState (x s))

/-! ## Results -/

section Results
variable {x : Action σ α} {f : α → Action σ β} {s s' : σ}

theorem bind_apply (x : Action σ α) (f : α → Action σ β) (s : σ) :
    (x >>= f) s = match x s with
      | .ok a s' => f a s'
      | .error e s' => .error e s' := by
  cases h : x s <;> simp [bind, EStateM.bind, h]

@[simp] theorem throw_bind (e : Fault) (f : α → Action σ β) : (throw e : Action σ α) >>= f = throw e := rfl

theorem map_apply (g : α → β) (x : Action σ α) (s : σ) :
    (g <$> x) s = match x s with
      | .ok a s' => .ok (g a) s'
      | .error e s' => .error e s' := by
  cases h : x s <;> simp [Functor.map, EStateM.map, h]

theorem evaluate_bind (x : Except Fault α) (f : α → Except Fault β) :
    (evaluate x >>= fun a => evaluate (f a) : Action σ β) = evaluate (x >>= f) := by
  cases x <;> rfl

theorem bind_of_ok {a : α} (h : x s = .ok a s') : (x >>= f) s = f a s' := by
  rw [bind_apply, h]

theorem bind_of_error {e : Fault} (h : x s = .error e s') : (x >>= f) s = .error e s' := by
  rw [bind_apply, h]

theorem bind_eq_ok {b : β} :
    (x >>= f) s = .ok b s' ↔ ∃ a t, x s = .ok a t ∧ f a t = .ok b s' := by
  rw [bind_apply]
  cases x s <;> simp

@[simp] theorem pure_apply (a : α) (s : σ) : (pure a : Action σ α) s = .ok a s := rfl
@[simp] theorem throw_apply (e : Fault) (s : σ) : (throw e : Action σ α) s = .error e s := rfl
@[simp] theorem get_apply (s : σ) : (get : Action σ σ) s = .ok s s := rfl
@[simp] theorem set_apply (t s : σ) : (set t : Action σ PUnit) s = .ok ⟨⟩ t := rfl
@[simp] theorem modify_apply (g : σ → σ) (s : σ) : (modify g : Action σ PUnit) s = .ok ⟨⟩ (g s) := rfl

theorem finalState_forM_cons (f : ι → Action σ PUnit) (i : ι) (rest : List ι) (s : σ) :
    finalState ((i :: rest).forM f s) = match returned (f i s) with
      | .ok _ => finalState (rest.forM f (finalState (f i s)))
      | .error _ => finalState (f i s) := by
  rw [List.forM_eq_forM, List.forM_cons, bind_apply]
  cases f i s <;> rfl

theorem forM_append_of_ok {f : ι → Action σ PUnit} {is : List ι} {t : σ} (run : is.forM f s = .ok ⟨⟩ t) (rest : List ι) :
    (is ++ rest).forM f s = rest.forM f t := by
  rw [List.forM_eq_forM, List.forM_append, ← List.forM_eq_forM, bind_of_ok run]

theorem forM_singleton (f : ι → Action σ PUnit) (i : ι) : [i].forM f = f i := by
  rw [List.forM_eq_forM, List.forM_cons, List.forM_nil]
  exact bind_pure_unit

end Results

/-! ## What an action can do to the state -/

/-- However the action ends, the state it leaves is related to the state it found. -/
def Moves (R : σ → σ → Prop) (x : Action σ α) : Prop := ∀ s, R s (finalState (x s))

namespace Moves
variable {R : σ → σ → Prop}

theorem pure [Std.Refl R] (a : α) : Moves R (pure a : Action σ α) := fun s => Std.Refl.refl s

theorem throw [Std.Refl R] (e : Fault) : Moves R (throw e : Action σ α) := fun s => Std.Refl.refl s

theorem evaluate [Std.Refl R] (x : Except Fault α) : Moves R (evaluate x : Action σ α) := by
  cases x with
  | ok a => exact pure a
  | error e => exact throw e

theorem bind [IsTrans σ R] {x : Action σ α} {f : α → Action σ β} (hx : Moves R x)
    (hf : ∀ a, Moves R (f a)) : Moves R (x >>= f) := by
  intro s
  have first := hx s
  rw [bind_apply]
  cases h : x s with
  | ok a t =>
      rw [h] at first
      exact IsTrans.trans _ _ _ first (hf a t)
  | error e t =>
      rw [h] at first
      exact first

theorem forM [Std.Refl R] [IsTrans σ R] {f : α → Action σ PUnit} (h : ∀ a, Moves R (f a))
    (xs : List α) : Moves R (xs.forM f) := by
  induction xs with
  | nil => exact pure _
  | cons a xs ih => exact bind (h a) fun _ => ih

theorem after {P : σ → Prop} {x : Action σ α} {f : α → Action σ β} {s : σ} (keeps : ∀ s s', R s s' → P s → P s')
    (hf : ∀ a, Moves R (f a)) (first : P (finalState (x s))) : P (finalState ((x >>= f) s)) := by
  rw [bind_apply]
  cases run : x s with
  | ok a t =>
      rw [run] at first
      exact keeps _ _ (hf a t) first
  | error e t =>
      rw [run] at first
      exact first

end Moves

/-! ## Two systems -/

/-- From related states both actions end alike, in related states. -/
def Simulates {τ : Type} (rel : σ → τ → Prop) (x : Action σ α) (y : Action τ α) : Prop :=
  ∀ s t, rel s t → returned (x s) = returned (y t) ∧ rel (finalState (x s)) (finalState (y t))

namespace Simulates
variable {τ : Type} {rel : σ → τ → Prop}

theorem pure (a : α) : Simulates rel (pure a : Action σ α) (pure a : Action τ α) := fun _ _ related => ⟨rfl, related⟩

theorem throw (e : Fault) : Simulates rel (throw e : Action σ α) (throw e : Action τ α) := fun _ _ related => ⟨rfl, related⟩

theorem evaluate (x : Except Fault α) : Simulates rel (evaluate x : Action σ α) (evaluate x : Action τ α) := by
  cases x with
  | ok a => exact pure a
  | error e => exact throw e

theorem bind {x : Action σ α} {y : Action τ α} {f : α → Action σ β} {g : α → Action τ β} (first : Simulates rel x y)
    (next : ∀ a, Simulates rel (f a) (g a)) : Simulates rel (x >>= f) (y >>= g) := by
  intro s t related
  obtain ⟨result, left⟩ := first s t related
  rcases same_outcome result with ⟨a, runS, runT⟩ | ⟨e, runS, runT⟩
  · rw [bind_of_ok runS, bind_of_ok runT]
    exact next a _ _ left
  · rw [bind_of_error runS, bind_of_error runT]
    exact ⟨rfl, left⟩

theorem map {x : Action σ α} {y : Action τ α} (f : α → β) (simulates : Simulates rel x y) : Simulates rel (f <$> x) (f <$> y) := by
  rw [← bind_pure_comp, ← bind_pure_comp]
  exact simulates.bind fun a => pure (f a)

theorem forM {f : ι → Action σ PUnit} {g : ι → Action τ PUnit} (xs : List ι) (h : ∀ i ∈ xs, Simulates rel (f i) (g i)) :
    Simulates rel (xs.forM f) (xs.forM g) := by
  induction xs with
  | nil => exact pure _
  | cons i rest ih => exact bind (h i (List.mem_cons_self ..)) fun _ => ih fun j mem => h j (List.mem_cons_of_mem _ mem)

end Simulates

/-! ## Runs -/

section Runs
variable (step : ι → Action σ Unit)

def play : List ι → Action σ Unit
  | [] => pure ()
  | i :: rest => do
      step i
      play rest

def Run (s : σ) (inputs : List ι) (s' : σ) : Prop := play step inputs s = .ok () s'

def Meets (condition : σ → ι → Prop) : σ → List ι → Prop
  | _, [] => True
  | s, i :: rest => condition s i ∧ ∀ s', step i s = .ok () s' → Meets condition s' rest

variable {step} {s s' t : σ} {i : ι} {inputs rest : List ι}

theorem run_nil : Run step s [] s' ↔ s' = s := by
  simp [Run, play, eq_comm]

theorem run_cons : Run step s (i :: rest) s' ↔ ∃ t, step i s = .ok () t ∧ Run step t rest s' := by
  simp only [Run, play, bind_eq_ok]
  exact ⟨fun ⟨_, t, h⟩ => ⟨t, h⟩, fun ⟨t, h⟩ => ⟨(), t, h⟩⟩

theorem run_play (step : ι → Action σ Unit) (s : σ) (inputs : List ι)
    (returns : (returned (play step inputs s)).isOk = true) : Run step s inputs (finalState (play step inputs s)) := ok_of_isOk returns

theorem run_append : Run step s (inputs ++ rest) s' ↔ ∃ t, Run step s inputs t ∧ Run step t rest s' := by
  induction inputs generalizing s with
  | nil => simp [run_nil]
  | cons i inputs ih =>
      simp only [List.cons_append, run_cons, ih]
      constructor
      · intro run
        obtain ⟨u, taken, t, more, later⟩ := run
        exact ⟨t, ⟨u, taken, more⟩, later⟩
      · intro run
        obtain ⟨t, ⟨u, taken, more⟩, later⟩ := run
        exact ⟨u, taken, t, more, later⟩

theorem run_snoc : Run step s (inputs ++ [i]) s' ↔ ∃ t, Run step s inputs t ∧ step i t = .ok () s' := by
  simp only [run_append, run_cons, run_nil, exists_eq_right']

theorem play_congr {inputs' : List ι} (same : inputs.map step = inputs'.map step) :
    play step inputs = play step inputs' := by
  induction inputs generalizing inputs' with
  | nil =>
      cases inputs' with
      | nil => rfl
      | cons j rest' => cases same
  | cons i rest ih =>
      cases inputs' with
      | nil => cases same
      | cons j rest' =>
          obtain ⟨first, later⟩ := List.cons.inj same
          rw [play, play, first, ih later]

theorem Simulates.play {τ : Type} {rel : σ → τ → Prop} {step' : ι → Action τ Unit}
    (each : ∀ i ∈ inputs, Simulates rel (step i) (step' i)) : Simulates rel (play step inputs) (play step' inputs) := by
  induction inputs with
  | nil => exact Simulates.pure ()
  | cons i rest ih =>
      exact (each i (List.mem_cons_self ..)).bind fun _ => ih fun j mem => each j (List.mem_cons_of_mem _ mem)

theorem Run.history {P : List ι → σ → Prop} (start : P [] s)
    (next : ∀ done t i t', Run step s done t → P done t → step i t = .ok () t' → P (done ++ [i]) t')
    (run : Run step s inputs s') : P inputs s' := by
  induction inputs using List.reverseRecOn generalizing s' with
  | nil => rwa [run_nil.mp run]
  | append_singleton done i ih =>
      obtain ⟨t, before, taken⟩ := run_snoc.mp run
      exact next done t i s' before (ih before) taken

theorem Meets.of_run {C : σ → ι → Prop} (meets : Meets step C s (inputs ++ i :: rest))
    (run : Run step s inputs t) : C t i := by
  induction inputs generalizing s with
  | nil =>
      rw [run_nil.mp run]
      exact meets.1
  | cons j inputs ih =>
      obtain ⟨u, taken, more⟩ := run_cons.mp run
      exact ih (meets.2 u taken) more

theorem Run.always {P : σ → Prop} (start : P s) (keeps : ∀ s i s', P s → step i s = .ok () s' → P s')
    (run : Run step s inputs s') : P s' :=
  run.history (P := fun _ => P) start fun _ t i t' _ holds taken => keeps t i t' holds taken

theorem meets_congr {C D : σ → ι → Prop} {I : σ → Prop} (start : I s)
    (same : ∀ s i, I s → (C s i ↔ D s i)) (keeps : ∀ s i s', I s → D s i → step i s = .ok () s' → I s') :
    Meets step C s inputs ↔ Meets step D s inputs := by
  induction inputs generalizing s with
  | nil => exact Iff.rfl
  | cons i rest ih =>
      constructor
      · intro meets
        obtain ⟨met, later⟩ := meets
        have now := (same s i start).mp met
        exact ⟨now, fun t taken => (ih (keeps s i t start now taken)).mp (later t taken)⟩
      · intro meets
        obtain ⟨met, later⟩ := meets
        exact ⟨(same s i start).mpr met, fun t taken => (ih (keeps s i t start met taken)).mpr (later t taken)⟩

/-! ### What a run adds up to -/

def gathered (step : ι → Action σ Unit) (brings : σ → ι → List β) : σ → List ι → List β
  | _, [] => []
  | s, i :: rest => brings s i ++ gathered step brings (finalState (step i s)) rest

variable {brings : σ → ι → List β}

theorem gathered_append (run : Run step s inputs t) :
    gathered step brings s (inputs ++ rest) = gathered step brings s inputs ++ gathered step brings t rest := by
  induction inputs generalizing s with
  | nil =>
      rw [run_nil.mp run]
      rfl
  | cons i inputs ih =>
      obtain ⟨u, taken, more⟩ := run_cons.mp run
      rw [List.cons_append, gathered, gathered, taken, finalState_ok, ih more, List.append_assoc]

theorem mem_gathered {b : β} (mem : b ∈ gathered step brings s inputs) : ∃ t i, b ∈ brings t i := by
  induction inputs generalizing s with
  | nil => cases mem
  | cons i rest ih =>
      rcases List.mem_append.mp mem with now | later
      · exact ⟨s, i, now⟩
      · exact ih later

theorem gathered_map {γ : Type} (f : β → γ) (s : σ) (inputs : List ι) :
    gathered step (fun s i => (brings s i).map f) s inputs = (gathered step brings s inputs).map f := by
  induction inputs generalizing s with
  | nil => rfl
  | cons i rest ih => rw [gathered, gathered, ih, List.map_append]

theorem Run.gathered_eq (held : σ → List β) {I : σ → Prop} (start : I s) (empty : held s = [])
    (keeps : ∀ s i s', I s → step i s = .ok () s' → I s' ∧ held s' = held s ++ brings s i)
    (run : Run step s inputs s') : held s' = gathered step brings s inputs := by
  have kept : I s' ∧ held s' = gathered step brings s inputs := by
    refine run.history (P := fun done t => I t ∧ held t = gathered step brings s done) ⟨start, empty⟩ ?_
    intro done t i t' before inv taken
    obtain ⟨inv', grown⟩ := keeps t i t' inv.1 taken
    refine ⟨inv', ?_⟩
    rw [gathered_append before, grown, inv.2, gathered, gathered, List.append_nil]
  exact kept.2

end Runs
end Foundation
