import D20Tempest.Foundation.Action

namespace Foundation

/-- A state with the calls that were made so far. -/
structure Watched (σ β : Type) where
  state : σ
  calls : List β

variable {σ β ι : Type}

def unwatched (x : Action σ Unit) : Action (Watched σ β) Unit := fun s =>
  match x s.state with
  | .ok u t => .ok u { s with state := t }
  | .error e t => .error e { s with state := t }

def watch (b : β) (x : Action σ Unit) : Action (Watched σ β) Unit := do
  modify fun s => { s with calls := s.calls ++ [b] }
  unwatched x

/-- One after the other, each call but the last returns. -/
def AllButLast (call : ι → Action σ Unit) : List ι → σ → Prop
  | [], _ => True
  | [_], _ => True
  | i :: j :: rest, s => match call i s with
      | .ok _ t => AllButLast call (j :: rest) t
      | .error _ _ => False

def decideAllButLast (call : ι → Action σ Unit) : (is : List ι) → (s : σ) → Decidable (AllButLast call is s)
  | [], _ => .isTrue trivial
  | [_], _ => .isTrue trivial
  | i :: j :: rest, s => match run : call i s with
      | .ok _ t => match decideAllButLast call (j :: rest) t with
          | .isTrue yes => .isTrue (by rw [AllButLast, run]; exact yes)
          | .isFalse no => .isFalse (by rw [AllButLast, run]; exact no)
      | .error _ _ => .isFalse (by rw [AllButLast, run]; exact id)

instance (call : ι → Action σ Unit) (is : List ι) (s : σ) : Decidable (AllButLast call is s) := decideAllButLast call is s

section Results
variable {x : Action σ Unit} {call : ι → Action σ Unit} {label : ι → β}

@[simp] theorem state_unwatched (x : Action σ Unit) (s : Watched σ β) :
    (finalState (unwatched x s)).state = finalState (x s.state) := by
  unfold unwatched
  cases x s.state <;> rfl

theorem unwatched_congr {y : Action σ Unit} {s : Watched σ β} (same : x s.state = y s.state) : unwatched x s = unwatched y s := by
  unfold unwatched
  rw [same]

theorem watch_apply (b : β) (x : Action σ Unit) (s : Watched σ β) :
    watch b x s = unwatched x { s with calls := s.calls ++ [b] } := rfl

def Beneath (R : σ → σ → Prop) (s t : Watched σ β) : Prop := R s.state t.state

variable {R : σ → σ → Prop}

instance [Std.Refl R] : Std.Refl (Beneath (β := β) R) := ⟨fun s => Std.Refl.refl s.state⟩

instance [IsTrans σ R] : IsTrans (Watched σ β) (Beneath R) := ⟨fun _ _ _ first second => IsTrans.trans (r := R) _ _ _ first second⟩

theorem Moves.unwatched (moves : Moves R x) : Moves (Beneath (β := β) R) (unwatched x) := by
  intro s
  rw [Beneath, state_unwatched]
  exact moves s.state

theorem Moves.watch (moves : Moves R x) (b : β) : Moves (Beneath R) (watch b x) := by
  intro s
  rw [Beneath, watch_apply, state_unwatched]
  exact moves s.state

end Results
end Foundation
