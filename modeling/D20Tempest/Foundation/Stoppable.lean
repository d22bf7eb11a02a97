import D20Tempest.Foundation.Action

namespace Foundation

/-! ## Code that may stop anywhere -/

/-- Code together with what it can leave behind where it is stopped before its end. -/
structure Stoppable (σ α : Type) where
  run : Action σ α
  cut : σ → σ → Prop

namespace Stoppable
variable {σ α β ι : Type}

def atomic (x : Action σ α) : Stoppable σ α := ⟨x, fun s t => t = s⟩

instance : Monad (Stoppable σ) where
  pure a := atomic (pure a)
  bind x f :=
    { run := x.run >>= fun a => (f a).run
      cut := fun s t => x.cut s t ∨ ∃ a s', x.run s = .ok a s' ∧ (f a).cut s' t }

@[simp] theorem run_atomic (x : Action σ α) : (atomic x).run = x := rfl
@[simp] theorem run_bind (x : Stoppable σ α) (f : α → Stoppable σ β) :
    (x >>= f).run = x.run >>= fun a => (f a).run := rfl

theorem run_forM (f : ι → Stoppable σ PUnit) (xs : List ι) : (xs.forM f).run = xs.forM fun i => (f i).run := by
  induction xs with
  | nil => rfl
  | cons i xs ih => exact congrArg (fun rest => (f i).run >>= fun _ => rest) ih

def Stops (x : Stoppable σ α) (s t : σ) : Prop := x.cut s t ∨ ∃ e, x.run s = .error e t

/-! ## What holds wherever it stops -/

/-- From a state with the precondition, a return establishes the postcondition, and wherever the code is
stopped the recovery condition holds. -/
structure Guards (pre : σ → Prop) (x : Stoppable σ α) (post : α → σ → Prop) (recovery : σ → Prop) : Prop where
  returns : ∀ s a t, pre s → x.run s = .ok a t → post a t
  stops : ∀ s t, pre s → x.Stops s t → recovery t

section Rules
variable {pre pre' : σ → Prop} {x : Stoppable σ α} {post : α → σ → Prop} {recovery : σ → Prop}

theorem guards_atomic {x : Action σ α} (before : ∀ s, pre s → recovery s)
    (returns : ∀ s a t, pre s → x s = .ok a t → post a t)
    (throws : ∀ s e t, pre s → x s = .error e t → recovery t) : Guards pre (atomic x) post recovery where
  returns := returns
  stops := by
    intro s t start stop
    rcases stop with rfl | ⟨e, run⟩
    · exact before _ start
    · exact throws s e t start run

theorem guards_pure {a : α} (before : ∀ s, pre s → recovery s) (after : ∀ s, pre s → post a s) :
    Guards pre (pure a) post recovery := by
  refine guards_atomic before ?_ ?_
  · intro s b t start run
    cases run
    exact after s start
  · intro s e t start run
    cases run

theorem Guards.bind {f : α → Stoppable σ β} {post' : β → σ → Prop} (first : Guards pre x post recovery)
    (next : ∀ a, Guards (post a) (f a) post' recovery) : Guards pre (x >>= f) post' recovery where
  returns := by
    intro s b t start run
    obtain ⟨a, u, ran, later⟩ := bind_eq_ok.mp run
    exact (next a).returns u b t (first.returns s a u start ran) later
  stops := by
    intro s t start stop
    rcases stop with (cut | ⟨a, u, ran, cut⟩) | ⟨e, run⟩
    · exact first.stops s t start (.inl cut)
    · exact (next a).stops u t (first.returns s a u start ran) (.inl cut)
    · rw [run_bind, bind_apply] at run
      cases ran : x.run s with
      | ok a u =>
          rw [ran] at run
          exact (next a).stops u t (first.returns s a u start ran) (.inr ⟨e, run⟩)
      | error e' u =>
          rw [ran] at run
          cases run
          exact first.stops s _ start (.inr ⟨_, ran⟩)

theorem Guards.strengthen (guards : Guards pre x post recovery) (strong : ∀ s, pre' s → pre s) :
    Guards pre' x post recovery where
  returns s a t start := guards.returns s a t (strong s start)
  stops s t start stop := guards.stops s t (strong s start) stop

theorem guards_of_pre {p : Prop} (implied : ∀ s, pre s → p) (guards : p → Guards pre x post recovery) :
    Guards pre x post recovery where
  returns s a t start := (guards (implied s start)).returns s a t start
  stops s t start := (guards (implied s start)).stops s t start

theorem guards_forM {f : ι → Stoppable σ PUnit} {invariant : σ → Prop} (before : ∀ s, invariant s → recovery s)
    (xs : List ι) (pass : ∀ i ∈ xs, Guards invariant (f i) (fun _ => invariant) recovery) :
    Guards invariant (xs.forM f) (fun _ => invariant) recovery := by
  induction xs with
  | nil => exact guards_pure before fun _ holds => holds
  | cons i xs ih =>
      exact (pass i List.mem_cons_self).bind fun _ => ih fun j mem => pass j (List.mem_cons_of_mem _ mem)

/-- Code that is not stopped inside has less to guard. -/
theorem Guards.atomic (before : ∀ s, pre s → recovery s) (guards : Guards pre x post recovery) :
    Guards pre (atomic x.run) post recovery :=
  guards_atomic before guards.returns fun s e t start run => guards.stops s t start (.inr ⟨e, run⟩)

theorem guards_of_same {x : Action σ α} (same : ∀ s, pre s → ∃ y, x s = y s ∧ Guards pre (Stoppable.atomic y) post recovery)
    (before : ∀ s, pre s → recovery s) : Guards pre (Stoppable.atomic x) post recovery := by
  refine guards_atomic before ?_ ?_
  · intro s a t start run
    obtain ⟨y, eq, guards⟩ := same s start
    exact guards.returns s a t start (eq.symm.trans run)
  · intro s e t start run
    obtain ⟨y, eq, guards⟩ := same s start
    exact guards.stops s t start (.inr ⟨e, eq.symm.trans run⟩)

end Rules
end Stoppable
end Foundation
