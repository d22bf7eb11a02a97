import D20Tempest.Foundation.LuaProgram

namespace Foundation.Lua
variable {ι σ τ α β : Type}

/-! ## What code is permitted -/

structure Permission (ι : Type) where
  reads : Bytes → Prop
  sets : Bytes → Prop
  calls : ι → Prop

namespace Permission

def everything : Permission ι := ⟨fun _ => True, fun _ => True, fun _ => True⟩

def observer (reads : Bytes → Prop) (calls : ι → Prop) : Permission ι := ⟨reads, fun _ => False, calls⟩

section
variable {reads : Bytes → Prop} {calls : ι → Prop}

instance [DecidablePred reads] : DecidablePred (observer reads calls).reads := inferInstanceAs (DecidablePred reads)

instance : DecidablePred (observer reads calls).sets := fun _ => .isFalse id

instance [DecidablePred calls] : DecidablePred (observer reads calls).calls := inferInstanceAs (DecidablePred calls)

end

end Permission

mutual

def Expr.names : Expr → List Bytes
  | .name x => [x]
  | .field e _ => e.names
  | .call f args => f.names ++ argNames args
  | .binary _ a b | .and a b | .or a b => a.names ++ b.names
  | _ => []

def argNames : List Expr → List Bytes
  | [] => []
  | e :: rest => e.names ++ argNames rest

end

def Stat.Within (may : Permission ι) (params : List Bytes) : Stat → Prop
  | .assign x e => (x ∈ params ∨ may.sets x) ∧ ∀ y ∈ e.names, y ∈ params ∨ may.reads y
  | .call e | .ret e => ∀ y ∈ e.names, y ∈ params ∨ may.reads y

/-- A function uses the globals it may read and set, and its own parameters. -/
def Value.Within (may : Permission ι) : Value ι → Prop
  | .function params body => ∀ stat ∈ body, stat.Within may params
  | .native n => may.calls n
  | _ => True

section
variable (may : Permission ι) [DecidablePred may.reads] [DecidablePred may.sets] [DecidablePred may.calls]

instance (params : List Bytes) : (stat : Stat) → Decidable (stat.Within may params)
  | .assign x e => inferInstanceAs (Decidable ((x ∈ params ∨ may.sets x) ∧ ∀ y ∈ e.names, y ∈ params ∨ may.reads y))
  | .call e => inferInstanceAs (Decidable (∀ y ∈ e.names, y ∈ params ∨ may.reads y))
  | .ret e => inferInstanceAs (Decidable (∀ y ∈ e.names, y ∈ params ∨ may.reads y))

instance : (v : Value ι) → Decidable (v.Within may)
  | .function params body => inferInstanceAs (Decidable (∀ stat ∈ body, stat.Within may params))
  | .native n => inferInstanceAs (Decidable (may.calls n))
  | .nil | .boolean _ | .number _ | .string _ | .math | .floor | .library => .isTrue trivial

end

theorem within_everything (v : Value ι) : v.Within .everything := by
  cases v with
  | function params body =>
      intro stat _
      cases stat with
      | assign x e => exact ⟨.inr trivial, fun _ _ => .inr trivial⟩
      | _ => exact fun _ _ => .inr trivial
  | _ => trivial

/-! ## Judgements about two runs -/

/-- A statement about two pieces of code, and what they return, that holds of code put together from such pieces. -/
structure Judgement (ι σ : Type) where
  Holds {α : Type} (P : α → Prop) (x y : Action (State ι σ) α) : Prop
  pure {α : Type} {P : α → Prop} {a : α} (holds : P a) : Holds P (pure a) (pure a)
  throw {α : Type} {P : α → Prop} (e : Fault) (y : Action (State ι σ) α) : Holds P (throw e) y
  bind {α β : Type} {P : α → Prop} {Q : β → Prop} {x y : Action (State ι σ) α} {f g : α → Action (State ι σ) β}
    (first : Holds P x y) (next : ∀ a, P a → Holds Q (f a) (g a)) : Holds Q (x >>= f) (y >>= g)

namespace Judgement
variable {J : Judgement ι σ} {P : α → Prop} {may : Permission ι} {call call' : Call ι σ} {params : List Bytes} {locals : Locals ι}
  {r : Rounding}

theorem evaluate {result : Except Fault α} (holds : ∀ a, result = .ok a → P a) :
    J.Holds P (evaluate result) (evaluate result) := by
  cases result with
  | ok a => exact J.pure (holds a rfl)
  | error e => exact J.throw e _

structure Permits (J : Judgement ι σ) (may : Permission ι) : Prop where
  reads {x : Bytes} : may.reads x →
    J.Holds (Value.Within may) (do return (← get).globals x) (do return (← get).globals x)
  sets {x : Bytes} {v : Value ι} : may.sets x → v.Within may → J.Holds (fun _ => True) (setGlobal x v) (setGlobal x v)

def Calls (J : Judgement ι σ) (may : Permission ι) (call call' : Call ι σ) : Prop :=
  ∀ v args, v.Within may → (∀ a ∈ args, a.Within may) → J.Holds (Value.Within may) (call v args) (call' v args)

end Judgement

/-- The parameters have values. -/
structure Scope (may : Permission ι) (params : List Bytes) (locals : Locals ι) : Prop where
  bound : ∀ x ∈ params, (find x locals).isSome = true
  values : ∀ x v, find x locals = some v → v.Within may

section
variable {J : Judgement ι σ} {may : Permission ι} {call call' : Call ι σ} {params : List Bytes} {locals : Locals ι} {r : Rounding}

theorem within_apply {op : Binary} {a b v : Value ι} (applied : op.apply r a b = .ok v) : v.Within may := by
  unfold Binary.apply at applied
  repeat' split at applied
  all_goals cases applied
  all_goals trivial

theorem within_field {v w : Value ι} {x : Bytes} (field : v.field x = .ok w) : w.Within may := by
  unfold Value.field at field
  repeat' split at field
  all_goals cases field
  trivial

theorem within_floorOf {args : List (Value ι)} {v : Value ι} (floors : floorOf args = .ok v) : v.Within may := by
  unfold floorOf at floors
  split at floors <;> cases floors
  trivial

mutual

theorem judge_evalExpr (permits : J.Permits may) (calls : J.Calls may call call') (scope : Scope may params locals) :
    (e : Expr) → (∀ x ∈ e.names, x ∈ params ∨ may.reads x) →
      J.Holds (Value.Within may) (evalExpr r call locals e) (evalExpr r call' locals e)
  | .nil, _ | .boolean _, _ | .numeral _, _ | .string _, _ => J.pure trivial
  | .name x, names => by
      rw [evalExpr, evalExpr]
      cases found : find x locals with
      | some v => exact J.pure (scope.values x v found)
      | none =>
          apply permits.reads
          refine (names x (List.mem_singleton.mpr rfl)).resolve_left fun isParam => ?_
          have bound := scope.bound x isParam
          rw [found] at bound
          cases bound
  | .field e x, names => by
      rw [evalExpr, evalExpr]
      exact J.bind (judge_evalExpr permits calls scope e names) fun v _ => Judgement.evaluate fun w field => within_field field
  | .call f args, names => by
      rw [evalExpr, evalExpr]
      apply J.bind (judge_evalExpr permits calls scope f fun x mem => names x (List.mem_append_left _ mem))
      intro f withinF
      apply J.bind (judge_evalArgs permits calls scope args fun x mem => names x (List.mem_append_right _ mem))
      intro args withinArgs
      exact calls f args withinF withinArgs
  | .binary op a b, names => by
      rw [evalExpr, evalExpr]
      apply J.bind (judge_evalExpr permits calls scope a fun x mem => names x (List.mem_append_left _ mem))
      intro a _
      apply J.bind (judge_evalExpr permits calls scope b fun x mem => names x (List.mem_append_right _ mem))
      intro b _
      exact Judgement.evaluate fun v applied => within_apply applied
  | .and a b, names | .or a b, names => by
      rw [evalExpr, evalExpr]
      apply J.bind (judge_evalExpr permits calls scope a fun x mem => names x (List.mem_append_left _ mem))
      intro v within
      have second := judge_evalExpr permits calls scope b fun x mem => names x (List.mem_append_right _ mem)
      split
      · first | exact second | exact J.pure within
      · first | exact second | exact J.pure within

theorem judge_evalArgs (permits : J.Permits may) (calls : J.Calls may call call') (scope : Scope may params locals) :
    (args : List Expr) → (∀ x ∈ argNames args, x ∈ params ∨ may.reads x) →
      J.Holds (fun vs => ∀ v ∈ vs, v.Within may) (evalArgs r call locals args) (evalArgs r call' locals args)
  | [], _ => J.pure fun _ mem => by cases mem
  | e :: rest, names => by
      rw [evalArgs, evalArgs]
      apply J.bind (judge_evalExpr permits calls scope e fun x mem => names x (List.mem_append_left _ mem))
      intro v within
      apply J.bind (judge_evalArgs permits calls scope rest fun x mem => names x (List.mem_append_right _ mem))
      intro vs withinVs
      exact J.pure (List.forall_mem_cons.mpr ⟨within, withinVs⟩)

end

theorem find_setLocal (x y : Bytes) (v : Value ι) (locals : Locals ι) :
    find y (setLocal x v locals) = if y = x then (find y locals).map fun _ => v else find y locals := by
  induction locals with
  | nil => simp [find, setLocal]
  | cons l rest ih =>
      simp only [find, setLocal, List.map_cons, List.find?_cons] at ih ⊢
      grind

theorem Scope.setLocal (scope : Scope may params locals) {v : Value ι} (within : v.Within may) (x : Bytes) :
    Scope may params (setLocal x v locals) := by
  constructor
  · intro y isParam
    rw [find_setLocal]
    split
    · rw [Option.isSome_map]
      exact scope.bound y isParam
    · exact scope.bound y isParam
  · intro y w found
    rw [find_setLocal] at found
    split at found
    · obtain ⟨_, _, rfl⟩ := Option.map_eq_some_iff.mp found
      exact within
    · exact scope.values y w found

theorem judge_execBlock (permits : J.Permits may) (calls : J.Calls may call call') (scope : Scope may params locals)
    {block : List Stat} (within : ∀ stat ∈ block, stat.Within may params) :
    J.Holds (fun v => ∀ w, v = some w → w.Within may) (execBlock r call locals block) (execBlock r call' locals block) := by
  induction block generalizing locals with
  | nil => exact J.pure nofun
  | cons stat rest ih =>
      have later : ∀ stat ∈ rest, stat.Within may params := fun stat mem => within stat (List.mem_cons_of_mem _ mem)
      have first := within stat (List.mem_cons_self ..)
      cases stat with
      | assign x e =>
          rw [execBlock, execBlock]
          apply J.bind (judge_evalExpr permits calls scope e first.2)
          intro v withinV
          split
          · exact ih (scope.setLocal withinV x) later
          · rename_i free
            have settable := first.1.resolve_left fun isParam => free (scope.bound x isParam)
            exact J.bind (permits.sets settable withinV) fun _ _ => ih scope later
      | call e =>
          rw [execBlock, execBlock]
          exact J.bind (judge_evalExpr permits calls scope e first) fun _ _ => ih scope later
      | ret e =>
          rw [execBlock, execBlock, ← bind_pure_comp, ← bind_pure_comp]
          apply J.bind (judge_evalExpr permits calls scope e first)
          intro v withinV
          apply J.pure
          rintro w ⟨⟩
          exact withinV

theorem find_append (x : Bytes) (first second : Locals ι) : find x (first ++ second) = (find x first).or (find x second) := by
  rw [find, List.find?_append, Option.map_or]
  rfl

theorem scope_bindParams {args : List (Value ι)} (within : ∀ a ∈ args, a.Within may) : Scope may params (bindParams params args) := by
  induction params generalizing args with
  | nil => exact ⟨nofun, nofun⟩
  | cons x params ih =>
      have rest := ih fun a mem => within a (List.mem_of_mem_tail mem)
      have head : (args.headD .nil).Within may := by
        cases args with
        | nil => trivial
        | cons a _ => exact within a (List.mem_cons_self ..)
      constructor
      · intro y mem
        rw [bindParams, find_append]
        rcases List.mem_cons.mp mem with rfl | mem
        · simp [find]
        · simp [rest.bound y mem]
      · intro y v found
        rw [bindParams, find_append] at found
        rcases Option.or_eq_some_iff.mp found with found | ⟨_, found⟩
        · exact rest.values y v found
        · rw [find, Option.map_eq_some_iff] at found
          obtain ⟨l, here, rfl⟩ := found
          rw [List.mem_singleton.mp (List.mem_of_find?_eq_some here)]
          exact head

/-- Two machines with other functions of the host, the second with `more` stack. -/
theorem judge_callValue (permits : J.Permits may) {native native' : Call ι σ → ι → List (Value ι) → Action (State ι σ) (Value ι)}
    (deepest more : Nat)
    (natives : ∀ depth < deepest, J.Calls may (callValue r native depth) (callValue r native' (depth + more)) →
      ∀ n args, may.calls n → (∀ a ∈ args, a.Within may) →
        J.Holds (Value.Within may) (native (callValue r native depth) n args) (native' (callValue r native' (depth + more)) n args)) :
    ∀ depth ≤ deepest, J.Calls may (callValue r native depth) (callValue r native' (depth + more)) := by
  intro depth
  induction depth with
  | zero => exact fun _ v args _ _ => J.throw _ _
  | succ depth ih =>
      intro within v args withinV withinArgs
      have calls := ih (Nat.le_of_succ_le within)
      rw [Nat.add_right_comm]
      cases v with
      | function params body =>
          rw [callValue, callValue]
          apply J.bind (judge_execBlock permits calls (scope_bindParams withinArgs) withinV)
          intro returned withinR
          apply J.pure
          cases returned with
          | none => trivial
          | some w => exact withinR w rfl
      | native n => exact natives depth within calls n args withinV withinArgs
      | floor => exact Judgement.evaluate fun v floors => within_floorOf floors
      | _ => exact J.throw _ _

/-- The same machine twice. -/
theorem judge_call (permits : J.Permits may) {native : Call ι σ → ι → List (Value ι) → Action (State ι σ) (Value ι)}
    (natives : ∀ call, J.Calls may call call → ∀ n args, may.calls n → (∀ a ∈ args, a.Within may) →
      J.Holds (Value.Within may) (native call n args) (native call n args)) (depth : Nat) :
    J.Calls may (callValue r native depth) (callValue r native depth) :=
  judge_callValue permits depth 0 (fun _ _ calls => natives _ calls) depth (Nat.le_refl depth)

end

/-! ## What every program preserves -/

/-- The code changes the state as `R` allows. -/
def moving (R : State ι σ → State ι σ → Prop) [Std.Refl R] [IsTrans (State ι σ) R] : Judgement ι σ where
  Holds P x _ := Moves R x ∧ ∀ s a, returned (x s) = .ok a → P a
  pure holds := ⟨Moves.pure _, fun s b returns => Except.ok.inj returns ▸ holds⟩
  throw e _ := ⟨Moves.throw e, fun s a returns => by cases returns⟩
  bind := by
    intro α β P Q x y f g first next
    constructor
    · intro s
      have moved := first.1 s
      rw [bind_apply]
      cases run : x s with
      | ok a t =>
          rw [run] at moved
          exact IsTrans.trans _ _ _ moved ((next a (first.2 s a (congrArg returned run))).1 t)
      | error e t =>
          rw [run] at moved
          exact moved
    · intro s b returns
      rw [bind_apply] at returns
      cases run : x s with
      | ok a t =>
          rw [run] at returns
          exact (next a (first.2 s a (congrArg returned run))).2 t b returns
      | error e t =>
          rw [run] at returns
          cases returns

/-- Whatever setting a global and the functions of the host preserve, every call preserves. -/
theorem moves_callValue {r : Rounding} {R : State ι σ → State ι σ → Prop} [Std.Refl R] [IsTrans (State ι σ) R]
    (sets : ∀ x v, Moves R (setGlobal x v : Action (State ι σ) Unit))
    {native : Call ι σ → ι → List (Value ι) → Action (State ι σ) (Value ι)}
    (natives : ∀ call, (∀ v args, Moves R (call v args)) → ∀ n args, Moves R (native call n args)) (depth : Nat)
    (v : Value ι) (args : List (Value ι)) : Moves R (callValue r native depth v args) := by
  have within : ∀ {x : Action (State ι σ) (Value ι)}, Moves R x → (moving R).Holds (Value.Within .everything) x x :=
    fun moves => ⟨moves, fun _ v _ => within_everything v⟩
  have permits : (moving R).Permits .everything :=
    ⟨fun _ => within fun s => Std.Refl.refl s, fun _ _ => ⟨sets _ _, fun _ _ _ => trivial⟩⟩
  have calls := judge_call (r := r) permits (fun call calls n args _ _ => within
    (natives call (fun v args => (calls v args (within_everything v) fun a _ => within_everything a).1) n args)) depth
  exact (calls v args (within_everything v) fun a _ => within_everything a).1

/-! ## Code that only observes -/

/-- Under these globals the result depends on a part of the host, and nothing changes. -/
def observing (globals : Bytes → Value ι) (view : σ → τ) : Judgement ι σ where
  Holds P x _ := ∀ s t, s.globals = globals → t.globals = globals → view s.host = view t.host →
    returned (x s) = returned (x t) ∧ finalState (x s) = s ∧ ∀ a, returned (x s) = .ok a → P a
  pure holds := fun s t _ _ _ => ⟨rfl, rfl, fun b returns => Except.ok.inj returns ▸ holds⟩
  throw e _ := fun s t _ _ _ => ⟨rfl, rfl, fun a returns => by cases returns⟩
  bind := by
    intro α β P Q x y f g first next s t onS onT same
    obtain ⟨result, unchanged, holds⟩ := first s t onS onT same
    have unchanged' : finalState (x t) = t := (first t s onT onS same.symm).2.1
    rcases same_outcome result with ⟨a, runS, runT⟩ | ⟨e, runS, runT⟩
    · rw [unchanged] at runS
      rw [unchanged'] at runT
      rw [bind_of_ok runS, bind_of_ok runT]
      exact next a (holds a (congrArg returned runS)) s t onS onT same
    · rw [bind_of_error runS, bind_of_error runT]
      exact ⟨rfl, unchanged, fun b returns => by cases returns⟩

section
variable {r : Rounding} {reads : Bytes → Prop} {allowed : ι → Prop} {globals : Bytes → Value ι} {view : σ → τ}

theorem observing_run {P : α → Prop} {x : Action (State ι σ) α} (observes : (observing globals view).Holds P x x) {s t : State ι σ}
    (onS : s.globals = globals) (onT : t.globals = globals) (same : view s.host = view t.host) :
    x s = evaluate (returned (x t)) s := by
  obtain ⟨result, unchanged, -⟩ := observes s t onS onT same
  rw [← result]
  cases ran : x s with
  | ok a s' =>
      rw [ran] at unchanged
      rw [← unchanged]
      rfl
  | error e s' =>
      rw [ran] at unchanged
      rw [← unchanged]
      rfl

theorem observing_permits (within : ∀ x, reads x → (globals x).Within (.observer reads allowed)) :
    (observing globals view).Permits (.observer reads allowed) := by
  constructor
  · rintro x isRead s t rfl same _
    refine ⟨?_, rfl, fun v returns => ?_⟩
    · show Except.ok (s.globals x) = .ok (t.globals x)
      rw [same]
    · cases returns
      exact within x isRead
  · exact fun none => none.elim

end

/-! ## Code that does as much as other code -/

/-- In the state `s`: what the first code returns the second does, without a change. -/
def following (s : State ι σ) : Judgement ι σ where
  Holds P x y := ∀ a t, x s = .ok a t → t = s ∧ P a ∧ y s = .ok a s
  pure holds := by
    rintro b t ⟨⟩
    exact ⟨rfl, holds, rfl⟩
  throw e _ := nofun
  bind := by
    intro α β P Q x y f g first next b t returns
    obtain ⟨a, u, run, later⟩ := bind_eq_ok.mp returns
    obtain ⟨rfl, holds, run'⟩ := first a u run
    rw [bind_of_ok run']
    exact next a holds b t later

theorem following_permits {s : State ι σ} {reads : Bytes → Prop} {allowed : ι → Prop}
    (within : ∀ x, reads x → (s.globals x).Within (.observer reads allowed)) : (following s).Permits (.observer reads allowed) := by
  constructor
  · rintro x isRead v t ⟨⟩
    exact ⟨rfl, within x isRead, rfl⟩
  · exact fun none => none.elim

end Foundation.Lua
