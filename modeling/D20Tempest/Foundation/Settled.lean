import D20Tempest.Foundation.Replacing

namespace Foundation

/-! ## What jobs leave -/

section Definitions
variable (cwd : Path) (view : Path → Option Node) (job : Job)

/-- All directories on the path of the job are there. -/
def Leads : Prop := ∀ q ∈ through cwd job.path, view q = some .directory

instance : Decidable (Leads cwd view job) := inferInstanceAs (Decidable (∀ q ∈ through cwd job.path, view q = some .directory))

/-- What the job leaves at each place. It does nothing where a directory on its path is missing. -/
def settle : Path → Option Node :=
  if Leads cwd view job then Function.update view (job.place cwd) (replacement cwd job.path job.text) else view

def settled (jobs : List Job) : Path → Option Node := jobs.foldl (settle cwd) view

/-- The job finds a directory at its place, and cannot remove it. -/
structure Stuck : Prop where
  leads : Leads cwd view job
  directory : view (job.place cwd) = some .directory
  refuses : FileTree.endsInDot job.path = true ∨ ∃ name, (view (name :: job.place cwd)).isSome = true

/-- The job finds an empty directory at its place, and removes it. -/
structure Clears : Prop where
  leads : Leads cwd view job
  directory : view (job.place cwd) = some .directory
  undotted : FileTree.endsInDot job.path = false
  empty : ∀ name, view (name :: job.place cwd) = none

/-- None of the jobs finds a directory that it cannot remove. -/
def Unstuck (cwd : Path) : (Path → Option Node) → List Job → Prop
  | _, [] => True
  | view, job :: rest => ¬ Stuck cwd view job ∧ Unstuck cwd (settle cwd view job) rest

/-- Each job that leads somewhere, and is the last one to lead there, would write what is there. -/
def Idle (jobs : List Job) : Prop := ∀ before job after, jobs = before ++ job :: after → Leads cwd view job →
  (∀ later ∈ after, Leads cwd view later → later.place cwd ≠ job.place cwd) → view (job.place cwd) = some (.file job.text)

/-- Of the jobs whose paths lead somewhere in the end, the last one of its place. -/
def Remains (jobs : List Job) : Prop := ∃ before after, jobs = before ++ job :: after ∧ Leads cwd (settled cwd view jobs) job ∧
  ∀ later ∈ after, Leads cwd (settled cwd view jobs) later → later.place cwd ≠ job.place cwd

/-- Of the jobs that led somewhere at their turn, the last one of its place. -/
def Prevails (jobs : List Job) : Prop := ∃ before after, jobs = before ++ job :: after ∧ Leads cwd (settled cwd view before) job ∧
  ∀ more later rest, after = more ++ later :: rest → Leads cwd (settled cwd view (before ++ job :: more)) later →
    later.place cwd ≠ job.place cwd

/-- At no place was a text replaced on a way that has been cut since, by one that differs from the last on a way that stays. -/
def Steady (jobs : List Job) : Prop := ∀ first last, Remains cwd view first jobs → Prevails cwd view last jobs →
  first.place cwd = last.place cwd → first.text = last.text

/-- There is no job left, or the next one is stuck. -/
inductive Stops : List Job → Prop where
  | finished : Stops []
  | stuck {job : Job} {rest : List Job} (stuck : Stuck cwd view job) : Stops (job :: rest)

/-- The jobs that do not lead to the base. -/
def beside (cwd base : Path) (jobs : List Job) : List Job := jobs.filter fun job => job.place cwd ≠ base

/-- With the base empty, and in place again before each of these jobs: none is stuck, the last one leads to the base, and
the others change nothing. -/
structure Vain (cwd base : Path) (view : Path → Option Node) (jobs : List Job) : Prop where
  free : ∀ job ∈ jobs, ¬ Stuck cwd view job
  last : ∃ job, jobs.getLast? = some job ∧ Leads cwd view job ∧ job.place cwd = base
  idle : Idle cwd view (beside cwd base jobs)

def untilThrow : List Job → List Job
  | [] => []
  | job :: rest => match job.ends with
      | .ok _ => job :: untilThrow rest
      | .error _ => [job]

/-- Where the jobs stop, or one of them removes the base, those before it are steady, and those from it on are in vain. -/
structure Undisturbed (cwd base : Path) (view : Path → Option Node) (jobs : List Job) : Prop where
  stops : ∀ done rest, untilThrow jobs = done ++ rest → Unstuck cwd view done → Stops cwd (settled cwd view done) rest →
    Steady cwd view done
  clears : ∀ done job rest, untilThrow jobs = done ++ job :: rest → Unstuck cwd view done →
    Clears cwd (settled cwd view done) job → job.place cwd = base →
      Steady cwd view done ∧ Vain cwd base (settled cwd view done) (job :: rest)

end Definitions

section Settled
variable {cwd : Path} {view : Path → Option Node} {job : Job} {jobs rest : List Job} {q : Path}

theorem settled_append (cwd : Path) (view : Path → Option Node) (jobs rest : List Job) :
    settled cwd view (jobs ++ rest) = settled cwd (settled cwd view jobs) rest := List.foldl_append

theorem settle_of_leads (leads : Leads cwd view job) :
    settle cwd view job = Function.update view (job.place cwd) (replacement cwd job.path job.text) := if_pos leads

theorem settle_of_lost (lost : ¬ Leads cwd view job) : settle cwd view job = view := if_neg lost

theorem settle_place (leads : Leads cwd view job) : settle cwd view job (job.place cwd) = replacement cwd job.path job.text := by
  rw [settle_of_leads leads, Function.update_self]

theorem settle_elsewhere (away : Leads cwd view job → job.place cwd ≠ q) : settle cwd view job q = view q := by
  by_cases leads : Leads cwd view job
  · rw [settle_of_leads leads, Function.update_of_ne (Ne.symm (away leads))]
  · rw [settle_of_lost leads]

theorem replacement_of_leads (leads : Leads cwd view job) (free : view (job.place cwd) ≠ some .directory) :
    replacement cwd job.path job.text = some (.file job.text) := if_neg fun on => free (leads _ on)

theorem directory_of_settle (dir : settle cwd view job q = some .directory) : view q = some .directory := by
  by_cases here : Leads cwd view job ∧ job.place cwd = q
  · obtain ⟨leads, rfl⟩ := here
    rw [settle_place leads] at dir
    exact absurd dir (replacement_ne_directory _ _ _)
  · rwa [settle_elsewhere fun leads eq => here ⟨leads, eq⟩] at dir

theorem directory_of_settled (dir : settled cwd view jobs q = some .directory) : view q = some .directory := by
  induction jobs generalizing view with
  | nil => exact dir
  | cons job rest ih => exact directory_of_settle (ih dir)

theorem leads_of_settled (leads : Leads cwd (settled cwd view jobs) job) : Leads cwd view job := fun q mem =>
  directory_of_settled (leads q mem)

theorem file_of_settle (file : ∃ bytes, view q = some (.file bytes)) : ∃ bytes, settle cwd view job q = some (.file bytes) := by
  by_cases here : Leads cwd view job ∧ job.place cwd = q
  · obtain ⟨leads, rfl⟩ := here
    obtain ⟨bytes, held⟩ := file
    exact ⟨job.text, by rw [settle_place leads, replacement_of_leads leads (by simp [held])]⟩
  · rwa [settle_elsewhere fun leads eq => here ⟨leads, eq⟩]

theorem file_of_settled (file : ∃ bytes, view q = some (.file bytes)) : ∃ bytes, settled cwd view jobs q = some (.file bytes) := by
  induction jobs generalizing view with
  | nil => exact file
  | cons job rest ih => exact ih (file_of_settle file)

/-- What no job replaces at its turn is left as it was. -/
theorem settled_of_untouched (untouched : ∀ before later after, jobs = before ++ later :: after →
    Leads cwd (settled cwd view before) later → later.place cwd ≠ q) : settled cwd view jobs q = view q := by
  induction jobs generalizing view with
  | nil => rfl
  | cons job rest ih =>
      have first : settle cwd view job q = view q := settle_elsewhere (untouched [] job rest rfl)
      refine (ih fun before later after eq leads => ?_).trans first
      exact untouched (job :: before) later after (by rw [eq, List.cons_append]) leads

theorem settled_of_none (none : ∀ later ∈ jobs, Leads cwd view later → later.place cwd ≠ q) : settled cwd view jobs q = view q := by
  apply settled_of_untouched
  intro before later after eq leads
  exact none later (by simp [eq]) (leads_of_settled leads)

theorem clears_of_free (leads : Leads cwd view job) (dir : view (job.place cwd) = some .directory)
    (free : ¬ Stuck cwd view job) : Clears cwd view job := by
  refine ⟨leads, dir, ?_, fun name => ?_⟩
  · by_contra dotted
    exact free ⟨leads, dir, .inl (Bool.not_eq_false _ ▸ dotted)⟩
  · by_contra there
    exact free ⟨leads, dir, .inr ⟨name, Option.isSome_iff_ne_none.mpr there⟩⟩

theorem Clears.free (clears : Clears cwd view job) : ¬ Stuck cwd view job := by
  intro stuck
  rcases stuck.refuses with dotted | ⟨name, there⟩
  · rw [clears.undotted] at dotted
    cases dotted
  · rw [clears.empty] at there
    cases there

theorem unstuck_append : Unstuck cwd view (jobs ++ rest) ↔ Unstuck cwd view jobs ∧ Unstuck cwd (settled cwd view jobs) rest := by
  induction jobs generalizing view with
  | nil => exact (and_iff_right trivial).symm
  | cons job jobs ih => exact (and_congr_right fun _ => ih).trans and_assoc.symm

/-! ### Jobs that remove nothing -/

/-- No job leads to a directory. -/
def Tame (cwd : Path) (view : Path → Option Node) (jobs : List Job) : Prop :=
  ∀ job ∈ jobs, Leads cwd view job → view (job.place cwd) ≠ some .directory

theorem directory_settled_iff (tame : Tame cwd view jobs) : settled cwd view jobs q = some .directory ↔ view q = some .directory := by
  refine ⟨directory_of_settled, fun dir => ?_⟩
  rw [settled_of_none, dir]
  rintro job mem leads rfl
  exact tame job mem leads dir

theorem leads_settled_iff (tame : Tame cwd view jobs) : Leads cwd (settled cwd view jobs) job ↔ Leads cwd view job :=
  forall₂_congr fun _ _ => directory_settled_iff tame

theorem isSome_settled (tame : Tame cwd view jobs) (there : (view q).isSome = true) : (settled cwd view jobs q).isSome = true := by
  obtain ⟨node, held⟩ := Option.isSome_iff_exists.mp there
  cases node with
  | directory => rw [(directory_settled_iff tame).mpr held, Option.isSome_some]
  | file bytes =>
      have stays : ∃ bytes, settled cwd view jobs q = some (.file bytes) := file_of_settled ⟨bytes, held⟩
      obtain ⟨bytes', left⟩ := stays
      rw [left, Option.isSome_some]

theorem unstuck_of_tame (tame : Tame cwd view jobs) : Unstuck cwd view jobs := by
  induction jobs generalizing view with
  | nil => trivial
  | cons job rest ih =>
      have alone : Tame cwd view [job] := fun m mem => tame m (List.mem_cons.mpr (.inl (List.mem_singleton.mp mem)))
      refine ⟨fun stuck => tame job (List.mem_cons_self ..) stuck.leads stuck.directory, ih fun m mem leads dir => ?_⟩
      exact tame m (List.mem_cons_of_mem _ mem) ((leads_settled_iff alone).mp leads) (directory_of_settle dir)

theorem exists_last (p : Job → Prop) (jobs : List Job) : (∀ job ∈ jobs, ¬ p job) ∨
    ∃ before job after, jobs = before ++ job :: after ∧ p job ∧ ∀ later ∈ after, ¬ p later := by
  induction jobs with
  | nil => exact .inl nofun
  | cons job rest ih =>
      rcases ih with none | ⟨before, last, after, rfl, found, later⟩
      · by_cases here : p job
        · exact .inr ⟨[], job, rest, rfl, here, none⟩
        · exact .inl (List.forall_mem_cons.mpr ⟨here, none⟩)
      · exact .inr ⟨job :: before, last, after, rfl, found, later⟩

theorem settled_of_last {before after : List Job} (tame : Tame cwd view (before ++ job :: after)) (leads : Leads cwd view job)
    (last : ∀ later ∈ after, Leads cwd view later → later.place cwd ≠ job.place cwd) :
    settled cwd view (before ++ job :: after) (job.place cwd) = some (.file job.text) := by
  have early : Tame cwd view before := fun m mem => tame m (List.mem_append_left _ mem)
  have turn : Leads cwd (settled cwd view before) job := (leads_settled_iff early).mpr leads
  have free : settled cwd view before (job.place cwd) ≠ some .directory := fun dir =>
    tame job (by simp) leads (directory_of_settled dir)
  have stays : settled cwd (settle cwd (settled cwd view before) job) after (job.place cwd) =
      settle cwd (settled cwd view before) job (job.place cwd) :=
    settled_of_none fun m mem leadsM => last m mem (leads_of_settled fun q on => directory_of_settle (leadsM q on))
  rw [settled_append]
  exact stays.trans ((settle_place turn).trans (replacement_of_leads turn free))

theorem tame_of_idle (idle : Idle cwd view jobs) : Tame cwd view jobs := by
  intro job mem leads dir
  rcases exists_last (fun m => Leads cwd view m ∧ m.place cwd = job.place cwd) jobs with none | ⟨before, m, after, eq, here, last⟩
  · exact none job mem ⟨leads, rfl⟩
  · have file := idle before m after eq here.1 fun later memLater leadsLater same =>
      last later memLater ⟨leadsLater, same.trans here.2⟩
    rw [here.2, dir] at file
    cases file

theorem tame_of_kept (kept : ∀ q, view q = some .directory → settled cwd view jobs q = some .directory) : Tame cwd view jobs := by
  intro job mem leads dir
  obtain ⟨before, after, rfl⟩ := List.append_of_mem mem
  rw [settled_append] at kept
  have turn : Leads cwd (settled cwd view before) job := fun q on => directory_of_settle (directory_of_settled (kept q (leads q on)))
  have left : settle cwd (settled cwd view before) job (job.place cwd) = some .directory := directory_of_settled (kept _ dir)
  rw [settle_place turn] at left
  exact replacement_ne_directory _ _ _ left

theorem tame_of_settled (same : settled cwd view jobs = view) : Tame cwd view jobs := by
  apply tame_of_kept
  intro q dir
  rw [same, dir]

/-- Jobs leave everything as it is exactly if the last one of each place writes what is there. -/
theorem settled_eq_self_iff : settled cwd view jobs = view ↔ Idle cwd view jobs := by
  constructor
  · rintro same before job after rfl leads last
    rw [← settled_of_last (tame_of_settled same) leads last, same]
  · intro idle
    funext q
    rcases exists_last (fun m => Leads cwd view m ∧ m.place cwd = q) jobs with none | ⟨before, m, after, rfl, ⟨leads, rfl⟩, last⟩
    · exact settled_of_none fun m mem leads place => none m mem ⟨leads, place⟩
    · have later : ∀ n ∈ after, Leads cwd view n → n.place cwd ≠ m.place cwd := fun n mem leadsN place => last n mem ⟨leadsN, place⟩
      rw [settled_of_last (tame_of_idle idle) leads later, idle before m after rfl leads later]

/-! ### Jobs that were done before -/

/-- A job whose path still leads somewhere in the end has left a file there. -/
theorem file_of_leads (mem : job ∈ jobs) (leads : Leads cwd (settled cwd view jobs) job) :
    ∃ bytes, settled cwd view jobs (job.place cwd) = some (.file bytes) := by
  obtain ⟨before, after, rfl⟩ := List.append_of_mem mem
  rw [settled_append] at leads ⊢
  have next : Leads cwd (settle cwd (settled cwd view before) job) job := leads_of_settled leads
  have turn : Leads cwd (settled cwd view before) job := fun q on => directory_of_settle (next q on)
  have left := settle_place turn
  have off : job.place cwd ∉ through cwd job.path := fun on => by
    rw [next _ on] at left
    exact replacement_ne_directory _ _ _ left.symm
  have file : ∃ bytes, settle cwd (settled cwd view before) job (job.place cwd) = some (.file bytes) := ⟨_, left.trans (if_neg off)⟩
  have stays : ∃ bytes, settled cwd (settle cwd (settled cwd view before) job) after (job.place cwd) = some (.file bytes) :=
    file_of_settled file
  exact stays

theorem tame_again (cwd : Path) (view : Path → Option Node) (jobs : List Job) : Tame cwd (settled cwd view jobs) jobs := by
  intro job mem leads dir
  obtain ⟨bytes, file⟩ := file_of_leads mem leads
  rw [dir] at file
  cases file

theorem stuck_again (stuck : Stuck cwd (settled cwd view jobs) job) :
    Stuck cwd (settled cwd (settled cwd view jobs) jobs) job where
  leads := (leads_settled_iff (tame_again cwd view jobs)).mpr stuck.leads
  directory := (directory_settled_iff (tame_again cwd view jobs)).mpr stuck.directory
  refuses := stuck.refuses.imp_right fun entry => entry.imp fun _ => isSome_settled (tame_again cwd view jobs)

theorem clears_again (clears : Clears cwd (settled cwd view jobs) job) :
    Clears cwd (settled cwd (settled cwd view jobs) jobs) job where
  leads := (leads_settled_iff (tame_again cwd view jobs)).mpr clears.leads
  directory := (directory_settled_iff (tame_again cwd view jobs)).mpr clears.directory
  undotted := clears.undotted
  empty name := by
    rw [settled_of_none, clears.empty name]
    intro m mem leads place
    obtain ⟨bytes, file⟩ := file_of_leads mem leads
    rw [place, clears.empty] at file
    cases file

theorem Stops.again (stops : Stops cwd (settled cwd view jobs) rest) : Stops cwd (settled cwd (settled cwd view jobs) jobs) rest := by
  cases stops with
  | finished => exact .finished
  | stuck stuck => exact .stuck (stuck_again stuck)

/-! ### The texts that stay -/

theorem settled_of_prevails (prevails : Prevails cwd view job jobs) :
    settled cwd view jobs (job.place cwd) = replacement cwd job.path job.text := by
  obtain ⟨before, after, rfl, turn, last⟩ := prevails
  have stays : settled cwd (settle cwd (settled cwd view before) job) after (job.place cwd) =
      settle cwd (settled cwd view before) job (job.place cwd) := by
    apply settled_of_untouched
    intro more later rest eq leads
    apply last more later rest eq
    rwa [settled_append]
  rw [settled_append]
  exact stays.trans (settle_place turn)

theorem exists_prevails (cwd : Path) (view : Path → Option Node) (jobs : List Job) (q : Path) :
    (∀ before job after, jobs = before ++ job :: after → Leads cwd (settled cwd view before) job → job.place cwd ≠ q) ∨
      ∃ last, Prevails cwd view last jobs ∧ last.place cwd = q := by
  induction jobs generalizing view with
  | nil => exact .inl fun before job after eq => by simp at eq
  | cons job rest ih =>
      rcases ih (settle cwd view job) with none | ⟨last, ⟨before, after, rfl, turn, later⟩, place⟩
      · by_cases here : Leads cwd view job ∧ job.place cwd = q
        · refine .inr ⟨job, ⟨[], rest, rfl, here.1, fun more later after eq leads => ?_⟩, here.2⟩
          rw [here.2]
          exact none more later after eq leads
        · refine .inl fun before m after eq leads place => ?_
          rcases List.cons_eq_append_iff.mp eq with ⟨rfl, same⟩ | ⟨tail, rfl, more⟩
          · obtain ⟨rfl, -⟩ := List.cons.inj same
            exact here ⟨leads, place⟩
          · exact none tail m after more leads place
      · exact .inr ⟨last, ⟨job :: before, after, rfl, turn, later⟩, place⟩

/-- Jobs that are done again change nothing exactly if they are steady. -/
theorem idle_iff_steady : Idle cwd (settled cwd view jobs) jobs ↔ Steady cwd view jobs := by
  constructor
  · rintro idle first last ⟨before, after, eq, leads, later⟩ prevails same
    have file := idle before first after eq leads later
    rw [same, settled_of_prevails prevails, replacement] at file
    split at file
    · cases file
    · exact (Node.file.inj (Option.some.inj file)).symm
  · intro steady before job after eq leads later
    have mem : job ∈ jobs := by simp [eq]
    obtain ⟨bytes, file⟩ := file_of_leads mem leads
    rcases exists_prevails cwd view jobs (job.place cwd) with none | ⟨last, prevails, place⟩
    · refine absurd rfl (none before job after eq ?_)
      rw [eq, settled_append] at leads
      exact leads_of_settled leads
    · have text := steady job last ⟨before, after, eq, leads, later⟩ prevails place.symm
      have held := settled_of_prevails prevails
      rw [place, file, replacement] at held
      split at held
      · cases held
      · rw [file, held, text]

theorem again_iff_steady : settled cwd (settled cwd view jobs) jobs = settled cwd view jobs ↔ Steady cwd view jobs :=
  settled_eq_self_iff.trans idle_iff_steady

theorem steady_of_ways (ways : ∀ first ∈ jobs, ∀ last ∈ jobs, through cwd first.path = through cwd last.path) :
    Steady cwd view jobs := by
  rintro first last ⟨before, after, eq, leads, later⟩ ⟨before', after', eq', -, later'⟩ same
  have way := ways first (by simp [eq]) last (by simp [eq'])
  rcases List.append_eq_append_iff.mp (eq.symm.trans eq') with ⟨between, -, parts⟩ | ⟨between, rfl, parts⟩
  · cases between with
    | nil => rw [(List.cons.inj parts).1]
    | cons next more =>
        obtain ⟨rfl, rfl⟩ := List.cons.inj parts
        exact absurd same.symm (later last (by simp) fun q on => leads q (way.symm ▸ on))
  · cases between with
    | nil => rw [(List.cons.inj parts).1]
    | cons next more =>
        rw [List.cons_append] at parts
        obtain ⟨rfl, tail⟩ := List.cons.inj parts
        refine absurd same (later' more first after tail ?_)
        have split : jobs = (before' ++ last :: more) ++ first :: after := by rw [eq', tail, List.append_assoc, List.cons_append]
        rw [split, settled_append] at leads
        exact leads_of_settled leads

/-! ### A base that is made again -/

/-- None of the jobs is stuck at its turn, where the base is in place again. -/
def Passes (cwd base : Path) (view : Path → Option Node) (jobs : List Job) : Prop :=
  ∀ before job after, jobs = before ++ job :: after → ¬ Stuck cwd (settled cwd view (beside cwd base before)) job

theorem beside_cons (cwd base : Path) (job : Job) (rest : List Job) :
    beside cwd base (job :: rest) = beside cwd base [job] ++ beside cwd base rest := List.filter_append [job] rest

theorem passes_cons {base : Path} : Passes cwd base view (job :: rest) ↔
    ¬ Stuck cwd view job ∧ Passes cwd base (settled cwd view (beside cwd base [job])) rest := by
  constructor
  · intro passes
    refine ⟨passes [] job rest rfl, fun before m after eq => ?_⟩
    have free := passes (job :: before) m after (by rw [eq, List.cons_append])
    rwa [beside_cons, settled_append] at free
  · rintro ⟨free, passes⟩ before m after eq
    rcases List.cons_eq_append_iff.mp eq with ⟨rfl, same⟩ | ⟨tail, rfl, more⟩
    · obtain ⟨rfl, -⟩ := List.cons.inj same
      exact free
    · rw [beside_cons, settled_append]
      exact passes tail m after more

theorem settled_beside_base (cwd base : Path) (view : Path → Option Node) (jobs : List Job) :
    settled cwd view (beside cwd base jobs) base = view base :=
  settled_of_none fun _ mem _ => of_decide_eq_true (List.mem_filter.mp mem).2

theorem passes_iff {base : Path} (same : settled cwd view (beside cwd base jobs) = view) :
    Passes cwd base view jobs ↔ ∀ job ∈ jobs, ¬ Stuck cwd view job := by
  have alike : ∀ before job after, jobs = before ++ job :: after →
      (Stuck cwd (settled cwd view (beside cwd base before)) job ↔ Stuck cwd view job) := by
    intro before job after eq
    have parts : beside cwd base jobs = beside cwd base before ++ beside cwd base (job :: after) := by
      rw [eq]
      exact List.filter_append ..
    have back : settled cwd (settled cwd view (beside cwd base before)) (beside cwd base (job :: after)) = view := by
      rw [← settled_append, ← parts, same]
    have tame : Tame cwd view (beside cwd base before) := fun m mem =>
      tame_of_settled same m (by rw [parts]; exact List.mem_append_left _ mem)
    have later : Tame cwd (settled cwd view (beside cwd base before)) (beside cwd base (job :: after)) := by
      apply tame_of_kept
      intro q dir
      rw [back]
      exact directory_of_settled dir
    constructor
    · intro stuck
      refine ⟨(leads_settled_iff tame).mp stuck.leads, (directory_settled_iff tame).mp stuck.directory, ?_⟩
      refine stuck.refuses.imp_right fun entry => entry.imp fun name there => ?_
      have stays := isSome_settled later there
      rwa [back] at stays
    · intro stuck
      exact ⟨(leads_settled_iff tame).mpr stuck.leads, (directory_settled_iff tame).mpr stuck.directory,
        stuck.refuses.imp_right fun entry => entry.imp fun _ => isSome_settled tame⟩
  constructor
  · intro passes job mem stuck
    obtain ⟨before, after, eq⟩ := List.append_of_mem mem
    exact passes before job after eq ((alike before job after eq).mpr stuck)
  · intro free before job after eq stuck
    exact free job (by simp [eq]) ((alike before job after eq).mp stuck)

theorem settle_of_base {base : Path} (leads : Leads cwd view job) (here : job.place cwd = base) (inside : base ∈ through cwd job.path) :
    settle cwd view job = Function.update view base none := by
  have on : job.place cwd ∈ through cwd job.path := by rwa [here]
  have removed : replacement cwd job.path job.text = none := if_pos on
  rw [settle_of_leads leads, here, removed]

theorem settled_of_removed {base : Path} (gone : view base ≠ some .directory) (inside : ∀ job ∈ jobs, base ∈ through cwd job.path) :
    Unstuck cwd view jobs ∧ settled cwd view jobs = view := by
  induction jobs with
  | nil => exact ⟨trivial, rfl⟩
  | cons job rest ih =>
      have lost : ¬ Leads cwd view job := fun leads => gone (leads base (inside job (List.mem_cons_self ..)))
      obtain ⟨unstuck, same⟩ := ih fun m mem => inside m (List.mem_cons_of_mem _ mem)
      have next : settle cwd view job = view := settle_of_lost lost
      refine ⟨⟨fun stuck => lost stuck.leads, by rwa [next]⟩, ?_⟩
      rw [settled, List.foldl_cons, next]
      exact same

/-- As long as the base is in place, the jobs go on until they stop or one of them removes it. -/
theorem exists_halt {base : Path} (dir : view base = some .directory) (jobs : List Job) : ∃ done rest, jobs = done ++ rest ∧
    Unstuck cwd view done ∧ settled cwd view done base = some .directory ∧ (Stops cwd (settled cwd view done) rest ∨
      ∃ job more, rest = job :: more ∧ Clears cwd (settled cwd view done) job ∧ job.place cwd = base) := by
  induction jobs generalizing view with
  | nil => exact ⟨[], [], rfl, trivial, dir, .inl .finished⟩
  | cons job rest ih =>
      by_cases stuck : Stuck cwd view job
      · exact ⟨[], job :: rest, rfl, trivial, dir, .inl (.stuck stuck)⟩
      by_cases here : Leads cwd view job ∧ job.place cwd = base
      · obtain ⟨leads, rfl⟩ := here
        exact ⟨[], job :: rest, rfl, trivial, dir, .inr ⟨job, rest, rfl, clears_of_free leads dir stuck, rfl⟩⟩
      · have next : settle cwd view job base = some .directory := by
          rw [settle_elsewhere fun leads same => here ⟨leads, same⟩, dir]
        obtain ⟨done, more, rfl, unstuck, stays, halts⟩ := ih next
        exact ⟨job :: done, more, rfl, ⟨stuck, unstuck⟩, stays, halts⟩

end Settled

/-! ## Runs of jobs -/

section Runs
variable {cwd : Path} {view : Path → Option Node} {job : Job} {jobs done rest : List Job} {t : FileTree}

section Turn
variable (held : t.nodes.find = view)
include held

theorem passable_iff : t.Passable cwd job.path ↔ Leads cwd view job := by
  simp only [FileTree.Passable, Leads, FileTree.isDirectory_iff, held]

theorem refuses_iff (passable : t.Passable cwd job.path) : t.Refuses cwd job.path ↔ Stuck cwd view job := by
  have leads := (passable_iff held).mp passable
  constructor
  · intro refuses
    refine ⟨leads, held ▸ FileTree.isDirectory_iff.mp refuses.1, refuses.2.imp_right fun entries => ?_⟩
    exact held ▸ FileTree.hasEntries_iff.mp entries
  · intro stuck
    refine ⟨FileTree.isDirectory_iff.mpr (held ▸ stuck.directory), stuck.refuses.imp_right fun entry => ?_⟩
    exact FileTree.hasEntries_iff.mpr (held ▸ entry)

theorem turn_of_free (free : ¬ Stuck cwd view job) : returned (runJob cwd job t) = job.ends ∧
    (finalState (runJob cwd job t)).nodes.find = settle cwd view job := by
  cases jobOutcome cwd t job with
  | lost lost returns left =>
      refine ⟨returns, ?_⟩
      rw [left, held, settle_of_lost (fun leads => lost ((passable_iff held).mpr leads))]
  | refused passable refuses => exact absurd ((refuses_iff held passable).mp refuses) free
  | done passable _ returns left =>
      refine ⟨returns, funext fun q => ?_⟩
      rw [left, settle_of_leads ((passable_iff held).mp passable), Function.update_apply, held]

theorem turn_of_stuck (stuck : Stuck cwd view job) : returned (runJob cwd job t) = .error .filesystemError ∧
    finalState (runJob cwd job t) = t := by
  have passable := (passable_iff held).mpr stuck.leads
  have fails := replaceFile_of_refuses passable ((refuses_iff held passable).mpr stuck) job.text job.ends
  exact ⟨congrArg returned fails, congrArg finalState fails⟩

theorem run_of_unstuck (complete : ∀ job ∈ jobs, job.ends = .ok ()) (unstuck : Unstuck cwd view jobs) :
    ∃ u, jobs.forM (runJob cwd) t = .ok () u ∧ u.nodes.find = settled cwd view jobs := by
  induction jobs generalizing t view with
  | nil => exact ⟨t, rfl, held⟩
  | cons job rest ih =>
      obtain ⟨returns, left⟩ := turn_of_free held unstuck.1
      have ends := returns.trans (complete job (List.mem_cons_self ..))
      obtain ⟨u, run, settles⟩ := ih left (fun m mem => complete m (List.mem_cons_of_mem _ mem)) unstuck.2
      refine ⟨u, ?_, settles⟩
      rw [List.forM_eq_forM, List.forM_cons, bind_of_ok (eq_ok_of_returned ends rfl)]
      exact run

end Turn

/-- Only the last of the jobs may throw by itself. -/
def Ending (jobs : List Job) : Prop := ∀ job ∈ jobs.dropLast, job.ends = .ok ()

theorem complete_of_ending (ending : Ending (done ++ job :: rest)) : ∀ m ∈ done, m.ends = .ok () := by
  rw [Ending, List.dropLast_append_cons] at ending
  exact fun m mem => ending m (List.mem_append_left _ mem)

theorem Ending.drop (ending : Ending (done ++ rest)) : Ending rest := by
  intro m mem
  cases rest with
  | nil => cases mem
  | cons job rest =>
      rw [Ending, List.dropLast_append_cons] at ending
      exact ending m (List.mem_append_right _ mem)

theorem Ending.tail (ending : Ending (job :: rest)) : Ending rest :=
  Ending.drop (show Ending ([job] ++ rest) from ending)

theorem left_of_unstuck (held : t.nodes.find = view) (ending : Ending jobs) (unstuck : Unstuck cwd view jobs) :
    (finalState (jobs.forM (runJob cwd) t)).nodes.find = settled cwd view jobs := by
  rcases List.eq_nil_or_concat jobs with rfl | ⟨done, job, rfl⟩
  · exact held
  · rw [List.concat_eq_append] at *
    obtain ⟨before, free, -⟩ := unstuck_append.mp unstuck
    obtain ⟨u, run, left⟩ := run_of_unstuck held (complete_of_ending ending) before
    rw [forM_append_of_ok run, forM_singleton, settled_append]
    exact (turn_of_free left free).2

theorem left_of_stops (held : t.nodes.find = view) (ending : Ending (done ++ rest)) (unstuck : Unstuck cwd view done)
    (stops : Stops cwd (settled cwd view done) rest) :
    (finalState ((done ++ rest).forM (runJob cwd) t)).nodes.find = settled cwd view done := by
  cases stops with
  | finished =>
      rw [List.append_nil] at ending ⊢
      exact left_of_unstuck held ending unstuck
  | @stuck job rest stuck =>
      obtain ⟨u, run, left⟩ := run_of_unstuck held (complete_of_ending ending) unstuck
      obtain ⟨fails, stays⟩ := turn_of_stuck left stuck
      rw [forM_append_of_ok run, finalState_forM_cons, fails]
      exact (congrArg (fun u : FileTree => u.nodes.find) stays).trans left

theorem ending_untilThrow (jobs : List Job) : Ending (untilThrow jobs) := by
  induction jobs with
  | nil => exact nofun
  | cons job rest ih =>
      rw [untilThrow]
      cases ends : job.ends with
      | error e => exact nofun
      | ok u =>
          intro m mem
          cases tail : untilThrow rest with
          | nil =>
              rw [tail] at mem
              cases mem
          | cons next more =>
              rw [tail, List.dropLast_cons_cons] at mem
              rcases List.mem_cons.mp mem with rfl | later
              · exact ends
              · exact ih m (tail ▸ later)

theorem mem_of_untilThrow (mem : job ∈ untilThrow jobs) : job ∈ jobs := by
  induction jobs with
  | nil => cases mem
  | cons first rest ih =>
      rw [untilThrow] at mem
      cases ends : first.ends with
      | error e =>
          rw [ends] at mem
          exact List.mem_cons.mpr (.inl (List.mem_singleton.mp mem))
      | ok u =>
          rw [ends] at mem
          exact List.mem_cons.mpr ((List.mem_cons.mp mem).imp_right ih)

theorem untilThrow_ne_nil (ne : jobs ≠ []) : untilThrow jobs ≠ [] := by
  obtain ⟨job, rest, rfl⟩ := List.exists_cons_of_ne_nil ne
  rw [untilThrow]
  cases job.ends <;> simp

/-- A loop over jobs that throw where they are to is over when the first one does. -/
theorem finalState_untilThrow {σ : Type} {f : Job → Action σ Unit}
    (throws : ∀ job e s, job.ends = .error e → ∃ e', returned (f job s) = .error e') (jobs : List Job) (s : σ) :
    finalState ((untilThrow jobs).forM f s) = finalState (jobs.forM f s) := by
  induction jobs generalizing s with
  | nil => rfl
  | cons job rest ih =>
      rw [untilThrow]
      cases ends : job.ends with
      | ok u =>
          rw [finalState_forM_cons, finalState_forM_cons]
          cases returned (f job s) with
          | ok u => exact ih _
          | error e => rfl
      | error e =>
          obtain ⟨e', fails⟩ := throws job e s ends
          rw [finalState_forM_cons, finalState_forM_cons, fails]

theorem throws_runJob {e : Fault} (ends : job.ends = .error e) (t : FileTree) : ∃ e', returned (runJob cwd job t) = .error e' := by
  cases jobOutcome cwd t job with
  | lost _ returns => exact ⟨e, returns.trans ends⟩
  | refused _ _ fails => exact ⟨_, fails⟩
  | done _ _ returns => exact ⟨e, returns.trans ends⟩

end Runs
end Foundation
