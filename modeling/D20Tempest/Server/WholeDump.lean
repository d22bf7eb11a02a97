import D20Tempest.Foundation.Settled
import D20Tempest.Server.DumpAll
import D20Tempest.Server.Frame

namespace D20Tempest.Server
open Foundation Components Characters CharacterManager

/-! ## Dumps on the files alone -/

section Files
variable (host : Host)

def prepare : Action FileTree Unit := fun tree => match readyFiles host tree with
  | some ready => .ok () ready
  | none => .error .filesystemError tree

def wholeDump (jobs : List Job) : Action FileTree Unit := do
  prepare host
  jobs.forM (runJob host.cwd)

def singleDump (job : Job) : Action FileTree Unit := do
  prepare host
  runJob host.cwd job

end Files

section Directory
variable {host : Host} {tree ready : FileTree}

theorem components_charactersPath : components charactersPath = [dot, str "characters", []] := by decide

theorem directory_eq (host : Host) : directory host = str "characters" :: host.cwd := rfl

theorem through_charactersPath (host : Host) : through host.cwd charactersPath = [host.cwd, host.cwd, directory host] := rfl

theorem directory_mem_through (host : Host) (name : Bytes) : directory host ∈ through host.cwd (charactersPath ++ name) := by
  have split : charactersPath ++ name = str "./characters" ++ slash :: name := rfl
  have parts : components (charactersPath ++ name) = [dot, str "characters"] ++ components name := by
    rw [split, components_append (by decide)]
    rfl
  obtain ⟨c, cs, eq⟩ := List.exists_cons_of_ne_nil (components_ne_nil name)
  rw [through, parts, along_append, eq]
  exact List.mem_append_right _ (List.mem_cons_self ..)

theorem through_of_isPlain (host : Host) {name : Bytes} (plain : IsPlain name) :
    through host.cwd (charactersPath ++ name) = [host.cwd, host.cwd, directory host] := by
  have split : charactersPath ++ name = str "./characters" ++ slash :: name := rfl
  have parts : components (charactersPath ++ name) = [dot, str "characters", name] := by
    rw [split, components_append (by decide), components_of_isPlain plain]
    rfl
  rw [through, parts]
  rfl

theorem place_of_isPlain (host : Host) {job : Job} {name : Bytes} (plain : IsPlain name)
    (path : job.path = charactersPath ++ name) : job.place host.cwd = name :: directory host := by
  rw [Job.place, path]
  exact (resolve_characterPath_iff host name).mpr plain

theorem passable_charactersPath_iff : tree.Passable host.cwd charactersPath ↔ tree.isDirectory (directory host) = true := by
  rw [FileTree.Passable, through_charactersPath]
  simp only [List.forall_mem_cons, List.not_mem_nil, false_implies, implies_true, and_true]
  constructor
  · intro dirs
    exact dirs.2.2
  · intro dir
    have up : tree.isDirectory host.cwd = true := by
      apply FileTree.isDirectory_iff.mpr
      apply tree.parents (str "characters")
      rw [← directory_eq, FileTree.isDirectory_iff.mp dir, Option.isSome_some]
    exact ⟨up, up, dir⟩

theorem pathExists_charactersPath (tree : FileTree) :
    tree.pathExists host.cwd charactersPath = tree.isDirectory (directory host) := by
  cases dir : tree.isDirectory (directory host) with
  | true =>
      rw [FileTree.pathExists_of_passable (passable_charactersPath_iff.mpr dir)]
      exact Option.isSome_of_eq_some (FileTree.isDirectory_iff.mp dir)
  | false =>
      have lost : ¬ tree.Passable host.cwd charactersPath := by
        rw [passable_charactersPath_iff, dir]
        simp
      simp only [FileTree.pathExists, FileTree.locate_of_not_passable lost]

theorem readyFiles_of_directory (dir : tree.isDirectory (directory host) = true) : readyFiles host tree = some tree := by
  rw [readyFiles, pathExists_charactersPath, dir, if_pos rfl]

theorem directory_of_readyFiles (readies : readyFiles host tree = some ready) : ready.isDirectory (directory host) = true := by
  rw [readyFiles, pathExists_charactersPath] at readies
  split at readies
  · cases readies
    assumption
  · exact FileTree.directory_createDirectories readies

theorem readyFiles_of_removed (dir : ready.isDirectory (directory host) = true)
    (gone : tree.nodes.find = Function.update ready.nodes.find (directory host) none) : readyFiles host tree = some ready := by
  have removed : ∀ q, tree.nodes.find q = if q = directory host then none else ready.nodes.find q := by
    intro q
    rw [gone, Function.update_apply]
  have gone : tree.nodes.find (directory host) = none := by rw [removed, if_pos rfl]
  have up : tree.nodes.find host.cwd = some .directory := by
    rw [removed, if_neg (by simp [directory_eq])]
    apply ready.parents (str "characters")
    rw [← directory_eq, FileTree.isDirectory_iff.mp dir, Option.isSome_some]
  have notDir : tree.isDirectory (directory host) = false := by simp [FileTree.isDirectory, gone]
  have free : tree.nodes.find (directory host) ≠ some .directory ∧ tree.isDirectory (directory host).tail = true :=
    ⟨by simp [gone], FileTree.isDirectory_iff.mpr up⟩
  have makes : tree.createDirectories host.cwd charactersPath = some (tree.set (directory host) .directory free) := by
    have start : startOf host.cwd charactersPath = host.cwd := rfl
    have first : descend host.cwd dot = host.cwd := by simp [descend]
    have second : descend host.cwd (str "characters") = directory host := rfl
    have third : descend (directory host) [] = directory host := by simp [descend]
    have parent : tree.isDirectory (directory host).tail = true := free.2
    rw [FileTree.createDirectories, components_charactersPath, start]
    simp [FileTree.createAlong, first, second, third, up, gone, parent, FileTree.find_set]
  rw [readyFiles, pathExists_charactersPath, notDir, makes]
  refine congrArg some (FileTree.eq_of_find (funext fun q => ?_))
  rw [FileTree.find_set, removed]
  by_cases here : q = directory host
  · subst here
    rw [if_pos rfl, FileTree.isDirectory_iff.mp dir]
  · rw [if_neg (Ne.symm here), if_neg here]

end Directory

section Dumps
variable {host : Host} {tree ready : FileTree} {jobs : List Job}

theorem prepare_of_ready (readies : readyFiles host tree = some ready) : prepare host tree = .ok () ready := by
  rw [prepare, readies]

theorem prepare_of_refused (refuses : readyFiles host tree = none) : prepare host tree = .error .filesystemError tree := by
  rw [prepare, refuses]

theorem singleDump_of_ready (readies : readyFiles host tree = some ready) (job : Job) :
    singleDump host job tree = runJob host.cwd job ready := by
  rw [singleDump, bind_of_ok (prepare_of_ready readies)]

theorem singleDumps_of_ready (readies : readyFiles host tree = some ready) (ne : jobs ≠ []) :
    jobs.forM (singleDump host) tree = jobs.forM (singleDump host) ready := by
  obtain ⟨job, rest, rfl⟩ := List.exists_cons_of_ne_nil ne
  have same : singleDump host job tree = singleDump host job ready := by
    rw [singleDump_of_ready readies, singleDump_of_ready (readyFiles_of_directory (directory_of_readyFiles readies))]
  rw [List.forM_eq_forM, List.forM_cons, bind_apply, bind_apply, same]

theorem singleDumps_of_staying (jobs : List Job)
    (stays : (finalState (jobs.forM (runJob host.cwd) tree)).isDirectory (directory host) = true) :
    jobs.forM (singleDump host) tree = jobs.forM (runJob host.cwd) tree := by
  induction jobs generalizing tree with
  | nil => rfl
  | cons job rest ih =>
      have dir := noNewDirectory_jobs host.cwd (job :: rest) tree _ stays
      rw [finalState_forM_cons] at stays
      rw [List.forM_eq_forM, List.forM_cons, List.forM_cons, bind_apply, bind_apply,
        singleDump_of_ready (readyFiles_of_directory dir)]
      cases run : runJob host.cwd job tree with
      | ok u next =>
          rw [run] at stays
          exact ih stays
      | error e next => rfl

structure Agrees (host : Host) (jobs : List Job) (tree : FileTree) : Prop where
  singly : finalState (jobs.forM (singleDump host) tree) = finalState (wholeDump host jobs tree)
  again : finalState (wholeDump host jobs (finalState (wholeDump host jobs tree))) = finalState (wholeDump host jobs tree)

theorem wholeDump_of_ready (readies : readyFiles host tree = some ready) (jobs : List Job) :
    wholeDump host jobs tree = jobs.forM (runJob host.cwd) ready := bind_of_ok (prepare_of_ready readies)

theorem agrees_of_refused (refuses : readyFiles host tree = none) (ne : jobs ≠ []) : Agrees host jobs tree := by
  have whole : wholeDump host jobs tree = .error .filesystemError tree := bind_of_error (prepare_of_refused refuses)
  obtain ⟨job, rest, rfl⟩ := List.exists_cons_of_ne_nil ne
  have single : singleDump host job tree = .error .filesystemError tree := bind_of_error (prepare_of_refused refuses)
  constructor
  · rw [finalState_forM_cons, single, whole]
    rfl
  · rw [whole, finalState_error, whole]
    rfl

theorem agrees_untilThrow (host : Host) (jobs : List Job) (tree : FileTree) :
    Agrees host (untilThrow jobs) tree ↔ Agrees host jobs tree := by
  have whole : ∀ t, finalState (wholeDump host (untilThrow jobs) t) = finalState (wholeDump host jobs t) := by
    intro t
    cases readies : readyFiles host t with
    | none => rw [wholeDump, wholeDump, bind_of_error (prepare_of_refused readies), bind_of_error (prepare_of_refused readies)]
    | some ready =>
        rw [wholeDump_of_ready readies, wholeDump_of_ready readies]
        exact finalState_untilThrow (fun _ _ t ends => throws_runJob ends t) jobs ready
  have singly : finalState ((untilThrow jobs).forM (singleDump host) tree) = finalState (jobs.forM (singleDump host) tree) := by
    refine finalState_untilThrow (fun job e t ends => ?_) jobs tree
    cases readies : readyFiles host t with
    | none => exact ⟨_, congrArg returned (bind_of_error (prepare_of_refused readies))⟩
    | some ready =>
        rw [singleDump_of_ready readies]
        exact throws_runJob ends ready
  constructor
  · rintro ⟨once, twice⟩
    exact ⟨by rw [← singly, once, whole], by simpa only [whole] using twice⟩
  · rintro ⟨once, twice⟩
    exact ⟨by rw [singly, once, whole], by simpa only [whole] using twice⟩

/-! ### A directory that stays -/

theorem agrees_iff_of_stops {done rest : List Job} (readies : readyFiles host tree = some ready) (ne : done ++ rest ≠ []) (ending : Ending (done ++ rest))
    (unstuck : Unstuck host.cwd ready.nodes.find done)
    (dir : settled host.cwd ready.nodes.find done (directory host) = some .directory)
    (stops : Stops host.cwd (settled host.cwd ready.nodes.find done) rest) :
    Agrees host (done ++ rest) tree ↔ Steady host.cwd ready.nodes.find done := by
  have left : (finalState ((done ++ rest).forM (runJob host.cwd) ready)).nodes.find = _ := left_of_stops rfl ending unstuck stops
  have stays : (finalState ((done ++ rest).forM (runJob host.cwd) ready)).isDirectory (directory host) = true := by
    rw [FileTree.isDirectory_iff, left, dir]
  have again : (finalState ((done ++ rest).forM (runJob host.cwd) (finalState ((done ++ rest).forM (runJob host.cwd) ready)))).nodes.find =
      settled host.cwd (settled host.cwd ready.nodes.find done) done :=
    left_of_stops left ending (unstuck_of_tame (tame_again _ _ _)) stops.again
  have whole := wholeDump_of_ready readies (done ++ rest)
  constructor
  · intro agrees
    have same := agrees.again
    rw [whole, wholeDump_of_ready (readyFiles_of_directory stays)] at same
    rw [← again_iff_steady, ← again, same, left]
  · intro steady
    constructor
    · rw [singleDumps_of_ready readies ne, singleDumps_of_staying _ stays, whole]
    · rw [whole, wholeDump_of_ready (readyFiles_of_directory stays)]
      rw [again_iff_steady.mpr steady, ← left] at again
      exact FileTree.eq_of_find again

/-! ### A directory that is removed -/

/-- The tree is what the view says, but the directory may have been removed. -/
structure Remade (host : Host) (view : Path → Option Node) (removed : Prop) (tree : FileTree) : Prop where
  readies : ∃ ready, readyFiles host tree = some ready ∧ ready.nodes.find = view
  lost : tree.nodes.find (directory host) = none ↔ removed
  elsewhere : ∀ q, q ≠ directory host → tree.nodes.find q = view q

section Removed
variable {view : Path → Option Node} {job : Job}

theorem remade_turn (readies : readyFiles host tree = some ready) (held : ready.nodes.find = view)
    (inside : directory host ∈ through host.cwd job.path) (free : ¬ Stuck host.cwd view job) :
    returned (singleDump host job tree) = job.ends ∧
      Remade host (settled host.cwd view (beside host.cwd (directory host) [job]))
        (Leads host.cwd view job ∧ job.place host.cwd = directory host) (finalState (singleDump host job tree)) := by
  have there := directory_of_readyFiles readies
  have dir : view (directory host) = some .directory := by rw [← held, FileTree.isDirectory_iff.mp there]
  obtain ⟨returns, left⟩ := turn_of_free held free
  rw [singleDump_of_ready readies]
  refine ⟨returns, ?_⟩
  by_cases here : job.place host.cwd = directory host
  · have none : beside host.cwd (directory host) [job] = [] := by simp [beside, here]
    rw [none]
    by_cases leads : Leads host.cwd view job
    · rw [settle_of_base leads here inside] at left
      refine ⟨⟨ready, readyFiles_of_removed there (by rw [left, held]), held⟩, iff_of_true ?_ ⟨leads, here⟩, fun q away => ?_⟩
      · rw [left, Function.update_self]
      · exact (congrFun left q).trans (Function.update_of_ne away ..)
    · rw [settle_of_lost leads] at left
      have stays : (finalState (runJob host.cwd job ready)).isDirectory (directory host) = true := by
        rw [FileTree.isDirectory_iff, left, dir]
      refine ⟨⟨_, readyFiles_of_directory stays, left⟩, iff_of_false ?_ fun both => leads both.1, fun q _ => congrFun left q⟩
      rw [left, dir]
      simp
  · have only : beside host.cwd (directory host) [job] = [job] := by simp [beside, here]
    have kept : settle host.cwd view job (directory host) = some .directory := by
      rw [settle_elsewhere fun _ => here, dir]
    have stays : (finalState (runJob host.cwd job ready)).isDirectory (directory host) = true := by
      rw [FileTree.isDirectory_iff, left, kept]
    rw [only]
    refine ⟨⟨_, readyFiles_of_directory stays, left⟩, iff_of_false ?_ fun both => here both.2, fun q _ => congrFun left q⟩
    rw [left, kept]
    simp

theorem remade_of_passes (ne : jobs ≠ []) (ending : Ending jobs) (inside : ∀ job ∈ jobs, directory host ∈ through host.cwd job.path)
    (passes : Passes host.cwd (directory host) view jobs) (readies : readyFiles host tree = some ready)
    (held : ready.nodes.find = view) :
    Remade host (settled host.cwd view (beside host.cwd (directory host) jobs))
      (∃ last, jobs.getLast? = some last ∧ Leads host.cwd (settled host.cwd view (beside host.cwd (directory host) jobs)) last ∧
        last.place host.cwd = directory host)
      (finalState (jobs.forM (singleDump host) tree)) := by
  induction jobs generalizing tree ready view with
  | nil => exact absurd rfl ne
  | cons job rest ih =>
      obtain ⟨free, passes⟩ := passes_cons.mp passes
      obtain ⟨returns, remade⟩ := remade_turn readies held (inside job (List.mem_cons_self ..)) free
      cases rest with
      | nil =>
          have same : (Leads host.cwd view job ∧ job.place host.cwd = directory host) ↔ ∃ last, [job].getLast? = some last ∧
              Leads host.cwd (settled host.cwd view (beside host.cwd (directory host) [job])) last ∧
              last.place host.cwd = directory host := by
            constructor
            · rintro ⟨leads, here⟩
              have none : beside host.cwd (directory host) [job] = [] := by simp [beside, here]
              exact ⟨job, rfl, by rwa [none], here⟩
            · rintro ⟨last, isLast, leads, here⟩
              obtain rfl := Option.some.inj isLast
              exact ⟨leads_of_settled leads, here⟩
          rw [forM_singleton]
          exact ⟨remade.readies, remade.lost.trans same, remade.elsewhere⟩
      | cons next more =>
          obtain ⟨ready', readies', held'⟩ := remade.readies
          have later := ih (List.cons_ne_nil _ _) ending.tail (fun m mem => inside m (List.mem_cons_of_mem _ mem)) passes readies' held'
          rw [← settled_append, ← beside_cons] at later
          rw [finalState_forM_cons, returns, ending job (List.mem_cons_self ..)]
          exact later

theorem passes_of_lost (ending : Ending jobs) (inside : ∀ job ∈ jobs, directory host ∈ through host.cwd job.path)
    (readies : readyFiles host tree = some ready) (held : ready.nodes.find = view)
    (lost : (finalState (jobs.forM (singleDump host) tree)).nodes.find (directory host) = none) :
    Passes host.cwd (directory host) view jobs := by
  induction jobs generalizing tree ready view with
  | nil => exact fun before job after eq => by simp at eq
  | cons job rest ih =>
      rw [finalState_forM_cons] at lost
      by_cases stuck : Stuck host.cwd view job
      · obtain ⟨fails, stays⟩ := turn_of_stuck held stuck
        rw [singleDump_of_ready readies, fails, stays, FileTree.isDirectory_iff.mp (directory_of_readyFiles readies)] at lost
        cases lost
      · obtain ⟨returns, remade⟩ := remade_turn readies held (inside job (List.mem_cons_self ..)) stuck
        refine passes_cons.mpr ⟨stuck, ?_⟩
        cases rest with
        | nil => exact fun before m after eq => by simp at eq
        | cons next more =>
            obtain ⟨ready', readies', held'⟩ := remade.readies
            rw [returns, ending job (List.mem_cons_self ..)] at lost
            exact ih ending.tail (fun m mem => inside m (List.mem_cons_of_mem _ mem)) readies' held' lost

/-- Single dumps leave the directory removed, and nothing else changed, exactly if they are in vain. -/
theorem singles_gone_iff (ne : jobs ≠ []) (ending : Ending jobs) (inside : ∀ job ∈ jobs, directory host ∈ through host.cwd job.path)
    (dir : ready.isDirectory (directory host) = true) (held : ready.nodes.find = view) :
    (finalState (jobs.forM (singleDump host) ready)).nodes.find = Function.update view (directory host) none ↔
      Vain host.cwd (directory host) view jobs := by
  have readies := readyFiles_of_directory dir
  constructor
  · intro gone
    have lost : (finalState (jobs.forM (singleDump host) ready)).nodes.find (directory host) = none := by
      rw [gone, Function.update_self]
    have passes := passes_of_lost ending inside readies held lost
    have remade := remade_of_passes ne ending inside passes readies held
    have same : settled host.cwd view (beside host.cwd (directory host) jobs) = view := by
      funext q
      by_cases here : q = directory host
      · rw [here, settled_beside_base]
      · rw [← remade.elsewhere q here, gone, Function.update_of_ne here]
    obtain ⟨last, isLast, leads, place⟩ := remade.lost.mp lost
    rw [same] at leads
    exact ⟨(passes_iff same).mp passes, ⟨last, isLast, leads, place⟩, settled_eq_self_iff.mp same⟩
  · intro vain
    have same := settled_eq_self_iff.mpr vain.idle
    have remade := remade_of_passes ne ending inside ((passes_iff same).mpr vain.free) readies held
    rw [same] at remade
    funext q
    by_cases here : q = directory host
    · rw [here, Function.update_self, remade.lost]
      exact vain.last
    · rw [remade.elsewhere q here, Function.update_of_ne here]

theorem left_of_clears {done rest : List Job} (ending : Ending (done ++ job :: rest)) (held : ready.nodes.find = view)
    (unstuck : Unstuck host.cwd view done) (clears : Clears host.cwd (settled host.cwd view done) job)
    (here : job.place host.cwd = directory host)
    (inside : ∀ m ∈ done ++ job :: rest, directory host ∈ through host.cwd m.path) :
    (finalState ((done ++ job :: rest).forM (runJob host.cwd) ready)).nodes.find =
      Function.update (settled host.cwd view done) (directory host) none := by
  have removes := settle_of_base clears.leads here (inside job (by simp))
  have gone : settle host.cwd (settled host.cwd view done) job (directory host) ≠ some .directory := by
    rw [removes, Function.update_self]
    simp
  have later : ∀ m ∈ rest, directory host ∈ through host.cwd m.path := fun m mem => inside m (by simp [mem])
  obtain ⟨still, same⟩ := settled_of_removed gone later
  rw [left_of_unstuck held ending (unstuck_append.mpr ⟨unstuck, clears.free, still⟩), settled_append, ← removes]
  exact same

theorem agrees_iff_of_clears {done rest : List Job} (readies : readyFiles host tree = some ready) (ending : Ending (done ++ job :: rest))
    (inside : ∀ m ∈ done ++ job :: rest, directory host ∈ through host.cwd m.path)
    (unstuck : Unstuck host.cwd ready.nodes.find done)
    (clears : Clears host.cwd (settled host.cwd ready.nodes.find done) job) (here : job.place host.cwd = directory host) :
    Agrees host (done ++ job :: rest) tree ↔ Steady host.cwd ready.nodes.find done ∧
      Vain host.cwd (directory host) (settled host.cwd ready.nodes.find done) (job :: rest) := by
  obtain ⟨u, run, held⟩ := run_of_unstuck rfl (complete_of_ending ending) unstuck
  have dir : u.isDirectory (directory host) = true := by
    rw [FileTree.isDirectory_iff, held, ← here, clears.directory]
  have left := left_of_clears ending rfl unstuck clears here inside
  have restores := readyFiles_of_removed dir (left.trans (by rw [held]))
  have again := left_of_clears ending held (unstuck_of_tame (tame_again _ _ _)) (clears_again clears) here inside
  have whole := wholeDump_of_ready readies (done ++ job :: rest)
  have singles : (done ++ job :: rest).forM (singleDump host) tree = (job :: rest).forM (singleDump host) u := by
    have first : done.forM (singleDump host) ready = .ok () u := by
      rw [singleDumps_of_staying done (by rwa [run]), run]
    rw [singleDumps_of_ready readies (by simp), forM_append_of_ok first]
  have singly := singles_gone_iff (List.cons_ne_nil job rest) ending.drop (fun m mem => inside m (List.mem_append_right _ mem)) dir held
  constructor
  · rintro ⟨once, twice⟩
    rw [singles, whole] at once
    rw [whole, wholeDump_of_ready restores] at twice
    refine ⟨again_iff_steady.mp (funext fun q => ?_), singly.mp (by rw [once, left])⟩
    by_cases base : q = directory host
    · rw [base, ← here, (clears_again clears).directory, clears.directory]
    · have equal := congrFun (again.symm.trans ((congrArg (fun t : FileTree => t.nodes.find) twice).trans left)) q
      rwa [Function.update_of_ne base, Function.update_of_ne base] at equal
  · rintro ⟨steady, vain⟩
    constructor
    · rw [singles, whole]
      exact FileTree.eq_of_find ((singly.mpr vain).trans left.symm)
    · rw [whole, wholeDump_of_ready restores]
      have same := again_iff_steady.mpr steady
      rw [same, ← left] at again
      exact FileTree.eq_of_find again

end Removed

/-- Once the directory is ready, `Dump()` is as good as single dumps exactly if the jobs are undisturbed. -/
theorem agrees_iff (ne : jobs ≠ []) (inside : ∀ job ∈ jobs, directory host ∈ through host.cwd job.path) : Agrees host jobs tree ↔
    ∀ ready, readyFiles host tree = some ready → Undisturbed host.cwd (directory host) ready.nodes.find jobs := by
  have ending := ending_untilThrow jobs
  have filled := untilThrow_ne_nil ne
  have within : ∀ job ∈ untilThrow jobs, directory host ∈ through host.cwd job.path := fun job mem => inside job (mem_of_untilThrow mem)
  rw [← agrees_untilThrow]
  constructor
  · intro agrees ready readies
    constructor
    · intro done rest eq unstuck stops
      by_cases dir : settled host.cwd ready.nodes.find done (directory host) = some .directory
      · rw [eq] at agrees filled ending
        exact (agrees_iff_of_stops readies filled ending unstuck dir stops).mp agrees
      -- every way goes through the directory, so that none is left
      · rintro first last ⟨before, after, parts, leads, -⟩
        exact absurd (leads _ (within first (by simp [eq, parts]))) dir
    · intro done job rest eq unstuck clears here
      rw [eq] at agrees ending within
      exact (agrees_iff_of_clears readies ending within unstuck clears here).mp agrees
  · intro undisturbed
    cases readies : readyFiles host tree with
    | none => exact agrees_of_refused readies filled
    | some ready =>
        obtain ⟨steady, both⟩ := undisturbed ready readies
        have dir := FileTree.isDirectory_iff.mp (directory_of_readyFiles readies)
        obtain ⟨done, rest, eq, unstuck, stays, halts⟩ := exists_halt dir (untilThrow jobs)
        rcases halts with stops | ⟨job, more, rfl, clears, here⟩
        · have quiet := steady done rest eq unstuck stops
          rw [eq] at filled ending ⊢
          exact (agrees_iff_of_stops readies filled ending unstuck stays stops).mpr quiet
        · have quiet := both done job more eq unstuck clears here
          rw [eq] at ending within ⊢
          exact (agrees_iff_of_clears readies ending within unstuck clears here).mpr quiet

end Dumps

/-! ## Dumps of the registry -/

/-- The dump of one of them on the files: the path, what is written there, and whether that ends with an exception. -/
def jobOf (host : Host) (w : World) (r : Ref) : Job := match w.heap.get r with
  | some ch => ⟨charactersPath ++ ch.name, (ch.document.written host.number (some 4)).text,
      (dumpText host (some 4) ch.document).map fun _ => ()⟩
  | none => ⟨charactersPath, [], .error .danglingPointer⟩

/-- With `./characters/` made ready, no dump saves a file for good on a way that is cut afterwards, and if one removes
`./characters/`, that one and all later ones are in vain. -/
def Untangled (host : Host) (w : World) : Prop := ∀ ready, readyFiles host w.files = some ready →
  Undisturbed host.cwd (directory host) ready.nodes.find (w.characters.values.map (jobOf host w))

/-- `Dump()` leaves the files that single dumps in the order of the ids leave, and another one changes nothing. -/
structure DumpsAgree (host : Host) (w : World) : Prop where
  singly : (finalState (w.characters.keys.forM (dump host) w)).files = (finalState (dumpAll host w)).files
  again : (finalState (dumpAll host (finalState (dumpAll host w)))).files = (finalState (dumpAll host w)).files

structure Standing (host : Host) (start w : World) (tree : FileTree) : Prop where
  files : w.files = tree
  characters : w.characters = start.characters
  sheets : ∀ r, (∃ doc, SavesAt start r doc) → (∃ doc, SavesAt w r doc) ∧ jobOf host w r = jobOf host start r

section Registry
variable {host : Host} {start w : World} {r : Ref}

theorem standing_start (host : Host) (w : World) : Standing host w w w.files := ⟨rfl, rfl, fun _ able => ⟨able, rfl⟩⟩

theorem Standing.moved {tree : FileTree} {w' : World} (standing : Standing host start w tree)
    (characters : w'.characters = w.characters) (heap : w'.heap = w.heap) : Standing host start w' w'.files := by
  refine ⟨rfl, characters.trans standing.characters, ?_⟩
  simpa only [SavesAt, jobOf, heap] using standing.sheets

theorem Standing.saved {tree : FileTree} {w' : World} (standing : Standing host start w tree) {ch : Character}
    (found : w.heap.get r = some ch) (able : ch.Savable) (characters : w'.characters = w.characters)
    (heap : w'.heap = w.heap.modify r fun _ => ch.refreshed) : Standing host start w' w'.files := by
  refine ⟨rfl, characters.trans standing.characters, ?_⟩
  intro s saves
  obtain ⟨ableS, same⟩ := standing.sheets s saves
  obtain ⟨doc, savesS⟩ := ableS
  have kept := (savesAt_after_save found able s doc).mpr savesS
  refine ⟨⟨doc, by simpa only [SavesAt, heap] using kept⟩, ?_⟩
  rw [← same]
  by_cases here : s = r
  · subst here
    obtain ⟨-, document, -⟩ := Character.save_refreshed able
    simp only [jobOf, heap, Arena.get_modify_self, found, Option.map_some, Character.refreshed_name, document]
  · simp only [jobOf, heap, Arena.get_modify_of_ne _ _ here]

theorem simulates_ensureDirectory (host : Host) (start : World) :
    Simulates (Standing host start) (ensureDirectory host) (prepare host) := by
  intro w tree standing
  obtain rfl := standing.files
  rw [ensureDirectory_apply, prepare]
  cases readyFiles host w.files with
  | none => exact ⟨rfl, standing⟩
  | some ready => exact ⟨rfl, rfl, standing.characters, standing.sheets⟩

theorem runJob_apply (host : Host) (tree : FileTree) (job : Job) : runJob host.cwd job tree =
    match clearedFiles host tree job.path with
    | none => .error .filesystemError tree
    | some cleared => (evaluate job.ends : Action FileTree Unit)
        (((cleared.openTruncated host.cwd job.path).getD cleared).write host.cwd job.path job.text) := by
  rw [runJob, replaceFile, bind_of_ok (get_apply tree), clearedFiles]
  cases tree.pathExists host.cwd job.path with
  | true => cases tree.remove host.cwd job.path <;> rfl
  | false => rfl

theorem streamDocument_outcome (host : Host) (name path : Bytes) (doc : Json) (w : World) :
    streamDocument host name path doc w = (evaluate ((dumpText host (some 4) doc).map fun _ => ()) : Action World Unit)
      { w.seen [.file .write name path] with
        files := w.files.write host.cwd path (doc.written host.number (some 4)).text } := by
  rw [streamDocument_apply]
  cases dumps : dumpText host (some 4) doc with
  | ok text =>
      rw [written_of_dumpText dumps]
      rfl
  | error e =>
      rw [(written_of_fails dumps).1]
      rfl

theorem simulates_dumpCharacter (able : ∃ doc, SavesAt start r doc) :
    Simulates (Standing host start) (dumpCharacter host r) (runJob host.cwd (jobOf host start r)) := by
  intro w tree standing
  obtain rfl := standing.files
  obtain ⟨⟨doc, ch, found, saves⟩, same⟩ := standing.sheets r able
  obtain ⟨savable, rfl⟩ := Character.saves_iff.mp saves
  have job : jobOf host w r = ⟨charactersPath ++ ch.name, (ch.document.written host.number (some 4)).text,
      (dumpText host (some 4) ch.document).map fun _ => ()⟩ := by simp only [jobOf, found]
  have opening : openStream host ch.name (charactersPath ++ ch.name) w = _ := openStream_apply ..
  rw [← same, job, dumpCharacter, bind_of_ok (deref_of_get _ found), runJob_apply]
  cases clears : clearedFiles host w.files (charactersPath ++ ch.name) with
  | none =>
      rw [clears] at opening
      rw [bind_of_error opening]
      exact ⟨rfl, standing.moved rfl rfl⟩
  | some cleared =>
      rw [clears] at opening
      have saving : onCharacter r Character.save (opened host w ch.name (charactersPath ++ ch.name) cleared) = .ok ch.document _ :=
        onCharacter_save_ok_iff.mpr ⟨ch, found, savable, rfl, rfl⟩
      rw [bind_of_ok opening, bind_of_ok saving, streamDocument_outcome]
      cases dumpText host (some 4) ch.document with
      | error e => exact ⟨rfl, standing.saved found savable rfl rfl⟩
      | ok text => exact ⟨rfl, standing.saved found savable rfl rfl⟩

theorem simulates_dump {id : UInt64} (held : start.characters.find id = some r) (able : ∃ doc, SavesAt start r doc) :
    Simulates (Standing host start) (dump host id) (singleDump host (jobOf host start r)) := by
  intro w tree standing
  rw [dump, bind_of_ok (get_apply w), standing.characters, held]
  exact (simulates_ensureDirectory host start).bind (fun _ => simulates_dumpCharacter able) w tree standing

theorem simulates_dumpAll (able : ∀ r ∈ start.characters.values, ∃ doc, SavesAt start r doc) :
    Simulates (Standing host start) (dumpAll host) (wholeDump host (start.characters.values.map (jobOf host start))) := by
  have loops : Simulates (Standing host start) (start.characters.values.forM (dumpCharacter host))
      ((start.characters.values.map (jobOf host start)).forM (runJob host.cwd)) := by
    rw [List.forM_eq_forM, List.forM_eq_forM, List.forM_map]
    exact Simulates.forM _ fun r mem => simulates_dumpCharacter (able r mem)
  refine (simulates_ensureDirectory host start).bind fun _ => ?_
  intro w tree standing
  rw [bind_of_ok (get_apply w), standing.characters]
  exact loops w tree standing

theorem simulates_dumps (able : ∀ id r, start.characters.find id = some r → ∃ doc, SavesAt start r doc) :
    Simulates (Standing host start) (start.characters.keys.forM (dump host))
      ((start.characters.values.map (jobOf host start)).forM (singleDump host)) := by
  rw [OrderedMap.keys, OrderedMap.values, List.forM_eq_forM, List.forM_eq_forM, List.forM_map, List.forM_map, List.forM_map]
  refine Simulates.forM _ fun e mem => ?_
  have held := OrderedMap.mem_entries.mp mem
  exact simulates_dump held (able _ _ held)

theorem path_jobOf (host : Host) (able : ∃ doc, SavesAt w r doc) :
    ∃ ch, w.heap.get r = some ch ∧ (jobOf host w r).path = charactersPath ++ ch.name := by
  obtain ⟨doc, ch, found, -⟩ := able
  exact ⟨ch, found, by simp only [jobOf, found]⟩

theorem savable_values (able : ∀ id r, w.characters.find id = some r → ∃ doc, SavesAt w r doc) :
    ∀ r ∈ w.characters.values, ∃ doc, SavesAt w r doc := by
  intro r mem
  obtain ⟨id, held⟩ := OrderedMap.mem_values.mp mem
  exact able id r held

theorem inside_jobs (host : Host) (able : ∀ r ∈ w.characters.values, ∃ doc, SavesAt w r doc) :
    ∀ job ∈ w.characters.values.map (jobOf host w), directory host ∈ through host.cwd job.path := by
  intro job mem
  obtain ⟨r, registered, rfl⟩ := List.mem_map.mp mem
  obtain ⟨ch, -, path⟩ := path_jobOf host (able r registered)
  rw [path]
  exact directory_mem_through host ch.name

end Registry

/-- `Dump()` is as good as single dumps, and changes nothing the second time, exactly if its dumps are untangled. -/
theorem dumps_agree_iff (host : Host) (w : World) (filled : w.characters.keys ≠ [])
    (able : ∀ id r, w.characters.find id = some r → ∃ doc, SavesAt w r doc) : DumpsAgree host w ↔ Untangled host w := by
  have ables := savable_values able
  have nonempty : w.characters.values.map (jobOf host w) ≠ [] := by
    simpa [OrderedMap.keys, OrderedMap.values] using filled
  have start := standing_start host w
  have whole := (simulates_dumpAll ables w w.files start).2
  have singles := (simulates_dumps able w w.files start).2.files
  have second := (simulates_dumpAll ables _ _ whole).2.files
  rw [Untangled, ← agrees_iff nonempty (inside_jobs host ables)]
  constructor
  · rintro ⟨once, twice⟩
    exact ⟨singles.symm.trans (once.trans whole.files), second.symm.trans (twice.trans whole.files)⟩
  · rintro ⟨once, twice⟩
    exact ⟨singles.trans (once.trans whole.files.symm), second.trans (twice.trans whole.files.symm)⟩

theorem untangled_of_plain (host : Host) {w : World}
    (plain : ∀ r ∈ w.characters.values, ∃ ch, w.heap.get r = some ch ∧ IsPlain ch.name) : Untangled host w := by
  have named : ∀ job ∈ w.characters.values.map (jobOf host w), ∃ name, IsPlain name ∧ job.path = charactersPath ++ name := by
    intro job mem
    obtain ⟨r, registered, rfl⟩ := List.mem_map.mp mem
    obtain ⟨ch, held, plainName⟩ := plain r registered
    exact ⟨ch.name, plainName, by simp only [jobOf, held]⟩
  have listed : ∀ {done rest : List Job}, untilThrow (w.characters.values.map (jobOf host w)) = done ++ rest →
      ∀ job ∈ done ++ rest, ∃ name, IsPlain name ∧ job.path = charactersPath ++ name := fun eq job mem =>
    named job (mem_of_untilThrow (eq ▸ mem))
  have way : ∀ {job : Job}, (∃ name, IsPlain name ∧ job.path = charactersPath ++ name) →
      through host.cwd job.path = [host.cwd, host.cwd, directory host] := by
    rintro job ⟨name, plainName, path⟩
    rw [path, through_of_isPlain host plainName]
  have steady : ∀ {done rest : List Job} {view : Path → Option Node},
      untilThrow (w.characters.values.map (jobOf host w)) = done ++ rest → Steady host.cwd view done := by
    intro done rest view eq
    apply steady_of_ways
    intro first memFirst last memLast
    rw [way (listed eq first (List.mem_append_left _ memFirst)), way (listed eq last (List.mem_append_left _ memLast))]
  intro ready _
  constructor
  · intro done rest eq _ _
    exact steady eq
  · intro done job rest eq _ _ here
    obtain ⟨name, plainName, path⟩ := listed eq job (by simp)
    rw [place_of_isPlain host plainName path] at here
    exact absurd here (List.cons_ne_self name _)

def aldorAndBerta : World :=
  ⟨.root, (Arena.empty.alloc (.make 3 (str "Aldor") none)).alloc (.make 7 (str "Berta") none),
    (OrderedMap.empty.assign 3 0).assign 7 1, .empty, []⟩

theorem dumps_agree_two : DumpsAgree (.knowing []) aldorAndBerta := by
  have two : ∀ id r, aldorAndBerta.characters.find id = some r → r = 0 ∨ r = 1 := by
    intro id r held
    rw [aldorAndBerta, OrderedMap.find_assign, OrderedMap.find_assign] at held
    split at held
    · exact .inr (Option.some.inj held).symm
    · split at held
      · exact .inl (Option.some.inj held).symm
      · cases held
  refine (dumps_agree_iff _ _ (by decide) ?_).mpr (untangled_of_plain _ ?_)
  · intro id r held
    rcases two id r held with rfl | rfl
    · exact ⟨_, _, rfl, _, rfl⟩
    · exact ⟨_, _, rfl, _, rfl⟩
  · intro r registered
    obtain ⟨id, entry⟩ := OrderedMap.mem_values.mp registered
    rcases two id r entry with rfl | rfl
    · exact ⟨_, rfl, by decide⟩
    · exact ⟨_, rfl, by decide⟩

/-! ### Lost directories -/

def namelessFirst : World :=
  ⟨.root, (Arena.empty.alloc (.make 3 [] none)).alloc (.make 7 (str "Aldor") none),
    (OrderedMap.empty.assign 3 0).assign 7 1, .empty, []⟩

def aldorIsSaved (host : Host) (x : Action World Unit) (w : World) : Bool :=
  (finalState (x w)).files.pathExists host.cwd (charactersPath ++ str "Aldor")

/-- The character without a name takes the directory for its old file, and `Dump()` does not make it again. -/
theorem nameless_takes_directory : aldorIsSaved (.knowing []) (dumpAll (.knowing [])) namelessFirst = false ∧
    aldorIsSaved (.knowing []) (namelessFirst.characters.keys.forM (dump (.knowing []))) namelessFirst = true ∧
    ¬ ∀ host w, w.characters.keys ≠ [] → (∀ id r, w.characters.find id = some r → ∃ doc, SavesAt w r doc) →
      DumpsAgree host w := by
  have whole : aldorIsSaved (.knowing []) (dumpAll (.knowing [])) namelessFirst = false := by decide +kernel
  have singles : aldorIsSaved (.knowing []) (namelessFirst.characters.keys.forM (dump (.knowing []))) namelessFirst = true := by
    decide +kernel
  refine ⟨whole, singles, ?_⟩
  intro agree
  have same := (agree (.knowing []) namelessFirst (by decide) ?_).singly
  · rw [aldorIsSaved, same] at singles
    rw [aldorIsSaved, singles] at whole
    cases whole
  · intro id r held
    rw [namelessFirst, OrderedMap.find_assign, OrderedMap.find_assign] at held
    split at held
    · cases held
      exact ⟨_, _, rfl, _, rfl⟩
    · split at held
      · cases held
        exact ⟨_, _, rfl, _, rfl⟩
      · cases held

end D20Tempest.Server
