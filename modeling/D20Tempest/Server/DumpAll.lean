import D20Tempest.Characters.PartialLoads
import D20Tempest.Server.CharacterManager

namespace D20Tempest.Server
open Foundation Components Characters

def SavesAt (w : World) (r : Ref) (doc : Json) : Prop := ∃ ch, w.heap.get r = some ch ∧ ch.Saves doc

/-- The result of `DumpAll()` gives back the document of every registered character, and no other. -/
def RecordsAll (limit : Json.MaxSize) (w : World) : Prop :=
  ∃ dat w', CharacterManager.dumpAllJson limit w = .ok dat w' ∧
    (∀ id r, w.characters.find id = some r → ∃ doc, SavesAt w r doc ∧ dat.element id = some doc) ∧
    ∀ id, w.characters.find id = none → dat.element id = none ∨ dat.element id = some .null

section Collect
variable {limit : Json.MaxSize} {w w' : World} {r : Ref}

theorem savesAt_after_save {ch : Character} (found : w.heap.get r = some ch) (able : ch.Savable) (s : Ref) (doc : Json) :
    SavesAt { w with heap := w.heap.modify r fun _ => ch.refreshed } s doc ↔ SavesAt w s doc := by
  simp only [SavesAt, Arena.get_modify]
  by_cases same : s = r
  · subst same
    obtain ⟨again, kept, -⟩ := Character.save_refreshed able
    simp only [↓reduceIte, found, Option.map_some, Option.some.injEq, exists_eq_left', Character.saves_iff, again, kept,
      able]
  · simp only [if_neg same]

theorem onCharacter_save_ok_iff {doc : Json} : onCharacter r Character.save w = .ok doc w' ↔
    ∃ ch, w.heap.get r = some ch ∧ ch.Savable ∧ doc = ch.document ∧
      w' = { w with heap := w.heap.modify r fun _ => ch.refreshed } := by
  rw [onCharacter_ok_iff]
  constructor
  · intro saved
    obtain ⟨ch, ch', found, run, rfl⟩ := saved
    obtain ⟨able, rfl, rfl⟩ := Character.save_ok_iff.mp run
    exact ⟨ch, found, able, rfl, rfl⟩
  · intro saved
    obtain ⟨ch, found, able, rfl, rfl⟩ := saved
    exact ⟨ch, _, found, Character.save_of_savable able, rfl⟩

structure Collected (w : World) (entries : List (UInt64 × Ref)) (dat after : Json) : Prop where
  registered : ∀ e ∈ entries, ∃ doc, SavesAt w e.2 doc ∧ after.element e.1 = some doc
  others : ∀ id, id ∉ entries.map Prod.fst → Json.Padded (dat.element id) (after.element id)

theorem collect_ok (entries : List (UInt64 × Ref)) (distinct : (entries.map Prod.fst).Nodup) {dat : Json}
    (holds : dat.Holds limit) (able : ∀ e ∈ entries, (∃ doc, SavesAt w e.2 doc) ∧ e.1.toNat < limit.size) :
    ∃ after w', CharacterManager.collect limit entries dat w = .ok after w' ∧ Collected w entries dat after := by
  induction entries generalizing dat w with
  | nil => exact ⟨dat, w, rfl, by simp, fun id _ => .inl rfl⟩
  | cons e rest ih =>
      obtain ⟨key, r⟩ := e
      obtain ⟨⟨doc, ch, found, saves⟩, small⟩ := able (key, r) (by simp)
      obtain ⟨savable, rfl⟩ := Character.saves_iff.mp saves
      obtain ⟨next, assigned, held, here, elsewhere⟩ := Json.assignElement_of_lt ch.document holds small
      obtain ⟨fresh, distinct⟩ := List.nodup_cons.mp distinct
      have same := savesAt_after_save found savable
      obtain ⟨after, w', run, registered, others⟩ := ih distinct held (w := { w with
        heap := w.heap.modify r fun _ => ch.refreshed }) fun e mem => by
          simp only [same]
          exact able e (List.mem_cons_of_mem _ mem)
      simp only [same] at registered
      refine ⟨after, w', ?_, ?_, ?_⟩
      · rw [CharacterManager.collect, bind_of_ok (onCharacter_save_ok_iff.mpr ⟨ch, found, savable, rfl, rfl⟩),
          assigned, evaluate_ok, pure_bind, run]
      · intro e mem
        rcases List.mem_cons.mp mem with rfl | mem
        · refine ⟨ch.document, ⟨ch, found, saves⟩, ?_⟩
          rcases others key fresh with kept | ⟨absent, -⟩
          · exact kept.trans here
          · exact absurd (here.symm.trans absent) (by simp)
        · exact registered e mem
      · intro id outside
        obtain ⟨ne, beyond⟩ := not_or.mp (mt List.mem_cons.mpr outside)
        exact (elsewhere id ne).trans (others id beyond)

theorem able_of_collect (entries : List (UInt64 × Ref)) {dat after : Json} (holds : dat.Holds limit)
    (run : CharacterManager.collect limit entries dat w = .ok after w') :
    ∀ e ∈ entries, (∃ doc, SavesAt w e.2 doc) ∧ e.1.toNat < limit.size := by
  induction entries generalizing dat w with
  | nil => simp
  | cons e rest ih =>
      obtain ⟨key, r⟩ := e
      rw [CharacterManager.collect] at run
      obtain ⟨doc, t, saved, run⟩ := bind_eq_ok.mp run
      obtain ⟨ch, found, able, rfl, rfl⟩ := onCharacter_save_ok_iff.mp saved
      by_cases small : key.toNat < limit.size
      · obtain ⟨next, assigned, held, -⟩ := Json.assignElement_of_lt ch.document holds small
        rw [assigned, evaluate_ok, pure_bind] at run
        have later := ih held run
        simp only [savesAt_after_save found able] at later
        exact List.forall_mem_cons.mpr ⟨⟨⟨_, ch, found, Character.saves_iff.mpr ⟨able, rfl⟩⟩, small⟩, later⟩
      · obtain ⟨e, refused⟩ := Json.assignElement_of_ge ch.document holds (Nat.not_lt.mp small)
        rw [refused] at run
        cases run

end Collect

/-- `DumpAll()` records the registry exactly when every registered character can be saved and its id is an index that
a vector has. -/
theorem recordsAll_iff (limit : Json.MaxSize) (w : World) :
    RecordsAll limit w ↔ ∀ id r, w.characters.find id = some r →
      (∃ doc, SavesAt w r doc) ∧ id.toNat < limit.size := by
  have empty : Json.null.Holds limit := ⟨[], rfl, Nat.zero_le _⟩
  have distinct : (w.characters.entries.map Prod.fst).Nodup :=
    (List.pairwise_map.mpr w.characters.sorted).imp fun below => below.ne
  constructor
  · intro records id r found
    obtain ⟨dat, w', run, -⟩ := records
    exact able_of_collect _ empty run (id, r) (OrderedMap.mem_entries.mpr found)
  · intro able
    obtain ⟨dat, w', run, registered, others⟩ := collect_ok (w := w) w.characters.entries distinct empty
      fun e mem => able e.1 e.2 (OrderedMap.mem_entries.mp mem)
    refine ⟨dat, w', run, ?_, ?_⟩
    · intro id r found
      exact registered (id, r) (OrderedMap.mem_entries.mpr found)
    · intro id free
      have outside : id ∉ w.characters.entries.map Prod.fst := by
        intro mem
        obtain ⟨⟨key, r⟩, entry, rfl⟩ := List.mem_map.mp mem
        rw [OrderedMap.mem_entries.mp entry] at free
        cases free
      rcases others id outside with same | ⟨-, padded⟩
      · exact .inl same
      · exact .inr padded

/-- The greatest size on a machine of 64 bits whose JSON values take 16 bytes. -/
def sixteenBytes : Json.MaxSize := ⟨2 ^ 59 - 1, by decide⟩

def lastRegistered : World :=
  ⟨.root, Arena.empty.alloc (.make 18446744073709551615 (str "Aldor") none),
    OrderedMap.empty.assign 18446744073709551615 0, .empty, []⟩

/-- Under the greatest id the size wraps around to zero: nothing is filled up, and the empty array is indexed. -/
theorem last_id_is_lost : returned (CharacterManager.dumpAllJson sixteenBytes lastRegistered) = .error .outOfRange ∧
    ¬ ∀ limit w, (∀ id r, w.characters.find id = some r → ∃ doc, SavesAt w r doc) → RecordsAll limit w := by
  have past : returned (CharacterManager.dumpAllJson sixteenBytes lastRegistered) = .error .outOfRange := rfl
  refine ⟨past, ?_⟩
  intro records
  obtain ⟨dat, w', run, -⟩ := records sixteenBytes lastRegistered fun id r found => by
    rw [lastRegistered, OrderedMap.find_assign] at found
    split at found
    · cases found
      exact ⟨_, _, rfl, _, rfl⟩
    · cases found
  rw [run] at past
  cases past

end D20Tempest.Server
