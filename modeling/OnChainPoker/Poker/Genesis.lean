import OnChainPoker.Poker.Alike
import OnChainPoker.Poker.Reveals
import Mathlib.Data.List.Sort

/-!
# Genesis of x/poker

`ExportGenesis` writes the next table number and the tables; `InitGenesis` validates
what it reads and stores it.  The balances are carried over by the bank.  The heights at
which hands ended are kept under a key of their own and are not exported.

What is read back from the imported store is what `GetTable` returned before.
-/

namespace OnChainPoker.Poker

open Foundation

/-! ## Export and import -/

structure GenesisState where
  nextTableId : Nat
  tables : List Table

section Model

variable {env : Env}

def State.exportGenesis (s : State env) : GenesisState where
  nextTableId := s.nextTableId
  tables := (s.tables.keys.insertionSort (· ≤ ·)).filterMap s.getTable

def validateTables (next : Nat) : (seen : List Nat) → List Table → Except String Unit
  | _, [] => pure ()
  | seen, t :: rest => do
      rejectIf (t.id = 0) "table id must be > 0"
      rejectIf (t.id ∈ seen) s!"duplicate table id {t.id}"
      rejectIf (t.id ≥ next) s!"table id {t.id} >= next_table_id {next}"
      validateTables next (t.id :: seen) rest

def validateGenesis (gs : GenesisState) : Except String Unit := do
  rejectIf (gs.nextTableId = 0) "next_table_id must be > 0"
  validateTables gs.nextTableId [] gs.tables

/-- `InitGenesis` into an empty store, where an error of the source is a panic. -/
def initGenesis (env : Env) (balances : env.bank.Balances) (gs : GenesisState) :
    Except String (State env) := do
  validateGenesis gs
  pure (gs.tables.foldl State.setTable ⟨balances, gs.nextTableId, ∅, ∅⟩)

end Model

/-! ## What is exported -/

section Export

variable {env : Env} {s : State env}

structure NumberedFromOne (s : State env) : Prop where
  next : 0 < s.nextTableId
  tables : ∀ tid t, s.getTable tid = some t → 0 < tid

theorem reachable_numberedFromOne (hreach : Reachable s) : NumberedFromOne s := by
  have hnumbered := reachable_numbered hreach
  exact ⟨Nat.pos_of_ne_zero hnumbered.next,
    fun tid t ht => Nat.pos_of_ne_zero (hnumbered.table tid t ht)⟩

theorem map_id_filterMap_getTable (hids : IdsValid s) (ids : List Nat)
    (hstored : ∀ tid ∈ ids, tid ∈ s.tables) :
    (ids.filterMap s.getTable).map Table.id = ids := by
  induction ids with
  | nil => rfl
  | cons tid rest ih =>
    have hmem : (s.tables.lookup tid).isSome :=
      AList.lookup_isSome.mpr (hstored tid List.mem_cons_self)
    obtain ⟨stored, hlookup⟩ := Option.isSome_iff_exists.mp hmem
    have hget : s.getTable tid = some (normalizeTable stored) := by
      rw [State.getTable, hlookup, Option.map_some]
    rw [List.filterMap_cons_some hget, List.map_cons, (getTable_id hids hget).1,
      ih fun other hother => hstored other (List.mem_cons_of_mem _ hother)]

theorem exportGenesis_ids (hids : IdsValid s) :
    s.exportGenesis.tables.map Table.id = s.tables.keys.insertionSort (· ≤ ·) := by
  apply map_id_filterMap_getTable hids
  intro tid htid
  exact (List.mem_insertionSort _).mp htid

theorem exportGenesis_getTable (hids : IdsValid s) {t : Table}
    (ht : t ∈ s.exportGenesis.tables) : s.getTable t.id = some t := by
  obtain ⟨tid, -, hget⟩ := List.mem_filterMap.mp ht
  rw [(getTable_id hids hget).1]
  exact hget

end Export

/-! ## What is imported -/

section Import

variable {env : Env} {s : State env}

theorem validateTables_ok (next : Nat) (seen : List Nat) (tables : List Table)
    (hrange : ∀ t ∈ tables, 0 < t.id ∧ t.id < next ∧ t.id ∉ seen)
    (hnodup : (tables.map Table.id).Nodup) :
    validateTables next seen tables = .ok () := by
  induction tables generalizing seen with
  | nil => rfl
  | cons t rest ih =>
    obtain ⟨hpos, hlt, hnew⟩ := hrange t List.mem_cons_self
    rw [List.map_cons, List.nodup_cons] at hnodup
    simp only [validateTables, rejectIf_of_not hpos.ne', rejectIf_of_not hnew,
      rejectIf_bind hlt.not_ge]
    apply ih
    · intro other hother
      obtain ⟨hpos', hlt', hnew'⟩ := hrange other (List.mem_cons_of_mem _ hother)
      refine ⟨hpos', hlt', fun hseen => ?_⟩
      rcases List.mem_cons.mp hseen with heq | hseen
      · exact hnodup.1 (heq ▸ List.mem_map_of_mem hother)
      · exact hnew' hseen
    · exact hnodup.2

theorem foldl_setTable_getTable (read : Nat → Option Table) (tables : List Table)
    (hread : ∀ t ∈ tables, read t.id = some (normalizeTable t)) (s : State env) (tid : Nat) :
    (tables.foldl State.setTable s).getTable tid =
      if tid ∈ tables.map Table.id then read tid else s.getTable tid := by
  induction tables generalizing s with
  | nil => simp
  | cons t rest ih =>
    have hwrites : Replaces s (s.setTable t) t := ⟨rfl, rfl⟩
    have hhead := hread t List.mem_cons_self
    rw [List.foldl_cons, ih fun other hother => hread other (List.mem_cons_of_mem _ hother),
      hwrites.getTable, List.map_cons]
    by_cases hrest : tid ∈ rest.map Table.id
    · simp [hrest]
    · by_cases htid : tid = t.id
      · simp [htid, hhead]
      · simp [hrest, htid]

theorem foldl_setTable_frame (tables : List Table) (s : State env) :
    tables.foldl State.setTable s =
      { s with tables := (tables.foldl State.setTable s).tables } := by
  induction tables generalizing s with
  | nil => rfl
  | cons t rest ih =>
    rw [List.foldl_cons, ih]
    rfl

theorem initGenesis_exportGenesis (hids : IdsValid s) (hnumbered : NumberedFromOne s) :
    ∃ s', initGenesis env s.balances s.exportGenesis = .ok s' ∧
      s'.balances = s.balances ∧ s'.nextTableId = s.nextTableId ∧
      (∀ tid, s'.getTable tid = s.getTable tid) ∧ s'.lastHandEndedHeight = ∅ := by
  have hvalid : validateGenesis s.exportGenesis = .ok () := by
    have hnext : ¬ s.exportGenesis.nextTableId = 0 := hnumbered.next.ne'
    rw [validateGenesis, rejectIf_bind hnext]
    apply validateTables_ok
    · intro t ht
      have hget := exportGenesis_getTable hids ht
      exact ⟨hnumbered.tables t.id t hget, (getTable_id hids hget).2.1, List.not_mem_nil⟩
    · rw [exportGenesis_ids hids]
      exact (List.perm_insertionSort _ _).nodup_iff.mpr s.tables.nodupKeys
  have hframe := foldl_setTable_frame s.exportGenesis.tables
    (⟨s.balances, s.exportGenesis.nextTableId, ∅, ∅⟩ : State env)
  refine ⟨_, by rw [initGenesis, hvalid, ok_bind]; rfl, ?_, ?_, ?_, ?_⟩
  · rw [hframe]
  · rw [hframe]
    rfl
  · intro tid
    rw [foldl_setTable_getTable s.getTable]
    · rw [exportGenesis_ids hids]
      split
      · rfl
      · rename_i hnot
        have habsent : s.tables.lookup tid = none := by
          rw [AList.lookup_eq_none]
          intro hmem
          exact hnot ((List.mem_insertionSort _).mpr hmem)
        simp [State.getTable, habsent]
    · intro t ht
      have hget := exportGenesis_getTable hids ht
      rw [hget, normalizeTable_of_getTable hget]
  · rw [hframe]

end Import

end OnChainPoker.Poker
