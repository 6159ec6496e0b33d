import Shardb.Rocks

/-!
# `datastore.c`: one shard

The slots `tx_db[i]`, `tx[i]` and `savepoint_count[i]` of `datastore_env_params`
with the committed contents of database `i` form a `Shard`. Every function of
the first layer of `datastore.c` touches the slots of one `db_id` and calls the
library, so it works on a `Cell`; `Env.onShard` runs it on shard `db_id` of the
environment.
-/

namespace Shardb.Datastore
open Shardb.Bytes (Text)
open Shardb.Journal Shardb.Rocks

/-- What the environment keeps for one database: whether `tx_db[i]` is open, the
    transaction in `tx[i]`, `savepoint_count[i]`, and the database's contents as
    the writes committed to it. -/
structure Shard where
  tx_db : Bool
  tx : Option Transaction
  savepoint_count : Int
  committed : List Write

/-- A shard with the state of the libraries. -/
structure Cell extends Shard where
  lib : Lib

/-- `struct datastore_worker_params`; the lock is true while it is held. -/
structure Worker where
  transaction_lock : Bool
  transaction_done : Nat

/-- `struct datastore_env_params`. The handler runs on a worker, so there is one. -/
structure Env where
  num_workers : Nat
  workers : Nat → Worker
  shard : Nat → Shard
  lib : Lib
  staffed : 0 < num_workers

def Env.cell (rocks : Env) (db_id : Nat) : Cell := { toShard := rocks.shard db_id, lib := rocks.lib }
def Env.put (rocks : Env) (db_id : Nat) (c : Cell) : Env :=
  { rocks with shard := Function.update rocks.shard db_id c.toShard, lib := c.lib }
/-- Runs a function of one shard on shard `db_id`. -/
def Env.onShard {α : Type} (rocks : Env) (db_id : Nat) (f : Cell → α × Cell) : α × Env :=
  let (answer, c) := f (rocks.cell db_id)
  (answer, rocks.put db_id c)

/-! ### Shards of an environment -/

section Shards
variable (rocks : Env) (i : Nat) (c : Cell)

@[simp] theorem put_num_workers : (rocks.put i c).num_workers = rocks.num_workers := rfl
@[simp] theorem put_workers : (rocks.put i c).workers = rocks.workers := rfl
@[simp] theorem put_lib : (rocks.put i c).lib = c.lib := rfl
@[simp] theorem put_shard_self : (rocks.put i c).shard i = c.toShard := Function.update_self ..
@[simp] theorem put_cell_self : (rocks.put i c).cell i = c := by simp [Env.cell]
@[simp] theorem put_put (c' : Cell) : (rocks.put i c).put i c' = rocks.put i c' := by
  simp [Env.put, Function.update_idem]
@[simp] theorem put_cell : rocks.put i (rocks.cell i) = rocks := by
  simp [Env.put, Env.cell]

theorem put_shard_other {j : Nat} (other : j ≠ i) : (rocks.put i c).shard j = rocks.shard j :=
  Function.update_of_ne other ..

@[simp] theorem put_onShard {α : Type} (f : Cell → α × Cell) :
    (rocks.put i c).onShard i f = ((f c).1, rocks.put i (f c).2) := by
  simp [Env.onShard]

theorem onShard_eq {α : Type} (f : Cell → α × Cell) :
    rocks.onShard i f = ((f (rocks.cell i)).1, rocks.put i (f (rocks.cell i)).2) := rfl

end Shards

/-! ### The functions -/

def open_database (id : Nat) (c : Cell) : Int × Cell :=
  let (opened, lib) := rocksdb_transactiondb_open id c.lib
  (if opened then 0 else -1, { c with tx_db := opened, lib := lib })

def close_database (c : Cell) : Int × Cell :=
  if c.tx_db = false then (0, c) else (0, { c with tx_db := false, tx := none })

/-- `removed` says whether the library could delete the files. -/
def destroy_database (removed : Bool) (c : Cell) : Int × Cell :=
  if removed then (0, { c with committed := [] }) else (-1, c)

def begin_transaction (db_id : Nat) (c : Cell) : Int × Cell :=
  if c.tx_db = false then (-1, c)
  else if c.tx.isSome then (-1, c)
  else
    let (tx, lib) := rocksdb_transaction_begin db_id c.lib
    (0, { c with tx := tx, lib := lib })

/-- The checks that `commit_transaction`, `write_keyval_pair`, `read_keyval_pair`,
    `delete_keyval_pair`, `set_savepoint` and `rollback_to_last_savepoint` open
    with: the database is open and there is a transaction. -/
def onTransaction (body : Transaction → Int × Cell) (c : Cell) : Int × Cell :=
  if c.tx_db = false then (-1, c)
  else
    match c.tx with
    | none => (-1, c)
    | some tx => body tx

def commit_transaction (c : Cell) : Int × Cell :=
  c |> onTransaction fun tx =>
    let (err, committed, lib) := rocksdb_transaction_commit c.committed tx c.lib
    if err then (-1, { c with lib := lib })
    else (0, { c with committed := committed, tx := none, lib := lib })

def delete_transaction (c : Cell) : Int × Cell :=
  if c.tx_db = false then (-1, c)
  else
    match c.tx with
    | none => (0, c)
    | some tx => (0, { c with tx := none, lib := rocksdb_transaction_destroy tx c.lib })

def write_keyval_pair (key val : Text) (c : Cell) : Int × Cell :=
  c |> onTransaction fun tx =>
    let (err, tx, lib) := rocksdb_transaction_put tx key val c.lib
    (if err then -1 else 0, { c with tx := some tx, lib := lib })

/-- A key without a value is an error too. -/
def read_keyval_pair (key : Text) (c : Cell) : Int × Cell :=
  c |> onTransaction fun tx =>
    let (err, val, lib) := rocksdb_transaction_get c.committed tx key c.lib
    (if err then -1 else if val.isNone then -1 else 0, { c with lib := lib })

def delete_keyval_pair (key : Text) (c : Cell) : Int × Cell :=
  c |> onTransaction fun tx =>
    let (err, tx, lib) := rocksdb_transaction_delete tx key c.lib
    (if err then -1 else 0, { c with tx := some tx, lib := lib })

def set_savepoint (c : Cell) : Int × Cell :=
  c |> onTransaction fun tx =>
    let (tx, lib) := rocksdb_transaction_set_savepoint tx c.lib
    (0, { c with tx := some tx, lib := lib })

def rollback_to_last_savepoint (c : Cell) : Int × Cell :=
  c |> onTransaction fun tx =>
    let (err, tx, lib) := rocksdb_transaction_rollback_to_savepoint tx c.lib
    (if err then -1 else 0, { c with tx := some tx, lib := lib })

/-! ### The functions on an open transaction -/

/-- The shard has an open database and transaction `tx`. -/
structure Serving (c : Cell) (tx : Transaction) : Prop where
  opened : c.tx_db = true
  slot : c.tx = some tx

theorem idle_or_serving (c : Cell) : (c.tx_db = false ∨ c.tx = none) ∨ ∃ tx, Serving c tx := by
  by_cases idle : c.tx_db = false ∨ c.tx = none
  · exact .inl idle
  · obtain ⟨tx, slot⟩ := Option.ne_none_iff_exists'.mp fun empty => idle (.inr empty)
    exact .inr ⟨tx, eq_true_of_ne_false fun closed => idle (.inl closed), slot⟩

theorem busy_or_fresh (c : Cell) : (c.tx_db = false ∨ c.tx ≠ none) ∨ (c.tx_db = true ∧ c.tx = none) := by
  cases opened : c.tx_db with
  | false => exact .inl (.inl rfl)
  | true =>
    by_cases empty : c.tx = none
    · exact .inr ⟨rfl, empty⟩
    · exact .inl (.inr empty)

section Serving
variable {c : Cell} {tx : Transaction} (serving : Serving c tx)
include serving

theorem onTransaction_serving (body : Transaction → Int × Cell) : onTransaction body c = body tx := by
  simp [onTransaction, serving.opened, serving.slot]

theorem commit_serving : commit_transaction c =
    if c.lib.fails .commit then (-1, { c with lib := c.lib.tick (.commit tx.id false) })
    else (0, { c with committed := c.committed ++ tx.writes, tx := none, lib := c.lib.tick (.commit tx.id true) }) := by
  rw [commit_transaction, onTransaction_serving serving]
  cases faulty : c.lib.fails .commit <;> simp [rocksdb_transaction_commit, faulty]

theorem delete_transaction_serving :
    delete_transaction c = (0, { c with tx := none, lib := c.lib.tick (.destroy tx.id) }) := by
  simp [delete_transaction, serving.opened, serving.slot, rocksdb_transaction_destroy]

theorem write_serving (key val : Text) : write_keyval_pair key val c =
    if c.lib.fails .put then (-1, { c with lib := c.lib.tick (.put tx.id key val false) })
    else (0, { c with tx := some { tx with toBatch := tx.add ⟨key, some val, c.lib.message⟩ },
                      lib := c.lib.tick (.put tx.id key val true) }) := by
  rw [write_keyval_pair, onTransaction_serving serving]
  cases faulty : c.lib.fails .put <;> simp [rocksdb_transaction_put, faulty, ← serving.slot]

theorem delete_serving (key : Text) : delete_keyval_pair key c =
    if c.lib.fails .delete then (-1, { c with lib := c.lib.tick (.delete tx.id key false) })
    else (0, { c with tx := some { tx with toBatch := tx.add ⟨key, none, c.lib.message⟩ },
                      lib := c.lib.tick (.delete tx.id key true) }) := by
  rw [delete_keyval_pair, onTransaction_serving serving]
  cases faulty : c.lib.fails .delete <;> simp [rocksdb_transaction_delete, faulty, ← serving.slot]

theorem read_serving (key : Text) : read_keyval_pair key c =
    if c.lib.fails .get then (-1, { c with lib := c.lib.tick (.get tx.id key false) })
    else (if (contents (c.committed ++ tx.writes) key).isSome then 0 else -1,
      { c with lib := c.lib.tick (.get tx.id key true) }) := by
  rw [read_keyval_pair, onTransaction_serving serving]
  cases faulty : c.lib.fails .get
  · cases held : contents (c.committed ++ tx.writes) key <;> simp [rocksdb_transaction_get, faulty, held]
  · simp [rocksdb_transaction_get, faulty]

theorem set_savepoint_serving : set_savepoint c =
    (0, { c with tx := some { tx with toBatch := tx.save }, lib := c.lib.tick (.setSavepoint tx.id) }) := by
  rw [set_savepoint, onTransaction_serving serving]
  rfl

/-- A rollback fails when no save point is left, and when the library says so. -/
theorem rollback_serving : rollback_to_last_savepoint c =
    match (if c.lib.fails .rollback then none else tx.restore) with
    | none => (-1, { c with lib := c.lib.tick (.rollback tx.id false) })
    | some batch => (0, { c with tx := some { tx with toBatch := batch }, lib := c.lib.tick (.rollback tx.id true) }) := by
  rw [rollback_to_last_savepoint, onTransaction_serving serving]
  cases restored : tx.restore with
  | none => simp [rocksdb_transaction_rollback_to_savepoint, restored, ← serving.slot]
  | some batch =>
    cases faulty : c.lib.fails .rollback <;>
      simp [rocksdb_transaction_rollback_to_savepoint, restored, faulty, ← serving.slot]

end Serving

/-- Without an open database or without a transaction the functions refuse to work. -/
theorem onTransaction_idle {c : Cell} (idle : c.tx_db = false ∨ c.tx = none) (body : Transaction → Int × Cell) :
    onTransaction body c = (-1, c) := by
  unfold onTransaction
  rcases idle with closed | empty
  · rw [if_pos closed]
  · rw [empty]
    split_ifs <;> rfl

theorem delete_transaction_idle {c : Cell} (idle : c.tx_db = false ∨ c.tx = none) : (delete_transaction c).2 = c := by
  unfold delete_transaction
  rcases idle with closed | empty
  · rw [if_pos closed]
  · rw [empty]
    split_ifs <;> rfl

/-- Nothing is begun on a closed database or over an open transaction. -/
theorem begin_busy {c : Cell} (busy : c.tx_db = false ∨ c.tx ≠ none) (db_id : Nat) :
    begin_transaction db_id c = (-1, c) := by
  unfold begin_transaction
  rcases busy with closed | taken
  · rw [if_pos closed]
  · rw [if_pos (Option.isSome_iff_ne_none.mpr taken)]
    split_ifs <;> rfl

section Begin
variable {c : Cell} (opened : c.tx_db = true) (empty : c.tx = none) (db_id : Nat)
include opened empty

/-- When the library reports an error the slot stays empty, and the answer is 0
    all the same. -/
theorem begin_faulty (faulty : c.lib.fails .begin = true) :
    begin_transaction db_id c = (0, { c with lib := c.lib.tick (.begin db_id none) }) := by
  rw [begin_transaction, if_neg (by simp [opened]), if_neg (by simp [empty])]
  simp [rocksdb_transaction_begin, faulty, ← empty]

theorem begin_fresh (fine : c.lib.fails .begin = false) : begin_transaction db_id c =
    (0, { c with tx := some { toBatch := .empty, id := c.lib.next },
                 lib := { c.lib.tick (.begin db_id (some c.lib.next)) with next := c.lib.next + 1 } }) := by
  simp [begin_transaction, opened, empty, rocksdb_transaction_begin, fine]

end Begin

/-- A shard with a transaction just begun and its first savepoint set. -/
def begunCell (db_id : Nat) (c : Cell) : Cell :=
  { c with
    tx := some { writes := [], saved := [[]], id := c.lib.next }
    lib := { c.lib with
      clock := c.lib.clock + 2
      next := c.lib.next + 1
      trace := c.lib.trace ++ [.begin db_id (some c.lib.next), .setSavepoint c.lib.next] } }

theorem begun_savepoint {c : Cell} (opened : c.tx_db = true) (empty : c.tx = none) (fine : c.lib.fails .begin = false)
    (db_id : Nat) : set_savepoint (begin_transaction db_id c).2 = (0, begunCell db_id c) := by
  rw [begin_fresh opened empty db_id fine]
  have serving : Serving
      { c with tx := some { toBatch := .empty, id := c.lib.next },
               lib := { c.lib.tick (.begin db_id (some c.lib.next)) with next := c.lib.next + 1 } }
      { toBatch := .empty, id := c.lib.next } := ⟨opened, rfl⟩
  rw [set_savepoint_serving serving]
  simp [begunCell, Batch.save, Batch.empty, Lib.tick]

/-! ### The start of the environment -/

/-- The length of `workers` in `struct datastore_env_params`. -/
def MAX_WORKER_CORE : Nat := 4

/-- `init_database_env`, from the zeroed static environment: `num_workers` is
    `app_get_lcores_worker()`, `disk` what the databases on disk hold. Databases
    0 to 3 are opened, whatever the number of workers. With more than
    `MAX_WORKER_CORE` workers the source writes behind `workers`; here there is
    room for all of them. -/
def init_database_env (num_workers : Nat) (staffed : 0 < num_workers) (disk : Nat → List Write)
    (faults : Nat → Call → Bool) : Env :=
  let rocks : Env :=
    { num_workers := num_workers
      workers := fun _ => { transaction_lock := false, transaction_done := 0 }
      shard := fun i => { tx_db := false, tx := none, savepoint_count := 0, committed := disk i }
      lib := { faults := faults, clock := 0, next := 0, message := 0, trace := [] }
      staffed := staffed }
  [0, 1, 2, 3].foldl (fun rocks i => (rocks.onShard i (open_database i)).2) rocks

section Opened
variable {faults : Nat → Call → Bool}

private theorem open_database_opens (fine : ∀ clock, faults clock .openDb = false) (id : Nat) (c : Cell)
    (pattern : c.lib.faults = faults) :
    (open_database id c).2.tx_db = true ∧ (open_database id c).2.lib.faults = faults := by
  have opens : c.lib.fails .openDb = false := by
    unfold Lib.fails
    rw [pattern]
    exact fine _
  simp [open_database, rocksdb_transactiondb_open, opens, Lib.tick, pattern]

private theorem open_databases (fine : ∀ clock, faults clock .openDb = false) (id : Nat) :
    ∀ (ids : List Nat) (rocks : Env), rocks.lib.faults = faults →
      (((ids.foldl (fun rocks i => (rocks.onShard i (open_database i)).2) rocks).shard id).tx_db = true ↔
        id ∈ ids ∨ (rocks.shard id).tx_db = true) := by
  intro ids
  induction ids with
  | nil => intro rocks _; simp
  | cons i ids ih =>
    intro rocks pattern
    obtain ⟨opened, same⟩ := open_database_opens fine i (rocks.cell i) pattern
    rw [List.foldl_cons, ih _ same, onShard_eq]
    by_cases here : id = i
    · subst here
      rw [put_shard_self, opened]
      simp
    · rw [put_shard_other _ _ _ here]
      simp [here]

/-- When no database fails to open, the first four are open. -/
theorem opened_iff {n : Nat} (staffed : 0 < n) (disk : Nat → List Write) (fine : ∀ clock, faults clock .openDb = false)
    (id : Nat) : ((init_database_env n staffed disk faults).shard id).tx_db = true ↔ id < 4 := by
  unfold init_database_env
  rw [open_databases fine id _ _ rfl]
  simp
  omega

end Opened

end Shardb.Datastore
