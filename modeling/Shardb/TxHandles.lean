import Shardb.Datastore
import Shardb.Ledger
import Shardb.Runs

/-!
# Transaction handles

Every handle that `rocksdb_transaction_begin` returns has to be given to
`rocksdb_transaction_destroy` once. `delete_transaction` does so; a commit that
succeeds and the closing of a database clear the slot without it
(`handles_kept_iff`).
-/

namespace Shardb.TxHandles
open Shardb.Bytes (Text)
open Shardb.Rocks Shardb.Datastore Shardb.Ledger Shardb.Runs

/-! ### Sessions -/

/-- The functions of `datastore.c` on one database. -/
inductive Op
  | open_database
  | close_database
  | begin_transaction
  | commit_transaction
  | delete_transaction
  | write_keyval_pair (key val : Text)
  | read_keyval_pair (key : Text)
  | delete_keyval_pair (key : Text)
  | set_savepoint
  | rollback_to_last_savepoint

def Op.run (db_id : Nat) : Op → Cell → Int × Cell
  | .open_database => Datastore.open_database db_id
  | .close_database => Datastore.close_database
  | .begin_transaction => Datastore.begin_transaction db_id
  | .commit_transaction => Datastore.commit_transaction
  | .delete_transaction => Datastore.delete_transaction
  | .write_keyval_pair key val => Datastore.write_keyval_pair key val
  | .read_keyval_pair key => Datastore.read_keyval_pair key
  | .delete_keyval_pair key => Datastore.delete_keyval_pair key
  | .set_savepoint => Datastore.set_savepoint
  | .rollback_to_last_savepoint => Datastore.rollback_to_last_savepoint

/-- What a call of the library does with handles. -/
def handled : Event → List (Entry Nat Nat)
  | .begin db (some tx) => [.acquire db tx]
  | .setSavepoint tx | .rollback tx _ | .put tx _ _ _ | .get tx _ _ | .delete tx _ _ | .commit tx _ => [.use tx]
  | .destroy tx => [.release tx]
  | _ => []

/-- The call of `rocksdb_transactiondb_close`, which `close_database` makes when the
    database is open. -/
def closing (db_id : Nat) (c : Cell) : Op → List (Entry Nat Nat)
  | .close_database => if c.tx_db then [.shut db_id] else []
  | _ => []

/-- The environment with what has been done with handles so far. -/
structure Session where
  rocks : Env
  ledger : List (Entry Nat Nat)

/-- What a call on database `db_id` adds to the ledger. -/
def entries (db_id : Nat) (op : Op) (c : Cell) : List (Entry Nat Nat) :=
  closing db_id c op ++ ((op.run db_id c).2.lib.trace.drop c.lib.trace.length).flatMap handled

def perform (s : Session) (call : Nat × Op) : Session :=
  ⟨(s.rocks.onShard call.1 (call.2.run call.1)).2, s.ledger ++ entries call.1 call.2 (s.rocks.cell call.1)⟩

/-- The handle in `tx[i]`. -/
def handle (shard : Shard) : Option Nat := shard.tx.map Transaction.id

/-- No handle is leaked or reused. -/
structure Sound (s : Session) : Prop where
  destroyed : ∀ db tx, .acquire db tx ∈ s.ledger → (∀ i, handle (s.rocks.shard i) ≠ some tx) →
    s.ledger.count (.release tx) = 1
  orderly : Orderly s.ledger

/-! ### What a call does with the slot -/

/-- The calls that clear a slot and leave the handle: a commit that succeeds, and
    the closing of a database with a transaction. -/
def Drops (c : Cell) : Op → Prop
  | .commit_transaction => c.tx_db = true ∧ c.tx ≠ none ∧ c.lib.fails .commit = false
  | .close_database => c.tx_db = true ∧ c.tx ≠ none
  | _ => False

/-- The slot of database `i`, the next handle and the entries of a call that does
    not drop a handle. -/
inductive Change (i next : Nat) : Option Nat → Option Nat → Nat → List (Entry Nat Nat) → Prop
  | keeps (slot : Option Nat) : Change i next slot slot next []
  | begins : Change i next none (some next) (next + 1) [.acquire i next]
  | uses (tx : Nat) : Change i next (some tx) (some tx) next [.use tx]
  | destroys (tx : Nat) : Change i next (some tx) none next [.release tx]
  | closes : Change i next none none next [.shut i]

/-- What is dropped: the call uses the handle or closes its database. -/
structure Dropped (i tx : Nat) (op : Op) (c : Cell) : Prop where
  before : handle c.toShard = some tx
  after : handle (op.run i c).2.toShard = none
  entries : entries i op c = [.use tx] ∨ entries i op c = [.shut i]

section Changes
variable {i : Nat} {op : Op} {c : Cell}

/-- The one call of the library that a function makes. -/
private theorem entries_tick {e : Event} {next : Nat} (called : (op.run i c).2.lib = { c.lib.tick e with next := next })
    (quiet : closing i c op = []) : entries i op c = handled e := by
  unfold entries
  rw [called, quiet]
  simp

/-- A call that leaves everything as it is. -/
private theorem change_idle (idle : (op.run i c).2 = c) (quiet : closing i c op = []) :
    Change i c.lib.next (handle c.toShard) (handle (op.run i c).2.toShard) (op.run i c).2.lib.next (entries i op c) := by
  unfold entries
  rw [idle, quiet, List.drop_length]
  exact .keeps _

/-- A call of the library on the transaction in the slot. -/
private theorem change_uses {tx tx' : Transaction} {e : Event} (slot : c.tx = some tx)
    (slot' : (op.run i c).2.tx = some tx') (same : tx'.id = tx.id) (quiet : closing i c op = [])
    (called : (op.run i c).2.lib = c.lib.tick e) (one : handled e = [.use tx.id]) :
    Change i c.lib.next (handle c.toShard) (handle (op.run i c).2.toShard) (op.run i c).2.lib.next (entries i op c) := by
  rw [entries_tick called quiet, one, called]
  unfold handle
  rw [slot, slot', Option.map_some, Option.map_some, same]
  exact .uses tx.id

/-- A function that works on the transaction in the slot. -/
private theorem change_serving {body : Cell → Int × Cell} (runs : op.run i = body) (quiet : closing i c op = [])
    (idle : c.tx_db = false ∨ c.tx = none → (body c).2 = c)
    (serving : ∀ tx, Serving c tx → ∃ tx' e, (body c).2.tx = some tx' ∧ tx'.id = tx.id ∧
      (body c).2.lib = c.lib.tick e ∧ handled e = [.use tx.id]) :
    Change i c.lib.next (handle c.toShard) (handle (op.run i c).2.toShard) (op.run i c).2.lib.next (entries i op c) := by
  rcases idle_or_serving c with unused | ⟨tx, works⟩
  · exact change_idle (by rw [runs]; exact idle unused) quiet
  · obtain ⟨tx', e, slot, same, called, one⟩ := serving tx works
    exact change_uses works.slot (by rw [runs]; exact slot) same quiet (by rw [runs]; exact called) one

private theorem onTransaction_left (unused : c.tx_db = false ∨ c.tx = none) (body : Transaction → Int × Cell) :
    (onTransaction body c).2 = c := by
  rw [onTransaction_idle unused]

private theorem open_changes : Change i c.lib.next (handle c.toShard) (handle (Op.open_database.run i c).2.toShard)
    (Op.open_database.run i c).2.lib.next (entries i .open_database c) := by
  cases faulty : c.lib.fails .openDb with
  | false =>
    have called : (Op.open_database.run i c).2.lib = c.lib.tick (.openDb i true) := by
      simp [Op.run, Datastore.open_database, rocksdb_transactiondb_open, faulty]
    have slot : (Op.open_database.run i c).2.tx = c.tx := rfl
    rw [entries_tick called rfl, called, handle, handle, slot]
    exact .keeps _
  | true =>
    have called : (Op.open_database.run i c).2.lib = c.lib.tick (.openDb i false) := by
      simp [Op.run, Datastore.open_database, rocksdb_transactiondb_open, faulty]
    have slot : (Op.open_database.run i c).2.tx = c.tx := rfl
    rw [entries_tick called rfl, called, handle, handle, slot]
    exact .keeps _

private theorem close_changes (fine : ¬ Drops c .close_database) :
    Change i c.lib.next (handle c.toShard) (handle (Op.close_database.run i c).2.toShard)
      (Op.close_database.run i c).2.lib.next (entries i .close_database c) := by
  cases opened : c.tx_db with
  | false =>
    refine change_idle ?_ (by simp [closing, opened])
    simp [Op.run, Datastore.close_database, opened]
  | true =>
    have empty : c.tx = none := by
      by_contra taken
      exact fine ⟨opened, taken⟩
    unfold entries
    simp only [Op.run, Datastore.close_database, opened, closing, handle, empty]
    simp
    exact .closes

private theorem begin_changes : Change i c.lib.next (handle c.toShard) (handle (Op.begin_transaction.run i c).2.toShard)
    (Op.begin_transaction.run i c).2.lib.next (entries i .begin_transaction c) := by
  rcases busy_or_fresh c with busy | ⟨opened, empty⟩
  · refine change_idle ?_ rfl
    rw [Op.run, begin_busy busy]
  · cases faulty : c.lib.fails .begin with
    | true =>
      have ran := begin_faulty opened empty i faulty
      have called : (Op.begin_transaction.run i c).2.lib = c.lib.tick (.begin i none) := by rw [Op.run, ran]
      have slot : (Op.begin_transaction.run i c).2.tx = c.tx := by rw [Op.run, ran]
      rw [entries_tick called rfl, called, handle, handle, slot]
      exact .keeps _
    | false =>
      have ran := begin_fresh opened empty i faulty
      have called : (Op.begin_transaction.run i c).2.lib =
          { c.lib.tick (.begin i (some c.lib.next)) with next := c.lib.next + 1 } := by rw [Op.run, ran]
      have slot : handle (Op.begin_transaction.run i c).2.toShard = some c.lib.next := by rw [Op.run, ran]; rfl
      have was : handle c.toShard = none := by rw [handle, empty]; rfl
      rw [entries_tick called rfl, called, slot, was]
      exact .begins

private theorem delete_changes : Change i c.lib.next (handle c.toShard)
    (handle (Op.delete_transaction.run i c).2.toShard) (Op.delete_transaction.run i c).2.lib.next
    (entries i .delete_transaction c) := by
  rcases idle_or_serving c with unused | ⟨tx, serving⟩
  · exact change_idle (by rw [Op.run, delete_transaction_idle unused]) rfl
  · have ran := delete_transaction_serving serving
    have called : (Op.delete_transaction.run i c).2.lib = c.lib.tick (.destroy tx.id) := by rw [Op.run, ran]
    have slot : handle (Op.delete_transaction.run i c).2.toShard = none := by rw [Op.run, ran]; rfl
    have was : handle c.toShard = some tx.id := by rw [handle, serving.slot]; rfl
    rw [entries_tick called rfl, called, slot, was]
    exact .destroys tx.id

/-- A call that does not drop a handle keeps it in its slot, or destroys it. -/
theorem call_changes (fine : ¬ Drops c op) :
    Change i c.lib.next (handle c.toShard) (handle (op.run i c).2.toShard) (op.run i c).2.lib.next (entries i op c) := by
  cases op with
  | open_database => exact open_changes
  | close_database => exact close_changes fine
  | begin_transaction => exact begin_changes
  | commit_transaction =>
    refine change_serving rfl rfl (fun unused => onTransaction_left unused _) fun tx serving => ?_
    have faulty : c.lib.fails .commit = true := by
      by_contra sound
      exact fine ⟨serving.opened, by simp [serving.slot], by simpa using sound⟩
    rw [Op.run, commit_serving serving, if_pos faulty]
    exact ⟨tx, _, serving.slot, rfl, rfl, rfl⟩
  | delete_transaction => exact delete_changes
  | write_keyval_pair key val =>
    refine change_serving rfl rfl (fun unused => onTransaction_left unused _) fun tx serving => ?_
    rw [Op.run, write_serving serving]
    split_ifs
    · exact ⟨tx, _, serving.slot, rfl, rfl, rfl⟩
    · exact ⟨_, _, rfl, rfl, rfl, rfl⟩
  | read_keyval_pair key =>
    refine change_serving rfl rfl (fun unused => onTransaction_left unused _) fun tx serving => ?_
    rw [Op.run, read_serving serving]
    split_ifs
    · exact ⟨tx, _, serving.slot, rfl, rfl, rfl⟩
    · exact ⟨tx, _, serving.slot, rfl, rfl, rfl⟩
    · exact ⟨tx, _, serving.slot, rfl, rfl, rfl⟩
  | delete_keyval_pair key =>
    refine change_serving rfl rfl (fun unused => onTransaction_left unused _) fun tx serving => ?_
    rw [Op.run, delete_serving serving]
    split_ifs
    · exact ⟨tx, _, serving.slot, rfl, rfl, rfl⟩
    · exact ⟨_, _, rfl, rfl, rfl, rfl⟩
  | set_savepoint =>
    refine change_serving rfl rfl (fun unused => onTransaction_left unused _) fun tx serving => ?_
    rw [Op.run, set_savepoint_serving serving]
    exact ⟨_, _, rfl, rfl, rfl, rfl⟩
  | rollback_to_last_savepoint =>
    refine change_serving rfl rfl (fun unused => onTransaction_left unused _) fun tx serving => ?_
    rw [Op.run, rollback_serving serving]
    split
    · exact ⟨tx, _, serving.slot, rfl, rfl, rfl⟩
    · exact ⟨_, _, rfl, rfl, rfl, rfl⟩

/-- A call that drops a handle. -/
theorem call_drops (drops : Drops c op) : ∃ tx, Dropped i tx op c := by
  cases op with
  | commit_transaction =>
    obtain ⟨opened, taken, sound⟩ := drops
    obtain ⟨tx, slot⟩ := Option.ne_none_iff_exists'.mp taken
    have ran := commit_serving ⟨opened, slot⟩
    rw [if_neg (by simp [sound])] at ran
    have called : (Op.commit_transaction.run i c).2.lib = c.lib.tick (.commit tx.id true) := by rw [Op.run, ran]
    refine ⟨tx.id, ?_, ?_, .inl ?_⟩
    · rw [handle, slot]
      rfl
    · rw [Op.run, ran]
      rfl
    · exact entries_tick called rfl
  | close_database =>
    obtain ⟨opened, taken⟩ := drops
    obtain ⟨tx, slot⟩ := Option.ne_none_iff_exists'.mp taken
    refine ⟨tx.id, ?_, ?_, .inr ?_⟩
    · rw [handle, slot]
      rfl
    · simp [Op.run, Datastore.close_database, opened, handle]
    · unfold entries
      simp [Op.run, Datastore.close_database, opened, closing]
  | open_database | begin_transaction | delete_transaction | write_keyval_pair | read_keyval_pair | delete_keyval_pair
  | set_savepoint | rollback_to_last_savepoint => exact drops.elim

end Changes

/-! ### The law -/

/-- Handles are entered below `next`; those in a slot are held, and those that are
    not destroyed are in the slot of the database they were begun on. -/
structure Inv (slots : Nat → Option Nat) (next : Nat) (ledger : List (Entry Nat Nat)) : Prop where
  orderly : Orderly ledger
  fresh : ∀ db tx, .acquire db tx ∈ ledger → tx < next
  stored : ∀ i tx, slots i = some tx → .acquire i tx ∈ ledger ∧ .release tx ∉ ledger
  covered : ∀ db tx, .acquire db tx ∈ ledger → .release tx ∈ ledger ∨ slots db = some tx

section Inv
variable {slots slots' : Nat → Option Nat} {next next' : Nat} {ledger es : List (Entry Nat Nat)} {i : Nat}

/-- A handle is in one slot only. -/
private theorem Inv.apart (inv : Inv slots next ledger) {j k tx : Nat} (here : slots j = some tx)
    (there : slots k = some tx) : j = k :=
  orderly_owner inv.orderly (inv.stored j tx here).1 (inv.stored k tx there).1

private theorem Inv.held (inv : Inv slots next ledger) {j tx : Nat} (here : slots j = some tx) : Held ledger tx :=
  ⟨⟨j, (inv.stored j tx here).1⟩, (inv.stored j tx here).2⟩

/-- An entry that begins and destroys nothing. -/
private theorem Inv.noted (inv : Inv slots next ledger) {e : Entry Nat Nat} (allowed : Allowed ledger e)
    (begins : ∀ db tx, e ≠ .acquire db tx) (destroys : ∀ tx, e ≠ .release tx) : Inv slots next (ledger ++ [e]) := by
  have acquired : ∀ {db tx}, Entry.acquire db tx ∈ ledger ++ [e] → .acquire db tx ∈ ledger := by
    intro db tx member
    rcases List.mem_append.mp member with earlier | last
    · exact earlier
    · exact absurd (List.mem_singleton.mp last).symm (begins db tx)
  have released : ∀ {tx}, Entry.release tx ∈ ledger ++ [e] ↔ .release tx ∈ ledger := by
    intro tx
    rw [List.mem_append, List.mem_singleton]
    constructor
    · rintro (earlier | last)
      · exact earlier
      · exact absurd last.symm (destroys tx)
    · exact .inl
  constructor
  · exact orderly_snoc.mpr ⟨inv.orderly, allowed⟩
  · exact fun db tx member => inv.fresh db tx (acquired member)
  · intro j tx here
    obtain ⟨acquired, kept⟩ := inv.stored j tx here
    exact ⟨List.mem_append_left _ acquired, fun member => kept (released.mp member)⟩
  · intro db tx member
    rw [released]
    exact inv.covered db tx (acquired member)

private theorem Inv.begun (inv : Inv slots next ledger) (empty : slots i = none) :
    Inv (Function.update slots i (some next)) (next + 1) (ledger ++ [.acquire i next]) := by
  have new : ∀ owner, Entry.acquire owner next ∉ ledger := fun owner member =>
    absurd (inv.fresh owner next member) (Nat.lt_irrefl next)
  have released : ∀ {tx}, Entry.release tx ∈ ledger ++ [.acquire i next] ↔ .release tx ∈ ledger := by
    intro tx
    simp
  have unused : Entry.release next ∉ ledger := by
    intro member
    obtain ⟨before, after, split⟩ := List.append_of_mem member
    obtain ⟨⟨owner, acquired⟩, -⟩ : Held before next := inv.orderly before _ after split
    exact new owner (split ▸ List.mem_append_left _ acquired)
  constructor
  · exact orderly_snoc.mpr ⟨inv.orderly, new⟩
  · intro db tx member
    rcases List.mem_append.mp member with earlier | last
    · exact Nat.lt_succ_of_lt (inv.fresh db tx earlier)
    · cases List.mem_singleton.mp last
      exact Nat.lt_succ_self next
  · intro j tx here
    rw [released]
    by_cases same : j = i
    · subst same
      rw [Function.update_self] at here
      cases here
      exact ⟨List.mem_append_right _ List.mem_cons_self, unused⟩
    · rw [Function.update_of_ne same] at here
      obtain ⟨acquired, kept⟩ := inv.stored j tx here
      exact ⟨List.mem_append_left _ acquired, kept⟩
  · intro db tx member
    rw [released]
    rcases List.mem_append.mp member with earlier | last
    · rcases inv.covered db tx earlier with gone | here
      · exact .inl gone
      · have other : db ≠ i := by
          rintro rfl
          rw [empty] at here
          cases here
        exact .inr (by rw [Function.update_of_ne other, here])
    · cases List.mem_singleton.mp last
      exact .inr (Function.update_self ..)

private theorem Inv.destroyed (inv : Inv slots next ledger) {tx : Nat} (here : slots i = some tx) :
    Inv (Function.update slots i none) next (ledger ++ [.release tx]) := by
  have acquired : ∀ {db tx'}, Entry.acquire db tx' ∈ ledger ++ [.release tx] ↔ .acquire db tx' ∈ ledger := by
    intro db tx'
    simp
  constructor
  · exact orderly_snoc.mpr ⟨inv.orderly, inv.held here⟩
  · exact fun db tx' member => inv.fresh db tx' (acquired.mp member)
  · intro j tx' there
    by_cases same : j = i
    · rw [same, Function.update_self] at there
      cases there
    · rw [Function.update_of_ne same] at there
      obtain ⟨begun, kept⟩ := inv.stored j tx' there
      refine ⟨acquired.mpr begun, fun member => ?_⟩
      rcases List.mem_append.mp member with earlier | last
      · exact kept earlier
      · cases List.mem_singleton.mp last
        exact same (inv.apart there here)
  · intro db tx' member
    rcases inv.covered db tx' (acquired.mp member) with gone | there
    · exact .inl (List.mem_append_left _ gone)
    · by_cases same : db = i
      · subst same
        obtain rfl : tx' = tx := Option.some.inj (there.symm.trans here)
        exact .inl (List.mem_append_right _ List.mem_cons_self)
      · exact .inr (by rw [Function.update_of_ne same, there])

/-- A change of one slot. -/
theorem Inv.step (inv : Inv slots next ledger) (change : Change i next (slots i) (slots' i) next' es)
    (others : ∀ j, j ≠ i → slots' j = slots j) : Inv slots' next' (ledger ++ es) := by
  have updated : slots' = Function.update slots i (slots' i) := by
    funext j
    by_cases same : j = i
    · rw [same, Function.update_self]
    · rw [Function.update_of_ne same, others j same]
  generalize before : slots i = a at change
  generalize after : slots' i = b at change updated
  rw [updated]
  cases change with
  | keeps =>
    rw [← before, Function.update_eq_self, List.append_nil]
    exact inv
  | begins => exact inv.begun before
  | uses tx =>
    rw [← before, Function.update_eq_self]
    exact inv.noted (inv.held before) (by simp) (by simp)
  | destroys tx => exact inv.destroyed before
  | closes =>
    rw [← before, Function.update_eq_self]
    refine inv.noted (fun tx acquired => ?_) (by simp) (by simp)
    rcases inv.covered i tx acquired with gone | here
    · exact gone
    · rw [before] at here
      cases here

end Inv

/-! ### Runs -/

def slots (s : Session) (i : Nat) : Option Nat := handle (s.rocks.shard i)

def Step (s : Session) (call : Nat × Op) (t : Session) : Prop := t = perform s call

/-- The call drops no handle. -/
def Keeps (s : Session) (call : Nat × Op) : Prop := ¬ Drops (s.rocks.cell call.1) call.2

private theorem slots_perform (s : Session) (i : Nat) (op : Op) :
    slots (perform s (i, op)) i = handle (op.run i (s.rocks.cell i)).2.toShard ∧
      ∀ j, j ≠ i → slots (perform s (i, op)) j = slots s j := by
  constructor
  · unfold slots perform
    simp only [onShard_eq, put_shard_self]
  · intro j other
    unfold slots perform
    simp only [onShard_eq, put_shard_other _ _ _ other]

private theorem perform_keeps {s t : Session} {call : Nat × Op} (inv : Inv (slots s) s.rocks.lib.next s.ledger)
    (step : Step s call t) (keeps : Keeps s call) : Inv (slots t) t.rocks.lib.next t.ledger := by
  obtain ⟨i, op⟩ := call
  obtain rfl : t = perform s (i, op) := step
  obtain ⟨here, others⟩ := slots_perform s i op
  refine inv.step ?_ others
  rw [here]
  exact call_changes keeps

private theorem perform_breaks {s t : Session} {call : Nat × Op} (inv : Inv (slots s) s.rocks.lib.next s.ledger)
    (step : Step s call t) (drops : ¬ Keeps s call) : ¬ Sound t := by
  obtain ⟨i, op⟩ := call
  obtain rfl : t = perform s (i, op) := step
  obtain ⟨tx, dropped⟩ := call_drops (i := i) (not_not.mp drops)
  obtain ⟨here, others⟩ := slots_perform s i op
  obtain ⟨acquired, kept⟩ := inv.stored i tx dropped.before
  intro sound
  -- nothing destroys the handle, and no slot holds it
  have unreleased : (perform s (i, op)).ledger.count (.release tx) = 0 := by
    show (s.ledger ++ entries i op (s.rocks.cell i)).count _ = 0
    rw [List.count_append, List.count_eq_zero.mpr kept]
    rcases dropped.entries with used | shut
    · simp [used]
    · simp [shut]
  have once := sound.destroyed i tx (List.mem_append_left _ acquired) fun j there => by
    by_cases same : j = i
    · rw [same] at there
      have gone := here.trans dropped.after
      rw [slots, there] at gone
      cases gone
    · exact same (inv.apart ((others j same).symm.trans there) dropped.before)
  omega

private theorem sound_of_inv {s : Session} (inv : Inv (slots s) s.rocks.lib.next s.ledger) : Sound s := by
  refine ⟨fun db tx acquired nowhere => ?_, inv.orderly⟩
  rcases inv.covered db tx acquired with gone | here
  · exact orderly_released inv.orderly gone
  · exact absurd here (nowhere db)

/-- In every run of calls on any databases, with any errors of the library: no
    handle is leaked or reused as long as no commit of an open transaction
    succeeds and no database is closed with a transaction. -/
theorem handles_kept_iff {rocks : Env} (unused : ∀ i, (rocks.shard i).tx = none)
    {trail : List (Session × (Nat × Op) × Session)} {last : Session} (run : Run Step ⟨rocks, []⟩ trail last) :
    (Sound ⟨rocks, []⟩ ∧ ∀ e ∈ trail, Sound e.2.2) ↔ ∀ e ∈ trail, Keeps e.1 e.2.1 := by
  refine run_keeps_iff (fun s => Inv (slots s) s.rocks.lib.next s.ledger) Keeps (fun _ _ _ => perform_keeps)
    (fun _ _ _ => perform_breaks) (fun _ => sound_of_inv) ?_ run
  constructor
  · exact orderly_nil
  · simp
  · intro i tx here
    have none : slots ⟨rocks, []⟩ i = none := by simp [slots, handle, unused i]
    rw [none] at here
    cases here
  · simp

/-- The environment before `init_database_env`, with a library that reports no errors. -/
def zeroed : Env where
  num_workers := 1
  workers _ := ⟨false, 0⟩
  shard _ := ⟨false, none, 0, []⟩
  lib := ⟨fun _ _ => false, 0, 0, 0, []⟩
  staffed := Nat.one_pos

/-- Database 0 is opened and a transaction begun on it. -/
def begun : Session := perform (perform ⟨zeroed, []⟩ (0, .open_database)) (0, .begin_transaction)

/-- A transaction that is deleted before its database is closed. -/
theorem deleted_sound : ∃ trail last,
    Run Step ⟨zeroed, []⟩ trail last ∧ last.ledger = [.acquire 0 0, .release 0, .shut 0] ∧ Sound last := by
  have run := ((((.stay : Run Step ⟨zeroed, []⟩ [] _).next
    (i := (0, .open_database)) rfl).next (i := (0, .begin_transaction)) rfl).next (i := (0, .delete_transaction)) rfl).next
      (i := (0, .close_database)) rfl
  refine ⟨_, _, run, rfl, ?_⟩
  refine ((handles_kept_iff (fun _ => rfl) run).mpr fun e member => ?_).2 _
    (List.mem_append_right _ List.mem_cons_self)
  simp only [List.nil_append, List.cons_append, List.mem_cons, List.not_mem_nil, or_false] at member
  rcases member with rfl | rfl | rfl | rfl
  · exact id
  · exact id
  · exact id
  · rintro ⟨-, taken⟩
    exact taken rfl

/-- A transaction that is committed leaves its handle. -/
theorem committed_leaked : ∃ trail last, Run Step ⟨zeroed, []⟩ trail last ∧ ¬ Sound last := by
  have run := (((.stay : Run Step ⟨zeroed, []⟩ [] _).next
    (i := (0, .open_database)) rfl).next (i := (0, .begin_transaction)) rfl).next (i := (0, .commit_transaction)) rfl
  refine ⟨_, _, run, fun sound => ?_⟩
  have once := sound.destroyed 0 0 (by decide) fun i => ?_
  · exact absurd once (by decide)
  · by_cases same : i = 0
    · subst same
      decide
    · have untouched := fun s op => (slots_perform s 0 op).2 i same
      show slots (perform begun (0, .commit_transaction)) i ≠ some 0
      rw [untouched, begun, untouched, untouched]
      simp [slots, handle, zeroed]

end Shardb.TxHandles
