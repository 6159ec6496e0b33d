import Mathlib.Logic.Function.Iterate
import Mathlib.Order.Monotone.Defs
import Shardb.SinglePartition
import Shardb.Grammar

/-!
# Shutdown while a message is handled

A worker that handles a single-partition message as the datastore calls it
makes (`call`), with the calls of `int_handler` in between (`meets`). The worker
alone does what `handle_db_message` does (`uninterrupted`). `Withstands` says when
the closing of its database does no harm: every function then reports an error,
which the command loop takes for a failed command, the abort loop for a rollback
to be tried again, and the commit for nothing at all.
-/

namespace Shardb.Shutdown
open Shardb.Bytes Shardb.CStrings Shardb.Loops Shardb.Journal Shardb.Rocks Shardb.Datastore Shardb.Handlers Shardb.Server
open Shardb.Tokens Shardb.Handling Shardb.Interpreter Shardb.SinglePartition Shardb.Grammar

/-! ### The two parties -/

/-- Call `p` of the loop of `int_handler`: database `p / 2` is closed, then its
    files are deleted. `removed` says which files the library can delete. -/
def int_handler (removed : Nat → Bool) (p : Nat) (rocks : Env) : Env :=
  if p / 2 < rocks.num_workers then
    if p % 2 = 0 then (rocks.onShard (p / 2) close_database).2
    else (rocks.onShard (p / 2) (destroy_database (removed (p / 2)))).2
  else rocks

/-- The datastore call a worker makes next: it begins the transaction and sets
    the savepoint, drops the transaction when that fails, runs the commands that
    are left and commits behind the last, or aborts. -/
inductive Pc
  | begin (cmds : List Command)
  | savepoint (cmds : List Command)
  | discard
  | commands (rest : List Command)
  | abort
  | returned (ret : Int)
  | crashed
  deriving DecidableEq

/-- The next datastore call of the worker on shard `w`, and what follows it.
    A worker that has returned, or was given `NULL` for an argument, makes none. -/
def call (w : Nat) : Pc → Cell → Pc × Cell
  | .begin cmds, c =>
    let (ret, c) := begin_transaction w c
    (if 0 ≤ ret then .savepoint cmds else .commands [], c)
  | .savepoint cmds, c =>
    let (ret, c) := counted_savepoint c
    (if 0 ≤ ret then .commands cmds else .discard, c)
  | .discard, c => (.commands [], (delete_transaction c).2)
  | .commands [], c => (.returned 0, (commit_shard c).2)
  | .commands (cmd :: rest), c =>
    match singleCell cmd c with
    | .error _ => (.crashed, c)
    | .ok (ret, c) => (if ret < 0 then .abort else .commands rest, c)
  | .abort, c =>
    if 0 < c.savepoint_count then (.abort, (counted_rollback c).2)
    else (.returned (-1), (delete_transaction c).2)
  | .returned ret, c => (.returned ret, c)
  | .crashed, c => (.crashed, c)

/-- Where `handle_db_message` starts on a message of type 0; one for another
    worker is turned away without a call. -/
def entry (w : Nat) (pkt : Mbuf) : Pc := if pkt.leader = w then .begin (commandsOf pkt.message) else .returned (-1)

/-- How many calls `int_handler` has made when the worker makes its `k`-th. -/
structure Interleaving where
  before : Nat → Nat
  ordered : Monotone before

/-- `n` calls of `int_handler` from call `p` on. -/
def handlerCalls (removed : Nat → Bool) : Nat → Nat → Env → Env
  | 0, _, rocks => rocks
  | n + 1, p, rocks => handlerCalls removed n (p + 1) (int_handler removed p rocks)

/-- What the worker's `k`-th call meets. -/
def meets (removed : Nat → Bool) (h : Interleaving) (w : Nat) (pkt : Mbuf) (rocks : Env) : Nat → Pc × Env
  | 0 => (entry w pkt, handlerCalls removed (h.before 0) 0 (Env.received rocks))
  | k + 1 =>
    let (pc, rocks) := meets removed h w pkt rocks k
    let (pc, c) := call w pc (rocks.cell w)
    (pc, handlerCalls removed (h.before (k + 1) - h.before k) (h.before k) (rocks.put w c))

/-! ### A worker alone -/

/-- The worker comes from one state to another by its own calls. -/
def Reaches (w : Nat) (s t : Pc × Cell) : Prop := ∃ k, (fun s => call w s.1 s.2)^[k] s = t

theorem reaches_refl (w : Nat) (s : Pc × Cell) : Reaches w s s := ⟨0, rfl⟩

theorem reaches_next {w : Nat} {pc : Pc} {c : Cell} {s t : Pc × Cell} (once : call w pc c = s) (later : Reaches w s t) :
    Reaches w (pc, c) t := by
  obtain ⟨k, rfl⟩ := later
  exact ⟨k + 1, by rw [Function.iterate_succ_apply, once]⟩

theorem reaches_trans {w : Nat} {s t u : Pc × Cell} (first : Reaches w s t) (second : Reaches w t u) :
    Reaches w s u := by
  obtain ⟨k, rfl⟩ := first
  obtain ⟨l, rfl⟩ := second
  exact ⟨l + k, Function.iterate_add_apply ..⟩

theorem runCommands_reaches (w : Nat) : ∀ {cmds : List Command} {c c' : Cell} {failed : Bool} {calls : List (Command × Int)},
    runCommands singleCell cmds c = .ok (failed, c', calls) →
      Reaches w (.commands cmds, c) (if failed then .abort else .commands [], c') := by
  intro cmds
  induction cmds with
  | nil => intro c c' failed calls run; cases run; exact reaches_refl w _
  | cons cmd rest ih =>
    intro c c' failed calls run
    obtain ⟨ret, next, ran, ⟨negative, rfl, rfl, _⟩ | ⟨zero, later, behind, _⟩⟩ := runCommands_cons _ run
    · refine reaches_next ?_ (reaches_refl w _)
      simp only [call, ran, if_pos negative, if_true]
    · refine reaches_next ?_ (ih behind)
      simp only [call, ran, if_neg (Int.not_lt.mpr zero)]

theorem abort_reaches (w : Nat) {fuel : Nat} {c c' : Cell} {ret : Int} (aborted : abort_shard fuel c = .ok (ret, c')) :
    Reaches w (.abort, c) (.returned (-1), c') := by
  obtain ⟨left, reached, spent, rfl⟩ := abort_shard_ok (fun c' => Reaches w (.abort, c) (.abort, c')) (by
    intro c₁ more reached
    exact reaches_trans reached (reaches_next (by simp only [call, if_pos more]) (reaches_refl w _)))
    (reaches_refl w _) aborted
  exact reaches_trans reached (reaches_next (by simp only [call, if_neg (Int.not_lt.mpr spent)]) (reaches_refl w _))

/-- Without calls of `int_handler` the worker does what the handler does. -/
theorem reaches_meets {removed : Nat → Bool} {h : Interleaving} (alone : ∀ k, h.before k = 0) {w : Nat} {pkt : Mbuf}
    {rocks : Env} {pc : Pc} {c : Cell} (reaches : Reaches w (entry w pkt, (Env.received rocks).cell w) (pc, c)) :
    ∃ k, meets removed h w pkt rocks k = (pc, (Env.received rocks).put w c) := by
  obtain ⟨k, reached⟩ := reaches
  have steps : ∀ k, meets removed h w pkt rocks k =
      (((fun s => call w s.1 s.2)^[k] (entry w pkt, (Env.received rocks).cell w)).1,
        (Env.received rocks).put w ((fun s => call w s.1 s.2)^[k] (entry w pkt, (Env.received rocks).cell w)).2) := by
    intro k
    induction k with
    | zero => simp only [meets, alone, handlerCalls, Function.iterate_zero, id_eq, put_cell]
    | succ k ih =>
      simp only [meets, ih, alone, handlerCalls, Nat.sub_self, put_cell_self, put_put, Function.iterate_succ_apply']
  exact ⟨k, by rw [steps, reached]⟩

/-! Each of the worker's calls, by what it finds. -/

section Call
variable {w : Nat} {c : Cell} {cmds : List Command}

theorem call_begin_busy (busy : c.tx_db = false ∨ c.tx ≠ none) : call w (.begin cmds) c = (.commands [], c) := by
  simp only [call, begin_busy busy]
  rfl

theorem call_begin_faulty (opened : c.tx_db = true) (empty : c.tx = none) (faulty : c.lib.fails .begin = true) :
    call w (.begin cmds) c = (.savepoint cmds, { c with lib := c.lib.tick (.begin w none) }) := by
  simp only [call, begin_faulty opened empty w faulty]
  rfl

theorem call_begin_fine (opened : c.tx_db = true) (empty : c.tx = none) (fine : c.lib.fails .begin = false) :
    call w (.begin cmds) c = (.savepoint cmds, (begin_transaction w c).2) := by
  simp only [call, begin_fresh opened empty w fine]
  rfl

theorem call_savepoint_idle (idle : c.tx_db = false ∨ c.tx = none) : call w (.savepoint cmds) c = (.discard, c) := by
  simp only [call, counted_savepoint, set_savepoint, onTransaction_idle idle]
  rfl

theorem call_discard_idle (idle : c.tx_db = false ∨ c.tx = none) : call w .discard c = (.commands [], c) := by
  simp only [call, delete_transaction_idle idle]

theorem call_commit_idle (idle : c.tx_db = false ∨ c.tx = none) :
    call w (.commands []) c = (.returned 0, { c with savepoint_count := 0 }) := by
  simp only [call, commit_shard_idle idle]

theorem call_savepoint_begun (opened : c.tx_db = true) (empty : c.tx = none) (fine : c.lib.fails .begin = false) :
    call w (.savepoint cmds) (begin_transaction w c).2 = (.commands cmds, started w c) := by
  simp only [call, counted_savepoint, begun_savepoint opened empty fine w]
  rfl

end Call

/-- A worker that cannot begin goes straight to its commit. -/
theorem busy_reaches {w : Nat} {c : Cell} (busy : c.tx_db = false ∨ c.tx ≠ none) (cmds : List Command) :
    Reaches w (.begin cmds, c) (.returned 0, (commit_shard c).2) :=
  reaches_next (call_begin_busy busy) (reaches_next rfl (reaches_refl w _))

/-- So does one whose begin the library refuses, by way of the savepoint that
    finds no transaction. -/
theorem unbegun_reaches {w : Nat} {c : Cell} (opened : c.tx_db = true) (empty : c.tx = none)
    (faulty : c.lib.fails .begin = true) (cmds : List Command) :
    Reaches w (.begin cmds, c) (.returned 0, { c with savepoint_count := 0, lib := c.lib.tick (.begin w none) }) := by
  have idle : ({ c with lib := c.lib.tick (.begin w none) } : Cell).tx_db = false ∨
      ({ c with lib := c.lib.tick (.begin w none) } : Cell).tx = none := .inr empty
  refine reaches_next (call_begin_faulty opened empty faulty) (reaches_next (call_savepoint_idle idle) ?_)
  refine reaches_next (call_discard_idle idle) (reaches_next (call_commit_idle idle) ?_)
  exact reaches_refl w _

theorem begun_reaches {w : Nat} {c : Cell} (opened : c.tx_db = true) (empty : c.tx = none)
    (fine : c.lib.fails .begin = false) (cmds : List Command) :
    Reaches w (.begin cmds, c) (.commands cmds, started w c) :=
  reaches_next (call_begin_fine opened empty fine)
    (reaches_next (call_savepoint_begun opened empty fine) (reaches_refl w _))

/-- Without calls of `int_handler` the worker does what `handle_db_message` does. -/
theorem uninterrupted (removed : Nat → Bool) {h : Interleaving} (alone : ∀ k, h.before k = 0) {app : App} {fuel : Nat}
    {undef : Int} {mem : Mem Buf} {pkt : Mbuf} {w : Nat} {rocks : Env} {done : Done} (type : pkt.msgtype = 0)
    (handled : handle_db_message app fuel undef mem pkt w rocks = .ok done) :
    ∃ k, meets removed h w pkt rocks k = (.returned done.ret, done.rocks) := by
  by_cases leader : pkt.leader = w
  · obtain ⟨msg, mem', handles, runs, _⟩ := handle_single app fuel undef mem pkt w rocks type leader
    rw [handles] at handled
    have start : entry w pkt = .begin (commandsOf pkt.message) := if_pos leader
    rcases busy_or_fresh ((Env.received rocks).cell w) with busy | ⟨opened, empty⟩
    · rw [single_partition_idle app fuel _ w mem' pkt (Env.received rocks) busy] at handled
      cases handled
      exact reaches_meets alone (start ▸ busy_reaches busy _)
    cases fine : (Env.received rocks).lib.fails .begin with
    | true =>
      rw [single_partition_unbegun app fuel _ w mem' pkt (Env.received rocks) opened empty fine] at handled
      cases handled
      exact reaches_meets alone (start ▸ unbegun_reaches opened empty fine _)
    | false =>
      obtain ⟨failed, c, ran, ending⟩ := begun_outcome (Env.received rocks) opened empty fine runs handled
      have commands := reaches_trans (begun_reaches opened empty fine _) (runCommands_reaches w ran)
      rcases ending with ⟨rfl, ret, left⟩ | ⟨rfl, ret, ret', c', aborted, left⟩
      · rw [ret, left]
        exact reaches_meets alone (start ▸ reaches_trans commands (reaches_next rfl (reaches_refl w _)))
      · rw [ret, left]
        exact reaches_meets alone (start ▸ reaches_trans commands (abort_reaches w aborted))
  · obtain ⟨mem', handles⟩ := handle_astray app fuel undef mem pkt w rocks (.inl ⟨type, leader⟩)
    rw [handles] at handled
    cases handled
    refine ⟨0, ?_⟩
    simp only [meets, alone, handlerCalls, entry, if_neg leader]

/-! ### What `int_handler` does to the worker's shard -/

/-- Whether the worker's `k`-th call comes before the one that closes its database. -/
def Interleaving.opened (h : Interleaving) (w k : Nat) : Prop := h.before k ≤ 2 * w

instance (h : Interleaving) (w k : Nat) : Decidable (h.opened w k) := inferInstanceAs (Decidable (_ ≤ _))

/-- What the worker's shard keeps until its next call. -/
structure Touched (opened : Prop) (c c' : Cell) : Prop where
  kept : opened → c' = c
  closed : ¬ opened → c'.tx_db = false
  savepoint_count : c'.savepoint_count = c.savepoint_count
  lib : c'.lib = c.lib

theorem onShard_other {i w : Nat} (other : i ≠ w) {rocks : Env} {f : Cell → Int × Cell}
    (lib : (f (rocks.cell i)).2.lib = rocks.lib) : (rocks.onShard i f).2.cell w = rocks.cell w := by
  simp only [onShard_eq, Env.cell, put_shard_other _ _ _ (Ne.symm other), put_lib]
  exact congrArg _ lib

theorem int_handler_other (removed : Nat → Bool) {p w : Nat} (other : p / 2 ≠ w) (rocks : Env) :
    (int_handler removed p rocks).cell w = rocks.cell w := by
  unfold int_handler
  split_ifs
  · refine onShard_other other ?_
    unfold close_database
    split_ifs <;> rfl
  · refine onShard_other other ?_
    unfold destroy_database
    split_ifs <;> rfl
  · rfl

theorem int_handler_closes (removed : Nat → Bool) {w : Nat} {rocks : Env} (running : w < rocks.num_workers) :
    (int_handler removed (2 * w) rocks).cell w = (close_database (rocks.cell w)).2 := by
  have half : 2 * w / 2 = w := by omega
  have even : 2 * w % 2 = 0 := by omega
  simp only [int_handler, half, even, running, if_true, onShard_eq, put_cell_self]

theorem int_handler_deletes (removed : Nat → Bool) {w : Nat} {rocks : Env} (running : w < rocks.num_workers) :
    (int_handler removed (2 * w + 1) rocks).cell w = (destroy_database (removed w) (rocks.cell w)).2 := by
  have half : (2 * w + 1) / 2 = w := by omega
  have odd : (2 * w + 1) % 2 ≠ 0 := by omega
  simp only [int_handler, half, odd, running, if_true, if_false, onShard_eq, put_cell_self]

theorem int_handler_workers (removed : Nat → Bool) (p : Nat) (rocks : Env) :
    (int_handler removed p rocks).num_workers = rocks.num_workers := by
  unfold int_handler
  split_ifs <;> rfl

/-- One call of `int_handler`. -/
theorem int_handler_touches (removed : Nat → Bool) {p w : Nat} {rocks : Env} (running : w < rocks.num_workers)
    (before : 2 * w < p → (rocks.cell w).tx_db = false) :
    Touched (p < 2 * w) (rocks.cell w) ((int_handler removed p rocks).cell w) := by
  by_cases other : p / 2 ≠ w
  · rw [int_handler_other removed other]
    exact ⟨fun _ => rfl, fun past => before (by omega), rfl, rfl⟩
  · rcases (show p = 2 * w ∨ p = 2 * w + 1 by omega) with rfl | rfl
    · rw [int_handler_closes removed running, close_database]
      split_ifs with closed
      · exact ⟨fun early => absurd early (lt_irrefl _), fun _ => closed, rfl, rfl⟩
      · exact ⟨fun early => absurd early (lt_irrefl _), fun _ => rfl, rfl, rfl⟩
    · have closed := before (Nat.lt_succ_self _)
      rw [int_handler_deletes removed running, destroy_database]
      split_ifs <;> exact ⟨fun early => by omega, fun _ => closed, rfl, rfl⟩

/-- Several calls of `int_handler`. -/
theorem handlerCalls_touches (removed : Nat → Bool) {w : Nat} : ∀ (n p : Nat) (rocks : Env), w < rocks.num_workers →
    (2 * w < p → (rocks.cell w).tx_db = false) →
    Touched (p + n ≤ 2 * w) (rocks.cell w) ((handlerCalls removed n p rocks).cell w) ∧
      (handlerCalls removed n p rocks).num_workers = rocks.num_workers := by
  intro n
  induction n with
  | zero =>
    intro p rocks _ before
    exact ⟨⟨fun _ => rfl, fun past => before (by omega), rfl, rfl⟩, rfl⟩
  | succ n ih =>
    intro p rocks running before
    have once := int_handler_touches removed running before
    have workers := int_handler_workers removed p rocks
    obtain ⟨rest, same⟩ := ih (p + 1) _ (workers ▸ running) (fun past => once.closed (by omega))
    refine ⟨⟨fun early => ?_, fun past => rest.closed (by omega), ?_, ?_⟩, same.trans workers⟩
    · exact (rest.kept (by omega)).trans (once.kept (by omega))
    · exact rest.savepoint_count.trans once.savepoint_count
    · exact rest.lib.trans once.lib

/-- The worker's calls with a database that is closed at some time: `opened` says
    which of them come before. -/
structure Interrupted (w : Nat) (opened : Nat → Prop) (start : Pc × Cell) (v : Nat → Pc × Cell) : Prop where
  earlier : ∀ {j k}, j ≤ k → opened k → opened j
  first : (v 0).1 = start.1
  firstCell : Touched (opened 0) start.2 (v 0).2
  next : ∀ k, (v (k + 1)).1 = (call w (v k).1 (v k).2).1
  nextCell : ∀ k, Touched (opened (k + 1)) (call w (v k).1 (v k).2).2 (v (k + 1)).2

theorem counted_rollback_idle {c : Cell} (idle : c.tx_db = false ∨ c.tx = none) : counted_rollback c = (-1, c) := by
  rw [counted_rollback, rollback_to_last_savepoint, onTransaction_idle idle]
  rfl

/-- A closed database stays closed. -/
theorem call_closed (w : Nat) (pc : Pc) {c : Cell} (closed : c.tx_db = false) : (call w pc c).2.tx_db = false := by
  have idle : c.tx_db = false ∨ c.tx = none := .inl closed
  cases pc with
  | begin cmds => rw [call_begin_busy (.inl closed)]; exact closed
  | savepoint cmds => rw [call_savepoint_idle idle]; exact closed
  | discard => rw [call_discard_idle idle]; exact closed
  | commands rest =>
    cases rest with
    | nil => rw [call_commit_idle idle]; exact closed
    | cons cmd rest =>
      simp only [call]
      cases ran : singleCell cmd c with
      | error e => exact closed
      | ok answer =>
        obtain ⟨ret, c'⟩ := answer
        obtain ⟨_, rfl⟩ := singleCell_idle idle ran
        exact closed
  | abort =>
    simp only [call]
    split_ifs
    · rw [counted_rollback_idle idle]; exact closed
    · rw [delete_transaction_idle idle]; exact closed
  | returned ret => exact closed
  | crashed => exact closed

section Meets
variable (removed : Nat → Bool) (h : Interleaving) {w : Nat} (pkt : Mbuf) {rocks : Env}

/-- Between two calls of the worker. -/
theorem meets_touched {k : Nat} (running : w < (meets removed h w pkt rocks k).2.num_workers)
    (closed : ¬ h.opened w k → ((meets removed h w pkt rocks k).2.cell w).tx_db = false) :
    Touched (h.opened w (k + 1)) (call w (meets removed h w pkt rocks k).1 ((meets removed h w pkt rocks k).2.cell w)).2
        ((meets removed h w pkt rocks (k + 1)).2.cell w) ∧
      (meets removed h w pkt rocks (k + 1)).2.num_workers = (meets removed h w pkt rocks k).2.num_workers := by
  obtain ⟨touched, workers⟩ := handlerCalls_touches removed (h.before (k + 1) - h.before k) (h.before k)
    ((meets removed h w pkt rocks k).2.put w
      (call w (meets removed h w pkt rocks k).1 ((meets removed h w pkt rocks k).2.cell w)).2) running (by
    intro past
    rw [put_cell_self]
    exact call_closed w _ (closed (Nat.not_le.mpr past)))
  rw [put_cell_self, Nat.add_sub_cancel' (h.ordered (Nat.le_succ k))] at touched
  exact ⟨touched, workers⟩

theorem meets_interrupted (running : w < rocks.num_workers) :
    Interrupted w (h.opened w) (entry w pkt, (Env.received rocks).cell w)
      (fun k => ((meets removed h w pkt rocks k).1, (meets removed h w pkt rocks k).2.cell w)) := by
  obtain ⟨first, workers⟩ := handlerCalls_touches removed (h.before 0) 0 (Env.received rocks) running
    fun past => absurd past (Nat.not_lt_zero _)
  rw [Nat.zero_add] at first
  have steady : ∀ k, (meets removed h w pkt rocks k).2.num_workers = rocks.num_workers ∧
      (¬ h.opened w k → ((meets removed h w pkt rocks k).2.cell w).tx_db = false) := by
    intro k
    induction k with
    | zero => exact ⟨workers, first.closed⟩
    | succ k ih =>
      obtain ⟨touched, same⟩ := meets_touched removed h pkt (ih.1 ▸ running) ih.2
      exact ⟨same.trans ih.1, touched.closed⟩
  exact
    { earlier := fun before opened => Nat.le_trans (h.ordered before) opened
      first := rfl
      firstCell := first
      next := fun k => rfl
      nextCell := fun k => (meets_touched removed h pkt ((steady k).1 ▸ running) (steady k).2).1 }

end Meets

/-! ### What the worker needs -/

section Condition
variable (faults : Nat → Rocks.Call → Bool) (clock : Nat) (opened : Nat → Prop) (count₀ : Int)

/-- How many of `m` rollbacks from time `t` on the library does not refuse. -/
def calm : Nat → Nat → Nat
  | _, 0 => 0
  | t, m + 1 => (if faults t .rollback then 0 else 1) + calm (t + 1) m

/-- From its `k`-th call on the worker can count `savepoint_count` down: there is
    nothing to count down, or no savepoint was counted before the message and
    enough rollbacks succeed while the database is open. -/
def Unwindable (k : Nat) (count : Int) : Prop :=
  count ≤ 0 ∨ (count₀ ≤ 0 ∧ ∃ m, opened (k + m) ∧ count ≤ calm faults (clock + k) (m + 1))

/-- The database is closed at a good time for the commands that are left at the
    worker's `k`-th call, on a working copy with `savepoint_count`: behind the
    commit, which the library carries out, or before a command when there is
    nothing to count down. A command that fails leaves time to unwind. -/
def Timely : Nat → Workspace Contents → Int → List Command → Prop
  | k, _, _, [] => opened k ∧ faults (clock + k) .commit = false
  | k, ws, count, cmd :: rest =>
    Complete cmd ∧ ((¬ opened k ∧ count ≤ 0) ∨
      (opened k ∧
        match if refused faults (clock + k) cmd then none else step ws cmd with
        | none => Unwindable faults clock opened count₀ (k + 1) count
        | some ws => Timely (k + 1) ws (count + countChange cmd) rest))

end Condition

/-! ### The worker's calls, one after another -/

/-- The transaction of the message at the worker's `k`-th call, when the call
    was entered with the shard `s`. -/
structure On (s : Cell) (k : Nat) (c : Cell) (tx : Transaction) : Prop where
  serving : Serving c tx
  id : tx.id = s.lib.next
  committed : c.committed = s.committed
  faults : c.lib.faults = s.lib.faults
  clock : c.lib.clock = s.lib.clock + k
  depth : c.savepoint_count = s.savepoint_count + tx.saved.length

theorem on_carried {s : Cell} {k : Nat} {c : Cell} {tx : Transaction} {cmd : Command} {batch : Batch Write}
    (on : On s k c tx) (done : carry c.committed c.lib.message tx.toBatch cmd = some batch) :
    On s (k + 1) (carriedOut c tx cmd batch) { tx with toBatch := batch } := by
  have kept := carriedOut_kept on.serving done
  have depth := kept.depth
  have before := on.depth
  refine ⟨kept.serving, on.id, on.committed, on.faults, ?_, ?_⟩
  · change c.lib.clock + 1 = _
    rw [on.clock, Nat.add_assoc]
  · omega

theorem on_failed {s : Cell} {k : Nat} {c : Cell} {tx : Transaction} (on : On s k c tx) (e : Event) :
    On s (k + 1) { c with lib := c.lib.tick e } tx := by
  refine ⟨⟨on.serving.opened, on.serving.slot⟩, on.id, on.committed, on.faults, ?_, on.depth⟩
  change c.lib.clock + 1 = _
  rw [on.clock, Nat.add_assoc]

/-- The worker's shard at its `k`-th call: its transaction is open, or the
    database is closed. -/
structure Holds (s : Cell) (opened : Nat → Prop) (k : Nat) (c : Cell) : Prop where
  on : opened k → ∃ tx, On s k c tx
  closed : ¬ opened k → c.tx_db = false

/-- The worker's `k`-th call records an event. -/
def Makes (w : Nat) (v : Nat → Pc × Cell) (k : Nat) (e : Event) : Prop :=
  (call w (v k).1 (v k).2).2.lib.trace = (v k).2.lib.trace ++ [e]

/-- A call that commits nothing. -/
def Plain (c c' : Cell) : Prop :=
  c'.lib.trace = c.lib.trace ∨ ∃ e, c'.lib.trace = c.lib.trace ++ [e] ∧ ∀ id, e ≠ .commit id true

theorem singleCell_plain {cmd : Command} {c c' : Cell} {ret : Int} (ran : singleCell cmd c = .ok (ret, c')) :
    Plain c c' := by
  have quiet : ∀ id ok id', eventOf id ok cmd ≠ .commit id' true := by
    intro id ok id' same
    cases cmd <;> cases same
  rcases idle_or_serving c with idle | ⟨tx, serving⟩
  · exact .inl (by rw [(singleCell_idle idle ran).2])
  · cases singleCell_effect serving ran with
    | carried accepted done => exact .inr ⟨_, rfl, quiet _ _⟩
    | failed ok reason => exact .inr ⟨_, rfl, quiet _ _⟩

theorem delete_plain (c : Cell) : Plain c (delete_transaction c).2 := by
  rcases idle_or_serving c with idle | ⟨tx, serving⟩
  · exact .inl (by rw [delete_transaction_idle idle])
  · rw [delete_transaction_serving serving]
    exact .inr ⟨_, rfl, by simp⟩

/-- Only the commit commits. -/
theorem call_plain (w : Nat) {pc : Pc} (c : Cell) (other : pc ≠ .commands []) : Plain c (call w pc c).2 := by
  cases pc with
  | begin cmds =>
    rcases busy_or_fresh c with busy | ⟨opened, empty⟩
    · exact .inl (by rw [call_begin_busy busy])
    · cases fine : c.lib.fails .begin with
      | true => exact .inr ⟨_, by rw [call_begin_faulty opened empty fine]; rfl, by simp⟩
      | false =>
        rw [call_begin_fine opened empty fine, begin_fresh opened empty w fine]
        exact .inr ⟨_, rfl, by simp⟩
  | savepoint cmds => exact singleCell_plain (show singleCell .savepoint c = .ok (counted_savepoint c) from rfl)
  | discard => exact delete_plain c
  | commands rest =>
    cases rest with
    | nil => exact absurd rfl other
    | cons cmd rest =>
      simp only [call]
      cases ran : singleCell cmd c with
      | error e => exact .inl rfl
      | ok answer => exact singleCell_plain ran
  | abort =>
    simp only [call]
    split_ifs
    · exact singleCell_plain (show singleCell .rollback c = .ok (counted_rollback c) from rfl)
    · exact delete_plain c
  | returned ret => exact .inl rfl
  | crashed => exact .inl rfl

theorem makes_commit {w k id : Nat} {v : Nat → Pc × Cell} (commits : Makes w v k (.commit id true)) :
    (v k).1 = .commands [] := by
  by_contra other
  rcases call_plain w (v k).2 other with same | ⟨e, made, quiet⟩
  · rw [Makes, same] at commits
    simp at commits
  · rw [Makes, made] at commits
    simp only [List.append_cancel_left_eq, List.cons.injEq, and_true] at commits
    exact quiet id commits

/-- From its `k`-th call on the worker returns, and 0 only behind the commit of
    transaction `id` on the open database. -/
def SafeFrom (w : Nat) (opened : Nat → Prop) (v : Nat → Pc × Cell) (id k : Nat) : Prop :=
  (∃ l ret, k ≤ l ∧ (v l).1 = .returned ret) ∧
    ∀ l, (v l).1 = .returned 0 → ∃ j < l, Makes w v j (.commit id true) ∧ opened j

theorem safe_next {w : Nat} {opened : Nat → Prop} {v : Nat → Pc × Cell} {id k : Nat} (going : ∀ ret, (v k).1 ≠ .returned ret) :
    SafeFrom w opened v id k ↔ SafeFrom w opened v id (k + 1) := by
  refine and_congr_left fun _ => ⟨?_, ?_⟩
  · rintro ⟨l, ret, later, ended⟩
    rcases Nat.eq_or_lt_of_le later with rfl | later
    · exact absurd ended (going ret)
    · exact ⟨l, ret, later, ended⟩
  · rintro ⟨l, ret, later, ended⟩
    exact ⟨l, ret, Nat.le_of_succ_le later, ended⟩

section Calls
variable {w : Nat} {opened : Nat → Prop} {start : Pc × Cell} {v : Nat → Pc × Cell} (inter : Interrupted w opened start v)
include inter

/-- A worker that has returned makes no more calls. -/
theorem returned_stays {j k : Nat} {ret : Int} (later : j ≤ k) (ended : (v j).1 = .returned ret) :
    (v k).1 = .returned ret := by
  induction k, later using Nat.le_induction with
  | base => exact ended
  | succ k _ ih =>
    rw [inter.next, ih]
    rfl

theorem crashed_stays {j k : Nat} (later : j ≤ k) (ended : (v j).1 = .crashed) : (v k).1 = .crashed := by
  induction k, later using Nat.le_induction with
  | base => exact ended
  | succ k _ ih =>
    rw [inter.next, ih]
    rfl

/-- A worker that aborts does not return 0. -/
theorem abort_fails {k l : Nat} (aborts : (v k).1 = .abort) (later : k ≤ l) :
    (v l).1 = .abort ∨ (v l).1 = .returned (-1) := by
  induction l, later using Nat.le_induction with
  | base => exact .inl aborts
  | succ l _ ih =>
    rw [inter.next]
    rcases ih with still | ended
    · rw [still, call]
      split_ifs
      · exact .inl rfl
      · exact .inr rfl
    · rw [ended]
      exact .inr rfl

theorem holds_next {s : Cell} {k : Nat} (on : opened k → ∃ tx, On s (k + 1) (call w (v k).1 (v k).2).2 tx) :
    Holds s opened (k + 1) (v (k + 1)).2 := by
  refine ⟨fun still => ?_, (inter.nextCell k).closed⟩
  rw [(inter.nextCell k).kept still]
  exact on (inter.earlier (Nat.le_succ k) still)

/-- A rollback of the abort loop counts down when it succeeds: while the database
    is open, when the library does not refuse and a savepoint of the message is left. -/
theorem abort_call {s : Cell} {k : Nat} (aborts : (v k).1 = .abort) (more : 0 < (v k).2.savepoint_count)
    (holds : Holds s opened k (v k).2) :
    (v (k + 1)).1 = .abort ∧ Holds s opened (k + 1) (v (k + 1)).2 ∧
      ((opened k ∧ s.lib.faults (s.lib.clock + k) .rollback = false ∧ s.savepoint_count < (v k).2.savepoint_count ∧
          (v (k + 1)).2.savepoint_count = (v k).2.savepoint_count - 1) ∨
        ((opened k → s.lib.faults (s.lib.clock + k) .rollback = true ∨ (v k).2.savepoint_count = s.savepoint_count) ∧
          (v (k + 1)).2.savepoint_count = (v k).2.savepoint_count)) := by
  have made : call w (v k).1 (v k).2 = (.abort, (counted_rollback (v k).2).2) := by
    rw [aborts, call, if_pos more]
  have count := (inter.nextCell k).savepoint_count
  have next := inter.next k
  rw [made] at count next
  refine ⟨next, ?_⟩
  by_cases open_k : opened k
  · obtain ⟨tx, on⟩ := holds.on open_k
    obtain ⟨ret, c', rolled, effect⟩ := counted_rollback_effect on.serving
    have depth := on.depth
    rw [rolled] at made count
    cases effect with
    | @carried batch accepted done =>
      refine ⟨holds_next inter fun _ => ⟨_, by rw [made]; exact on_carried on done⟩, .inl ⟨open_k, ?_, ?_, count⟩⟩
      · rw [← on.faults, ← on.clock]
        exact accepted
      · have deep : tx.saved ≠ [] := by
          intro none
          simp [carry, Batch.restore, none] at done
        have := List.length_pos_of_ne_nil deep
        omega
    | failed ok reason =>
      refine ⟨holds_next inter fun _ => ⟨_, by rw [made]; exact on_failed on _⟩, .inr ⟨fun _ => ?_, count⟩⟩
      rcases reason with faulty | nothing
      · left
        rw [← on.faults, ← on.clock]
        exact faulty
      · right
        have spent : tx.saved = [] := by
          cases saved : tx.saved with
          | nil => rfl
          | cons newest older => simp [carry, Batch.restore, saved] at nothing
        rw [spent, List.length_nil] at depth
        omega
  · have idle := counted_rollback_idle (c := (v k).2) (.inl (holds.closed open_k))
    rw [idle] at count
    exact ⟨holds_next inter fun still => absurd still open_k, .inr ⟨fun still => absurd still open_k, count⟩⟩

/-- With nothing left to count down the worker drops the transaction and returns. -/
theorem abort_ends {k : Nat} (aborts : (v k).1 = .abort) (spent : (v k).2.savepoint_count ≤ 0) :
    (v (k + 1)).1 = .returned (-1) := by
  rw [inter.next, aborts, call, if_neg (Int.not_lt.mpr spent)]

/-- The abort loop comes to its end exactly when the count can be counted down. -/
theorem abort_returns_iff {s : Cell} {k : Nat} (aborts : (v k).1 = .abort) (holds : Holds s opened k (v k).2) :
    (∃ l ret, k ≤ l ∧ (v l).1 = .returned ret) ↔
      Unwindable s.lib.faults s.lib.clock opened s.savepoint_count k (v k).2.savepoint_count := by
  constructor
  · rintro ⟨l, ret, later, ended⟩
    obtain ⟨m, rfl⟩ := Nat.exists_eq_add_of_le later
    clear later
    induction m generalizing k with
    | zero => rw [Nat.add_zero, aborts] at ended; cases ended
    | succ m ih =>
      by_cases more : 0 < (v k).2.savepoint_count
      · right
        obtain ⟨aborts', holds', outcome⟩ := abort_call inter aborts more holds
        have rest := ih aborts' holds' (by rwa [Nat.add_right_comm, Nat.add_assoc])
        rcases outcome with ⟨open_k, fine, above, count⟩ | ⟨reason, count⟩
        · rcases rest with last | ⟨low, l, open_l, enough⟩
          · refine ⟨by omega, 0, open_k, ?_⟩
            simp only [calm, Nat.add_zero, fine, Bool.false_eq_true, if_false]
            omega
          · refine ⟨low, l + 1, by rwa [Nat.add_comm l 1, ← Nat.add_assoc], ?_⟩
            rw [calm, fine]
            rw [← Nat.add_assoc] at enough
            simp only [Bool.false_eq_true, if_false]
            omega
        · rcases rest with last | ⟨low, l, open_l, enough⟩
          · omega
          · rcases reason (inter.earlier (by omega) open_l) with faulty | spent
            · refine ⟨low, l + 1, by rwa [Nat.add_comm l 1, ← Nat.add_assoc], ?_⟩
              rw [calm, faulty]
              rw [← Nat.add_assoc] at enough
              simp only [if_true]
              omega
            · omega
      · exact .inl (Int.not_lt.mp more)
  · intro unwinds
    by_cases more : 0 < (v k).2.savepoint_count
    · obtain ⟨low, m, open_m, enough⟩ := unwinds.resolve_left (Int.not_le.mpr more)
      induction m generalizing k with
      | zero =>
        obtain ⟨aborts', _, ⟨_, _, _, count⟩ | ⟨reason, count⟩⟩ := abort_call inter aborts more holds
        · simp only [calm] at enough
          have ends := abort_ends inter aborts' (by split_ifs at enough <;> omega)
          exact ⟨k + 2, -1, by omega, ends⟩
        · rcases reason open_m with faulty | spent
          · simp only [calm, faulty, if_true] at enough
            omega
          · omega
      | succ m ih =>
        obtain ⟨aborts', holds', outcome⟩ := abort_call inter aborts more holds
        rw [calm] at enough
        have open_k : opened k := inter.earlier (by omega) open_m
        have later : (v (k + 1)).2.savepoint_count ≤ calm s.lib.faults (s.lib.clock + (k + 1)) (m + 1) := by
          rw [← Nat.add_assoc]
          rcases outcome with ⟨_, fine, _, count⟩ | ⟨reason, count⟩
          · simp only [fine, Bool.false_eq_true, if_false] at enough
            omega
          · rcases reason open_k with faulty | spent
            · simp only [faulty, if_true] at enough
              omega
            · omega
        have open_m' : opened (k + 1 + m) := by rwa [Nat.add_assoc, Nat.add_comm 1 m]
        by_cases again : 0 < (v (k + 1)).2.savepoint_count
        · obtain ⟨l, ret, bound, ended⟩ := ih aborts' holds' (.inr ⟨low, m, open_m', later⟩) again open_m' later
          exact ⟨l, ret, by omega, ended⟩
        · exact ⟨k + 2, -1, by omega, abort_ends inter aborts' (Int.not_lt.mp again)⟩
    · exact ⟨k + 1, -1, Nat.le_succ k, abort_ends inter aborts (Int.not_lt.mp more)⟩

/-- For a worker that aborts returning is all. -/
theorem abort_safe_iff {s : Cell} {id k : Nat} (aborts : (v k).1 = .abort) (holds : Holds s opened k (v k).2) :
    SafeFrom w opened v id k ↔
      Unwindable s.lib.faults s.lib.clock opened s.savepoint_count k (v k).2.savepoint_count := by
  rw [← abort_returns_iff inter aborts holds]
  refine ⟨And.left, fun returns => ⟨returns, fun l ended => ?_⟩⟩
  rcases Nat.le_total k l with later | before
  · rcases abort_fails inter aborts later with still | failed
    · rw [ended] at still
      cases still
    · rw [ended] at failed
      cases failed
  · have stays := returned_stays inter before ended
    rw [aborts] at stays
    cases stays

/-- The commit. -/
theorem commit_safe_iff {s : Cell} {k : Nat} (commits : (v k).1 = .commands []) (holds : Holds s opened k (v k).2) :
    SafeFrom w opened v s.lib.next k ↔ opened k ∧ s.lib.faults (s.lib.clock + k) .commit = false := by
  have ends : (v (k + 1)).1 = .returned 0 := by
    rw [inter.next, commits]
    rfl
  constructor
  · rintro ⟨_, committed⟩
    obtain ⟨j, before, made, open_j⟩ := committed (k + 1) ends
    -- there is one commit
    have here : j = k := by
      by_contra other
      have stays : (v k).1 = .returned 0 := by
        refine returned_stays inter (show j + 1 ≤ k by omega) ?_
        rw [inter.next, makes_commit made]
        rfl
      rw [commits] at stays
      cases stays
    subst here
    refine ⟨open_j, ?_⟩
    obtain ⟨tx, on⟩ := holds.on open_j
    rw [Makes, commits, call, commit_shard_serving on.serving] at made
    rw [← on.faults, ← on.clock]
    cases faulty : (v j).2.lib.fails .commit with
    | false => exact faulty
    | true =>
      rw [if_pos faulty] at made
      simp at made
  · rintro ⟨open_k, fine⟩
    obtain ⟨tx, on⟩ := holds.on open_k
    rw [← on.faults, ← on.clock] at fine
    have made : Makes w v k (.commit s.lib.next true) := by
      rw [Makes, commits, call, commit_shard_serving on.serving, if_neg (by simp [Lib.fails, fine]), ← on.id]
      rfl
    refine ⟨⟨k + 1, 0, Nat.le_succ k, ends⟩, fun l ended => ⟨k, ?_, made, open_k⟩⟩
    by_contra early
    have stays := returned_stays inter (Nat.not_lt.mp early) ended
    rw [commits] at stays
    cases stays

/-- A command fails when the database is closed, and else as in the interpreter. -/
theorem command_call {s : Cell} {k : Nat} {cmd : Command} {rest : List Command} {ws : Workspace Contents}
    (at_k : (v k).1 = .commands (cmd :: rest)) (complete : Complete cmd) (holds : Holds s opened k (v k).2)
    (shown : ∀ tx, On s k (v k).2 tx → Shown s.committed tx.toBatch = ws) :
    Holds s opened (k + 1) (v (k + 1)).2 ∧
      (((v (k + 1)).1 = .abort ∧ (v (k + 1)).2.savepoint_count = (v k).2.savepoint_count ∧
          (opened k → (if refused s.lib.faults (s.lib.clock + k) cmd then none else step ws cmd) = none)) ∨
        (opened k ∧ ∃ ws', (if refused s.lib.faults (s.lib.clock + k) cmd then none else step ws cmd) = some ws' ∧
          (v (k + 1)).1 = .commands rest ∧
          (v (k + 1)).2.savepoint_count = (v k).2.savepoint_count + countChange cmd ∧
          ∀ tx, On s (k + 1) (v (k + 1)).2 tx → Shown s.committed tx.toBatch = ws')) := by
  obtain ⟨⟨ret, c'⟩, ran⟩ := singleCell_answers complete (v k).2
  have made : call w (v k).1 (v k).2 = (if ret < 0 then .abort else .commands rest, c') := by
    rw [at_k]
    simp only [call, ran]
  have next := inter.next k
  have count := (inter.nextCell k).savepoint_count
  rw [made] at next count
  by_cases open_k : opened k
  · obtain ⟨tx, on⟩ := holds.on open_k
    have stepped := carry_shown s.committed (v k).2.lib.message tx.toBatch cmd
    rw [shown tx on] at stepped
    rw [← on.faults, ← on.clock]
    cases singleCell_effect on.serving ran with
    | failed ok reason =>
      refine ⟨holds_next inter fun _ => ⟨tx, by rw [made]; exact on_failed on _⟩, .inl ⟨next, count, fun _ => ?_⟩⟩
      rcases reason with faulty | nothing
      · rw [if_pos faulty]
      · rw [on.committed] at nothing
        rw [← stepped, nothing]
        split_ifs <;> rfl
    | @carried batch accepted done =>
      have still := on_carried on done
      refine ⟨holds_next inter fun _ => ⟨_, by rw [made]; exact still⟩, .inr ⟨open_k, Shown s.committed batch, ?_, next,
        count, ?_⟩⟩
      · rw [on.committed] at done
        rw [accepted, ← stepped, done]
        rfl
      · intro tx' on'
        have touched := inter.nextCell k
        rw [made] at touched
        by_cases open_next : opened (k + 1)
        · have slot := on'.serving.slot
          rw [touched.kept open_next, still.serving.slot, Option.some.injEq] at slot
          rw [← slot]
        · exact absurd (touched.closed open_next) (by rw [on'.serving.opened]; exact Bool.noConfusion)
  · obtain ⟨rfl, rfl⟩ := singleCell_idle (.inl (holds.closed open_k)) ran
    exact ⟨holds_next inter fun still => absurd still open_k, .inl ⟨next, count, fun still => absurd still open_k⟩⟩

theorem commands_safe_iff {s : Cell} : ∀ (cmds : List Command) (k : Nat) (ws : Workspace Contents),
    (v k).1 = .commands cmds → Holds s opened k (v k).2 →
    (∀ tx, On s k (v k).2 tx → Shown s.committed tx.toBatch = ws) →
      (SafeFrom w opened v s.lib.next k ↔ Timely s.lib.faults s.lib.clock opened s.savepoint_count k ws
        (v k).2.savepoint_count cmds) := by
  intro cmds
  induction cmds with
  | nil => exact fun k ws at_k holds _ => commit_safe_iff inter at_k holds
  | cons cmd rest ih =>
    intro k ws at_k holds shown
    have going : ∀ ret, (v k).1 ≠ .returned ret := fun ret => by rw [at_k]; exact fun bad => by cases bad
    rw [safe_next going, Timely]
    by_cases complete : Complete cmd
    · rw [and_iff_right complete]
      obtain ⟨holds', ⟨aborts, count, fails⟩ | ⟨open_k, ws', goes, at_next, count, shown'⟩⟩ :=
        command_call inter at_k complete holds shown
      · rw [abort_safe_iff inter aborts holds', count]
        by_cases open_k : opened k
        · rw [or_iff_right fun bad => bad.1 open_k, and_iff_right open_k, fails open_k]
        · rw [or_iff_left fun bad => open_k bad.1, and_iff_right open_k]
          -- nothing can be counted down any more
          refine or_iff_left ?_
          rintro ⟨_, m, open_m, _⟩
          exact open_k (inter.earlier (by omega) open_m)
      · rw [or_iff_right fun bad => bad.1 open_k, and_iff_right open_k, goes, ih (k + 1) ws' at_next holds' shown', count]
    · -- a missing argument
      have next := inter.next k
      rw [at_k, call, singleCell_missing complete] at next
      refine iff_of_false ?_ fun timely => complete timely.1
      rintro ⟨⟨l, ret, later, ended⟩, _⟩
      rw [crashed_stays inter later next] at ended
      cases ended

/-- Without a transaction for its savepoint the worker goes on to the commit
    that finds none, and returns 0. -/
theorem savepoint_returns {k : Nat} {cmds : List Command} (at_k : (v k).1 = .savepoint cmds)
    (idle : (v k).2.tx_db = false ∨ (v k).2.tx = none) : (v (k + 3)).1 = .returned 0 := by
  have first := inter.next k
  have left := inter.nextCell k
  rw [at_k, call_savepoint_idle idle] at first left
  have still : (v (k + 1)).2.tx_db = false ∨ (v (k + 1)).2.tx = none := by
    by_cases open_next : opened (k + 1)
    · rw [left.kept open_next]
      exact idle
    · exact .inl (left.closed open_next)
  have second := inter.next (k + 1)
  rw [first, call_discard_idle still] at second
  rw [inter.next (k + 2), second]
  rfl

end Calls

/-! ### A safe shutdown -/

/-- The worker returns, and it returns 0 only when the transaction its first call
    began was committed on the database before it was closed. -/
structure Safe (w : Nat) (opened : Nat → Prop) (v : Nat → Pc × Cell) : Prop where
  returns : ∃ k ret, (v k).1 = .returned ret
  committed : ∀ k, (v k).1 = .returned 0 →
    ∃ id j, j < k ∧ Makes w v 0 (.begin w (some id)) ∧ Makes w v j (.commit id true) ∧ opened j

section Safety
variable {w : Nat} {opened : Nat → Prop} {s : Cell} {cmds : List Command} {v : Nat → Pc × Cell}
  (inter : Interrupted w opened (.begin cmds, s) v)
include inter

/-- A worker whose transaction is not begun returns 0 all the same. -/
theorem unbegun_harmed (refuses : s.tx_db = false ∨ s.tx ≠ none ∨ s.lib.fails .begin = true ∨ ¬ opened 1) :
    ¬ Safe w opened v := by
  have at_0 : (v 0).1 = .begin cmds := inter.first
  have next := inter.next 0
  have left := inter.nextCell 0
  rw [at_0] at next left
  rintro ⟨_, committed⟩
  by_cases busy : (v 0).2.tx_db = false ∨ (v 0).2.tx ≠ none
  · rw [call_begin_busy busy] at next
    have ends : (v 2).1 = .returned 0 := by
      rw [inter.next 1, next]
      rfl
    obtain ⟨id, j, _, begins, _⟩ := committed 2 ends
    rw [Makes, at_0, call_begin_busy busy] at begins
    simp at begins
  · obtain ⟨opened_0, empty⟩ := (busy_or_fresh (v 0).2).resolve_left busy
    have open_0 : opened 0 := by
      by_contra closed
      rw [inter.firstCell.closed closed] at opened_0
      cases opened_0
    have cell := inter.firstCell.kept open_0
    cases faulty : (v 0).2.lib.fails .begin with
    | true =>
      rw [call_begin_faulty opened_0 empty faulty] at next left
      have idle : (v 1).2.tx_db = false ∨ (v 1).2.tx = none := by
        by_cases open_1 : opened 1
        · rw [left.kept open_1]
          exact .inr empty
        · exact .inl (left.closed open_1)
      obtain ⟨id, j, _, begins, _⟩ := committed 4 (savepoint_returns inter next idle)
      rw [Makes, at_0, call_begin_faulty opened_0 empty faulty] at begins
      simp at begins
    | false =>
      have closed : ¬ opened 1 := by
        rw [cell] at opened_0 empty faulty
        rcases refuses with closed | taken | bad | late
        · rw [opened_0] at closed; cases closed
        · exact absurd empty taken
        · rw [faulty] at bad; cases bad
        · exact late
      rw [call_begin_fine opened_0 empty faulty] at next
      obtain ⟨id, j, _, _, commits, open_j⟩ := committed 4 (savepoint_returns inter next (.inl (left.closed closed)))
      obtain rfl : j = 0 := by
        by_contra later
        exact closed (inter.earlier (by omega) open_j)
      rw [makes_commit commits] at at_0
      cases at_0

/-- A worker whose transaction is begun is as safe as its commands. -/
theorem begun_safe_iff (fresh : s.tx_db = true) (empty : s.tx = none) (fine : s.lib.fails .begin = false) (open_1 : opened 1) :
    Safe w opened v ↔ Timely s.lib.faults s.lib.clock opened s.savepoint_count 2 (begun (contents s.committed))
      (s.savepoint_count + 1) cmds := by
  have at_0 : (v 0).1 = .begin cmds := inter.first
  have cell_0 := inter.firstCell.kept (inter.earlier (Nat.zero_le 1) open_1)
  simp only at cell_0
  have begins : call w (v 0).1 (v 0).2 = (.savepoint cmds, (begin_transaction w s).2) := by
    rw [at_0, cell_0, call_begin_fine fresh empty fine]
  have at_1 := inter.next 0
  have cell_1 := (inter.nextCell 0).kept open_1
  rw [begins] at at_1 cell_1
  have saves : call w (v 1).1 (v 1).2 = (.commands cmds, started w s) := by
    rw [at_1, cell_1, call_savepoint_begun fresh empty fine]
  have at_2 := inter.next 1
  have count := (inter.nextCell 1).savepoint_count
  rw [saves] at at_2 count
  have made : Makes w v 0 (.begin w (some s.lib.next)) := by
    rw [Makes, begins, cell_0, begin_fresh fresh empty w fine]
    rfl
  have on : On s 2 (started w s) (firstTransaction s) :=
    ⟨started_serving w fresh, rfl, rfl, rfl, rfl, rfl⟩
  have holds : Holds s opened 2 (v 2).2 := holds_next inter fun _ => ⟨_, by rw [saves]; exact on⟩
  have shown : ∀ tx, On s 2 (v 2).2 tx → Shown s.committed tx.toBatch = begun (contents s.committed) := by
    intro tx on'
    by_cases open_2 : opened 2
    · have slot := on'.serving.slot
      rw [(inter.nextCell 1).kept open_2, saves, on.serving.slot, Option.some.injEq] at slot
      rw [← slot]
      rfl
    · exact absurd ((inter.nextCell 1).closed open_2) (by rw [on'.serving.opened]; exact Bool.noConfusion)
  have same := commands_safe_iff inter cmds 2 _ at_2 holds shown
  rw [count] at same
  have going_0 : ∀ ret, (v 0).1 ≠ .returned ret := by
    intro ret ended
    rw [at_0] at ended
    cases ended
  have going_1 : ∀ ret, (v 1).1 ≠ .returned ret := by
    intro ret ended
    rw [at_1] at ended
    cases ended
  refine Iff.trans ?_ (((safe_next going_0).trans (safe_next going_1)).trans same)
  constructor
  · rintro ⟨⟨k, ret, ended⟩, committed⟩
    refine ⟨⟨k, ret, Nat.zero_le k, ended⟩, fun l acked => ?_⟩
    obtain ⟨id, j, before, begins', commits, open_j⟩ := committed l acked
    rw [Makes, made] at begins'
    simp only [List.append_cancel_left_eq, List.cons.injEq, Event.begin.injEq, Option.some.injEq, true_and,
      and_true] at begins'
    exact ⟨j, before, begins' ▸ commits, open_j⟩
  · rintro ⟨⟨k, ret, _, ended⟩, committed⟩
    refine ⟨⟨k, ret, ended⟩, fun l acked => ?_⟩
    obtain ⟨j, before, commits, open_j⟩ := committed l acked
    exact ⟨s.lib.next, j, before, made, commits, open_j⟩

end Safety

/-- When closing its database does a worker no harm: the message is for another
    worker, or its transaction is begun and saved before the database is closed,
    and the closing is timely for its commands. -/
def Withstands (h : Interleaving) (w : Nat) (pkt : Mbuf) (rocks : Env) : Prop :=
  pkt.leader ≠ w ∨
    ((rocks.shard w).tx_db = true ∧ (rocks.shard w).tx = none ∧ rocks.lib.faults rocks.lib.clock .begin = false ∧
      h.opened w 1 ∧
      Timely rocks.lib.faults rocks.lib.clock (h.opened w) (rocks.shard w).savepoint_count 2
        (begun (contents (rocks.shard w).committed)) ((rocks.shard w).savepoint_count + 1) (commandsOf pkt.message))

/-- The worker and its shard at its `k`-th call. -/
def finds (removed : Nat → Bool) (h : Interleaving) (w : Nat) (pkt : Mbuf) (rocks : Env) (k : Nat) : Pc × Cell :=
  ((meets removed h w pkt rocks k).1, (meets removed h w pkt rocks k).2.cell w)

/-- For every interleaving of `int_handler` with a worker: the worker returns, and
    0 only behind its commit on the open database, exactly when it withstands the
    closing of its database. -/
theorem shutdown_safe_iff (removed : Nat → Bool) (h : Interleaving) {w : Nat} (pkt : Mbuf) {rocks : Env}
    (running : w < rocks.num_workers) :
    Safe w (h.opened w) (finds removed h w pkt rocks) ↔ Withstands h w pkt rocks := by
  have inter := meets_interrupted removed h pkt running
  by_cases leader : pkt.leader = w
  · rw [entry, if_pos leader] at inter
    rw [Withstands, or_iff_right fun other => other leader]
    by_cases begins : (rocks.shard w).tx_db = true ∧ (rocks.shard w).tx = none ∧
        rocks.lib.faults rocks.lib.clock .begin = false ∧ h.opened w 1
    · obtain ⟨opened, empty, fine, open_1⟩ := begins
      rw [and_iff_right opened, and_iff_right empty, and_iff_right fine, and_iff_right open_1]
      exact begun_safe_iff inter opened empty fine open_1
    · refine iff_of_false (unbegun_harmed inter ?_) fun ⟨opened, empty, fine, open_1, _⟩ =>
        begins ⟨opened, empty, fine, open_1⟩
      by_contra accepts
      simp only [not_or] at accepts
      obtain ⟨opened, empty, fine, open_1⟩ := accepts
      exact begins ⟨eq_true_of_ne_false opened, not_not.mp empty, eq_false_of_ne_true fine, not_not.mp open_1⟩
  · refine iff_of_true ?_ (.inl leader)
    have turned : (finds removed h w pkt rocks 0).1 = .returned (-1) := if_neg leader
    refine ⟨⟨0, -1, turned⟩, fun k ended => ?_⟩
    rw [finds, returned_stays inter (Nat.zero_le k) turned] at ended
    cases ended

/-- `int_handler` makes its first call, which closes database 0, right before the
    worker's `t`-th. -/
def closingAt (t : Nat) : Interleaving where
  before k := if k < t then 0 else 1
  ordered j k earlier := by
    dsimp only
    split_ifs <;> omega

/-- `w 1 a` on worker 0: the transaction is begun, the savepoint set, the value
    put, and the fourth call is the commit. -/
abbrev writing (t : Nat) : Nat → Pc × Cell :=
  finds (fun _ => true) (closingAt t) 0 (packet 0 0 (ascii "w 1 a"))
    (init_database_env 1 (by decide) (fun _ => []) (fun _ _ => false))

/-- Closed behind the commit, the database holds what the worker answered for. -/
theorem closed_behind_commit : (writing 4 4).1 = .returned 0 ∧ Safe 0 ((closingAt 4).opened 0) (writing 4) := by
  refine ⟨by decide +kernel, (shutdown_safe_iff (fun _ => true) (closingAt 4) (packet 0 0 (ascii "w 1 a"))
    (show 0 < (init_database_env 1 (by decide) (fun _ => []) (fun _ _ => false)).num_workers by decide)).mpr ?_⟩
  have commands : commandsOf (packet 0 0 (ascii "w 1 a")).message =
      [.write (some (ascii "1")) (some (ascii "a"))] := by decide +kernel
  refine .inr ⟨rfl, rfl, rfl, by decide, ?_⟩
  rw [commands]
  exact ⟨⟨rfl, rfl⟩, .inr ⟨by decide, by decide, rfl⟩⟩

/-- Closed before the put, the worker counts down to a savepoint for ever; closed
    before the commit, it answers 0 for a transaction that is gone. -/
theorem closed_midway :
    (¬ ∃ k ret, (writing 2 k).1 = .returned ret) ∧
      (writing 3 4).1 = .returned 0 ∧ ¬ Safe 0 ((closingAt 3).opened 0) (writing 3) := by
  have inter : ∀ t, Interrupted 0 ((closingAt t).opened 0) _ (writing t) := fun t =>
    meets_interrupted (fun _ => true) (closingAt t) (packet 0 0 (ascii "w 1 a"))
      (show 0 < (init_database_env 1 (by decide) (fun _ => []) (fun _ _ => false)).num_workers by decide)
  have ends : (writing 3 4).1 = .returned 0 := by decide +kernel
  refine ⟨?_, ends, fun safe => ?_⟩
  · rintro ⟨k, ret, ended⟩
    have aborts : (writing 2 3).1 = .abort := by decide +kernel
    have count : (writing 2 3).2.savepoint_count = 1 := by decide +kernel
    have closed : ∀ k, ¬ (closingAt 2).opened 0 (3 + k) := by
      intro k bad
      simp only [Interleaving.opened, closingAt] at bad
      split_ifs at bad <;> omega
    have holds : Holds (writing 2 3).2 ((closingAt 2).opened 0) 3 (writing 2 3).2 :=
      ⟨fun bad => absurd bad (closed 0), fun _ => by decide +kernel⟩
    rcases Nat.le_total 3 k with later | before
    · rcases (abort_returns_iff (inter 2) aborts holds).mp ⟨k, ret, later, ended⟩ with spent | ⟨_, m, bad, _⟩
      · omega
      · exact closed m bad
    · rw [returned_stays (inter 2) before ended] at aborts
      cases aborts
  · obtain ⟨id, j, _, _, commits, open_j⟩ := safe.committed 4 ends
    have early : j < 3 := by
      by_contra late
      simp only [Interleaving.opened, closingAt, if_neg late] at open_j
      omega
    have going : ∀ j < 3, (writing 3 j).1 ≠ .commands [] := by decide +kernel
    exact going j early (makes_commit commits)

end Shardb.Shutdown
