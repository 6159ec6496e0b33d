import Shardb.Handling
import Shardb.Savepoints

/-!
# Messages for several shards

Only a server with a single worker gets to execute such a message, so
everything happens on shard 0 (`multi_put`). What a command does there depends
on the counter: it begins a transaction, works on the open one, or is passed
over (`multiCell_effect`).
-/

namespace Shardb.MultiPartition
open Shardb.Bytes Shardb.CStrings Shardb.Loops Shardb.Journal Shardb.Rocks Shardb.Datastore Shardb.Handlers Shardb.Server
open Shardb.Tokens Shardb.Handling Shardb.Messages Shardb.Interpreter Shardb.Routing Shardb.Savepoints

/-! ### A single shard -/

/-- A multi-partition command on the one shard there is. -/
def multiCell : Command → Cell → Result (Int × Cell)
  | .savepoint, c =>
    let (ret, c) := setsavepoint_shard c
    .ok (if ret < 0 then -1 else 0, c)
  | .rollback, c =>
    let (ret, c) := rollback_shard c
    .ok (if ret < 0 then -1 else 0, c)
  | command, c => do
    let key ← need (keyOf command)
    if 0 ≤ atoi key ∧ atoi key < MAX_NUM_KEYS then access 0 (singleCell command) c else .ok (-1, c)

private theorem every_shard_put {rocks : Env} (alone : rocks.num_workers = 1) (f : Cell → Int × Cell) (c : Cell) :
    every_shard f (rocks.put 0 c) = .ok (if (f c).1 < 0 then -1 else 0, rocks.put 0 (f c).2) := by
  simp only [every_shard, put_num_workers, alone, forLoop, put_onShard]
  by_cases negative : (f c).1 < 0
  · simp [negative]
  · simp [negative]

theorem multiCell_data {cmd : Command} (data : isData cmd) (c : Cell) : multiCell cmd c = (do
    let key ← need (keyOf cmd)
    if 0 ≤ atoi key ∧ atoi key < MAX_NUM_KEYS then access 0 (singleCell cmd) c else .ok (-1, c)) := by
  cases cmd with
  | savepoint => cases data
  | rollback => cases data
  | _ => rfl

theorem multi_put {rocks : Env} (alone : rocks.num_workers = 1) (cmd : Command) (c : Cell) :
    multi cmd (rocks.put 0 c) = (multiCell cmd c).map (fun a => (a.1, rocks.put 0 a.2)) := by
  have all : slice 1 = MAX_NUM_KEYS := rfl
  by_cases data : isData cmd
  · rw [multi_data data, multiCell_data data, put_num_workers, alone, all]
    cases keyOf cmd with
    | none => rfl
    | some key =>
      simp only [need_some, bind_ok]
      split_ifs
      · exact put_onShardM ..
      · rfl
  · cases cmd with
    | savepoint => exact every_shard_put alone setsavepoint_shard c
    | rollback => exact every_shard_put alone rollback_shard c
    | _ => exact absurd rfl data

/-- Multi-partition commands on a single worker change shard 0 alone. -/
theorem runCommands_multi (rocks : Env) (alone : rocks.num_workers = 1) (cmds : List Command) (c : Cell) :
    runCommands multi cmds (rocks.put 0 c) =
      (runCommands multiCell cmds c).map (fun e => (e.1, rocks.put 0 e.2.1, e.2.2)) :=
  runCommands_map _ (multi_put alone) cmds c

/-! ### What a command does -/

/-- The key of a data command is one that the shard holds. -/
def Routed (cmd : Command) : Prop := ∀ key ∈ keyOf cmd, 0 ≤ atoi key ∧ atoi key < MAX_NUM_KEYS

instance (cmd : Command) : Decidable (Routed cmd) :=
  inferInstanceAs (Decidable (∀ key ∈ keyOf cmd, 0 ≤ atoi key ∧ atoi key < MAX_NUM_KEYS))

/-- The first command on a shard that is not counting begins its transaction. -/
def fresh (c : Cell) : Cell := { begunCell 0 c with savepoint_count := 1 }

/-- What a multi-partition command does to the shard. -/
inductive MultiEffect (cmd : Command) (c : Cell) : Int → Cell → Prop
  /-- A data command that gets no transaction to work on. -/
  | refused (lib : Lib) (data : isData cmd) (faults : lib.faults = c.lib.faults) (message : lib.message = c.lib.message)
      (reason : ¬ Routed cmd ∨ (c.savepoint_count = 0 ∧
        (c.tx_db = false ∨ c.tx ≠ none ∨ c.lib.fails .begin = true))) :
      MultiEffect cmd c (-1) { c with lib := lib }
  /-- A data command that begins its transaction. -/
  | begins {ret : Int} {c' : Cell} (data : isData cmd) (routed : Routed cmd) (zero : c.savepoint_count = 0)
      (opened : c.tx_db = true) (empty : c.tx = none) (fine : c.lib.fails .begin = false)
      (ran : singleCell cmd (fresh c) = .ok (ret, c')) : MultiEffect cmd c ret c'
  /-- A command on a shard that is counting. -/
  | works {ret : Int} {c' : Cell} (routed : Routed cmd)
      (counting : if isData cmd then c.savepoint_count ≠ 0 else 0 < c.savepoint_count)
      (ran : singleCell cmd c = .ok (ret, c')) : MultiEffect cmd c ret c'
  | passes (savepoint : cmd = .savepoint) (low : c.savepoint_count ≤ 0) : MultiEffect cmd c 0 c
  | sinks (rollback : cmd = .rollback) (low : c.savepoint_count ≤ 0) :
      MultiEffect cmd c 0 { c with savepoint_count := c.savepoint_count - 1 }

private theorem access_effect {cmd : Command} {c c' : Cell} {ret : Int} (data : isData cmd) (routed : Routed cmd)
    (ran : access 0 (singleCell cmd) c = .ok (ret, c')) : MultiEffect cmd c ret c' := by
  by_cases zero : c.savepoint_count = 0
  · rcases busy_or_fresh c with busy | ⟨opened, empty⟩
    · rw [access_busy zero busy] at ran
      cases ran
      exact .refused c.lib data rfl rfl (.inr ⟨zero, or_assoc.mp (.inl busy)⟩)
    · cases fine : c.lib.fails .begin with
      | true =>
        rw [access_faulty zero opened empty fine] at ran
        cases ran
        exact .refused _ data rfl rfl (.inr ⟨zero, .inr (.inr fine)⟩)
      | false =>
        rw [access_fresh zero opened empty fine] at ran
        exact .begins data routed zero opened empty fine ran
  · rw [access_counting zero] at ran
    exact .works routed (by rw [if_pos data]; exact zero) ran

/-- The functions of an open transaction answer 0 or -1. -/
private theorem onTransaction_answers {body : Transaction → Int × Cell} {c : Cell}
    (answers : ∀ tx, Serving c tx → (body tx).1 = 0 ∨ (body tx).1 = -1) :
    (onTransaction body c).1 = 0 ∨ (onTransaction body c).1 = -1 := by
  rcases idle_or_serving c with idle | ⟨tx, serving⟩
  · rw [onTransaction_idle idle]
    exact .inr rfl
  · rw [onTransaction_serving serving]
    exact answers tx serving

/-- On a shard that is counting `handle_multidb_setsavepoint` and
    `handle_multidb_rollback` do what the single-partition loop does. -/
theorem multiCell_counting (cmd : Command) (notData : isData cmd = false) {c : Cell}
    (positive : 0 < c.savepoint_count) : multiCell cmd c = singleCell cmd c := by
  cases cmd with
  | savepoint =>
    have answers : (set_savepoint c).1 = 0 ∨ (set_savepoint c).1 = -1 := onTransaction_answers fun tx _ => .inl rfl
    rcases answers with zero | negative
    · simp [multiCell, setsavepoint_shard, positive, singleCell, counted_savepoint, zero]
    · simp [multiCell, setsavepoint_shard, positive, singleCell, counted_savepoint, negative]
  | rollback =>
    have answers : (rollback_to_last_savepoint c).1 = 0 ∨ (rollback_to_last_savepoint c).1 = -1 := by
      refine onTransaction_answers fun tx _ => ?_
      simp only
      split_ifs
      · exact .inr rfl
      · exact .inl rfl
    rcases answers with zero | negative
    · simp [multiCell, rollback_shard, positive, singleCell, counted_rollback, zero]
    · simp [multiCell, rollback_shard, positive, singleCell, counted_rollback, negative]
  | _ => cases notData

theorem multiCell_effect {cmd : Command} {c c' : Cell} {ret : Int} (ran : multiCell cmd c = .ok (ret, c')) :
    MultiEffect cmd c ret c' := by
  by_cases data : isData cmd
  · rw [multiCell_data data] at ran
    cases given : keyOf cmd with
    | none => rw [given] at ran; cases ran
    | some key =>
      rw [given, need_some, bind_ok] at ran
      split_ifs at ran with inside
      · exact access_effect data (by rintro k found; rw [given] at found; cases found; exact inside) ran
      · cases ran
        exact .refused c.lib data rfl rfl (.inl fun routed => inside (routed key given))
  · cases cmd with
    | savepoint =>
      by_cases positive : 0 < c.savepoint_count
      · exact .works (by rintro key ⟨⟩) positive ((multiCell_counting .savepoint rfl positive).symm.trans ran)
      · simp only [multiCell, setsavepoint_shard, if_neg positive] at ran
        cases ran
        exact .passes rfl (by omega)
    | rollback =>
      by_cases positive : 0 < c.savepoint_count
      · exact .works (by rintro key ⟨⟩) positive ((multiCell_counting .rollback rfl positive).symm.trans ran)
      · simp only [multiCell, rollback_shard, if_neg positive] at ran
        cases ran
        exact .sinks rfl (by omega)
    | _ => exact absurd rfl data

theorem multiCell_error {cmd : Command} {c : Cell} {e : Fault} (crashes : multiCell cmd c = .error e) :
    e = .null ∧ ¬ Complete cmd := by
  by_cases data : isData cmd
  · rw [multiCell_data data] at crashes
    cases given : keyOf cmd with
    | none =>
      rw [given] at crashes
      cases crashes
      cases cmd <;> simp_all [keyOf, isData, Complete]
    | some key =>
      simp only [given, need_some, bind_ok, access] at crashes
      split_ifs at crashes
      · exact singleCell_error crashes
      · exact singleCell_error crashes
  · cases cmd with
    | savepoint => cases crashes
    | rollback => cases crashes
    | _ => exact absurd rfl data

/-- On a shard that is not counting only a data command finds a transaction, one
    that was left over. -/
theorem data_of_low {cmd : Command} {count : Int} (counting : if isData cmd then count ≠ 0 else 0 < count)
    (low : count ≤ 0) : isData cmd ∧ count < 0 := by
  split_ifs at counting with data
  · exact ⟨data, by omega⟩
  · omega

/-- What nothing changes about a shard while a message is handled. -/
structure Kept (c c' : Cell) : Prop where
  opened : c'.tx_db = c.tx_db
  faults : c'.lib.faults = c.lib.faults
  message : c'.lib.message = c.lib.message

theorem Kept.trans {c c' c'' : Cell} (first : Kept c c') (second : Kept c' c'') : Kept c c'' :=
  ⟨second.opened.trans first.opened, second.faults.trans first.faults, second.message.trans first.message⟩

/-- What commands do not change. -/
structure Standing (c c' : Cell) : Prop extends Kept c c' where
  committed : c'.committed = c.committed

theorem Standing.trans {c c' c'' : Cell} (first : Standing c c') (second : Standing c' c'') : Standing c c'' :=
  ⟨first.toKept.trans second.toKept, second.committed.trans first.committed⟩

theorem Standing.refl (c : Cell) : Standing c c := ⟨⟨rfl, rfl, rfl⟩, rfl⟩

theorem singleCell_standing {cmd : Command} {c c' : Cell} {ret : Int} (ran : singleCell cmd c = .ok (ret, c')) :
    Standing c c' := by
  rcases idle_or_serving c with idle | ⟨tx, serving⟩
  · rw [(singleCell_idle idle ran).2]
    exact .refl c
  · cases singleCell_effect serving ran <;> exact ⟨⟨rfl, rfl, rfl⟩, rfl⟩

theorem MultiEffect.standing {cmd : Command} {c c' : Cell} {ret : Int} (effect : MultiEffect cmd c ret c') :
    Standing c c' := by
  cases effect with
  | refused lib data faults message reason => exact ⟨⟨rfl, faults, message⟩, rfl⟩
  | begins data routed zero opened empty fine ran =>
    have begun : Standing c (fresh c) := ⟨⟨rfl, rfl, rfl⟩, rfl⟩
    exact begun.trans (singleCell_standing ran)
  | works routed counting ran => exact singleCell_standing ran
  | passes => exact .refl c
  | sinks => exact ⟨⟨rfl, rfl, rfl⟩, rfl⟩

theorem multiCell_standing {cmd : Command} {c c' : Cell} {ret : Int} (ran : multiCell cmd c = .ok (ret, c')) :
    Standing c c' := (multiCell_effect ran).standing

theorem runCommands_standing {op : Command → Cell → Result (Int × Cell)}
    (stands : ∀ cmd c ret c', op cmd c = .ok (ret, c') → Standing c c') {cmds : List Command} {c c' : Cell}
    {failed : Bool} {calls : List (Command × Int)} (run : runCommands op cmds c = .ok (failed, c', calls)) :
    Standing c c' :=
  runCommands_keeps op (Standing c) (fun cmd _ ret _ stood ran => stood.trans (stands cmd _ ret _ ran)) (.refl c) run

/-! ### The message -/

private theorem settle_put {rocks : Env} (alone : rocks.num_workers = 1) (f : Cell → Result (Int × Cell)) (c : Cell) :
    settle_shards f 0 (rocks.put 0 c) =
      if 0 < c.savepoint_count then (f c).map (fun a => rocks.put 0 a.2) else .ok (rocks.put 0 c) := by
  simp only [settle_shards, put_num_workers, alone, forLoop, put_shard_self, put_onShardM]
  by_cases positive : 0 < c.savepoint_count
  · simp only [positive, if_true]
    cases f c <;> rfl
  · simp only [positive, if_false]
    rfl

/-- What stands behind the command loop: a counting shard is committed, or
    unwound and its transaction deleted; other shards are left alone. -/
inductive Settled (fuel : Nat) (c : Cell) : Bool → Cell → Prop
  | commits (counting : 0 < c.savepoint_count) : Settled fuel c false (commit_shard c).2
  | aborts {ret : Int} {c' : Cell} (counting : 0 < c.savepoint_count) (aborted : abort_shard fuel c = .ok (ret, c')) :
      Settled fuel c true c'
  | leaves (failed : Bool) (low : c.savepoint_count ≤ 0) : Settled fuel c failed c

private theorem settle_settled {fuel : Nat} {failed : Bool} {rocks rocks' : Env} (alone : rocks.num_workers = 1)
    {f : Cell → Result (Int × Cell)} {c : Cell}
    (ends : ∀ a, 0 < c.savepoint_count → f c = .ok a → Settled fuel c failed a.2)
    (settled : settle_shards f 0 (rocks.put 0 c) = .ok rocks') :
    ∃ c', Settled fuel c failed c' ∧ rocks' = rocks.put 0 c' := by
  rw [settle_put alone] at settled
  split_ifs at settled with counting
  · obtain ⟨a, ran, rfl⟩ := ok_of_map settled
    exact ⟨a.2, ends a counting ran, rfl⟩
  · cases settled
    exact ⟨c, .leaves failed (by omega), rfl⟩

/-- The environment the command loop starts from, and the one a message leaves,
    on a single worker. -/
def entered (rocks : Env) : Env := Env.setWorker rocks 0 { rocks.workers 0 with transaction_done := 0 }
def leftEnv (rocks : Env) (c : Cell) : Env := pthread_mutex_unlock 0 ((entered rocks).put 0 c)

theorem entered_put (rocks : Env) : (entered rocks).put 0 (rocks.cell 0) = entered rocks := put_cell (entered rocks) 0

@[simp] theorem leftEnv_shard (rocks : Env) (c : Cell) : (leftEnv rocks c).shard 0 = c.toShard :=
  put_shard_self (entered rocks) 0 c
@[simp] theorem leftEnv_trace (rocks : Env) (c : Cell) : (leftEnv rocks c).lib.trace = c.lib.trace ++ [.unlock 0] := rfl

theorem leftEnv_other (rocks : Env) (c : Cell) {i : Nat} (other : i ≠ 0) : (leftEnv rocks c).shard i = rocks.shard i :=
  put_shard_other (entered rocks) 0 c other

/-- How a message that reaches the executor ends, by how its loop ends. -/
theorem multi_settles {app : App} {fuel : Nat} {run : Mem Buf → Option Int → Env → Result (LoopEnd Env)} {mem : Mem Buf}
    {pkt : Mbuf} (rocks : Env) {done : Done} (alone : rocks.num_workers = 1)
    (finished : multi_partition app fuel run 0 0 mem pkt rocks = .ok done) :
    ∃ e, run mem none (entered rocks) = .ok e ∧ done.log = e.log ∧ (done.ret = if e.tx_failed then -1 else 0) ∧
      ∀ c, e.rocks = (entered rocks).put 0 c → ∃ c', Settled fuel c e.tx_failed c' ∧ done.rocks = leftEnv rocks c' := by
  have alone' : (entered rocks).num_workers = 1 := alone
  change (if (0 : Nat) = 0 then do
      let done ← run mem none (entered rocks)
      if done.tx_failed then
        let rocks ← settle_shards (abort_shard fuel) 0 done.rocks
        return ⟨-1, pthread_mutex_unlock 0 rocks, done.mem, pkt, done.log⟩
      else
        let rocks ← settle_shards (fun c => .ok (commit_shard c)) 0 done.rocks
        return ⟨0, pthread_mutex_unlock 0 rocks, done.mem, reply app pkt, done.log⟩
    else return ⟨-1, entered rocks, mem, pkt, []⟩) = Except.ok done at finished
  rw [if_pos rfl] at finished
  obtain ⟨⟨failed, mem', left, log⟩, ran, finished⟩ := bind_eq_ok.mp finished
  refine ⟨_, ran, ?_⟩
  cases failed with
  | false =>
    simp only [Bool.false_eq_true, if_false] at finished ⊢
    obtain ⟨rocks', settled, ended⟩ := bind_eq_ok.mp finished
    cases ended
    refine ⟨rfl, rfl, fun c leftIs => ?_⟩
    have ends : ∀ a, 0 < c.savepoint_count → (.ok (commit_shard c) : Result (Int × Cell)) = .ok a →
        Settled fuel c false a.2 := by
      rintro a counting ⟨⟩
      exact .commits counting
    obtain ⟨c', ended, rfl⟩ := settle_settled alone' ends (leftIs ▸ settled)
    exact ⟨c', ended, rfl⟩
  | true =>
    simp only [if_true] at finished ⊢
    obtain ⟨rocks', settled, ended⟩ := bind_eq_ok.mp finished
    cases ended
    refine ⟨rfl, rfl, fun c leftIs => ?_⟩
    have ends : ∀ a, 0 < c.savepoint_count → abort_shard fuel c = .ok a → Settled fuel c true a.2 :=
      fun a counting aborted => .aborts counting aborted
    obtain ⟨c', ended, rfl⟩ := settle_settled alone' ends (leftIs ▸ settled)
    exact ⟨c', ended, rfl⟩

private theorem entered_commands {rocks : Env} (alone : rocks.num_workers = 1) (cmds : List Command) :
    runCommands multi cmds (entered rocks) =
      (runCommands multiCell cmds (rocks.cell 0)).map (fun e => (e.1, (entered rocks).put 0 e.2.1, e.2.2)) := by
  have onEnv := runCommands_multi (entered rocks) alone cmds (rocks.cell 0)
  rw [entered_put] at onEnv
  exact onEnv

/-- When its loop runs `cmds`. -/
theorem multi_outcome {app : App} {fuel : Nat} {run : Mem Buf → Option Int → Env → Result (LoopEnd Env)} {mem : Mem Buf}
    {pkt : Mbuf} {rocks : Env} {done : Done} {cmds : List Command} (alone : rocks.num_workers = 1)
    (runs : ∀ rocks e, run mem none rocks = .ok e →
      runCommands multi cmds rocks = .ok (e.tx_failed, e.rocks, callsOf e.log))
    (finished : multi_partition app fuel run 0 0 mem pkt rocks = .ok done) :
    ∃ failed c c', runCommands multiCell cmds (rocks.cell 0) = .ok (failed, c, callsOf done.log) ∧
      Settled fuel c failed c' ∧ done.rocks = leftEnv rocks c' ∧ done.ret = if failed then -1 else 0 := by
  obtain ⟨e, ran, log, ret, settles⟩ := multi_settles rocks alone finished
  have commands := runs _ _ ran
  rw [entered_commands alone] at commands
  obtain ⟨⟨failed, c, calls⟩, onCell, same⟩ := ok_of_map commands
  simp only [Prod.mk.injEq] at same
  obtain ⟨rfl, left, rfl⟩ := same
  obtain ⟨c', settled, leaves⟩ := settles c left.symm
  exact ⟨_, c, c', log ▸ onCell, settled, leaves, ret⟩

/-- Conversely it ends when its loop and its abort do. -/
theorem multi_ends (app : App) (fuel : Nat) (run : Mem Buf → Option Int → Env → Result (LoopEnd Env)) {mem : Mem Buf}
    (pkt : Mbuf) (rocks : Env) {e : LoopEnd Env} {c : Cell} (alone : rocks.num_workers = 1)
    (ran : run mem none (entered rocks) = .ok e) (left : e.rocks = (entered rocks).put 0 c)
    (aborts : e.tx_failed = true → 0 < c.savepoint_count → ∃ a, abort_shard fuel c = .ok a) :
    ∃ done, multi_partition app fuel run 0 0 mem pkt rocks = .ok done := by
  have alone' : (entered rocks).num_workers = 1 := alone
  simp only [multi_partition, if_true]
  rw [show Env.setWorker rocks 0 { rocks.workers 0 with transaction_done := 0 } = entered rocks from rfl, ran, bind_ok,
    left]
  cases failed : e.tx_failed with
  | false =>
    simp only [Bool.false_eq_true, if_false, settle_put alone']
    split_ifs <;> exact ⟨_, rfl⟩
  | true =>
    simp only [if_true, settle_put alone']
    split_ifs with counting
    · obtain ⟨a, aborted⟩ := aborts failed counting
      rw [aborted]
      exact ⟨_, rfl⟩
    · exact ⟨_, rfl⟩

theorem multi_returns (app : App) (fuel : Nat) (run : Mem Buf → Option Int → Env → Result (LoopEnd Env)) {mem : Mem Buf}
    (pkt : Mbuf) (rocks : Env) {cmds : List Command} (alone : rocks.num_workers = 1)
    (runs : ∀ rocks, (run mem none rocks).map (fun e => (e.tx_failed, e.rocks, callsOf e.log)) =
      runCommands multi cmds rocks)
    (answers : ∃ e, runCommands multiCell cmds (rocks.cell 0) = .ok e)
    (aborts : ∀ c calls, runCommands multiCell cmds (rocks.cell 0) = .ok (true, c, calls) → 0 < c.savepoint_count →
      ∃ a, abort_shard fuel c = .ok a) :
    ∃ done, multi_partition app fuel run 0 0 mem pkt rocks = .ok done := by
  obtain ⟨⟨failed, c, calls⟩, onCell⟩ := answers
  have commands := runs (entered rocks)
  rw [entered_commands alone, onCell] at commands
  obtain ⟨e, ran, same⟩ := ok_of_map commands
  simp only [Prod.mk.injEq] at same
  refine multi_ends app fuel run pkt rocks alone ran same.2.1 fun fails counting => ?_
  obtain rfl : failed = true := same.1.symm.trans fails
  exact aborts c calls onCell counting

section Handler
variable {app : App} {fuel : Nat} {undef : Int} {mem : Mem Buf} {pkt : Mbuf} {rocks : Env} {done : Done}
  (type : pkt.msgtype = 1) (leader : pkt.leader = 0) (alone : rocks.num_workers = 1)
include type leader alone

/-- A multi-partition message on a single worker. -/
theorem handle_executed (assigned : Assigned undef pkt.message)
    (handled : handle_db_message app fuel undef mem pkt 0 rocks = .ok done) :
    ∃ failed c c', runCommands multiCell (commandsOf pkt.message) ((Env.received rocks).cell 0) =
        .ok (failed, c, callsOf done.log) ∧
      Settled fuel c failed c' ∧ done.rocks = leftEnv (Env.received rocks) c' ∧ done.ret = if failed then -1 else 0 := by
  obtain ⟨msg, mem', handles, partly, _⟩ := handle_multi app fuel undef mem pkt 0 rocks type leader alone assigned
  rw [handles] at handled
  exact multi_outcome alone partly handled

/-- The same where the first token is no command and `ret` happens to be negative. -/
theorem handle_unassigned (unassigned : ¬ Assigned undef pkt.message)
    (handled : handle_db_message app fuel undef mem pkt 0 rocks = .ok done) :
    done.ret = -1 ∧ callsOf done.log = [] ∧
      ∃ c', Settled fuel ((Env.received rocks).cell 0) true c' ∧ done.rocks = leftEnv (Env.received rocks) c' := by
  obtain ⟨msg, mem', called, loops⟩ := message_loop_unassigned multi undef fuel mem (message_clean pkt) unassigned
  have passed : await_others 0 (Env.received rocks) = .ok (.inl (Env.received rocks)) := await_alone alone
  simp only [handle_db_message, called, need_some, bind_ok, type, leader, Nat.one_ne_zero, if_false, if_true,
    passed] at handled
  obtain ⟨e, ran, log, ret, settles⟩ := multi_settles (Env.received rocks) alone handled
  obtain ⟨failed, left, calls⟩ := loops _ _ ran
  rw [failed] at ret settles
  exact ⟨ret, by rw [log]; exact calls, settles _ (by rw [left, entered_put])⟩

end Handler

end Shardb.MultiPartition
