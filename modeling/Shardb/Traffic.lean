import Shardb.Records
import Shardb.Runs

/-!
# Messages one after another

What handling one message does is said once (`course_cases`). To the shards it
does nothing, or one of them goes through one of the ways a message can end
(`handled_cases`). What holds of all shards between messages follows from there.
-/

namespace Shardb.Traffic
open Shardb.Bytes (Text)
open Shardb.CStrings Shardb.Loops Shardb.Journal Shardb.Rocks Shardb.Datastore Shardb.Handlers Shardb.Server Shardb.Tokens
open Shardb.Handling Shardb.Interpreter Shardb.SinglePartition Shardb.MultiPartition Shardb.Records Shardb.Runs

/-- A packet at a worker, with what the handler's locals hold and the bound on
    its loops. -/
structure Delivery where
  app : App
  fuel : Nat
  undef : Int
  mem : Mem Buf
  pkt : Mbuf
  worker_id : Nat

def Delivery.handle (d : Delivery) (rocks : Env) : Result Done :=
  handle_db_message d.app d.fuel d.undef d.mem d.pkt d.worker_id rocks

/-- A message for worker 0, with nothing left over in the locals. -/
def plain (msgtype : Nat) (text : Text) : Delivery :=
  { app := default, fuel := MAXBUFSIZE, undef := 0, mem := ⟨fun _ => [], none⟩, pkt := packet msgtype 0 text,
    worker_id := 0 }

/-- A message is handled by one of the workers. -/
structure Handles (rocks : Env) (handled : Delivery × Done) (rocks' : Env) : Prop where
  worker : handled.1.worker_id < rocks.num_workers
  answer : handled.1.handle rocks = .ok handled.2
  left : handled.2.rocks = rocks'

/-- A multi-partition message whose commands are carried out. -/
structure Executes (d : Delivery) (rocks : Env) : Prop where
  type : d.pkt.msgtype = 1
  leader : d.pkt.leader = 0
  worker : d.worker_id = 0
  alone : rocks.num_workers = 1
  assigned : Assigned d.undef d.pkt.message

/-- How a message ends on the shard that it works on, which was `c` and becomes
    what is said last. -/
inductive Ending (d : Delivery) (rocks : Env) (c : Cell) : Int → Cell → Prop
  /-- Nothing is begun, and what is found is committed. -/
  | found (busy : c.tx_db = false ∨ c.tx ≠ none) : Ending d rocks c 0 (commit_shard c).2
  /-- The library reports an error for the begin. -/
  | unbegun (lib : Lib) (empty : c.tx = none) (faults : lib.faults = c.lib.faults)
      (message : lib.message = c.lib.message) : Ending d rocks c 0 { c with savepoint_count := 0, lib := lib }
  | commits {c' : Cell} {calls : List (Command × Int)} (opened : c.tx_db = true)
      (ran : runCommands singleCell (commandsOf d.pkt.message) (started d.worker_id c) = .ok (false, c', calls)) :
      Ending d rocks c 0 (commit_shard c').2
  | aborts {c' c'' : Cell} {calls : List (Command × Int)} {ret : Int} (opened : c.tx_db = true)
      (ran : runCommands singleCell (commandsOf d.pkt.message) (started d.worker_id c) = .ok (true, c', calls))
      (aborted : abort_shard d.fuel c' = .ok (ret, c'')) : Ending d rocks c (-1) c''
  | executed {failed : Bool} {c' c'' : Cell} {calls : List (Command × Int)} (executes : Executes d rocks)
      (ran : runCommands multiCell (commandsOf d.pkt.message) c = .ok (failed, c', calls))
      (settled : Settled d.fuel c' failed c'') : Ending d rocks c (if failed then -1 else 0) c''
  /-- An unassigned `ret` that happens to be negative. -/
  | unheard {c' : Cell} (settled : Settled d.fuel c true c') : Ending d rocks c (-1) c'

/-- What handling a message does to the environment: nothing, or the shard of
    its worker comes to one of the endings. -/
inductive Handled (d : Delivery) (rocks : Env) (done : Done) : Prop
  | passed (ret : done.ret = -1) (waited : Waited (Env.received rocks) done.rocks)
  | worked (c : Cell) (ending : Ending d rocks ((Env.received rocks).cell d.worker_id) done.ret c)
      (num_workers : done.rocks.num_workers = rocks.num_workers) (here : done.rocks.shard d.worker_id = c.toShard)
      (others : ∀ i, i ≠ d.worker_id → done.rocks.shard i = rocks.shard i)
      (faults : done.rocks.lib.faults = c.lib.faults) (message : done.rocks.lib.message = c.lib.message)

private theorem worked_put {d : Delivery} {rocks : Env} {done : Done} {c : Cell}
    (ending : Ending d rocks ((Env.received rocks).cell d.worker_id) done.ret c)
    (left : done.rocks = (Env.received rocks).put d.worker_id c) : Handled d rocks done := by
  refine .worked c ending (by rw [left]; rfl) ?_ (fun i other => ?_) (by rw [left]; rfl) (by rw [left]; rfl)
  · rw [left, put_shard_self]
  · rw [left, put_shard_other _ _ c other]
    rfl

private theorem worked_left {d : Delivery} {rocks : Env} {done : Done} {c : Cell} (worker : d.worker_id = 0)
    (ending : Ending d rocks ((Env.received rocks).cell 0) done.ret c)
    (left : done.rocks = leftEnv (Env.received rocks) c) : Handled d rocks done := by
  refine .worked c (worker ▸ ending) (by rw [left]; rfl) ?_ (fun i other => ?_) (by rw [left]; rfl) (by rw [left]; rfl)
  · rw [left, worker, leftEnv_shard]
  · rw [left, leftEnv_other _ c (worker ▸ other)]
    rfl

/-- The ways of a call that returns, by where the message goes. -/
inductive Course (d : Delivery) (rocks : Env) (done : Done) : Prop
  /-- The message is for another worker, or of no known type. -/
  | astray (type : d.pkt.msgtype ≠ 1) (other : ¬ (d.pkt.msgtype = 0 ∧ d.pkt.leader = d.worker_id)) (ret : done.ret = -1)
      (log : done.log = []) (left : done.rocks = Env.received rocks)
  /-- A message for several shards comes past another worker. -/
  | crowded (type : d.pkt.msgtype = 1) (crowded : d.pkt.leader ≠ 0 ∨ rocks.num_workers ≠ 1) (ret : done.ret = -1)
      (log : done.log = []) (waited : Waited (Env.received rocks) done.rocks)
  | busy (type : d.pkt.msgtype = 0) (leader : d.pkt.leader = d.worker_id)
      (busy : (rocks.shard d.worker_id).tx_db = false ∨ (rocks.shard d.worker_id).tx ≠ none) (ret : done.ret = 0)
      (log : done.log = [])
      (left : done.rocks = (Env.received rocks).put d.worker_id (commit_shard ((Env.received rocks).cell d.worker_id)).2)
  | unbegun (type : d.pkt.msgtype = 0) (leader : d.pkt.leader = d.worker_id)
      (opened : (rocks.shard d.worker_id).tx_db = true) (empty : (rocks.shard d.worker_id).tx = none)
      (faulty : rocks.lib.fails .begin = true) (ret : done.ret = 0) (log : done.log = [])
      (left : done.rocks = (Env.received rocks).put d.worker_id { (Env.received rocks).cell d.worker_id with
        savepoint_count := 0, lib := (Env.received rocks).lib.tick (.begin d.worker_id none) })
  | committed (type : d.pkt.msgtype = 0) (leader : d.pkt.leader = d.worker_id)
      (opened : (rocks.shard d.worker_id).tx_db = true) (empty : (rocks.shard d.worker_id).tx = none)
      (fine : rocks.lib.fails .begin = false) {c : Cell}
      (ran : runCommands singleCell (commandsOf d.pkt.message) (started d.worker_id ((Env.received rocks).cell d.worker_id)) =
        .ok (false, c, callsOf done.log)) (ret : done.ret = 0)
      (left : done.rocks = (Env.received rocks).put d.worker_id (commit_shard c).2)
  | aborted (type : d.pkt.msgtype = 0) (leader : d.pkt.leader = d.worker_id)
      (opened : (rocks.shard d.worker_id).tx_db = true) (empty : (rocks.shard d.worker_id).tx = none)
      (fine : rocks.lib.fails .begin = false) {c c' : Cell} {answer : Int}
      (ran : runCommands singleCell (commandsOf d.pkt.message) (started d.worker_id ((Env.received rocks).cell d.worker_id)) =
        .ok (true, c, callsOf done.log)) (aborted : abort_shard d.fuel c = .ok (answer, c')) (ret : done.ret = -1)
      (left : done.rocks = (Env.received rocks).put d.worker_id c')
  | executed (executes : Executes d rocks) {failed : Bool} {c c' : Cell}
      (ran : runCommands multiCell (commandsOf d.pkt.message) ((Env.received rocks).cell 0) =
        .ok (failed, c, callsOf done.log)) (settled : Settled d.fuel c failed c')
      (ret : done.ret = if failed then -1 else 0) (left : done.rocks = leftEnv (Env.received rocks) c')
  | unheard (type : d.pkt.msgtype = 1) (leader : d.pkt.leader = 0) (worker : d.worker_id = 0)
      (alone : rocks.num_workers = 1) (unassigned : ¬ Assigned d.undef d.pkt.message) {c' : Cell}
      (settled : Settled d.fuel ((Env.received rocks).cell 0) true c') (ret : done.ret = -1)
      (calls : callsOf done.log = []) (left : done.rocks = leftEnv (Env.received rocks) c')

theorem course_cases {d : Delivery} {rocks : Env} {done : Done} (worker : d.worker_id < rocks.num_workers)
    (answer : d.handle rocks = .ok done) : Course d rocks done := by
  by_cases multi : d.pkt.msgtype = 1
  · by_cases crowded : d.pkt.leader ≠ 0 ∨ rocks.num_workers ≠ 1
    · obtain ⟨ret, log, waited⟩ := handle_crowded multi crowded answer
      exact .crowded multi crowded ret log waited
    · obtain ⟨leader, alone⟩ : d.pkt.leader = 0 ∧ rocks.num_workers = 1 := by omega
      have first : d.worker_id = 0 := by omega
      rw [Delivery.handle, first] at answer
      by_cases assigned : Assigned d.undef d.pkt.message
      · obtain ⟨failed, c, c', ran, settled, left, ret⟩ := handle_executed multi leader alone assigned answer
        exact .executed ⟨multi, leader, first, alone, assigned⟩ ran settled ret left
      · obtain ⟨ret, calls, c', settled, left⟩ := handle_unassigned multi leader alone assigned answer
        exact .unheard multi leader first alone assigned settled ret calls left
  · by_cases single : d.pkt.msgtype = 0 ∧ d.pkt.leader = d.worker_id
    · obtain ⟨type, leader⟩ := single
      obtain ⟨msg, mem', handles, partly, _⟩ := handle_single d.app d.fuel d.undef d.mem d.pkt d.worker_id rocks type leader
      rw [Delivery.handle, handles] at answer
      rcases busy_or_fresh ((Env.received rocks).cell d.worker_id) with busy | ⟨opened, empty⟩
      · rw [single_partition_idle d.app d.fuel _ d.worker_id mem' d.pkt (Env.received rocks) busy] at answer
        cases answer
        exact .busy type leader busy rfl rfl rfl
      · cases fine : (Env.received rocks).lib.fails .begin with
        | true =>
          rw [single_partition_unbegun d.app d.fuel _ d.worker_id mem' d.pkt (Env.received rocks) opened empty fine] at answer
          cases answer
          exact .unbegun type leader opened empty fine rfl rfl rfl
        | false =>
          obtain ⟨failed, c, ran, ending⟩ := begun_outcome (Env.received rocks) opened empty fine partly answer
          rcases ending with ⟨rfl, ret, left⟩ | ⟨rfl, ret, _, c', aborted, left⟩
          · exact .committed type leader opened empty fine ran ret left
          · exact .aborted type leader opened empty fine ran aborted ret left
    · obtain ⟨mem', handles⟩ := handle_astray d.app d.fuel d.undef d.mem d.pkt d.worker_id rocks (by omega)
      rw [Delivery.handle, handles] at answer
      cases answer
      exact .astray multi single rfl rfl rfl

theorem handled_cases {d : Delivery} {rocks rocks' : Env} {done : Done} (handles : Handles rocks (d, done) rocks') :
    Handled d rocks done := by
  cases course_cases handles.worker handles.answer with
  | astray _ _ ret _ left => exact .passed ret (by rw [left]; exact ⟨rfl, rfl, rfl, rfl, rfl⟩)
  | crowded _ _ ret _ waited => exact .passed ret waited
  | busy _ _ busy ret _ left => exact worked_put (ret ▸ .found busy) left
  | unbegun _ _ _ empty _ ret _ left =>
    refine worked_put ?_ left
    rw [ret]
    exact .unbegun _ empty rfl rfl
  | committed _ _ opened _ _ ran ret left => exact worked_put (ret ▸ .commits opened ran) left
  | aborted _ _ opened _ _ ran aborted ret left => exact worked_put (ret ▸ .aborts opened ran aborted) left
  | executed executes ran settled ret left =>
    exact worked_left executes.worker (ret ▸ .executed executes ran settled) left
  | unheard _ _ worker _ _ settled ret _ left => exact worked_left worker (ret ▸ .unheard settled) left

/-! ### What a message keeps -/

theorem commit_shard_kept (c : Cell) : Kept c (commit_shard c).2 := by
  rcases idle_or_serving c with idle | ⟨tx, serving⟩
  · rw [commit_shard_idle idle]
    exact ⟨rfl, rfl, rfl⟩
  · rw [commit_shard_serving serving]
    split_ifs <;> exact ⟨rfl, rfl, rfl⟩

theorem abort_shard_kept {fuel : Nat} {c c' : Cell} {ret : Int} (run : abort_shard fuel c = .ok (ret, c')) :
    Kept c c' :=
  abort_shard_keeps (Kept c) (fun _ _ _ kept ran => kept.trans (singleCell_standing ran).toKept)
    (fun _ _ _ kept => kept.trans ⟨rfl, rfl, rfl⟩) ⟨rfl, rfl, rfl⟩ run

theorem settled_kept {fuel : Nat} {c c' : Cell} {failed : Bool} (settled : Settled fuel c failed c') : Kept c c' := by
  cases settled with
  | commits => exact commit_shard_kept c
  | aborts _ aborted => exact abort_shard_kept aborted
  | leaves => exact ⟨rfl, rfl, rfl⟩

theorem ending_kept {d : Delivery} {rocks : Env} {c c' : Cell} {ret : Int} (ending : Ending d rocks c ret c') :
    Kept c c' := by
  have started_kept : Kept c (started d.worker_id c) := ⟨rfl, rfl, rfl⟩
  have single {c' : Cell} {failed : Bool} {calls : List (Command × Int)}
      (ran : runCommands singleCell (commandsOf d.pkt.message) (started d.worker_id c) = .ok (failed, c', calls)) :
      Kept c c' :=
    started_kept.trans (runCommands_standing (fun _ _ _ _ => singleCell_standing) ran).toKept
  cases ending with
  | found => exact commit_shard_kept c
  | unbegun lib empty faults message => exact ⟨rfl, faults, message⟩
  | commits opened ran => exact (single ran).trans (commit_shard_kept _)
  | aborts opened ran aborted => exact (single ran).trans (abort_shard_kept aborted)
  | executed executes ran settled =>
    exact (runCommands_standing (fun _ _ _ _ => multiCell_standing) ran).toKept.trans (settled_kept settled)
  | unheard settled => exact settled_kept settled

/-- Messages are counted; the number of workers and the pattern of errors stay. -/
theorem handled_kept {d : Delivery} {rocks : Env} {done : Done} (handled : Handled d rocks done) :
    done.rocks.num_workers = rocks.num_workers ∧ done.rocks.lib.faults = rocks.lib.faults ∧
      done.rocks.lib.message = rocks.lib.message + 1 := by
  cases handled with
  | passed _ waited => exact ⟨waited.num_workers, waited.faults, waited.message⟩
  | worked c ending num_workers here others faults message =>
    have kept := ending_kept ending
    exact ⟨num_workers, faults.trans kept.faults, message.trans kept.message⟩

/-- A message on the only worker. -/
theorem handles_alone {d : Delivery} {rocks : Env} {done : Done} (alone : rocks.num_workers = 1)
    (worker : d.worker_id = 0) (handled : d.handle rocks = .ok done) : Handles rocks (d, done) done.rocks ∧ done.rocks.num_workers = 1 := by
  have handles : Handles rocks (d, done) done.rocks := ⟨by simp only; omega, handled, rfl⟩
  exact ⟨handles, (handled_kept (handled_cases handles)).1.trans alone⟩

theorem ending_marked {P : Write → Prop} {d : Delivery} {rocks : Env} {c c' : Cell} {ret : Int}
    (marked : Marked P c.toShard) (allowed : Allowed P c) (ending : Ending d rocks c ret c') : Marked P c'.toShard := by
  have begun : Marked P (started d.worker_id c).toShard := begun_marked marked _ _
  have allowed' : Allowed P (started d.worker_id c) := fun write same => allowed write same
  cases ending with
  | found => exact commit_shard_marked marked
  | unbegun => exact ⟨marked.committed, marked.held⟩
  | commits opened ran => exact commit_shard_marked (single_marked begun (fun cmd _ => allowed'.permits cmd) ran)
  | aborts opened ran aborted =>
    exact abort_shard_marked (single_marked begun (fun cmd _ => allowed'.permits cmd) ran) aborted
  | executed executes ran settled => exact settled_marked (multi_marked marked (fun cmd _ _ => allowed.permits cmd) ran) settled
  | unheard settled => exact settled_marked marked settled

/-- What all writes satisfy is kept by a message whose own writes satisfy it. -/
theorem handled_marked {P : Write → Prop} {d : Delivery} {rocks : Env} {done : Done} (handled : Handled d rocks done)
    (marked : ∀ i, Marked P (rocks.shard i)) (allowed : ∀ write, write.message = rocks.lib.message + 1 → P write)
    (i : Nat) : Marked P (done.rocks.shard i) := by
  cases handled with
  | passed _ waited =>
    rw [waited.shard]
    exact marked i
  | worked c ending _ here others _ _ =>
    by_cases same : i = d.worker_id
    · rw [same, here]
      exact ending_marked (c := (Env.received rocks).cell d.worker_id) (marked d.worker_id) allowed ending
    · rw [others i same]
      exact marked i

/-! ### The start -/

/-- The environment before the first message: whatever could be opened, nothing
    else has happened. -/
structure Initial (disk : Nat → List Write) (faults : Nat → Call → Bool) (rocks : Env) : Prop where
  empty : ∀ i, (rocks.shard i).tx = none
  count : ∀ i, (rocks.shard i).savepoint_count = 0
  committed : ∀ i, (rocks.shard i).committed = disk i
  faults : rocks.lib.faults = faults
  message : rocks.lib.message = 0

private theorem open_initial {disk : Nat → List Write} {faults : Nat → Call → Bool} {rocks : Env}
    (initial : Initial disk faults rocks) (i : Nat) :
    Initial disk faults (rocks.onShard i (open_database i)).2 := by
  have opens : ∀ j, ∃ opened,
      ((rocks.onShard i (open_database i)).2.shard j) = { rocks.shard j with tx_db := opened } := by
    intro j
    rw [onShard_eq]
    by_cases here : j = i
    · rw [here, put_shard_self]
      exact ⟨_, rfl⟩
    · rw [put_shard_other _ _ _ here]
      exact ⟨(rocks.shard j).tx_db, rfl⟩
  have lib : ∃ event, (rocks.onShard i (open_database i)).2.lib = rocks.lib.tick event := by
    rw [onShard_eq, put_lib, open_database, rocksdb_transactiondb_open]
    split_ifs <;> exact ⟨_, rfl⟩
  obtain ⟨event, ticks⟩ := lib
  refine ⟨fun j => ?_, fun j => ?_, fun j => ?_, by rw [ticks]; exact initial.faults,
    by rw [ticks]; exact initial.message⟩
  · obtain ⟨opened, left⟩ := opens j
    rw [left]
    exact initial.empty j
  · obtain ⟨opened, left⟩ := opens j
    rw [left]
    exact initial.count j
  · obtain ⟨opened, left⟩ := opens j
    rw [left]
    exact initial.committed j

theorem init_initial {num_workers : Nat} (staffed : 0 < num_workers) (disk : Nat → List Write)
    (faults : Nat → Call → Bool) : Initial disk faults (init_database_env num_workers staffed disk faults) := by
  have start : Initial disk faults
      { num_workers := num_workers
        workers := fun _ => { transaction_lock := false, transaction_done := 0 }
        shard := fun i => { tx_db := false, tx := none, savepoint_count := 0, committed := disk i }
        lib := { faults := faults, clock := 0, next := 0, message := 0, trace := [] }
        staffed := staffed } := ⟨fun _ => rfl, fun _ => rfl, fun _ => rfl, rfl, rfl⟩
  exact open_initial (open_initial (open_initial (open_initial start 0) 1) 2) 3

/-- Before the first message every write comes from the disk. -/
theorem init_marked {P : Write → Prop} {disk : Nat → List Write} {faults : Nat → Call → Bool} {rocks : Env}
    (initial : Initial disk faults rocks) (old : ∀ i, ∀ write ∈ disk i, P write) (i : Nat) :
    Marked P (rocks.shard i) := by
  refine ⟨?_, fun tx slot => ?_⟩
  · rw [initial.committed i]
    exact old i
  · rw [initial.empty i] at slot
    cases slot

/-! ### Dated writes -/

/-- No write comes from a message that is still to come. -/
def Dated (rocks : Env) : Prop := ∀ i, Marked (fun write => write.message ≤ rocks.lib.message) (rocks.shard i)

theorem handled_dated {d : Delivery} {rocks : Env} {done : Done} (handled : Handled d rocks done) (dated : Dated rocks) :
    Dated done.rocks := by
  intro i
  rw [(handled_kept handled).2.2]
  refine handled_marked handled (fun j => (dated j).mono fun write old => ?_) (fun write same => ?_) i
  · exact Nat.le_succ_of_le old
  · exact Nat.le_of_eq same

end Shardb.Traffic
