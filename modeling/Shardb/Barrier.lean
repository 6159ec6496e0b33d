import Shardb.Traffic

/-!
# The barrier between the workers

A worker that executes a message for several shards takes the lock of every
other worker and waits for its `transaction_done`. Nothing sets these flags: the
environment starts with zeros, and `release` comes after the wait. So every
such message blocks where there is another worker (`quiet_blocked`), and where
there is none it unlocks a lock that nobody took (`handled_unlocks`).
-/

namespace Shardb.Barrier
open Shardb.Bytes (Text ascii)
open Shardb.CStrings Shardb.Rocks Shardb.Datastore Shardb.Handlers Shardb.Server Shardb.Tokens Shardb.Handling
open Shardb.Messages Shardb.Interpreter Shardb.Savepoints Shardb.SinglePartition Shardb.MultiPartition Shardb.Runs
open Shardb.Traffic
open Shardb.Loops (bind_eq_ok)

/-! ### What the barrier is meant to be -/

/-- No worker is waited for while no message for several shards is in progress. -/
def Ready (rocks : Env) : Prop := ∀ i, i < rocks.num_workers → (rocks.workers i).transaction_done ≠ 0

/-- Every unlock is one of a lock that was taken before and not yet given back. -/
def Paired (events : List Event) : Prop :=
  ∀ i before behind, events = before ++ .unlock i :: behind → before.count (.unlock i) < before.count (.lock i)

/-- The locks are as they were. -/
def Unlocked (rocks rocks' : Env) : Prop :=
  ∀ i, (rocks'.workers i).transaction_lock = (rocks.workers i).transaction_lock

/-- The calls made between two states. -/
def Between (rocks rocks' : Env) (events : List Event) : Prop := rocks'.lib.trace = rocks.lib.trace ++ events

/-! ### Calls that are no locks -/

/-- Calls were made, none of them on a lock. -/
def Silent (lib lib' : Lib) : Prop :=
  ∃ events, lib'.trace = lib.trace ++ events ∧ ∀ i, Event.lock i ∉ events ∧ Event.unlock i ∉ events

theorem Silent.refl (lib : Lib) : Silent lib lib := ⟨[], (List.append_nil _).symm, by simp⟩

theorem Silent.trans {lib lib' lib'' : Lib} (first : Silent lib lib') (second : Silent lib' lib'') : Silent lib lib'' := by
  obtain ⟨events, trace, silent⟩ := first
  obtain ⟨events', trace', silent'⟩ := second
  refine ⟨events ++ events', by rw [trace', trace, List.append_assoc], fun i => ?_⟩
  simp only [List.mem_append, not_or]
  exact ⟨⟨(silent i).1, (silent' i).1⟩, (silent i).2, (silent' i).2⟩

theorem silent_tick (lib : Lib) {e : Event} (other : ∀ i, Event.lock i ≠ e ∧ Event.unlock i ≠ e) :
    Silent lib (lib.tick e) :=
  ⟨[e], rfl, fun i => ⟨fun member => (other i).1 (List.mem_singleton.mp member),
    fun member => (other i).2 (List.mem_singleton.mp member)⟩⟩

private theorem eventOf_silent (id : Nat) (ok : Bool) (cmd : Command) (i : Nat) :
    Event.lock i ≠ eventOf id ok cmd ∧ Event.unlock i ≠ eventOf id ok cmd := by
  cases cmd <;> simp [eventOf]

theorem singleCell_silent {cmd : Command} {c c' : Cell} {ret : Int} (ran : singleCell cmd c = .ok (ret, c')) :
    Silent c.lib c'.lib := by
  rcases idle_or_serving c with idle | ⟨tx, serving⟩
  · rw [(singleCell_idle idle ran).2]
    exact .refl _
  · cases singleCell_effect serving ran with
    | carried accepted done => exact silent_tick c.lib (eventOf_silent _ _ _)
    | failed ok reason => exact silent_tick c.lib (eventOf_silent _ _ _)

private theorem begunCell_silent (i : Nat) (c : Cell) : Silent c.lib (begunCell i c).lib :=
  ⟨_, rfl, by simp⟩

theorem multiCell_silent {cmd : Command} {c c' : Cell} {ret : Int} (ran : multiCell cmd c = .ok (ret, c')) :
    Silent c.lib c'.lib := by
  by_cases data : isData cmd
  · rw [multiCell_data data] at ran
    obtain ⟨key, _, ran⟩ := bind_eq_ok.mp ran
    split_ifs at ran
    · by_cases zero : c.savepoint_count = 0
      · rcases busy_or_fresh c with busy | ⟨opened, empty⟩
        · rw [access_busy zero busy] at ran
          cases ran
          exact .refl _
        · cases fine : c.lib.fails .begin with
          | true =>
            rw [access_faulty zero opened empty fine] at ran
            cases ran
            exact silent_tick c.lib (by simp)
          | false =>
            rw [access_fresh zero opened empty fine] at ran
            exact (begunCell_silent 0 c).trans (singleCell_silent (c := fresh c) ran)
      · rw [access_counting zero] at ran
        exact singleCell_silent ran
    · cases ran
      exact .refl _
  · -- the other commands make the calls of the single-partition loop, or none
    cases multiCell_effect ran with
    | refused _ isData => exact absurd isData data
    | begins isData => exact absurd isData data
    | works _ _ ran => exact singleCell_silent ran
    | passes => exact .refl _
    | sinks => exact .refl _

theorem commit_shard_silent (c : Cell) : Silent c.lib (commit_shard c).2.lib := by
  rcases idle_or_serving c with idle | ⟨tx, serving⟩
  · rw [commit_shard_idle idle]
    exact .refl _
  · rw [commit_shard_serving serving]
    split_ifs
    · exact silent_tick c.lib (by simp)
    · exact silent_tick c.lib (by simp)

theorem abort_shard_silent {fuel : Nat} {c c' : Cell} {ret : Int} (run : abort_shard fuel c = .ok (ret, c')) :
    Silent c.lib c'.lib :=
  abort_shard_keeps (fun c' => Silent c.lib c'.lib) (fun _ _ _ silent ran => silent.trans (singleCell_silent ran))
    (fun _ _ _ silent => silent.trans (silent_tick _ (by simp))) (.refl _) run

theorem settled_silent {fuel : Nat} {c c' : Cell} {failed : Bool} (settled : Settled fuel c failed c') :
    Silent c.lib c'.lib := by
  cases settled with
  | commits => exact commit_shard_silent c
  | aborts _ aborted => exact abort_shard_silent aborted
  | leaves => exact .refl _

private theorem runCommands_silent {op : Command → Cell → Result (Int × Cell)}
    (silent : ∀ cmd c ret c', op cmd c = .ok (ret, c') → Silent c.lib c'.lib) {cmds : List Command} {c c' : Cell}
    {failed : Bool} {calls : List (Command × Int)} (run : runCommands op cmds c = .ok (failed, c', calls)) :
    Silent c.lib c'.lib :=
  runCommands_keeps op (fun c' => Silent c.lib c'.lib) (fun cmd _ ret _ before ran => before.trans (silent cmd _ ret _ ran))
    (.refl _) run

/-! ### One message -/

/-- All locks are free and no flag is set. -/
def Quiet (rocks : Env) : Prop := ∀ i, rocks.workers i = { transaction_lock := false, transaction_done := 0 }

theorem init_quiet {num_workers : Nat} (staffed : 0 < num_workers) (disk : Nat → List Write)
    (faults : Nat → Call → Bool) : Quiet (init_database_env num_workers staffed disk faults) := fun _ => rfl

/-- A message that meets another worker waits for good. -/
theorem quiet_blocked (d : Delivery) {rocks : Env} (quiet : Quiet rocks) (type : d.pkt.msgtype = 1)
    (crowded : d.pkt.leader ≠ 0 ∨ rocks.num_workers ≠ 1) : d.handle rocks = .error .blocked :=
  handle_blocked d.app d.fuel d.undef d.mem d.worker_id type crowded fun i => by rw [quiet i]

/-- What a call does to the workers and their locks: nothing, or it unlocks worker 0's. -/
inductive Passed (rocks : Env) (d : Delivery) (rocks' : Env) : Prop
  | silent (type : d.pkt.msgtype ≠ 1) (workers : rocks'.workers = rocks.workers) (calls : Silent rocks.lib rocks'.lib)
  | unlocks (type : d.pkt.msgtype = 1) (c : Cell) (calls : Silent rocks.lib c.lib)
      (left : rocks' = leftEnv (Env.received rocks) c)

theorem passed_cases {d : Delivery} {rocks : Env} {done : Done} (quiet : Quiet rocks)
    (worker : d.worker_id < rocks.num_workers) (answer : d.handle rocks = .ok done) : Passed rocks d done.rocks := by
  have onShard : d.pkt.msgtype = 0 → ∀ c : Cell, Silent rocks.lib c.lib →
      done.rocks = (Env.received rocks).put d.worker_id c → Passed rocks d done.rocks := by
    intro type c silent left
    rw [left]
    exact .silent (by omega) rfl silent
  have begun : Silent rocks.lib (started d.worker_id ((Env.received rocks).cell d.worker_id)).lib :=
    begunCell_silent d.worker_id ((Env.received rocks).cell d.worker_id)
  cases course_cases worker answer with
  | astray type _ _ _ left =>
    rw [left]
    exact .silent type rfl (.refl _)
  | crowded type crowded =>
    rw [quiet_blocked d quiet type crowded] at answer
    cases answer
  | busy type _ _ _ _ left => exact onShard type _ (commit_shard_silent ((Env.received rocks).cell d.worker_id)) left
  | unbegun type _ _ _ _ _ _ left => exact onShard type _ (silent_tick rocks.lib (by simp)) left
  | committed type _ _ _ _ ran _ left =>
    have silent := begun.trans (runCommands_silent (fun _ _ _ _ => singleCell_silent) ran)
    exact onShard type _ (silent.trans (commit_shard_silent _)) left
  | aborted type _ _ _ _ ran aborted _ left =>
    have silent := begun.trans (runCommands_silent (fun _ _ _ _ => singleCell_silent) ran)
    exact onShard type _ (silent.trans (abort_shard_silent aborted)) left
  | executed executes ran settled _ left =>
    have silent := runCommands_silent (fun _ _ _ _ => multiCell_silent) ran
    exact .unlocks executes.type _ (silent.trans (settled_silent settled)) left
  | unheard type _ _ _ _ settled _ _ left =>
    exact .unlocks type _ (settled_silent (c := (Env.received rocks).cell 0) settled) left

theorem passed_quiet {d : Delivery} {rocks rocks' : Env} (quiet : Quiet rocks) (passed : Passed rocks d rocks') :
    Quiet rocks' := by
  cases passed with
  | silent _ workers _ => rwa [Quiet, workers]
  | unlocks _ c _ left =>
    intro i
    rw [left]
    by_cases first : i = 0
    · subst first
      simp [leftEnv, pthread_mutex_unlock, entered, Env.record, Env.setWorker]
    · simp only [leftEnv, pthread_mutex_unlock, entered, Env.record, Env.setWorker, put_workers,
        Function.update_of_ne first]
      exact quiet i

/-- A call unlocks what it has locked exactly when it is none for several shards. -/
theorem passed_paired {d : Delivery} {rocks rocks' : Env} (passed : Passed rocks d rocks') :
    (∃ events, Between rocks rocks' events ∧ Paired events) ↔ d.pkt.msgtype ≠ 1 := by
  cases passed with
  | silent type _ calls =>
    refine iff_of_true ?_ type
    obtain ⟨events, trace, silent⟩ := calls
    refine ⟨events, trace, fun i before behind split => ?_⟩
    have inside : Event.unlock i ∈ events := by rw [split]; exact List.mem_append_right _ List.mem_cons_self
    exact absurd inside (silent i).2
  | unlocks type c calls left =>
    refine iff_of_false ?_ (not_not_intro type)
    obtain ⟨events, trace, silent⟩ := calls
    rintro ⟨events', trace', paired⟩
    have unlocked : rocks'.lib.trace = rocks.lib.trace ++ (events ++ [.unlock 0]) := by
      rw [left, leftEnv_trace, trace, List.append_assoc]
    have same := List.append_cancel_left (trace'.symm.trans unlocked)
    have taken := paired 0 events [] same
    rw [List.count_eq_zero_of_not_mem (silent 0).1] at taken
    omega

/-! ### Runs -/

theorem reached_quiet {num_workers : Nat} (staffed : 0 < num_workers) {disk : Nat → List Write}
    {faults : Nat → Call → Bool} {trail : List (Env × (Delivery × Done) × Env)} {last : Env}
    (run : Run Handles (init_database_env num_workers staffed disk faults) trail last) : Quiet last := by
  refine run_keeps (fun _ => Quiet) (fun _ _ => True) ?_ (init_quiet staffed disk faults) run (fun _ _ => trivial)
  rintro trail rocks ⟨d, done⟩ rocks' quiet ⟨worker, answer, rfl⟩ _
  exact passed_quiet quiet (passed_cases quiet worker answer)

/-- In no state that is reached are the workers ready. A message for several
    shards that meets another worker waits for good, and one that returns has
    unlocked what it did not lock. The locks stay as they are. -/
theorem barrier_never {num_workers : Nat} (staffed : 0 < num_workers) {disk : Nat → List Write}
    {faults : Nat → Call → Bool} {trail : List (Env × (Delivery × Done) × Env)} {last : Env}
    (run : Run Handles (init_database_env num_workers staffed disk faults) trail last) :
    ¬ Ready last ∧
    (∀ d : Delivery, d.pkt.msgtype = 1 → d.pkt.leader ≠ 0 ∨ last.num_workers ≠ 1 → d.handle last = .error .blocked) ∧
    ∀ (d : Delivery) (done : Done), d.worker_id < last.num_workers → d.handle last = .ok done →
      Unlocked last done.rocks ∧ ((∃ events, Between last done.rocks events ∧ Paired events) ↔ d.pkt.msgtype ≠ 1) := by
  have quiet := reached_quiet staffed run
  refine ⟨fun ready => ready 0 last.staffed (by rw [quiet 0]), fun d => quiet_blocked d quiet, ?_⟩
  intro d done worker answer
  have passed := passed_cases quiet worker answer
  refine ⟨fun i => ?_, passed_paired passed⟩
  rw [quiet i, passed_quiet quiet passed i]

/-- With two workers, after a message for one shard. -/
theorem barrier_never_two :
    ∃ done, (plain 0 (ascii "w 1 a")).handle (init_database_env 2 (by decide) (fun _ => []) (fun _ _ => false)) = .ok done ∧
      ¬ Ready done.rocks ∧
      ∀ d : Delivery, d.pkt.msgtype = 1 → d.pkt.leader ≠ 0 ∨ done.rocks.num_workers ≠ 1 →
        d.handle done.rocks = .error .blocked := by
  obtain ⟨done, handled, _⟩ := ok_of_map (b := (0 : Int)) (f := Done.ret)
    (a := (plain 0 (ascii "w 1 a")).handle (init_database_env 2 (by decide) (fun _ => []) (fun _ _ => false)))
    (by decide +kernel)
  have handles : Handles (init_database_env 2 (by decide) (fun _ => []) (fun _ _ => false)) (plain 0 (ascii "w 1 a"), done)
      done.rocks := ⟨Nat.two_pos, handled, rfl⟩
  obtain ⟨unready, blocked, _⟩ := barrier_never (by decide) (Run.stay.next handles)
  exact ⟨done, handled, unready, blocked⟩

/-- The first message for several shards on two workers never returns. -/
theorem first_message_blocked :
    ∃ rocks, Run Handles (init_database_env 2 (by decide) (fun _ => []) (fun _ _ => false)) [] rocks ∧ ¬ Ready rocks ∧
      (plain 1 (ascii "w 1 a")).handle rocks = .error .blocked := by
  have quiet : Quiet (init_database_env 2 (by decide) (fun _ => []) (fun _ _ => false)) := init_quiet _ _ _
  refine ⟨_, .stay, fun ready => ready 0 Nat.two_pos (by rw [quiet 0]), ?_⟩
  exact quiet_blocked _ quiet (by decide +kernel) (.inr (by decide))

end Shardb.Barrier
