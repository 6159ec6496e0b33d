import Shardb.Barrier

/-!
# The handler comes to an end

The abort loops count down only when a rollback succeeds, so they end because a
positive counter never exceeds the number of save points of an open transaction
(`Backed`), at every moment of every message (`during_backed`). Between messages
no counter is positive at all (`Rested`): every exit of the handler settles the
shards that count.
-/

namespace Shardb.Termination
open Shardb.Bytes (Text ascii)
open Shardb.CStrings Shardb.Loops Shardb.Journal Shardb.Rocks Shardb.Datastore Shardb.Handlers Shardb.Server Shardb.Tokens
open Shardb.Handling Shardb.Messages Shardb.Interpreter Shardb.Savepoints Shardb.SinglePartition Shardb.MultiPartition
open Shardb.Runs Shardb.Traffic Shardb.Barrier

/-! ### Counters and save points -/

/-- A positive counter is backed by an open transaction with that many save points. -/
def Backed (s : Shard) : Prop :=
  0 < s.savepoint_count → s.tx_db = true ∧ ∃ tx, s.tx = some tx ∧ s.savepoint_count ≤ tx.saved.length

theorem Backed.serving {c : Cell} (backed : Backed c.toShard) (counting : 0 < c.savepoint_count) :
    ∃ tx, Serving c tx ∧ c.savepoint_count ≤ tx.saved.length := by
  obtain ⟨opened, tx, slot, deep⟩ := backed counting
  exact ⟨tx, ⟨opened, slot⟩, deep⟩

theorem backed_low {s : Shard} (low : s.savepoint_count ≤ 0) : Backed s := fun counting => absurd counting (by omega)

theorem singleCell_backed {cmd : Command} {c c' : Cell} {ret : Int} (backed : Backed c.toShard)
    (ran : singleCell cmd c = .ok (ret, c')) : Backed c'.toShard := by
  rcases idle_or_serving c with idle | ⟨tx, serving⟩
  · rw [(singleCell_idle idle ran).2]
    exact backed
  · have deep : c.savepoint_count ≤ tx.saved.length := by
      by_cases counting : 0 < c.savepoint_count
      · obtain ⟨tx', serving', deep⟩ := backed.serving counting
        obtain rfl : tx = tx' := Option.some.inj (serving.slot.symm.trans serving'.slot)
        exact deep
      · omega
    cases singleCell_effect serving ran with
    | carried accepted done =>
      have kept := carriedOut_kept serving done
      have depth := kept.depth
      exact fun _ => ⟨kept.serving.opened, _, kept.serving.slot, by omega⟩
    | failed ok reason => exact fun _ => ⟨serving.opened, tx, serving.slot, deep⟩

theorem multiCell_backed {cmd : Command} {c c' : Cell} {ret : Int} (backed : Backed c.toShard)
    (ran : multiCell cmd c = .ok (ret, c')) : Backed c'.toShard := by
  cases multiCell_effect ran with
  | refused => exact backed
  | begins data routed zero opened empty fine ran =>
    have first : Backed (fresh c).toShard := fun _ => ⟨opened, _, rfl, Int.le_refl 1⟩
    exact singleCell_backed first ran
  | works routed counting ran => exact singleCell_backed backed ran
  | passes => exact backed
  | sinks _ low => exact backed_low (by simp only; omega)

/-- A command raises a counter by one at most. -/
theorem multiCell_count {cmd : Command} {c c' : Cell} {ret : Int} (ran : multiCell cmd c = .ok (ret, c')) :
    c'.savepoint_count ≤ max c.savepoint_count 0 + 1 := by
  have change : countChange cmd ≤ 1 := by cases cmd <;> simp [countChange]
  have worked : ∀ {c₁ : Cell}, singleCell cmd c₁ = .ok (ret, c') → c'.savepoint_count ≤ c₁.savepoint_count + countChange cmd ∨
      c'.savepoint_count ≤ c₁.savepoint_count := by
    intro c₁ ran
    rcases idle_or_serving c₁ with idle | ⟨tx, serving⟩
    · rw [(singleCell_idle idle ran).2]
      exact .inr (Int.le_refl _)
    · cases singleCell_effect serving ran with
      | carried => exact .inl (Int.le_refl _)
      | failed => exact .inr (Int.le_refl _)
  cases multiCell_effect ran with
  | refused => simp only; omega
  | begins data _ zero _ _ _ ran =>
    have more := worked ran
    have noChange := countChange_data data
    simp only [fresh] at more
    omega
  | works _ _ ran =>
    have more := worked ran
    omega
  | passes => omega
  | sinks => simp only; omega

theorem multi_count : ∀ {cmds : List Command} {c c' : Cell} {failed : Bool} {calls : List (Command × Int)},
    runCommands multiCell cmds c = .ok (failed, c', calls) → c'.savepoint_count ≤ max c.savepoint_count 0 + cmds.length := by
  intro cmds
  induction cmds with
  | nil => intro c c' failed calls run; cases run; simp only [List.length_nil]; omega
  | cons cmd cs ih =>
    intro c c' failed calls run
    obtain ⟨ret, next, ran, first⟩ := runCommands_cons _ run
    have once := multiCell_count ran
    rw [List.length_cons]
    rcases first with ⟨_, _, rfl, _⟩ | ⟨_, later, rest, _⟩
    · omega
    · have := ih rest
      omega

/-! ### Between messages -/

/-- No shard counts. -/
def Rested (rocks : Env) : Prop := ∀ i, (rocks.shard i).savepoint_count ≤ 0

theorem delete_transaction_count (c : Cell) : (delete_transaction c).2.savepoint_count = c.savepoint_count := by
  rcases idle_or_serving c with idle | ⟨tx, serving⟩
  · rw [delete_transaction_idle idle]
  · rw [delete_transaction_serving serving]

theorem abort_shard_low {fuel : Nat} {c c' : Cell} {ret : Int} (run : abort_shard fuel c = .ok (ret, c')) :
    c'.savepoint_count ≤ 0 := by
  obtain ⟨left, _, spent, rfl⟩ := abort_shard_ok (fun _ => True) (fun _ _ _ => trivial) trivial run
  rw [delete_transaction_count]
  exact spent

theorem settled_low {fuel : Nat} {c c' : Cell} {failed : Bool} (settled : Settled fuel c failed c') :
    c'.savepoint_count ≤ 0 := by
  cases settled with
  | commits => exact Int.le_refl 0
  | aborts _ aborted => exact abort_shard_low aborted
  | leaves _ low => exact low

theorem ending_low {d : Delivery} {rocks : Env} {c c' : Cell} {ret : Int} (ending : Ending d rocks c ret c') :
    c'.savepoint_count ≤ 0 := by
  cases ending with
  | found => exact Int.le_refl 0
  | unbegun => exact Int.le_refl 0
  | commits => exact Int.le_refl 0
  | aborts _ _ aborted => exact abort_shard_low aborted
  | executed _ _ settled => exact settled_low settled
  | unheard settled => exact settled_low settled

theorem handled_rested {d : Delivery} {rocks : Env} {done : Done} (rested : Rested rocks) (handled : Handled d rocks done) :
    Rested done.rocks := by
  intro i
  cases handled with
  | passed _ waited =>
    rw [waited.shard]
    exact rested i
  | worked c ending _ here others _ _ =>
    by_cases own : i = d.worker_id
    · rw [own, here]
      exact ending_low ending
    · rw [others i own]
      exact rested i

/-! ### While a message is handled -/

/-- The environments that a message goes through, from `rocks` on: its
    transaction is begun, commands are carried out, shards are unwound. -/
inductive During (rocks : Env) : Env → Prop
  | begins {w : Nat} (opened : (rocks.shard w).tx_db = true) (empty : (rocks.shard w).tx = none) :
      During rocks ((Env.received rocks).put w (started w ((Env.received rocks).cell w)))
  | enters : During rocks (entered (Env.received rocks))
  | carries {s t : Env} {ret : Int} (x : Executor) (cmd : Command) (before : During rocks s)
      (ran : x.carries cmd s = .ok (ret, t)) : During rocks t
  | unwinds {s : Env} (i : Nat) (before : During rocks s) : During rocks (s.onShard i counted_rollback).2

/-- The counters of all shards are backed. -/
def AllBacked (rocks : Env) : Prop := ∀ i, Backed (rocks.shard i)

private theorem AllBacked.put {rocks : Env} (backed : AllBacked rocks) {i : Nat} {c : Cell} (here : Backed c.toShard) :
    AllBacked (rocks.put i c) := by
  intro j
  by_cases same : j = i
  · rw [same, put_shard_self]
    exact here
  · rw [put_shard_other rocks i c same]
    exact backed j

private theorem AllBacked.onShard {f : Cell → Int × Cell} (keeps : ∀ c, Backed c.toShard → Backed (f c).2.toShard)
    (i : Nat) {rocks : Env} (backed : AllBacked rocks) : AllBacked (rocks.onShard i f).2 := by
  rw [onShard_eq]
  exact backed.put (keeps _ (backed i))

/-- Both loops keep the counters backed, on every shard. -/
theorem carries_backed {x : Executor} {cmd : Command} {rocks rocks' : Env} {ret : Int} (backed : AllBacked rocks)
    (ran : x.carries cmd rocks = .ok (ret, rocks')) : AllBacked rocks' := by
  have onShard : ∀ {i : Nat} {f : Cell → Result (Int × Cell)},
      (∀ c ret c', Backed c.toShard → f c = .ok (ret, c') → Backed c'.toShard) →
      onShardM rocks i f = .ok (ret, rocks') → AllBacked rocks' := by
    intro i f keeps ran
    obtain ⟨⟨ret', c⟩, worked, left⟩ := bind_eq_ok.mp ran
    cases left
    exact backed.put (keeps _ _ _ (backed i) worked)
  cases x with
  | single w => exact onShard (fun _ _ _ backed ran => singleCell_backed backed ran) ran
  | multi =>
    change multi cmd rocks = .ok (ret, rocks') at ran
    by_cases data : isData cmd
    · rw [multi_data data] at ran
      obtain ⟨key, _, ran⟩ := bind_eq_ok.mp ran
      split_ifs at ran
      · refine onShard (i := 0) (fun c ret c' backed ran => ?_) ran
        by_cases zero : c.savepoint_count = 0
        · rcases busy_or_fresh c with busy | ⟨opened, empty⟩
          · rw [access_busy zero busy] at ran
            cases ran
            exact backed
          · cases fine : c.lib.fails .begin with
            | true =>
              rw [access_faulty zero opened empty fine] at ran
              cases ran
              exact backed
            | false =>
              rw [access_fresh zero opened empty fine] at ran
              have first : Backed (fresh c).toShard := fun _ => ⟨opened, _, rfl, Int.le_refl 1⟩
              exact singleCell_backed (c := fresh c) first ran
        · rw [access_counting zero] at ran
          exact singleCell_backed backed ran
      · cases ran
        exact backed
    · -- on a shard the others are commands of `multiCell`, whatever they answer
      cases cmd with
      | savepoint =>
        have turned : ∀ c, Backed c.toShard → Backed (setsavepoint_shard c).2.toShard := fun c backed =>
          multiCell_backed backed (show multiCell .savepoint c = .ok (_, (setsavepoint_shard c).2) from rfl)
        have ran : every_shard setsavepoint_shard rocks = .ok (ret, rocks') := ran
        exact every_shard_keeps (fun i rocks => AllBacked.onShard turned i) backed ran
      | rollback =>
        have turned : ∀ c, Backed c.toShard → Backed (rollback_shard c).2.toShard := fun c backed =>
          multiCell_backed backed (show multiCell .rollback c = .ok (_, (rollback_shard c).2) from rfl)
        have ran : every_shard rollback_shard rocks = .ok (ret, rocks') := ran
        exact every_shard_keeps (fun i rocks => AllBacked.onShard turned i) backed ran
      | _ => exact absurd rfl data

theorem during_backed {rocks s : Env} (rested : Rested rocks) (during : During rocks s) : AllBacked s := by
  have before : AllBacked (Env.received rocks) := fun i => backed_low (rested i)
  induction during with
  | @begins w opened empty =>
    refine before.put fun _ => ⟨opened, _, rfl, ?_⟩
    have low := rested w
    change (rocks.shard w).savepoint_count + 1 ≤ 1
    omega
  | enters => exact before
  | carries x cmd _ ran ih => exact carries_backed ih ran
  | unwinds i _ ih =>
    have turned : ∀ c, Backed c.toShard → Backed (counted_rollback c).2.toShard := fun c backed =>
      singleCell_backed backed (show singleCell .rollback c = .ok (_, (counted_rollback c).2) from rfl)
    exact ih.onShard turned i

/-! ### One message -/

/-- How a call of the handler ends: it returns, waits for another worker, or
    finds `NULL` for an argument that is missing. -/
def Ends (cmds : List Command) (answer : Result Done) : Prop :=
  (∃ done, answer = .ok done) ∨ answer = .error .blocked ∨ (answer = .error .null ∧ ∃ c ∈ cmds, ¬ Complete c)

private theorem commandsOf_length (text : Text) : (commandsOf text).length ≤ text.length :=
  Nat.le_trans (List.length_filterMap_le ..) (tokensOf_length text)

/-- A loop that runs commands ends as they do. -/
theorem map_error {α β : Type} {a : Result α} {f : α → β} {e : Fault} (fails : a.map f = .error e) :
    a = .error e := by
  cases a with
  | error e' => simpa [Except.map] using fails
  | ok x => cases fails

section Message
variable {fuel : Nat} {pkt : Mbuf} {rocks : Env} (rested : Rested rocks)
  (calm : ∀ t, rocks.lib.faults t .rollback = false) (short : pkt.message.length < MAXBUFSIZE) (enough : MAXBUFSIZE < fuel)
include rested calm short enough

/-- A message for one shard whose commands are answered comes back. -/
theorem single_returns (app : App) (undef : Int) (mem : Mem Buf) {w : Nat} (type : pkt.msgtype = 0)
    (leader : pkt.leader = w) (opened : (rocks.shard w).tx_db = true) (empty : (rocks.shard w).tx = none)
    (fine : rocks.lib.fails .begin = false)
    (answers : ∃ e, runCommands singleCell (commandsOf pkt.message) (started w ((Env.received rocks).cell w)) = .ok e) :
    ∃ done, handle_db_message app fuel undef mem pkt w rocks = .ok done := by
  obtain ⟨msg, mem', handles, _, wholly⟩ := handle_single app fuel undef mem pkt w rocks type leader
  have serving := started_serving w (show ((Env.received rocks).cell w).tx_db = true from opened)
  rw [handles]
  refine begun_returns app fuel _ pkt (Env.received rocks) opened empty fine (wholly (by omega)) answers ?_
  intro c calls ran
  obtain ⟨tx, kept, _⟩ := runCommands_interpreted serving ran
  have depth := kept.depth
  have more := runCommands_count serving ran
  have few := commandsOf_length pkt.message
  have low := rested w
  have start : (started w ((Env.received rocks).cell w)).savepoint_count = (rocks.shard w).savepoint_count + 1 := rfl
  have one : (firstTransaction ((Env.received rocks).cell w)).saved.length = 1 := rfl
  exact abort_shard_returns kept.serving (fun t => by rw [kept.faults]; exact calm t) (by omega) (by omega)

/-- A message for one shard. -/
theorem single_ends (app : App) (undef : Int) (mem : Mem Buf) {w : Nat} (type : pkt.msgtype = 0)
    (leader : pkt.leader = w) : Ends (commandsOf pkt.message) (handle_db_message app fuel undef mem pkt w rocks) := by
  obtain ⟨msg, mem', handles, _, wholly⟩ := handle_single app fuel undef mem pkt w rocks type leader
  rcases busy_or_fresh ((Env.received rocks).cell w) with busy | ⟨opened, empty⟩
  · exact .inl ⟨_, handles.trans (single_partition_idle app fuel _ w mem' pkt (Env.received rocks) busy)⟩
  · cases fine : (Env.received rocks).lib.fails .begin with
    | true =>
      exact .inl ⟨_, handles.trans (single_partition_unbegun app fuel _ w mem' pkt (Env.received rocks) opened empty fine)⟩
    | false =>
      cases ran : runCommands singleCell (commandsOf pkt.message) (started w ((Env.received rocks).cell w)) with
      | error e =>
        -- the loop stops where an argument is missing
        obtain ⟨cmd, member, c, crashes⟩ := runCommands_error _ ran
        obtain ⟨rfl, missing⟩ := singleCell_error crashes
        have stops := wholly (by omega) ((Env.received rocks).put w (started w ((Env.received rocks).cell w)))
        rw [runCommands_single, ran] at stops
        rw [handles, single_partition_begun app fuel _ w mem' pkt (Env.received rocks) opened empty fine, map_error stops]
        exact .inr (.inr ⟨rfl, cmd, member, missing⟩)
      | ok e => exact .inl (single_returns rested calm short enough app undef mem type leader opened empty fine ⟨e, ran⟩)

variable (type : pkt.msgtype = 1) (leader : pkt.leader = 0) (alone : rocks.num_workers = 1)
include type leader alone

/-- A message for several shards whose commands are answered comes back, on the only worker. -/
theorem multi_message_returns (app : App) (undef : Int) (mem : Mem Buf) (assigned : Assigned undef pkt.message)
    (answers : ∃ e, runCommands multiCell (commandsOf pkt.message) ((Env.received rocks).cell 0) = .ok e) :
    ∃ done, handle_db_message app fuel undef mem pkt 0 rocks = .ok done := by
  obtain ⟨msg, mem', handles, _, wholly⟩ := handle_multi app fuel undef mem pkt 0 rocks type leader alone assigned
  have low : ((Env.received rocks).cell 0).savepoint_count ≤ 0 := rested 0
  rw [handles]
  refine multi_returns app fuel _ pkt (Env.received rocks) alone (wholly (by omega)) answers ?_
  intro c calls ran counting
  have backed := runCommands_keeps multiCell (fun c => Backed c.toShard)
    (fun _ _ _ _ backed ran => multiCell_backed backed ran) (backed_low low) ran
  have stood := runCommands_standing (fun _ _ _ _ => multiCell_standing) ran
  obtain ⟨tx, serving, deep⟩ := backed.serving counting
  have more := multi_count ran
  have few := commandsOf_length pkt.message
  exact abort_shard_returns serving (fun t => by rw [stood.faults]; exact calm t) deep (by omega)

/-- A message for several shards, on the only worker. -/
theorem multi_message_ends (app : App) (undef : Int) (mem : Mem Buf) :
    Ends (commandsOf pkt.message) (handle_db_message app fuel undef mem pkt 0 rocks) := by
  have passed : await_others 0 (Env.received rocks) = .ok (.inl (Env.received rocks)) := await_alone alone
  by_cases assigned : Assigned undef pkt.message
  · cases ran : runCommands multiCell (commandsOf pkt.message) ((Env.received rocks).cell 0) with
    | error e =>
      obtain ⟨msg, mem', handles, _, wholly⟩ := handle_multi app fuel undef mem pkt 0 rocks type leader alone assigned
      obtain ⟨cmd, member, c, crashes⟩ := runCommands_error _ ran
      obtain ⟨rfl, missing⟩ := multiCell_error crashes
      have stops := wholly (by omega) (entered (Env.received rocks))
      have onEnv := runCommands_multi (entered (Env.received rocks)) alone (commandsOf pkt.message)
        ((Env.received rocks).cell 0)
      rw [entered_put, ran] at onEnv
      rw [onEnv] at stops
      have stopped := map_error stops
      refine .inr (.inr ⟨?_, cmd, member, missing⟩)
      rw [handles]
      simp only [multi_partition, if_true]
      rw [show Env.setWorker (Env.received rocks) 0 { (Env.received rocks).workers 0 with transaction_done := 0 } =
        entered (Env.received rocks) from rfl, stopped, bind_error]
    | ok e =>
      exact .inl (multi_message_returns rested calm short enough type leader alone app undef mem assigned ⟨e, ran⟩)
  · obtain ⟨msg, mem', called, loops⟩ := message_loop_unassigned multi undef fuel mem (message_clean pkt) assigned
    have inside : pkt.message.length < fuel := by omega
    obtain ⟨e, ran⟩ := message_loop_gives_up multi undef mem (message_clean pkt) assigned called inside
      (entered (Env.received rocks))
    obtain ⟨_, left, _⟩ := loops _ _ ran
    have handles : handle_db_message app fuel undef mem pkt 0 rocks =
        multi_partition app fuel (command_loop multiCallees undef fuel msg) 0 0 mem' pkt (Env.received rocks) := by
      simp [handle_db_message, called, type, leader, passed]
    rw [handles]
    refine .inl (multi_ends app fuel _ pkt (Env.received rocks) (c := (Env.received rocks).cell 0) alone ran
      (by rw [left, entered_put]) fun _ counting => ?_)
    have low : ((Env.received rocks).cell 0).savepoint_count ≤ 0 := rested 0
    omega

end Message

/-! ### Runs -/

theorem reached_rested {num_workers : Nat} (staffed : 0 < num_workers) {disk : Nat → List Write}
    {faults : Nat → Call → Bool} {trail : List (Env × (Delivery × Done) × Env)} {last : Env}
    (run : Run Handles (init_database_env num_workers staffed disk faults) trail last) :
    Rested last ∧ last.lib.faults = faults := by
  have start := init_initial staffed disk faults
  refine run_keeps (fun _ rocks => Rested rocks ∧ rocks.lib.faults = faults) (fun _ _ => True) ?_
    ⟨fun i => Int.le_of_eq (start.count i), start.faults⟩ run (fun _ _ => trivial)
  rintro trail rocks ⟨d, done⟩ rocks' ⟨rested, same⟩ handles _
  have handled := handled_cases handles
  rw [← handles.left]
  exact ⟨handled_rested rested handled, (handled_kept handled).2.1.trans same⟩

/-- In every state that is reached, and at every moment of the next message, a
    positive counter is backed by the save points of an open transaction; and
    every message comes to an end, whatever the library reports. -/
theorem terminates {num_workers : Nat} (staffed : 0 < num_workers) {disk : Nat → List Write}
    {faults : Nat → Call → Bool} (calm : ∀ t, faults t .rollback = false)
    {trail : List (Env × (Delivery × Done) × Env)} {last : Env}
    (run : Run Handles (init_database_env num_workers staffed disk faults) trail last) :
    AllBacked last ∧ (∀ s, During last s → AllBacked s) ∧
    ∀ d : Delivery, d.worker_id < last.num_workers → d.pkt.message.length < MAXBUFSIZE → MAXBUFSIZE < d.fuel →
      Ends (commandsOf d.pkt.message) (d.handle last) := by
  obtain ⟨rested, same⟩ := reached_rested staffed run
  have calm' : ∀ t, last.lib.faults t .rollback = false := fun t => by rw [same]; exact calm t
  refine ⟨fun i => backed_low (rested i), fun s => during_backed rested, fun d worker short enough => ?_⟩
  by_cases single : d.pkt.msgtype = 0 ∧ d.pkt.leader = d.worker_id
  · exact single_ends rested calm' short enough d.app d.undef d.mem single.1 single.2
  · by_cases multi : d.pkt.msgtype = 1
    · by_cases crowded : d.pkt.leader ≠ 0 ∨ last.num_workers ≠ 1
      · exact .inr (.inl (quiet_blocked d (reached_quiet staffed run) multi crowded))
      · obtain ⟨leader, alone⟩ : d.pkt.leader = 0 ∧ last.num_workers = 1 := by omega
        have first : d.worker_id = 0 := by omega
        rw [Delivery.handle, first]
        exact multi_message_ends rested calm' short enough multi leader alone d.app d.undef d.mem
    · obtain ⟨mem', handles⟩ := handle_astray d.app d.fuel d.undef d.mem d.pkt d.worker_id last (by omega)
      exact .inl ⟨_, handles⟩

/-- `s@b@b@w 1 a` rolls back once more than it saved, and comes to an end. -/
theorem rollbacks_terminate :
    Ends [.savepoint, .rollback, .rollback, .write (some (ascii "1")) (some (ascii "a"))]
      (Delivery.handle { plain 0 (ascii "s@b@b@w 1 a") with fuel := 2 * MAXBUFSIZE }
        (init_database_env 1 (by decide) (fun _ => []) (fun _ _ => false))) := by
  have cmds : commandsOf (plain 0 (ascii "s@b@b@w 1 a")).pkt.message =
      [.savepoint, .rollback, .rollback, .write (some (ascii "1")) (some (ascii "a"))] := by decide +kernel
  rw [← cmds]
  exact (terminates (by decide) (fun _ => rfl) .stay).2.2 { plain 0 (ascii "s@b@b@w 1 a") with fuel := 2 * MAXBUFSIZE }
    Nat.one_pos (by decide +kernel) (by decide)

end Shardb.Termination
