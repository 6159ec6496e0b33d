import Shardb.MultiPartition
import Shardb.SinglePartition

/-!
# When a multi-partition message is executed

`Slot` is what the counter, the transaction slot and the clock of the one shard
go through while all commands succeed. A transaction that was begun is committed
when the counter is still positive at the end.
-/

namespace Shardb.Execution
open Shardb.Bytes Shardb.CStrings Shardb.Rocks Shardb.Datastore Shardb.Handlers Shardb.Server Shardb.Tokens
open Shardb.Handling Shardb.Messages Shardb.Interpreter Shardb.Routing Shardb.Savepoints
open Shardb.SinglePartition Shardb.MultiPartition

/-- The counter, whether the message began its transaction, and the number of
    library calls made. -/
structure Slot where
  count : Int
  begun : Bool
  clock : Nat

/-- A data command begins a transaction when the counter is 0; `s` and `b` reach
    the transaction only when it is positive, but `b` always counts down. -/
def Slot.step (s : Slot) : Command → Slot
  | .savepoint => if 0 < s.count then { s with count := s.count + 1, clock := s.clock + 1 } else s
  | .rollback => { s with count := s.count - 1, clock := if 0 < s.count then s.clock + 1 else s.clock }
  | _ => if s.count = 0 then ⟨1, true, s.clock + 3⟩ else { s with clock := s.clock + 1 }

def Slot.after (s : Slot) (cmds : List Command) : Slot := cmds.foldl Slot.step s

theorem Slot.step_begins {s : Slot} {cmd : Command} (data : isData cmd) (zero : s.count = 0) :
    s.step cmd = ⟨1, true, s.clock + 3⟩ := by
  cases cmd with
  | savepoint => cases data
  | rollback => cases data
  | _ => exact if_pos zero

theorem Slot.step_works {s : Slot} {cmd : Command} (counting : if isData cmd then s.count ≠ 0 else 0 < s.count) :
    s.step cmd = { s with count := s.count + countChange cmd, clock := s.clock + 1 } := by
  cases cmd with
  | savepoint => exact if_pos counting
  | rollback => simp [Slot.step, countChange, show 0 < s.count from counting, Int.sub_eq_add_neg]
  | _ => simp [Slot.step, countChange, show s.count ≠ 0 from counting]

theorem Slot.step_passes {s : Slot} (low : s.count ≤ 0) : s.step .savepoint = s := if_neg (by omega)

theorem Slot.step_sinks {s : Slot} (low : s.count ≤ 0) : s.step .rollback = { s with count := s.count - 1 } := by
  rw [Slot.step, if_neg (by omega)]

/-- A counter below 0 stays there. -/
theorem Slot.after_below : ∀ {cmds : List Command} {s : Slot}, s.count < 0 → (s.after cmds).count < 0 := by
  intro cmds
  induction cmds with
  | nil => intro s below; exact below
  | cons cmd cs ih =>
    intro s below
    refine ih (s := s.step cmd) ?_
    cases cmd with
    | savepoint =>
      rw [Slot.step_passes (by omega)]
      exact below
    | rollback =>
      rw [Slot.step_sinks (by omega)]
      exact Int.lt_of_le_of_lt (Int.sub_le_self _ Int.one_nonneg) below
    | _ => simp [Slot.step, show s.count ≠ 0 by omega, below]

/-- The shard is where its slot says, after the calls `events`. -/
structure Tracked (base events : List Event) (s : Slot) (c : Cell) : Prop where
  trace : c.lib.trace = base ++ events
  count : c.savepoint_count = s.count
  clock : c.lib.clock = s.clock
  uncommitted : ∀ tx ok, Event.commit tx ok ∉ events
  idle : s.begun = false → c.tx = none ∧ ∀ i tx, Event.begin i (some tx) ∉ events
  busy : s.begun = true → ∃ tx, Serving c tx ∧ Event.begin 0 (some tx.id) ∈ events ∧
    ∀ i id, Event.begin i (some id) ∈ events → id = tx.id

/-- A command that succeeds takes the counter where the slot goes. -/
theorem counter_step {s : Slot} {c c' : Cell} {cmd : Command} {ret : Int} (same : c.savepoint_count = s.count)
    (effect : MultiEffect cmd c ret c') (fine : 0 ≤ ret) : c'.savepoint_count = (s.step cmd).count := by
  cases effect with
  | refused => omega
  | begins data routed zero opened empty begins ran =>
    obtain ⟨tx, batch, _, _, _, rfl⟩ := singleCell_succeeds ran fine
    rw [Slot.step_begins data (same.symm.trans zero)]
    simp [carriedOut, fresh, countChange_data data]
  | works routed counting ran =>
    obtain ⟨tx, batch, _, _, _, rfl⟩ := singleCell_succeeds ran fine
    rw [Slot.step_works (same ▸ counting)]
    simp [carriedOut, same]
  | passes savepoint low =>
    subst savepoint
    rw [Slot.step_passes (same ▸ low)]
    exact same
  | sinks rollback low =>
    subst rollback
    rw [Slot.step_sinks (same ▸ low)]
    simp [same]

/-- A call that begins nothing and commits nothing. -/
private def Quiet (e : Event) : Prop := (∀ tx ok, Event.commit tx ok ≠ e) ∧ ∀ i tx, Event.begin i (some tx) ≠ e

private theorem eventOf_quiet (id : Nat) (ok : Bool) (cmd : Command) : Quiet (eventOf id ok cmd) := by
  cases cmd <;> simp [Quiet, eventOf]

/-- A quiet call on the transaction that is open. -/
private theorem Tracked.quiet {base events : List Event} {s t : Slot} {c c' : Cell} {tx tx' : Transaction} {e : Event}
    (tracked : Tracked base events s c) (begun : s.begun = true) (same : t.begun = true) (slot : c.tx = some tx)
    (serving : Serving c' tx') (same_id : tx'.id = tx.id) (trace : c'.lib.trace = c.lib.trace ++ [e]) (quiet : Quiet e)
    (count : c'.savepoint_count = t.count) (clock : c'.lib.clock = t.clock) :
    Tracked base (events ++ [e]) t c' := by
  refine ⟨by rw [trace, tracked.trace, List.append_assoc], count, clock, fun id ok member => ?_,
    fun idle => absurd (idle.symm.trans same) Bool.false_ne_true, fun _ => ⟨tx', serving, ?_, fun i id member => ?_⟩⟩
  · rcases List.mem_append.mp member with before | now
    · exact tracked.uncommitted id ok before
    · exact quiet.1 id ok (List.mem_singleton.mp now)
  · obtain ⟨tx₀, serving₀, member, _⟩ := tracked.busy begun
    rw [serving₀.slot] at slot
    cases slot
    rw [same_id]
    exact List.mem_append_left _ member
  · obtain ⟨tx₀, serving₀, _, only⟩ := tracked.busy begun
    rw [serving₀.slot] at slot
    cases slot
    rcases List.mem_append.mp member with before | now
    · rw [same_id]
      exact only i id before
    · exact absurd (List.mem_singleton.mp now) (quiet.2 i id)

/-- A command that succeeds takes the shard where the slot goes. -/
theorem tracked_step {base events : List Event} {s : Slot} {c c' : Cell} {cmd : Command} {ret : Int}
    (tracked : Tracked base events s c) (effect : MultiEffect cmd c ret c') (fine : 0 ≤ ret) :
    ∃ events', Tracked base events' (s.step cmd) c' := by
  have count := tracked.count
  have counted := counter_step count effect fine
  cases effect with
  | refused => omega
  | begins data routed zero opened empty begins ran =>
    have notBegun : s.begun = false := by
      cases begun : s.begun with
      | false => rfl
      | true =>
        obtain ⟨tx, serving, _⟩ := tracked.busy begun
        rw [serving.slot] at empty
        cases empty
    obtain ⟨_, quietly⟩ := tracked.idle notBegun
    obtain ⟨tx, batch, serving, _, done, rfl⟩ := singleCell_succeeds ran fine
    obtain rfl : firstTransaction c = tx := Option.some.inj serving.slot
    have stepped := Slot.step_begins data (count.symm.trans zero)
    rw [stepped] at counted ⊢
    have first : Tracked base (events ++ [.begin 0 (some c.lib.next), .setSavepoint c.lib.next]) ⟨1, true, s.clock + 2⟩
        (fresh c) := by
      refine ⟨?_, rfl, ?_, fun t ok member => ?_, by simp, fun _ => ⟨_, serving, ?_, fun i t member => ?_⟩⟩
      · simp [fresh, begunCell, tracked.trace]
      · simp [fresh, begunCell, tracked.clock]
      · rcases List.mem_append.mp member with before | now
        · exact tracked.uncommitted t ok before
        · simp at now
      · simp [firstTransaction]
      · rcases List.mem_append.mp member with before | now
        · exact absurd before (quietly i t)
        · have here : i = 0 ∧ t = c.lib.next := by simpa using now
          exact here.2
    refine ⟨_, first.quiet rfl rfl serving.slot (carriedOut_kept serving done).serving rfl rfl
      (eventOf_quiet (firstTransaction c).id true cmd) counted ?_⟩
    simp [carriedOut, fresh, begunCell, tracked.clock]
  | works routed counting ran =>
    obtain ⟨tx, batch, serving, _, done, rfl⟩ := singleCell_succeeds ran fine
    have begun : s.begun = true := by
      cases begun : s.begun with
      | true => rfl
      | false =>
        have empty := (tracked.idle begun).1
        rw [serving.slot] at empty
        cases empty
    rw [Slot.step_works (count ▸ counting)] at counted ⊢
    refine ⟨_, tracked.quiet begun begun serving.slot (carriedOut_kept serving done).serving rfl rfl
      (eventOf_quiet tx.id true cmd) counted ?_⟩
    simp [carriedOut, tracked.clock]
  | passes savepoint low =>
    subst savepoint
    rw [Slot.step_passes (count ▸ low)]
    exact ⟨events, tracked⟩
  | sinks rollback low =>
    subst rollback
    rw [Slot.step_sinks (count ▸ low)] at counted ⊢
    refine ⟨events, tracked.trace, counted, tracked.clock, tracked.uncommitted, tracked.idle, fun begun => ?_⟩
    obtain ⟨tx, serving, rest⟩ := tracked.busy begun
    exact ⟨tx, ⟨serving.opened, serving.slot⟩, rest⟩

theorem tracked_run : ∀ {cmds : List Command} {base events : List Event} {s : Slot} {c c' : Cell}
    {calls : List (Command × Int)}, Tracked base events s c → runCommands multiCell cmds c = .ok (false, c', calls) →
    ∃ events', Tracked base events' (s.after cmds) c' := by
  intro cmds
  induction cmds with
  | nil => intro base events s c c' calls tracked run; cases run; exact ⟨events, tracked⟩
  | cons cmd cs ih =>
    intro base events s c c' calls tracked run
    obtain ⟨ret, next, ran, ⟨_, bad, _⟩ | ⟨zero, later, rest, _⟩⟩ := runCommands_cons _ run
    · cases bad
    · obtain ⟨events', tracked'⟩ := tracked_step tracked (multiCell_effect ran) zero
      exact ih tracked' rest

/-- The counter goes where the slot says, whatever transaction there is. -/
theorem counter_run : ∀ {cmds : List Command} {s : Slot} {c c' : Cell} {calls : List (Command × Int)},
    c.savepoint_count = s.count → runCommands multiCell cmds c = .ok (false, c', calls) →
    c'.savepoint_count = (s.after cmds).count := by
  intro cmds
  induction cmds with
  | nil => intro s c c' calls same run; cases run; exact same
  | cons cmd cs ih =>
    intro s c c' calls same run
    obtain ⟨ret, next, ran, ⟨_, bad, _⟩ | ⟨zero, later, rest, _⟩⟩ := runCommands_cons _ run
    · cases bad
    · exact ih (counter_step same (multiCell_effect ran) zero) rest

/-! ### Executed messages -/

/-- The message is answered 0, the commands that the loop extracts were carried
    out, and every transaction begun for it was committed. -/
def Executed (rocks : Env) (pkt : Mbuf) (answer : Result Done) : Prop :=
  ∃ done, answer = .ok done ∧ done.ret = 0 ∧ (callsOf done.log).map Prod.fst = commandsOf pkt.message ∧
    ∃ events, done.rocks.lib.trace = rocks.lib.trace ++ events ∧
      ∀ i tx, Event.begin i (some tx) ∈ events → Event.commit tx true ∈ events

/-- Where the shard is when all commands of the message succeed. -/
def slotAfter (rocks : Env) (cmds : List Command) : Slot :=
  Slot.after ⟨(rocks.shard 0).savepoint_count, false, rocks.lib.clock⟩ cmds

/-- The calls of a message whose commands succeed on a shard without a
    transaction: a begun transaction is committed exactly when the counter is
    positive and the commit reports no error. -/
private theorem settled_committed {fuel : Nat} {base events : List Event} {s : Slot} {c c' : Cell}
    (tracked : Tracked base events s c) (settled : Settled fuel c false c') :
    ∃ events', c'.lib.trace = base ++ events' ∧
      ((∀ i tx, Event.begin i (some tx) ∈ events' → Event.commit tx true ∈ events') ↔
        (s.begun = true → 0 < s.count ∧ c.lib.faults s.clock .commit = false)) := by
  have count := tracked.count
  cases begun : s.begun with
  | false =>
    obtain ⟨empty, quietly⟩ := tracked.idle begun
    have same : c'.lib.trace = base ++ events := by
      rw [← tracked.trace]
      cases settled with
      | leaves => rfl
      | commits => rw [commit_shard_idle (.inr empty)]
    exact ⟨events, same, by simp [quietly]⟩
  | true =>
    obtain ⟨tx, serving, member, only⟩ := tracked.busy begun
    cases settled with
    | leaves _ low =>
      refine ⟨events, tracked.trace, ⟨fun committed => ?_, fun fine => ?_⟩⟩
      · exact absurd (committed 0 tx.id member) (tracked.uncommitted tx.id true)
      · have := (fine rfl).1
        omega
    | commits counting =>
      rw [commit_shard_serving serving, Lib.fails, tracked.clock]
      cases faulty : c.lib.faults s.clock .commit with
      | true =>
        refine ⟨events ++ [.commit tx.id false], ?_, ⟨fun committed => ?_, fun fine => ?_⟩⟩
        · simp [tracked.trace]
        · rcases List.mem_append.mp (committed 0 tx.id (List.mem_append_left _ member)) with before | now
          · exact absurd before (tracked.uncommitted tx.id true)
          · simp at now
        · exact absurd (fine rfl).2 (by simp)
      | false =>
        refine ⟨events ++ [.commit tx.id true], ?_, ⟨fun _ _ => ⟨by omega, rfl⟩, fun _ i id begins => ?_⟩⟩
        · simp [tracked.trace]
        · rcases List.mem_append.mp begins with before | now
          · rw [only i id before]
            exact List.mem_append_right _ List.mem_cons_self
          · simp at now

/-- On a single worker, with `ret` assigned. -/
private theorem executed_alone (app : App) {fuel : Nat} (undef : Int) (mem : Mem Buf) {pkt : Mbuf} {rocks : Env}
    (type : pkt.msgtype = 1) (leader : pkt.leader = 0) (alone : rocks.num_workers = 1)
    (assigned : Assigned undef pkt.message) (empty : (rocks.shard 0).tx = none) (enough : pkt.message.length < fuel)
    (succeed : Succeed multi (commandsOf pkt.message) (Env.received rocks)) :
    Executed rocks pkt (handle_db_message app fuel undef mem pkt 0 rocks) ↔
      ((slotAfter rocks (commandsOf pkt.message)).begun = true →
        0 < (slotAfter rocks (commandsOf pkt.message)).count ∧
        rocks.lib.faults (slotAfter rocks (commandsOf pkt.message)).clock .commit = false) := by
  obtain ⟨left, calls₀, ran⟩ := runCommands_succeed succeed
  rw [← put_cell (Env.received rocks) 0, runCommands_multi (Env.received rocks) alone] at ran
  obtain ⟨⟨failed, c, calls⟩, onCell, same⟩ := ok_of_map ran
  simp only [Prod.mk.injEq] at same
  obtain ⟨rfl, -, rfl⟩ := same
  obtain ⟨msg, mem', handles, partly, wholly⟩ := handle_multi app fuel undef mem pkt 0 rocks type leader alone assigned
  obtain ⟨done, finished⟩ := multi_returns app fuel _ pkt (Env.received rocks) alone
    (wholly enough) ⟨_, onCell⟩ (by
      intro c calls aborts
      rw [onCell] at aborts
      cases aborts)
  rw [← handles] at finished
  obtain ⟨failed', c₁, c', onCell', settled, leaves, ret⟩ := handle_executed type leader alone assigned finished
  rw [onCell] at onCell'
  cases onCell'
  have start : Tracked rocks.lib.trace [] ⟨(rocks.shard 0).savepoint_count, false, rocks.lib.clock⟩
      ((Env.received rocks).cell 0) :=
    ⟨(List.append_nil _).symm, rfl, rfl, by simp, fun _ => ⟨empty, by simp⟩, by simp⟩
  obtain ⟨events, tracked⟩ := tracked_run start onCell
  obtain ⟨events', trace, committed⟩ := settled_committed tracked settled
  rw [(runCommands_standing (fun _ _ _ _ => multiCell_standing) onCell).faults] at committed
  have traced : done.rocks.lib.trace = rocks.lib.trace ++ (events' ++ [.unlock 0]) := by
    rw [leaves, leftEnv_trace, trace, List.append_assoc]
  refine Iff.trans ⟨?_, fun commits => ?_⟩ committed
  · rintro ⟨done', answered, _, _, events₁, trace₁, commits⟩ i tx begins
    rw [finished] at answered
    cases answered
    obtain rfl : events₁ = events' ++ [.unlock 0] := List.append_cancel_left (trace₁.symm.trans traced)
    have := commits i tx (List.mem_append_left _ begins)
    simpa using this
  · refine ⟨done, finished, ret, ((runCommands_calls _ onCell).1 rfl).1, _, traced, fun i tx begins => ?_⟩
    rw [List.mem_append] at begins
    rcases begins with before | last
    · exact List.mem_append_left _ (commits i tx before)
    · simp at last

/-- A message for several shards whose commands all succeed is executed exactly
    if there is one worker, `ret` is assigned or not negative when it is first
    tested, and a transaction that the commands begin is still counted at the
    end and committed without an error. And the answer is -1 only for a command
    that returned a negative value exactly if the first two hold. -/
theorem executed_iff (app : App) (fuel : Nat) (undef : Int) (mem : Mem Buf) {pkt : Mbuf} {l : Nat} {rocks : Env}
    (type : pkt.msgtype = 1) (leader : pkt.leader = l) (worker : l < rocks.num_workers)
    (empty : ∀ i, (rocks.shard i).tx = none) (enough : pkt.message.length < fuel) :
    (Succeed multi (commandsOf pkt.message) (Env.received rocks) →
      (Executed rocks pkt (handle_db_message app fuel undef mem pkt l rocks) ↔
        rocks.num_workers = 1 ∧ Assigned undef pkt.message ∧
          ((slotAfter rocks (commandsOf pkt.message)).begun = true →
            0 < (slotAfter rocks (commandsOf pkt.message)).count ∧
            rocks.lib.faults (slotAfter rocks (commandsOf pkt.message)).clock .commit = false))) ∧
    ∀ done, handle_db_message app fuel undef mem pkt l rocks = .ok done →
      ((done.ret = -1 → ∃ call ∈ callsOf done.log, call.2 < 0) ↔
        rocks.num_workers = 1 ∧ Assigned undef pkt.message) := by
  by_cases served : rocks.num_workers = 1 ∧ Assigned undef pkt.message
  · obtain ⟨alone, assigned⟩ := served
    obtain rfl : l = 0 := by omega
    refine ⟨fun succeed => ?_, fun done handled => ⟨fun _ => ⟨alone, assigned⟩, fun _ ret => ?_⟩⟩
    · rw [executed_alone app undef mem type leader alone assigned (empty 0) enough succeed]
      exact ⟨fun commits => ⟨alone, assigned, commits⟩, fun all => all.2.2⟩
    · obtain ⟨failed, c, c', ran, _, _, answer⟩ := handle_executed type leader alone assigned handled
      cases failed with
      | true => exact (runCommands_calls _ ran).2 rfl
      | false => rw [ret] at answer; cases answer
  · have turned : ∀ done, handle_db_message app fuel undef mem pkt l rocks = .ok done →
        done.ret = -1 ∧ callsOf done.log = [] := by
      intro done handled
      by_cases alone : rocks.num_workers = 1
      · obtain rfl : l = 0 := by omega
        obtain ⟨ret, calls, _⟩ := handle_unassigned type leader alone (fun assigned => served ⟨alone, assigned⟩) handled
        exact ⟨ret, calls⟩
      · obtain ⟨ret, log, _⟩ := handle_crowded type (.inr alone) handled
        exact ⟨ret, by rw [log]; rfl⟩
    refine ⟨fun _ => ⟨fun executed => ?_, fun all => absurd ⟨all.1, all.2.1⟩ served⟩,
      fun done handled => ⟨fun blamed => ?_, fun all => absurd all served⟩⟩
    · obtain ⟨done, handled, ret, _⟩ := executed
      have := (turned done handled).1
      omega
    · obtain ⟨ret, calls⟩ := turned done handled
      obtain ⟨call, member, _⟩ := blamed ret
      rw [calls] at member
      cases member

/-- On a single worker `w 1 a` is executed. -/
theorem write_executed :
    Executed (untouched 1 (by decide)) (packet 1 0 (ascii "w 1 a"))
      (handle_db_message default MAXBUFSIZE 0 ⟨fun _ => [], none⟩ (packet 1 0 (ascii "w 1 a")) 0
        (untouched 1 (by decide))) := by
  have type : (packet 1 0 (ascii "w 1 a")).msgtype = 1 := by decide +kernel
  have leader : (packet 1 0 (ascii "w 1 a")).leader = 0 := by decide +kernel
  have cmds : commandsOf (packet 1 0 (ascii "w 1 a")).message = [.write (some (ascii "1")) (some (ascii "a"))] := by
    decide +kernel
  have assigned : Assigned 0 (packet 1 0 (ascii "w 1 a")).message := fun _ _ _ => Int.le_refl 0
  refine ((executed_iff default MAXBUFSIZE 0 ⟨fun _ => [], none⟩ type leader Nat.one_pos (fun _ => rfl)
    (by decide +kernel)).1 ?_).mpr ⟨rfl, assigned, ?_⟩
  · rw [cmds]
    exact ⟨Int.le_refl 0, trivial⟩
  · rw [cmds]
    exact fun _ => ⟨by decide, rfl⟩

/-- With a second worker the same message is answered -1 before its command is
    looked at. -/
theorem second_worker_unexecuted :
    ∃ rocks : Env, rocks.num_workers = 2 ∧ (∀ i, (rocks.shard i).tx = none) ∧
      (∀ i, i ≠ 0 → (rocks.workers i).transaction_done ≠ 0) ∧
      Succeed multi (commandsOf (packet 1 0 (ascii "w 1 a")).message) (Env.received rocks) ∧
      ¬ Executed rocks (packet 1 0 (ascii "w 1 a"))
        (handle_db_message default MAXBUFSIZE 0 ⟨fun _ => [], none⟩ (packet 1 0 (ascii "w 1 a")) 0 rocks) ∧
      ∃ done, handle_db_message default MAXBUFSIZE 0 ⟨fun _ => [], none⟩ (packet 1 0 (ascii "w 1 a")) 0 rocks = .ok done ∧
        done.ret = -1 ∧ callsOf done.log = [] := by
  have cmds : commandsOf (packet 1 0 (ascii "w 1 a")).message = [.write (some (ascii "1")) (some (ascii "a"))] := by
    decide +kernel
  obtain ⟨done, handled, answer⟩ := ok_of_map (b := ((-1 : Int), ([] : List (Command × Int))))
    (f := fun done : Done => (done.ret, callsOf done.log))
    (a := handle_db_message default MAXBUFSIZE 0 ⟨fun _ => [], none⟩ (packet 1 0 (ascii "w 1 a")) 0
      { untouched 2 (by decide) with workers := fun _ => ⟨false, 1⟩ }) (by decide +kernel)
  obtain ⟨ret, calls⟩ := Prod.mk.inj answer
  refine ⟨_, rfl, fun _ => rfl, fun _ _ => Nat.one_ne_zero, ?_, ?_, done, handled, ret, calls⟩
  · rw [cmds]
    exact ⟨Int.le_refl 0, trivial⟩
  · rintro ⟨done', handled', ret', _⟩
    rw [handled] at handled'
    cases handled'
    omega

end Shardb.Execution
