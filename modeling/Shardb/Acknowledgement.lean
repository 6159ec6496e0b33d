import Mathlib.Data.List.DropRight
import Shardb.Execution
import Shardb.Traffic

/-!
# When an acknowledged multi-partition message is committed

Behind its last rollback a message only counts up. So what it puts and deletes
there ends up in the committed contents if the counter was not negative at the
rollback (`behind_run`), and in a transaction left over otherwise.
-/

namespace Shardb.Acknowledgement
open Shardb.Bytes (Text ascii)
open Shardb.CStrings Shardb.Journal Shardb.Rocks Shardb.Datastore Shardb.Handlers Shardb.Server Shardb.Tokens
open Shardb.Handling Shardb.Messages Shardb.Interpreter Shardb.Savepoints Shardb.SinglePartition Shardb.MultiPartition
open Shardb.Execution Shardb.Records Shardb.Runs Shardb.Traffic
open Shardb.Loops (bind_eq_ok)

/-- The write that a put or a delete of a message makes. -/
def writeOf (message : Nat) : Command → Option Write
  | .write (some key) (some val) => some ⟨key, some val, message⟩
  | .delete (some key) => some ⟨key, none, message⟩
  | _ => none

/-- The commands up to the last rollback, and those behind it. -/
def upToRollback (cmds : List Command) : List Command := cmds.rdropWhile (· ≠ .rollback)
def behindRollback (cmds : List Command) : List Command := cmds.rtakeWhile (· ≠ .rollback)

/-! ### Behind the last rollback -/

private theorem carry_writes {committed : List Write} {message : Nat} {b b' : Batch Write} {cmd : Command}
    (forward : cmd ≠ .rollback) (done : carry committed message b cmd = some b') :
    b'.writes = b.writes ++ (writeOf message cmd).toList := by
  cases carry_change done with
  | reads => exact (List.append_nil _).symm
  | puts => rfl
  | deletes => rfl
  | saves => exact (List.append_nil _).symm
  | restores => exact absurd rfl forward

/-- On a shard that is counting all puts and deletes go into its transaction. -/
theorem counting_run : ∀ {cmds : List Command} {c c' : Cell} {tx : Transaction} {calls : List (Command × Int)},
    (∀ cmd ∈ cmds, cmd ≠ .rollback) → Serving c tx → 0 < c.savepoint_count →
    runCommands multiCell cmds c = .ok (false, c', calls) →
    ∃ tx', Serving c' tx' ∧ 0 < c'.savepoint_count ∧
      tx'.writes = tx.writes ++ cmds.filterMap (writeOf c.lib.message) := by
  intro cmds
  induction cmds with
  | nil =>
    intro c c' tx calls _ serving counting run
    cases run
    exact ⟨tx, serving, counting, (List.append_nil _).symm⟩
  | cons cmd cs ih =>
    intro c c' tx calls forward serving counting run
    obtain ⟨here, behind⟩ := List.forall_mem_cons.mp forward
    obtain ⟨ret, next, ran, ⟨_, bad, _⟩ | ⟨zero, later, rest, _⟩⟩ := runCommands_cons _ run
    · cases bad
    · cases multiCell_effect ran with
      | refused => omega
      | begins => omega
      | passes => omega
      | sinks => omega
      | works routed _ ran =>
        obtain ⟨tx₀, batch, serving₀, _, done, rfl⟩ := singleCell_succeeds ran zero
        obtain rfl : tx₀ = tx := Option.some.inj (serving₀.slot.symm.trans serving.slot)
        have up := countChange_forward here
        obtain ⟨tx', serving', counting', writes⟩ := ih behind (carriedOut_kept serving done).serving
          (by simp only [carriedOut]; omega) rest
        refine ⟨tx', serving', counting', ?_⟩
        rw [writes, carry_writes here done, List.append_assoc, List.filterMap_cons]
        simp only [carriedOut, tick_message]
        cases writeOf c.lib.message cmd <;> rfl

/-- From a counter that is not negative, the puts and deletes of commands that
    all succeed end up last in a transaction that is counted. -/
theorem behind_run : ∀ {cmds : List Command} {c c' : Cell} {calls : List (Command × Int)},
    (∀ cmd ∈ cmds, cmd ≠ .rollback) → 0 ≤ c.savepoint_count → runCommands multiCell cmds c = .ok (false, c', calls) →
    cmds.filterMap (writeOf c.lib.message) = [] ∨
      ∃ tx', Serving c' tx' ∧ 0 < c'.savepoint_count ∧ cmds.filterMap (writeOf c.lib.message) <:+ tx'.writes := by
  intro cmds
  induction cmds with
  | nil => intro c c' calls _ _ _; exact .inl rfl
  | cons cmd cs ih =>
    intro c c' calls forward nonneg run
    obtain ⟨here, behind⟩ := List.forall_mem_cons.mp forward
    obtain ⟨ret, next, ran, ⟨_, bad, _⟩ | ⟨zero, later, rest, _⟩⟩ := runCommands_cons _ run
    · cases bad
    · cases multiCell_effect ran with
      | refused => omega
      | sinks rollback => exact absurd rollback here
      | passes savepoint =>
        subst savepoint
        exact ih behind nonneg rest
      | works routed counting ran =>
        obtain ⟨tx, batch, serving, _, _, _⟩ := singleCell_succeeds ran zero
        have positive : 0 < c.savepoint_count := by split_ifs at counting <;> omega
        obtain ⟨tx', serving', counting', writes⟩ := counting_run forward serving positive run
        exact .inr ⟨tx', serving', counting', tx.writes, writes.symm⟩
      | begins data routed _ opened empty fine ran =>
        have serving : Serving (fresh c) (firstTransaction c) := ⟨opened, rfl⟩
        obtain ⟨tx, batch, serving₀, _, done, rfl⟩ := singleCell_succeeds ran zero
        obtain rfl : firstTransaction c = tx := Option.some.inj (serving.slot.symm.trans serving₀.slot)
        have noChange := countChange_data data
        obtain ⟨tx', serving', counting', writes⟩ := counting_run behind (carriedOut_kept serving done).serving
          (by simp only [carriedOut, noChange, fresh]; omega) rest
        refine .inr ⟨tx', serving', counting', [], ?_⟩
        rw [writes, carry_writes here done, List.filterMap_cons]
        simp only [carriedOut, tick_message, fresh, begunCell, firstTransaction]
        cases writeOf c.lib.message cmd <;> rfl

/-! ### The message -/

/-- The message gets past the other workers, and its leader runs it. -/
def Reaches (d : Delivery) (rocks : Env) : Prop :=
  d.pkt.msgtype = 1 ∧ d.pkt.leader = d.worker_id ∧
    ∃ rocks', await_others d.pkt.leader (Env.received rocks) = .ok (.inl rocks')

/-- A message that is answered 0 has committed what it put and deleted behind
    its last rollback on the shard that the handlers select, in that order. -/
def Acknowledges (done : Done) : Prop :=
  done.ret = 0 → (behindRollback ((callsOf done.log).map Prod.fst)).filterMap (writeOf done.rocks.lib.message) <:+
    (done.rocks.shard 0).committed

/-- When all commands succeed, and one behind the last rollback puts or deletes,
    the counter is not negative at that rollback. -/
def Covered (d : Delivery) (rocks : Env) : Prop :=
  Assigned d.undef d.pkt.message → Succeed multi (commandsOf d.pkt.message) (Env.received rocks) →
    (behindRollback (commandsOf d.pkt.message)).filterMap (writeOf 0) ≠ [] →
    0 ≤ (slotAfter rocks (upToRollback (commandsOf d.pkt.message))).count

private theorem forward_behind (cmds : List Command) : ∀ cmd ∈ behindRollback cmds, cmd ≠ .rollback := by
  intro cmd member
  simpa using List.mem_rtakeWhile_imp member

/-- Whether commands put or delete does not depend on their message. -/
private theorem writes_nil (m m' : Nat) (cmds : List Command) :
    cmds.filterMap (writeOf m) = [] ↔ cmds.filterMap (writeOf m') = [] := by
  have same : ∀ cmd, writeOf m cmd = none ↔ writeOf m' cmd = none := by
    intro cmd
    cases cmd with
    | write key val => cases key <;> cases val <;> simp [writeOf]
    | delete key => cases key <;> simp [writeOf]
    | _ => simp [writeOf]
  simp only [List.filterMap_eq_nil_iff, same]

/-- What the commands of an acknowledged message leave: the counter at the last
    rollback decides whether the writes behind it are committed. -/
private theorem settled_behind {fuel : Nat} {cmds : List Command} {c c' c'' : Cell} {calls : List (Command × Int)}
    {s : Slot} (same : c.savepoint_count = s.count) (calm : ∀ t, c.lib.faults t .commit = false)
    (ran : runCommands multiCell cmds c = .ok (false, c', calls)) (settled : Settled fuel c' false c'') :
    (0 ≤ (s.after (upToRollback cmds)).count →
      (behindRollback cmds).filterMap (writeOf c.lib.message) <:+ c''.committed) ∧
    ((s.after (upToRollback cmds)).count < 0 → c''.committed = c.committed) := by
  have whole : upToRollback cmds ++ behindRollback cmds = cmds := List.rdropWhile_append_rtakeWhile
  rw [← whole] at ran
  obtain ⟨middle, _, _, front, back⟩ := runCommands_append _ ran
  have counted := counter_run same front
  have stood := runCommands_standing (fun _ _ _ _ => multiCell_standing) front
  have stood' := runCommands_standing (fun _ _ _ _ => multiCell_standing) back
  constructor
  · intro nonneg
    rw [← stood.message]
    rcases behind_run (forward_behind cmds) (by omega) back with nothing | ⟨tx, serving, counting, behind⟩
    · rw [nothing]
      exact List.nil_suffix
    · have accepted : c'.lib.fails .commit = false := by
        rw [Lib.fails, stood'.faults, stood.faults]
        exact calm _
      cases settled with
      | leaves _ low => omega
      | commits =>
        rw [commit_shard_serving serving, accepted, if_neg Bool.false_ne_true]
        exact behind.trans (List.suffix_append _ _)
  · intro below
    have low : c'.savepoint_count < 0 := by
      rw [counter_run counted back]
      exact Slot.after_below below
    cases settled with
    | commits counting => omega
    | leaves => rw [stood'.committed, stood.committed]

theorem acknowledges_iff {d : Delivery} {rocks rocks' : Env} {done : Done} (handles : Handles rocks (d, done) rocks')
    (reaches : Reaches d rocks) (calm : ∀ t, rocks.lib.faults t .commit = false) (dated : Dated rocks) :
    Acknowledges done ↔ Covered d rocks := by
  obtain ⟨type, own, entered, passed⟩ := reaches
  obtain ⟨leader, alone⟩ : d.pkt.leader = 0 ∧ rocks.num_workers = 1 := by
    by_contra crowded
    have others : d.pkt.leader ≠ 0 ∨ rocks.num_workers ≠ 1 := by omega
    obtain ⟨left, turned, _⟩ := await_others_left (Env.received rocks) others passed
    cases turned
  have numbered := (handled_kept (handled_cases handles)).2.2
  obtain ⟨_, answer, _⟩ := handles
  have worker : d.worker_id = 0 := by omega
  simp only [Delivery.handle, worker] at answer
  by_cases assigned : Assigned d.undef d.pkt.message
  · obtain ⟨failed, c, c', ran, settled, leaves, ret⟩ := handle_executed type leader alone assigned answer
    have onEnv := runCommands_multi (Env.received rocks) alone (commandsOf d.pkt.message) ((Env.received rocks).cell 0)
    rw [put_cell, ran] at onEnv
    cases failed with
    | true =>
      refine iff_of_true (fun zero => ?_) (fun _ succeed => ?_)
      · rw [ret] at zero
        cases zero
      · obtain ⟨_, _, fine⟩ := runCommands_succeed succeed
        rw [onEnv] at fine
        cases fine
    | false =>
      have succeed := succeed_of_run onEnv
      have heard : (callsOf done.log).map Prod.fst = commandsOf d.pkt.message := ((runCommands_calls _ ran).1 rfl).1
      have committed : (done.rocks.shard 0).committed = c'.committed := by rw [leaves, leftEnv_shard]
      obtain ⟨covered, lost⟩ := settled_behind (s := ⟨(rocks.shard 0).savepoint_count, false, rocks.lib.clock⟩) rfl calm
        ran settled
      rw [Acknowledges, heard, committed, numbered]
      constructor
      · intro acknowledged _ _ some_write
        by_contra negative
        -- the writes are new, but nothing was committed
        have nothing := lost (by rw [slotAfter] at negative; omega)
        have suffix := acknowledged ret
        rw [nothing] at suffix
        obtain ⟨write, member⟩ := List.exists_mem_of_ne_nil _
          (fun empty => some_write ((writes_nil _ 0 _).mp empty))
        have old : write.message ≤ rocks.lib.message := (dated 0).committed write (suffix.subset member)
        obtain ⟨cmd, _, written⟩ := List.mem_filterMap.mp member
        have new : write.message = rocks.lib.message + 1 := by
          revert written
          cases cmd with
          | write key val => cases key <;> cases val <;> simp [writeOf]; rintro rfl; rfl
          | delete key => cases key <;> simp [writeOf]; rintro rfl; rfl
          | _ => simp [writeOf]
        omega
      · intro fine _
        by_cases some_write : (behindRollback (commandsOf d.pkt.message)).filterMap (writeOf 0) = []
        · rw [(writes_nil _ 0 _).mpr some_write]
          exact List.nil_suffix
        · exact covered (fine assigned succeed some_write)
  · obtain ⟨ret, _⟩ := handle_unassigned type leader alone assigned answer
    refine iff_of_true (fun zero => ?_) (fun here => absurd here assigned)
    omega

/-- In every run from the start without errors of the library: a message that
    reaches the executor is committed when it is acknowledged, exactly if the
    counter is not negative at its last rollback, or nothing is written behind
    it, or a command fails. -/
theorem acknowledged_committed_iff {num_workers : Nat} (staffed : 0 < num_workers) {disk : Nat → List Write}
    (old : ∀ i, ∀ write ∈ disk i, write.message = 0) {trail : List (Env × (Delivery × Done) × Env)} {last : Env}
    (run : Run Handles (init_database_env num_workers staffed disk (fun _ _ => false)) trail last) :
    ∀ e ∈ trail, Reaches e.2.1.1 e.1 → (Acknowledges e.2.1.2 ↔ Covered e.2.1.1 e.1) := by
  have start := init_initial staffed disk (fun _ _ => false)
  have holds := run_holds (fun rocks => Dated rocks ∧ rocks.lib.faults = fun _ _ => false)
    (by
      rintro rocks ⟨d, done⟩ rocks' ⟨dated, calm⟩ handles
      have handled := handled_cases handles
      rw [← handles.left]
      exact ⟨handled_dated handled dated, (handled_kept handled).2.1.trans calm⟩)
    ⟨fun i => init_marked start (fun i write member => by rw [old i write member]; exact Nat.zero_le _) i, start.faults⟩
    run
  rintro ⟨rocks, ⟨d, done⟩, rocks'⟩ member reaches
  obtain ⟨⟨dated, calm⟩, handles⟩ := holds _ member
  exact acknowledges_iff handles reaches (fun t => by rw [calm]) dated

/-- `w 1 a` is committed when it is acknowledged. -/
theorem write_committed :
    ∃ done, (plain 1 (ascii "w 1 a")).handle (init_database_env 1 (by decide) (fun _ => []) (fun _ _ => false)) = .ok done ∧
      done.ret = 0 ∧ Acknowledges done := by
  obtain ⟨done, handled, ret⟩ := ok_of_map (b := (0 : Int)) (f := Done.ret)
    (a := (plain 1 (ascii "w 1 a")).handle (init_database_env 1 (by decide) (fun _ => []) (fun _ _ => false)))
    (by decide +kernel)
  have type : (plain 1 (ascii "w 1 a")).pkt.msgtype = 1 := by decide +kernel
  have leader : (plain 1 (ascii "w 1 a")).pkt.leader = 0 := by decide +kernel
  have cmds : commandsOf (plain 1 (ascii "w 1 a")).pkt.message = [.write (some (ascii "1")) (some (ascii "a"))] := by
    decide +kernel
  obtain ⟨taken, _⟩ := handles_alone rfl rfl handled
  refine ⟨done, handled, ret,
    (acknowledged_committed_iff (by decide) (by simp) (Run.stay.next taken) _ List.mem_cons_self ?_).mpr ?_⟩
  · exact ⟨type, leader, _, leader ▸ await_alone rfl⟩
  · intro _ _ _
    rw [cmds]
    exact Int.le_refl 0

/-- `w 1 a b`, then `b`, then `w 1 a`: all three are acknowledged, and the last
    put is in a transaction that nobody commits. -/
theorem uncounted_write_lost :
    ∃ trail last, Run Handles (init_database_env 1 (by decide) (fun _ => []) (fun _ _ => false)) trail last ∧
      ∃ e ∈ trail, Reaches e.2.1.1 e.1 ∧ ¬ Acknowledges e.2.1.2 := by
  have known : ((plain 1 (ascii "w 1 a b")).handle (init_database_env 1 (by decide) (fun _ => []) (fun _ _ => false)) >>=
      fun first => (plain 1 (ascii "b")).handle first.rocks >>= fun second =>
      ((plain 1 (ascii "w 1 a")).handle second.rocks).map (fun third => (third.ret,
        (callsOf third.log).map Prod.fst, (third.rocks.shard 0).committed))) =
      .ok (0, [.write (some (ascii "1")) (some (ascii "a"))], []) := by decide +kernel
  obtain ⟨first, handled₁, known⟩ := bind_eq_ok.mp known
  obtain ⟨second, handled₂, known⟩ := bind_eq_ok.mp known
  obtain ⟨third, handled₃, known⟩ := ok_of_map known
  simp only [Prod.mk.injEq] at known
  obtain ⟨ret, heard, committed⟩ := known
  obtain ⟨taken₁, alone₁⟩ := handles_alone rfl rfl handled₁
  obtain ⟨taken₂, alone₂⟩ := handles_alone alone₁ rfl handled₂
  obtain ⟨taken₃, _⟩ := handles_alone alone₂ rfl handled₃
  refine ⟨_, _, ((Run.stay.next taken₁).next taken₂).next taken₃, _, List.mem_append_right _ List.mem_cons_self, ?_, ?_⟩
  · have type : (plain 1 (ascii "w 1 a")).pkt.msgtype = 1 := by decide +kernel
    have leader : (plain 1 (ascii "w 1 a")).pkt.leader = 0 := by decide +kernel
    have passes : await_others 0 (Env.received second.rocks) = .ok (.inl (Env.received second.rocks)) :=
      await_alone alone₂
    exact ⟨type, leader, _, leader ▸ passes⟩
  · intro acknowledges
    have suffix := acknowledges ret
    rw [heard, committed, List.suffix_nil] at suffix
    cases suffix

end Shardb.Acknowledgement
