import Shardb.Acknowledgement

/-!
# Aborted messages

The writes of a message that is answered -1 are gone when it returns
(`aborted_marked`): its transaction was deleted, or held nothing back when its
last save point was given up. The exception is a message that writes while the
counter is negative, into a transaction that an earlier message left over.
-/

namespace Shardb.Visibility
open Shardb.Bytes (Text ascii)
open Shardb.Journal Shardb.Rocks Shardb.Datastore Shardb.Handlers Shardb.Server Shardb.Tokens
open Shardb.Handling Shardb.Messages Shardb.Interpreter Shardb.Savepoints Shardb.SinglePartition Shardb.MultiPartition
open Shardb.Execution Shardb.Records Shardb.Runs Shardb.Traffic Shardb.Acknowledgement
open Shardb.Loops (bind_eq_ok)

/-! ### A message that will be aborted -/

/-- What the commands of such a message have made of the shard: nothing that
    would stay, or a transaction of the message whose first save point is
    counted and holds nothing back. -/
inductive Unharmed (P : Write → Prop) (c : Cell) : Prop
  | resting (low : c.savepoint_count ≤ 0) (marked : Marked P c.toShard)
  | working (tx : Transaction) (serving : Serving c tx) (count : c.savepoint_count = tx.saved.length)
      (positive : 0 < c.savepoint_count) (grounded : tx.Grounded) (committed : ∀ write ∈ c.committed, P write)

variable {P : Write → Prop} {c c' : Cell}

private theorem carry_grounded {committed : List Write} {message : Nat} {b b' : Batch Write} {cmd : Command}
    (grounded : b.Grounded) (deep : b.saved ≠ []) (done : carry committed message b cmd = some b') : b'.Grounded := by
  cases carry_change done with
  | reads => exact grounded
  | puts => exact grounded_add grounded _ deep
  | deletes => exact grounded_add grounded _ deep
  | saves => exact grounded_save grounded
  | restores restored => exact grounded_restore grounded restored

/-- A command on a transaction of the message. -/
private theorem working_unharmed {cmd : Command} {tx : Transaction} {ret : Int} (serving : Serving c tx)
    (count : c.savepoint_count = tx.saved.length) (positive : 0 < c.savepoint_count) (grounded : tx.Grounded)
    (committed : ∀ write ∈ c.committed, P write) (effect : Effect cmd c tx ret c') : Unharmed P c' := by
  cases effect with
  | failed ok reason => exact .working tx ⟨serving.opened, serving.slot⟩ count positive grounded committed
  | @carried batch accepted done =>
    have kept := carriedOut_kept serving done
    have depth := kept.depth
    have deep : tx.saved ≠ [] := by
      intro empty
      rw [empty, List.length_nil] at count
      omega
    have grounded' := carry_grounded grounded deep done
    have count' : (carriedOut c tx cmd batch).savepoint_count = batch.saved.length := by
      simp only at depth
      omega
    by_cases more : 0 < (carriedOut c tx cmd batch).savepoint_count
    · exact .working _ kept.serving count' more grounded' committed
    · have spent : batch.saved = [] := List.length_eq_zero_iff.mp (by omega)
      refine .resting (by omega) ⟨committed, ?_⟩
      rintro tx' ⟨⟩
      exact ⟨by simp [grounded_spent grounded' spent], by simp [spent]⟩

/-- A command on a transaction that was left over, if it writes nothing. -/
private theorem resting_unharmed {cmd : Command} {ret : Int} (low : c.savepoint_count ≤ 0) (marked : Marked P c.toShard)
    (data : isData cmd) (nothing : 0 ≤ ret → writeOf 0 cmd = none) (ran : singleCell cmd c = .ok (ret, c')) :
    Unharmed P c' := by
  rcases idle_or_serving c with idle | ⟨tx, serving⟩
  · rw [(singleCell_idle idle ran).2]
    exact .resting low marked
  · cases singleCell_effect serving ran with
    | failed ok reason => exact .resting low ⟨marked.committed, marked.held⟩
    | @carried batch accepted done =>
      have noWrite := nothing (Int.le_refl 0)
      have same : batch = tx.toBatch := by
        cases carry_change done with
        | reads => rfl
        | puts => cases noWrite
        | deletes => cases noWrite
        | saves => cases data
        | restores => cases data
      have noChange := countChange_data data
      refine .resting (by simp only [carriedOut]; omega) ⟨marked.committed, ?_⟩
      rintro tx' ⟨⟩
      rw [same]
      exact marked.held tx serving.slot

theorem unharmed_step {cmd : Command} {ret : Int} (unharmed : Unharmed P c) (effect : MultiEffect cmd c ret c')
    (careful : 0 ≤ ret → c.savepoint_count < 0 → writeOf 0 cmd = none) : Unharmed P c' := by
  cases unharmed with
  | resting low marked =>
    cases effect with
    | refused => exact .resting low ⟨marked.committed, marked.held⟩
    | begins data routed zero opened empty fine ran =>
      have serving : Serving (fresh c) (firstTransaction c) := ⟨opened, rfl⟩
      exact working_unharmed serving rfl Int.one_pos rfl marked.committed (singleCell_effect serving ran)
    | works routed counting ran =>
      obtain ⟨data, below⟩ := data_of_low counting low
      exact resting_unharmed low marked data (fun fine => careful fine below) ran
    | passes => exact .resting low marked
    | sinks => exact .resting (by simp only; omega) ⟨marked.committed, marked.held⟩
  | working tx serving count positive grounded committed =>
    cases effect with
    | refused => exact .working tx ⟨serving.opened, serving.slot⟩ count positive grounded committed
    | begins => omega
    | works routed counting ran =>
      exact working_unharmed serving count positive grounded committed (singleCell_effect serving ran)
    | passes => omega
    | sinks => omega

/-- The commands of a message that writes nothing while the counter is negative. -/
theorem unharmed_run : ∀ {cmds : List Command} {c c' : Cell} {s : Slot} {failed : Bool} {calls : List (Command × Int)},
    c.savepoint_count = s.count → Unharmed P c →
    (∀ front cmd rest, cmds = front ++ cmd :: rest → Succeed multiCell (front ++ [cmd]) c → (s.after front).count < 0 →
      writeOf 0 cmd = none) →
    runCommands multiCell cmds c = .ok (failed, c', calls) → Unharmed P c' := by
  intro cmds
  induction cmds with
  | nil => intro c c' s failed calls _ unharmed _ run; cases run; exact unharmed
  | cons cmd cs ih =>
    intro c c' s failed calls same unharmed careful run
    obtain ⟨ret, next, ran, first⟩ := runCommands_cons _ run
    have stepped : Unharmed P next := by
      refine unharmed_step unharmed (multiCell_effect ran) fun fine below => careful [] cmd cs rfl ?_ ?_
      · rw [List.nil_append, Succeed, ran]
        exact ⟨fine, trivial⟩
      · change s.count < 0
        omega
    rcases first with ⟨_, _, rfl, _⟩ | ⟨zero, later, rest, _⟩
    · exact stepped
    · refine ih (counter_step same (multiCell_effect ran) zero) stepped
        (fun front cmd' behind split succeed below => ?_) rest
      refine careful (cmd :: front) cmd' behind (by rw [split]; rfl) ?_ below
      rw [List.cons_append, Succeed, ran]
      exact ⟨zero, succeed⟩

theorem unharmed_aborted {fuel : Nat} (unharmed : Unharmed P c) (settled : Settled fuel c true c') :
    Marked P c'.toShard := by
  cases unharmed with
  | resting low marked =>
    cases settled with
    | aborts counting => omega
    | leaves => exact marked
  | working tx serving count positive grounded committed =>
    cases settled with
    | leaves _ low => omega
    | aborts counting aborted =>
      have gone := abort_shard_aborted serving aborted
      refine ⟨by rw [gone.committed]; exact committed, fun tx' slot => ?_⟩
      rw [gone.slot] at slot
      cases slot

/-! ### Runs of messages -/

/-- A multi-partition message that puts or deletes while the counter is negative
    is not aborted. -/
def Careful (rocks : Env) (d : Delivery) : Prop :=
  Executes d rocks → ∀ front cmd rest, commandsOf d.pkt.message = front ++ cmd :: rest →
    Succeed multi (front ++ [cmd]) (Env.received rocks) → (slotAfter rocks front).count < 0 → writeOf 0 cmd ≠ none →
    Succeed multi (commandsOf d.pkt.message) (Env.received rocks)

private theorem succeed_multi (rocks : Env) (alone : rocks.num_workers = 1) {cmds : List Command}
    (succeed : Succeed multiCell cmds (rocks.cell 0)) : Succeed multi cmds rocks := by
  obtain ⟨c, calls, ran⟩ := runCommands_succeed succeed
  have onEnv := runCommands_multi rocks alone cmds (rocks.cell 0)
  rw [put_cell, ran] at onEnv
  exact succeed_of_run onEnv

/-- An aborted message leaves no writes of its own. -/
theorem aborted_marked {d : Delivery} {rocks : Env} {done : Done} (handled : Handled d rocks done) (ret : done.ret = -1)
    (low : ∀ i, (rocks.shard i).savepoint_count ≤ 0) (careful : Careful rocks d)
    (marked : ∀ i, Marked P (rocks.shard i)) (i : Nat) : Marked P (done.rocks.shard i) := by
  cases handled with
  | passed _ waited =>
    rw [waited.shard]
    exact marked i
  | worked c ending _ here others _ _ =>
    by_cases same : i = d.worker_id
    · rw [same, here]
      have before : Marked P ((Env.received rocks).cell d.worker_id).toShard := marked d.worker_id
      have rested : ((Env.received rocks).cell d.worker_id).savepoint_count ≤ 0 := low d.worker_id
      generalize done.ret = answer at ending ret
      cases ending with
      | found => cases ret
      | unbegun => cases ret
      | commits => cases ret
      | aborts opened ran aborted =>
        obtain ⟨tx, kept, _⟩ := runCommands_interpreted (started_serving d.worker_id opened) ran
        have gone := abort_shard_aborted kept.serving aborted
        refine ⟨?_, fun tx' slot => ?_⟩
        · rw [gone.committed, kept.committed]
          exact before.committed
        · rw [gone.slot] at slot
          cases slot
      | @executed failed c' _ calls executes ran settled =>
        cases failed with
        | false => cases ret
        | true =>
          rw [executes.worker] at before rested ran
          refine unharmed_aborted (unharmed_run (s := ⟨(rocks.shard 0).savepoint_count, false, rocks.lib.clock⟩) rfl
            (.resting rested before) ?_ ran) settled
          intro front cmd rest split succeed below
          by_contra writes
          -- all commands would have succeeded
          have before := succeed_multi (Env.received rocks) executes.alone succeed
          obtain ⟨_, _, fine⟩ := runCommands_succeed (careful executes front cmd rest split before below writes)
          have onEnv := runCommands_multi (Env.received rocks) executes.alone (commandsOf d.pkt.message)
            ((Env.received rocks).cell 0)
          rw [put_cell, ran, fine] at onEnv
          cases onEnv
      | unheard settled =>
        cases settled with
        | aborts counting => omega
        | leaves => exact before
    · rw [others i same]
      exact marked i

/-- Between messages no counter is positive. -/
theorem handled_low {d : Delivery} {rocks : Env} {done : Done} (handled : Handled d rocks done)
    (low : ∀ i, (rocks.shard i).savepoint_count ≤ 0) (i : Nat) : (done.rocks.shard i).savepoint_count ≤ 0 := by
  have aborts {fuel : Nat} {c c' : Cell} {ret : Int} (aborted : abort_shard fuel c = .ok (ret, c')) :
      c'.savepoint_count ≤ 0 := by
    obtain ⟨left, _, spent, rfl⟩ := abort_shard_ok (fun _ => True) (fun _ _ _ => trivial) trivial aborted
    rcases idle_or_serving left with idle | ⟨tx, serving⟩
    · rw [delete_transaction_idle idle]
      exact spent
    · rw [delete_transaction_serving serving]
      exact spent
  have settles {fuel : Nat} {c c' : Cell} {failed : Bool} (settled : Settled fuel c failed c') :
      c'.savepoint_count ≤ 0 := by
    cases settled with
    | commits => exact Int.le_refl 0
    | aborts _ aborted => exact aborts aborted
    | leaves _ low => exact low
  cases handled with
  | passed _ waited =>
    rw [waited.shard]
    exact low i
  | worked c ending _ here others _ _ =>
    by_cases same : i = d.worker_id
    · rw [same, here]
      generalize done.ret = answer at ending
      cases ending with
      | found => exact Int.le_refl 0
      | unbegun => exact Int.le_refl 0
      | commits => exact Int.le_refl 0
      | aborts _ _ aborted => exact aborts aborted
      | executed _ _ settled => exact settles settled
      | unheard settled => exact settles settled
    · rw [others i same]
      exact low i

/-- No message of the run with this number was answered -1. -/
def Spared (trail : List (Env × (Delivery × Done) × Env)) (message : Nat) : Prop :=
  ∀ e ∈ trail, e.2.1.2.ret = -1 → message ≠ e.2.1.2.rocks.lib.message

/-- What holds between the messages of a run. -/
structure Between (trail : List (Env × (Delivery × Done) × Env)) (rocks : Env) : Prop where
  dated : Dated rocks
  past : ∀ e ∈ trail, e.2.1.2.rocks.lib.message ≤ rocks.lib.message
  low : ∀ i, (rocks.shard i).savepoint_count ≤ 0
  spared : ∀ i, Marked (fun write => Spared trail write.message) (rocks.shard i)

theorem between_next {trail : List (Env × (Delivery × Done) × Env)} {rocks rocks' : Env} {d : Delivery} {done : Done}
    (between : Between trail rocks) (handles : Handles rocks (d, done) rocks') (careful : Careful rocks d) :
    Between (trail ++ [(rocks, (d, done), rocks')]) rocks' := by
  have handled := handled_cases handles
  have numbered := (handled_kept handled).2.2
  obtain ⟨_, _, rfl⟩ := handles
  refine ⟨handled_dated handled between.dated, ?_, handled_low handled between.low, fun i => ?_⟩
  · refine List.forall_mem_append.mpr ⟨fun e member => ?_, by simp⟩
    have before := between.past e member
    exact Nat.le_trans before (numbered ▸ Nat.le_succ _)
  · -- the writes after the message come from messages that were spared before it
    have extends_trail : ∀ write : Write, Spared trail write.message →
        (done.ret = -1 → write.message ≤ rocks.lib.message) →
        Spared (trail ++ [(rocks, (d, done), done.rocks)]) write.message := by
      intro write spared old
      refine List.forall_mem_append.mpr ⟨spared, ?_⟩
      simp only [List.forall_mem_singleton]
      intro ret
      have := old ret
      omega
    by_cases ret : done.ret = -1
    · have both : ∀ j, Marked (fun write => Spared trail write.message ∧ write.message ≤ rocks.lib.message)
          (rocks.shard j) := fun j => (between.spared j).and (between.dated j)
      exact (aborted_marked handled ret between.low careful both i).mono
        fun write good => extends_trail write good.1 fun _ => good.2
    · refine (handled_marked handled between.spared (fun write new e member _ => ?_) i).mono
        fun write good => extends_trail write good fun aborted => absurd aborted ret
      have := between.past e member
      omega

/-- In every run from the start whose messages are careful, nothing that a
    message answered -1 has put or deleted is ever committed. -/
theorem aborted_never_committed {num_workers : Nat} (staffed : 0 < num_workers) {disk : Nat → List Write}
    (old : ∀ i, ∀ write ∈ disk i, write.message = 0) {faults : Nat → Call → Bool}
    {trail : List (Env × (Delivery × Done) × Env)} {last : Env}
    (run : Run Handles (init_database_env num_workers staffed disk faults) trail last)
    (careful : ∀ e ∈ trail, Careful e.1 e.2.1.1) :
    ∀ e ∈ trail, e.2.1.2.ret = -1 → ∀ i, ∀ write ∈ (last.shard i).committed,
      write.message ≠ e.2.1.2.rocks.lib.message := by
  have start := init_initial staffed disk faults
  have between := run_keeps Between (fun rocks handled => Careful rocks handled.1)
    (fun _ _ _ _ between handles careful => between_next between handles careful)
    ⟨fun i => init_marked start (fun i write member => by rw [old i write member]; exact Nat.zero_le _) i, by simp,
      fun i => Int.le_of_eq (start.count i), fun i => init_marked start (fun _ _ _ => by simp [Spared]) i⟩ run careful
  exact fun e member ret i write held => (between.spared i).committed write held e member ret

/-- `w 1 a r 99`, aborted because key 99 has no value, then `s`, which commits
    nothing. -/
theorem failed_read_unseen :
    ∃ trail last, Run Handles (init_database_env 1 (by decide) (fun _ => []) (fun _ _ => false)) trail last ∧
      ∃ e ∈ trail, e.2.1.2.ret = -1 ∧ ∀ i, ∀ write ∈ (last.shard i).committed,
        write.message ≠ e.2.1.2.rocks.lib.message := by
  have known : ((plain 1 (ascii "w 1 a r 99")).handle
      (init_database_env 1 (by decide) (fun _ => []) (fun _ _ => false)) >>= fun first =>
      ((plain 0 (ascii "s")).handle first.rocks).map (fun second => (first.ret, second.ret))) = .ok (-1, 0) := by
    decide +kernel
  obtain ⟨first, handled₁, known⟩ := bind_eq_ok.mp known
  obtain ⟨second, handled₂, known⟩ := ok_of_map known
  have ret : first.ret = -1 := congrArg Prod.fst known
  obtain ⟨taken₁, alone⟩ := handles_alone rfl rfl handled₁
  obtain ⟨taken₂, _⟩ := handles_alone alone rfl handled₂
  have cmds : commandsOf (plain 1 (ascii "w 1 a r 99")).pkt.message =
      [.write (some (ascii "1")) (some (ascii "a")), .read (some (ascii "99"))] := by decide +kernel
  have type : (plain 0 (ascii "s")).pkt.msgtype ≠ 1 := by decide +kernel
  have careful₁ : Careful (init_database_env 1 (by decide) (fun _ => []) (fun _ _ => false))
      (plain 1 (ascii "w 1 a r 99")) := by
    intro _ front cmd rest split _ below writes
    rw [cmds] at split
    rcases front with _ | ⟨a, _ | ⟨b, front⟩⟩
    · exact absurd below (by decide)
    · cases split
      exact absurd rfl writes
    · simp at split
  refine ⟨_, _, (Run.stay.next taken₁).next taken₂, _, List.mem_cons_self, ret,
    aborted_never_committed (by decide) (by simp) ((Run.stay.next taken₁).next taken₂) ?_ _ List.mem_cons_self ret⟩
  rw [List.nil_append, List.cons_append, List.nil_append, List.forall_mem_cons, List.forall_mem_singleton]
  exact ⟨careful₁, fun executes => absurd executes.type type⟩

/-- `w 1 a b` and `b` leave a transaction behind a negative counter. The aborted
    `w 1 a r 99` writes into it, and `s` on the shard commits it. -/
theorem aborted_write_committed :
    ∃ trail last, Run Handles (init_database_env 1 (by decide) (fun _ => []) (fun _ _ => false)) trail last ∧
      ∃ e ∈ trail, e.2.1.2.ret = -1 ∧ ∃ write ∈ (last.shard 0).committed,
        write.message = e.2.1.2.rocks.lib.message := by
  have known : ((plain 1 (ascii "w 1 a b")).handle (init_database_env 1 (by decide) (fun _ => []) (fun _ _ => false)) >>=
      fun first => (plain 1 (ascii "b")).handle first.rocks >>= fun second =>
      (plain 1 (ascii "w 1 a r 99")).handle second.rocks >>= fun third =>
      ((plain 0 (ascii "s")).handle third.rocks).map (fun fourth =>
        (third.ret, third.rocks.lib.message, (fourth.rocks.shard 0).committed))) =
      .ok (-1, 3, [⟨ascii "1", some (ascii "a"), 3⟩]) := by decide +kernel
  obtain ⟨first, handled₁, known⟩ := bind_eq_ok.mp known
  obtain ⟨second, handled₂, known⟩ := bind_eq_ok.mp known
  obtain ⟨third, handled₃, known⟩ := bind_eq_ok.mp known
  obtain ⟨fourth, handled₄, known⟩ := ok_of_map known
  simp only [Prod.mk.injEq] at known
  obtain ⟨ret, number, committed⟩ := known
  obtain ⟨taken₁, alone₁⟩ := handles_alone rfl rfl handled₁
  obtain ⟨taken₂, alone₂⟩ := handles_alone alone₁ rfl handled₂
  obtain ⟨taken₃, alone₃⟩ := handles_alone alone₂ rfl handled₃
  obtain ⟨taken₄, _⟩ := handles_alone alone₃ rfl handled₄
  refine ⟨_, _, (((Run.stay.next taken₁).next taken₂).next taken₃).next taken₄, _,
    List.mem_append_left _ (List.mem_append_right _ List.mem_cons_self), ret, ⟨ascii "1", some (ascii "a"), 3⟩, ?_,
    number.symm⟩
  rw [committed]
  exact List.mem_cons_self

end Shardb.Visibility
