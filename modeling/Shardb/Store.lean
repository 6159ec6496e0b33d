import Shardb.Serial

/-!
# What the databases hold

While the library reports no errors a database that was opened holds what the
reference interpreter makes of the messages to its worker, one after another, and
every answer is the one that the interpreter gives (`store_interpreted`). What the
other workers handle in between makes no difference.
-/

namespace Shardb.Store
open Shardb.Bytes (Text ascii)
open Shardb.Loops Shardb.Journal Shardb.Rocks Shardb.Datastore Shardb.Handlers Shardb.Server Shardb.Tokens
open Shardb.Interpreter Shardb.SinglePartition Shardb.Runs Shardb.Traffic Shardb.Serial

/-- The message is for the worker that it is handled by, and for one shard. -/
def Addressed (w : Nat) (d : Delivery) : Prop := d.worker_id = w ∧ d.pkt.msgtype = 0 ∧ d.pkt.leader = w

instance (w : Nat) (d : Delivery) : Decidable (Addressed w d) :=
  inferInstanceAs (Decidable (d.worker_id = w ∧ d.pkt.msgtype = 0 ∧ d.pkt.leader = w))

/-- The commands of the messages that worker `w` carries out, message by message. -/
def asked (w : Nat) (messages : List Delivery) : List (List Command) :=
  (messages.filter fun d => Addressed w d).map fun d => commandsOf d.pkt.message

/-- The contents after a message: the working copy, or what there was. -/
def serve (held : Contents) (cmds : List Command) : Contents :=
  ((interpret (begun held) cmds).map Workspace.copy).getD held

/-- The contents after messages with these commands. -/
def served (held : Contents) (messages : List (List Command)) : Contents := messages.foldl serve held

@[simp] theorem asked_nil (w : Nat) : asked w [] = [] := rfl

theorem asked_append (w : Nat) (earlier later : List Delivery) : asked w (earlier ++ later) = asked w earlier ++ asked w later := by
  simp [asked]

theorem asked_addressed {w : Nat} {d : Delivery} (here : Addressed w d) : asked w [d] = [commandsOf d.pkt.message] := by
  simp [asked, here]

theorem asked_other {w : Nat} {d : Delivery} (other : ¬ Addressed w d) : asked w [d] = [] := by
  simp [asked, other]

@[simp] theorem served_append (held : Contents) (earlier later : List (List Command)) :
    served held (earlier ++ later) = served (served held earlier) later :=
  List.foldl_append

/-! ### One message -/

/-- A shard between messages: no transaction is left over and nothing is counted. -/
structure Rested (s : Shard) : Prop where
  empty : s.tx = none
  count : s.savepoint_count = 0

/-- What a message does to a shard when the library reports no errors. -/
inductive Outcome (w : Nat) (d : Delivery) (s : Shard) (ret : Int) (s' : Shard) : Prop
  | elsewhere (other : ¬ Addressed w d) (same : s' = s)
  | unopened (here : Addressed w d) (closed : s.tx_db = false) (answer : ret = 0) (committed : s'.committed = s.committed)
  | committed (here : Addressed w d) (opened : s.tx_db = true) (answer : ret = 0) {ws : Workspace Contents}
      (interpreted : interpret (begun (contents s.committed)) (commandsOf d.pkt.message) = some ws)
      (left : contents s'.committed = ws.copy)
  | aborted (here : Addressed w d) (opened : s.tx_db = true) (answer : ret = -1)
      (refused : interpret (begun (contents s.committed)) (commandsOf d.pkt.message) = none)
      (left : s'.committed = s.committed)

section Step
variable {rocks : Env} {d : Delivery} {done : Done}

theorem handled_outcome (calm : ∀ t c, rocks.lib.faults t c = false) (rested : ∀ i, Rested (rocks.shard i))
    (single : rocks.num_workers = 1 → d.pkt.msgtype ≠ 1) (worker : d.worker_id < rocks.num_workers)
    (answer : d.handle rocks = .ok done) (w : Nat) :
    Outcome w d (rocks.shard w) done.ret (done.rocks.shard w) ∧ Rested (done.rocks.shard w) ∧
      (done.rocks.shard w).tx_db = (rocks.shard w).tx_db := by
  have passes : done.rocks.shard w = rocks.shard w → ¬ Addressed w d →
      Outcome w d (rocks.shard w) done.ret (done.rocks.shard w) ∧ Rested (done.rocks.shard w) ∧
        (done.rocks.shard w).tx_db = (rocks.shard w).tx_db := fun same other =>
    ⟨.elsewhere other same, same ▸ rested w, by rw [same]⟩
  -- the shard of the worker that carries the message out
  have works : ∀ c : Cell, d.pkt.msgtype = 0 → d.pkt.leader = d.worker_id →
      done.rocks = (Env.received rocks).put d.worker_id c →
      (Addressed d.worker_id d → Outcome d.worker_id d (rocks.shard d.worker_id) done.ret c.toShard ∧ Rested c.toShard ∧
        c.tx_db = (rocks.shard d.worker_id).tx_db) →
      Outcome w d (rocks.shard w) done.ret (done.rocks.shard w) ∧ Rested (done.rocks.shard w) ∧
        (done.rocks.shard w).tx_db = (rocks.shard w).tx_db := by
    intro c type leader left ends
    by_cases here : w = d.worker_id
    · rw [left, here, put_shard_self]
      exact ends ⟨rfl, type, leader⟩
    · refine passes ?_ fun addressed => here addressed.1.symm
      rw [left, put_shard_other _ _ _ here]
      rfl
  have started_calm := interpretAt_calm calm (commandsOf d.pkt.message)
  cases course_cases worker answer with
  | astray type other ret log left =>
    refine passes (by rw [left]; rfl) fun addressed => other ⟨addressed.2.1, ?_⟩
    rw [addressed.2.2, addressed.1]
  | crowded type crowded ret log waited =>
    refine passes (by rw [waited.shard]; rfl) fun addressed => ?_
    rw [addressed.2.1] at type
    cases type
  | busy type leader busy ret log left =>
    refine works _ type leader left fun here => ?_
    have closed : (rocks.shard d.worker_id).tx_db = false := busy.resolve_right fun taken => taken (rested d.worker_id).empty
    rw [commit_shard_idle (.inl closed)]
    exact ⟨.unopened here closed ret rfl, ⟨(rested d.worker_id).empty, rfl⟩, rfl⟩
  | unbegun type leader opened empty faulty =>
    rw [Lib.fails, calm] at faulty
    cases faulty
  | @committed type leader opened empty fine c ran ret left =>
    refine works _ type leader left fun here => ?_
    obtain ⟨tx, kept, ⟨-, interpreted, -⟩ | ⟨bad, -⟩⟩ := runCommands_interpreted (started_serving d.worker_id opened) ran
    · have commits : c.lib.fails .commit = false := by
        rw [Lib.fails, kept.faults]
        exact calm _ _
      rw [commit_shard_serving kept.serving, commits, if_neg Bool.false_ne_true]
      refine ⟨.committed here opened ret ((started_calm _ _).symm.trans interpreted) ?_, ⟨rfl, rfl⟩, ?_⟩
      · rw [shown_copy]
        simp only [kept.committed]
      · exact kept.serving.opened.trans opened.symm
    · cases bad
  | aborted type leader opened empty fine ran aborted ret left =>
    refine works _ type leader left fun here => ?_
    obtain ⟨tx, kept, ⟨bad, -⟩ | ⟨-, refused⟩⟩ := runCommands_interpreted (started_serving d.worker_id opened) ran
    · cases bad
    · have gone := abort_shard_aborted kept.serving aborted
      have depth := kept.depth
      have before := (rested d.worker_id).count
      simp only [started, firstTransaction, List.length_singleton] at depth
      refine ⟨.aborted here opened ret ((started_calm _ _).symm.trans refused) (gone.committed.trans kept.committed),
        ⟨gone.slot, gone.counted ?_⟩, gone.opened.trans opened.symm⟩
      change _ = (rocks.shard d.worker_id).savepoint_count + 1 - _ at depth
      omega
  | executed executes => exact absurd executes.type (single executes.alone)
  | unheard type leader worker alone => exact absurd type (single alone)

/-- With other workers about, only what is addressed to its worker is acknowledged. -/
theorem answered_addressed (several : rocks.num_workers ≠ 1) (worker : d.worker_id < rocks.num_workers)
    (answer : d.handle rocks = .ok done) (acked : done.ret = 0) : Addressed d.worker_id d := by
  have refused : done.ret = -1 → Addressed d.worker_id d := fun ret => by
    rw [acked] at ret
    cases ret
  cases course_cases worker answer with
  | astray _ _ ret => exact refused ret
  | crowded _ _ ret => exact refused ret
  | busy type leader => exact ⟨rfl, type, leader⟩
  | unbegun type leader => exact ⟨rfl, type, leader⟩
  | committed type leader => exact ⟨rfl, type, leader⟩
  | aborted type leader => exact ⟨rfl, type, leader⟩
  | executed executes => exact absurd executes.alone several
  | unheard _ _ _ alone => exact absurd alone several

end Step

/-! ### Runs of messages -/

section Runs
variable {num_workers : Nat} {disk : Nat → List Write} {faults : Nat → Call → Bool}
  {trail : List (Env × (Delivery × Done) × Env)} {last : Env}

theorem run_workers (staffed : 0 < num_workers)
    (run : Run Handles (init_database_env num_workers staffed disk faults) trail last) : last.num_workers = num_workers := by
  refine run_keeps (fun _ rocks => rocks.num_workers = num_workers) (fun _ _ => True) ?_ rfl run fun _ _ => trivial
  rintro _ rocks handled rocks' same handles -
  obtain ⟨kept, -⟩ := handled_kept (handled_cases handles)
  exact handles.left ▸ kept.trans same

/-- What holds of an opened shard between the messages of a run without errors. -/
structure Between (disk : Nat → List Write) (trail : List (Env × (Delivery × Done) × Env)) (rocks : Env) : Prop where
  calm : ∀ t c, rocks.lib.faults t c = false
  rested : ∀ i, Rested (rocks.shard i)
  opened : ∀ w, w < 4 → (rocks.shard w).tx_db = true
  contents : ∀ w, w < 4 → contents (rocks.shard w).committed =
    served (contents (disk w)) (asked w (trail.map fun e => e.2.1.1))

private theorem between_run (staffed : 0 < num_workers) (calm : ∀ t c, faults t c = false)
    (run : Run Handles (init_database_env num_workers staffed disk faults) trail last)
    (single : num_workers = 1 → ∀ e ∈ trail, e.2.1.1.pkt.msgtype ≠ 1) :
    last.num_workers = num_workers ∧ Between disk trail last := by
  have initial := init_initial staffed disk faults
  refine run_keeps (fun trail rocks => rocks.num_workers = num_workers ∧ Between disk trail rocks)
    (fun _ handled => num_workers = 1 → handled.1.pkt.msgtype ≠ 1) ?_ ⟨rfl, ?_⟩ run fun e member alone => single alone e member
  · rintro trail rocks ⟨d, done⟩ rocks' ⟨workers, between⟩ handles single
    obtain ⟨same, faultless, -⟩ := handled_kept (handled_cases handles)
    obtain ⟨worker, answer, rfl⟩ := handles
    have step := handled_outcome between.calm between.rested (workers ▸ single) worker answer
    refine ⟨same.trans workers, fun t c => by rw [faultless]; exact between.calm t c, fun i => (step i).2.1,
      fun w few => (step w).2.2.trans (between.opened w few), fun w few => ?_⟩
    rw [List.map_append, asked_append, served_append, ← between.contents w few, List.map_singleton]
    cases (step w).1 with
    | elsewhere other same => rw [asked_other other, same]; rfl
    | unopened here closed =>
      rw [between.opened w few] at closed
      cases closed
    | committed here opened answer interpreted left =>
      rw [asked_addressed here, left, served, List.foldl_cons, List.foldl_nil, serve, interpreted]
      rfl
    | aborted here opened answer refused left =>
      rw [asked_addressed here, left, served, List.foldl_cons, List.foldl_nil, serve, refused]
      rfl
  · exact ⟨fun t c => by rw [initial.faults]; exact calm t c, fun i => ⟨initial.empty i, initial.count i⟩,
      fun w few => (opened_iff staffed disk (fun t => calm t _) w).mpr few, fun w _ => by rw [initial.committed w]; rfl⟩

section Calm
variable (staffed : 0 < num_workers) (calm : ∀ t c, faults t c = false)
  (run : Run Handles (init_database_env num_workers staffed disk faults) trail last)
  (single : num_workers = 1 → ∀ e ∈ trail, e.2.1.1.pkt.msgtype ≠ 1) {w : Nat} (few : w < 4)
include calm run single few

theorem opened_contents : contents (last.shard w).committed =
    served (contents (disk w)) (asked w (trail.map fun e => e.2.1.1)) :=
  (between_run staffed calm run single).2.contents w few

/-- The answer to a message is the interpreter's, on what the messages before it left. -/
theorem opened_answers {before after : List (Env × (Delivery × Done) × Env)} {e : Env × (Delivery × Done) × Env}
    (split : trail = before ++ e :: after) (here : Addressed w e.2.1.1) :
    e.2.1.2.ret = 0 ↔ (interpret (begun (served (contents (disk w)) (asked w (before.map fun e => e.2.1.1))))
      (commandsOf e.2.1.1.pkt.message)).isSome := by
  obtain ⟨rocks, ⟨d, done⟩, rocks'⟩ := e
  obtain ⟨first, worker, answer, -⟩ := run.split split
  obtain ⟨workers, between⟩ := between_run staffed calm first fun alone e member =>
    single alone e (split ▸ List.mem_append_left _ member)
  have single' : rocks.num_workers = 1 → d.pkt.msgtype ≠ 1 := fun alone =>
    single (workers ▸ alone) (rocks, (d, done), rocks') (split ▸ List.mem_append_right _ List.mem_cons_self)
  rw [← between.contents w few]
  cases (handled_outcome between.calm between.rested single' worker answer w).1 with
  | elsewhere other => exact absurd here other
  | unopened _ closed =>
    rw [between.opened w few] at closed
    cases closed
  | committed _ _ ret interpreted => exact iff_of_true ret (by rw [interpreted]; rfl)
  | aborted _ _ ret refused =>
    refine iff_of_false (fun acked => ?_) (by rw [refused]; exact Bool.false_ne_true)
    rw [ret] at acked
    cases acked

end Calm

/-- Without errors of the library a worker's database holds what its own messages make
    of it one after another, and the answer to each of them is the interpreter's. A
    single worker has to be spared the messages for several shards, which others pass
    on. -/
theorem store_interpreted (staffed : 0 < num_workers) (fits : num_workers ≤ MAX_WORKER_CORE)
    (calm : ∀ t c, faults t c = false)
    (run : Run Handles (init_database_env num_workers staffed disk faults) trail last)
    (single : num_workers = 1 → ∀ e ∈ trail, e.2.1.1.pkt.msgtype ≠ 1) {w : Nat} (worker : w < num_workers) :
    contents (last.shard w).committed = served (contents (disk w)) (asked w (trail.map fun e => e.2.1.1)) ∧
    ∀ before e after, trail = before ++ e :: after → Addressed w e.2.1.1 →
      (e.2.1.2.ret = 0 ↔ (interpret (begun (served (contents (disk w)) (asked w (before.map fun e => e.2.1.1))))
        (commandsOf e.2.1.1.pkt.message)).isSome) :=
  ⟨opened_contents staffed calm run single (Nat.lt_of_lt_of_le worker fits),
    fun _ _ _ split here => opened_answers staffed calm run single (Nat.lt_of_lt_of_le worker fits) split here⟩

end Runs

/-- A message for one shard, at its worker. -/
def plain_to (w : Nat) (text : Text) : Delivery := { plain 0 text with pkt := Handling.packet 0 w text, worker_id := w }

/-- `w 1 a` and `w 7 x` on two workers. -/
theorem two_shards_interpreted :
    ∃ trail last, Run Handles (init_database_env 2 (by decide) (fun _ => []) (fun _ _ => false)) trail last ∧
      trail.map (fun e => e.2.1.1) = [plain_to 0 (ascii "w 1 a"), plain_to 1 (ascii "w 7 x")] ∧
      contents (last.shard 1).committed (ascii "7") = some (ascii "x") ∧ contents (last.shard 1).committed (ascii "1") = none := by
  have known : ((plain_to 0 (ascii "w 1 a")).handle (init_database_env 2 (by decide) (fun _ => []) (fun _ _ => false)) >>=
      fun first => ((plain_to 1 (ascii "w 7 x")).handle first.rocks).map fun second => first.rocks.num_workers) = .ok 2 := by
    decide +kernel
  obtain ⟨first, handled, known⟩ := bind_eq_ok.mp known
  obtain ⟨second, handled', workers⟩ := ok_of_map known
  have one : Handles (init_database_env 2 (by decide) (fun _ => []) (fun _ _ => false)) (plain_to 0 (ascii "w 1 a"), first)
      first.rocks := ⟨Nat.two_pos, handled, rfl⟩
  have two : Handles first.rocks (plain_to 1 (ascii "w 7 x"), second) second.rocks :=
    ⟨by rw [workers]; exact Nat.one_lt_two, handled', rfl⟩
  have run := (Run.stay.next one).next two
  obtain ⟨held, -⟩ := store_interpreted (by decide) (by decide) (fun _ _ => rfl) run
    (fun alone => absurd alone (by decide)) (w := 1) (by decide)
  change contents (second.rocks.shard 1).committed =
    served (contents []) (asked 1 [plain_to 0 (ascii "w 1 a"), plain_to 1 (ascii "w 7 x")]) at held
  refine ⟨_, _, run, rfl, ?_⟩
  rw [held]
  decide +kernel

end Shardb.Store
