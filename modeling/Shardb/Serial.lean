import Shardb.Traffic

/-!
# The order in which a database changes

Whatever a message does, it does to a shard by moves of a few kinds (`Move`,
`handled_moves`), whatever errors the library reports. So what a database holds
is the writes of the messages to its worker, in the order in which they were
handled, and a write that is committed stays where it is (`serial_order`).
-/

namespace Shardb.Serial
open Shardb.Bytes (Text ascii)
open Shardb.Loops Shardb.Journal Shardb.Rocks Shardb.Datastore Shardb.Handlers Shardb.Server Shardb.Tokens
open Shardb.Interpreter Shardb.SinglePartition Shardb.MultiPartition Shardb.Runs Shardb.Traffic

/-! ### What can happen to a shard -/

/-- What a message with these commands can do to a shard. -/
inductive Move (cmds : List Command) (message : Nat) (s : Shard) : Shard → Prop
  | counts (count : Int) : Move cmds message s { s with savepoint_count := count }
  /-- A transaction with one save point. -/
  | begins (id : Nat) : Move cmds message s { s with tx := some { writes := [], saved := [[]], id := id } }
  /-- A command of the message, or the rollback of an abort. -/
  | changes {tx : Transaction} {cmd : Command} {batch : Batch Write} (slot : s.tx = some tx)
      (asked : cmd ∈ cmds ∨ cmd = .rollback) (change : Change message tx.toBatch cmd batch) :
      Move cmds message s { s with tx := some { tx with toBatch := batch } }
  | commits {tx : Transaction} (slot : s.tx = some tx) :
      Move cmds message s { s with committed := s.committed ++ tx.writes, tx := none }
  | drops : Move cmds message s { s with tx := none }

abbrev Moves (cmds : List Command) (message : Nat) : Shard → Shard → Prop := Relation.ReflTransGen (Move cmds message)

section Moves
variable {cmds : List Command} {c c' : Cell}

theorem begun_moves (w : Nat) (count : Int) (message : Nat) :
    Moves cmds message c.toShard { (begunCell w c).toShard with savepoint_count := count } :=
  (Relation.ReflTransGen.single (.begins c.lib.next)).tail (.counts count)

theorem singleCell_moves {cmd : Command} {ret : Int} (asked : cmd ∈ cmds ∨ cmd = .rollback)
    (ran : singleCell cmd c = .ok (ret, c')) : Moves cmds c.lib.message c.toShard c'.toShard := by
  rcases idle_or_serving c with idle | ⟨tx, serving⟩
  · rw [(singleCell_idle idle ran).2]
  · cases singleCell_effect serving ran with
    | carried accepted done =>
      exact (Relation.ReflTransGen.single (.changes serving.slot asked (carry_change done))).tail (.counts _)
    | failed => exact .refl

theorem multiCell_moves {cmd : Command} {ret : Int} (asked : cmd ∈ cmds) (ran : multiCell cmd c = .ok (ret, c')) :
    Moves cmds c.lib.message c.toShard c'.toShard := by
  cases multiCell_effect ran with
  | refused => exact .refl
  | begins data routed zero opened empty fine ran =>
    exact (begun_moves 0 1 c.lib.message).trans (singleCell_moves (c := fresh c) (.inl asked) ran)
  | works routed counting ran => exact singleCell_moves (.inl asked) ran
  | passes => exact .refl
  | sinks => exact .single (.counts _)

theorem runCommands_moves {op : Command → Cell → Result (Int × Cell)} {failed : Bool} {calls : List (Command × Int)}
    (moves : ∀ cmd ∈ cmds, ∀ c ret c', op cmd c = .ok (ret, c') → Moves cmds c.lib.message c.toShard c'.toShard ∧ Standing c c')
    (run : runCommands op cmds c = .ok (failed, c', calls)) : Moves cmds c.lib.message c.toShard c'.toShard := by
  refine (runCommands_keeps_each op (fun c₁ => c₁.lib.message = c.lib.message ∧
    Moves cmds c.lib.message c.toShard c₁.toShard) ?_ ⟨rfl, .refl⟩ run).2
  rintro cmd asked c₁ ret c₂ ⟨same, before⟩ ran
  obtain ⟨now, stood⟩ := moves cmd asked c₁ ret c₂ ran
  exact ⟨stood.message.trans same, before.trans (same ▸ now)⟩

theorem commit_shard_moves (c : Cell) (message : Nat) : Moves cmds message c.toShard (commit_shard c).2.toShard := by
  rcases idle_or_serving c with idle | ⟨tx, serving⟩
  · rw [commit_shard_idle idle]
    exact .single (.counts 0)
  · rw [commit_shard_serving serving]
    split_ifs
    · exact .single (.counts 0)
    · exact (Relation.ReflTransGen.single (.commits serving.slot)).tail (.counts 0)

theorem abort_shard_moves {fuel : Nat} {ret : Int} (run : abort_shard fuel c = .ok (ret, c')) :
    Moves cmds c.lib.message c.toShard c'.toShard := by
  refine (abort_shard_keeps (fun c₁ => c₁.lib.message = c.lib.message ∧
    Moves cmds c.lib.message c.toShard c₁.toShard) ?_ ?_ ⟨rfl, .refl⟩ run).2
  · rintro c₁ ret c₂ ⟨same, before⟩ ran
    exact ⟨(singleCell_standing ran).message.trans same, before.trans (same ▸ singleCell_moves (.inr rfl) ran)⟩
  · rintro c₁ tx - ⟨same, before⟩
    exact ⟨same, before.tail .drops⟩

theorem settled_moves {fuel : Nat} {failed : Bool} (settled : Settled fuel c failed c') :
    Moves cmds c.lib.message c.toShard c'.toShard := by
  cases settled with
  | commits => exact commit_shard_moves c _
  | aborts _ aborted => exact abort_shard_moves aborted
  | leaves => exact .refl

theorem ending_moves {d : Delivery} {rocks : Env} {ret : Int} (ending : Ending d rocks c ret c') :
    Moves (commandsOf d.pkt.message) c.lib.message c.toShard c'.toShard := by
  have single {c' : Cell} {failed : Bool} {calls : List (Command × Int)}
      (ran : runCommands singleCell (commandsOf d.pkt.message) (started d.worker_id c) = .ok (failed, c', calls)) :
      Moves (commandsOf d.pkt.message) c.lib.message c.toShard c'.toShard ∧ c'.lib.message = c.lib.message :=
    ⟨(begun_moves d.worker_id _ _).trans
        (runCommands_moves (fun _ asked _ _ _ ran => ⟨singleCell_moves (.inl asked) ran, singleCell_standing ran⟩) ran),
      (runCommands_standing (fun _ _ _ _ => singleCell_standing) ran).message⟩
  cases ending with
  | found => exact commit_shard_moves c _
  | unbegun => exact .single (.counts 0)
  | commits opened ran => exact (single ran).1.trans (commit_shard_moves _ _)
  | aborts opened ran aborted =>
    obtain ⟨moves, same⟩ := single ran
    exact moves.trans (same ▸ abort_shard_moves aborted)
  | executed executes ran settled =>
    have same := (runCommands_standing (fun _ _ _ _ => multiCell_standing) ran).message
    exact (runCommands_moves (fun _ asked _ _ _ ran => ⟨multiCell_moves asked ran, multiCell_standing ran⟩) ran).trans
      (same ▸ settled_moves settled)
  | unheard settled => exact settled_moves settled

end Moves

/-- A message moves the shard of its worker alone. -/
theorem handled_moves {d : Delivery} {rocks : Env} {done : Done} (handled : Handled d rocks done) (i : Nat) :
    (i = d.worker_id ∧ Moves (commandsOf d.pkt.message) (rocks.lib.message + 1) (rocks.shard i) (done.rocks.shard i)) ∨
      done.rocks.shard i = rocks.shard i := by
  cases handled with
  | passed _ waited =>
    rw [waited.shard]
    exact .inr rfl
  | worked c ending _ here others _ _ =>
    by_cases same : i = d.worker_id
    · rw [same, here]
      exact .inl ⟨rfl, ending_moves ending⟩
    · exact .inr (others i same)

/-! ### What the moves keep -/

/-- The commands put or delete this. -/
def Asked (cmds : List Command) (write : Write) : Prop :=
  match write.val with
  | some val => .write (some write.key) (some val) ∈ cmds
  | none => .delete (some write.key) ∈ cmds

/-- The writes of a shard are in the order of their messages, those of a transaction
    behind the committed ones. -/
structure Ordered (now : Nat) (s : Shard) : Prop where
  committed : Stamped Write.message now s.committed
  held : ∀ tx, s.tx = some tx → tx.toBatch.Stamped Write.message now s.committed

theorem Ordered.mono {now later : Nat} {s : Shard} (ordered : Ordered now s) (before : now ≤ later) : Ordered later s :=
  ⟨ordered.committed.mono before, fun tx slot => (ordered.held tx slot).mono before⟩

section Keeps
variable {cmds : List Command} {message : Nat} {s s' : Shard}

theorem move_ordered (ordered : Ordered message s) (move : Move cmds message s s') : Ordered message s' := by
  cases move with
  | counts => exact ⟨ordered.committed, ordered.held⟩
  | begins =>
    refine ⟨ordered.committed, ?_⟩
    rintro tx ⟨⟩
    exact stamped_begun ordered.committed
  | @changes tx cmd batch slot asked change =>
    refine ⟨ordered.committed, ?_⟩
    rintro tx' ⟨⟩
    have held := ordered.held tx slot
    cases change with
    | reads => exact held
    | puts => exact stamped_add held rfl
    | deletes => exact stamped_add held rfl
    | saves => exact stamped_save held
    | restores restored => exact stamped_restore held restored
  | commits slot => exact ⟨(ordered.held _ slot).writes, by rintro tx ⟨⟩⟩
  | drops => exact ⟨ordered.committed, by rintro tx ⟨⟩⟩

theorem moves_ordered (ordered : Ordered message s) (moves : Moves cmds message s s') : Ordered message s' := by
  induction moves with
  | refl => exact ordered
  | tail _ move ih => exact move_ordered ih move

/-- Nothing that is committed is taken back. -/
theorem moves_grow (moves : Moves cmds message s s') : s.committed <+: s'.committed := by
  induction moves with
  | refl => exact List.prefix_rfl
  | tail _ move ih =>
    cases move with
    | commits slot => exact ih.trans (List.prefix_append ..)
    | _ => exact ih

/-- What all writes satisfy, and those that the commands ask for. -/
theorem moves_marked {P : Write → Prop} (marked : Records.Marked P s)
    (new : ∀ write, write.message = message → Asked cmds write → P write) (moves : Moves cmds message s s') :
    Records.Marked P s' := by
  induction moves with
  | refl => exact marked
  | tail _ move ih =>
    cases move with
    | counts => exact ⟨ih.committed, ih.held⟩
    | begins =>
      refine ⟨ih.committed, ?_⟩
      rintro tx ⟨⟩
      exact all_begun
    | @changes tx cmd batch slot asked change =>
      refine ⟨ih.committed, ?_⟩
      rintro tx' ⟨⟩
      have held := ih.held tx slot
      cases change with
      | reads => exact held
      | puts => exact all_add held (new _ rfl (asked.resolve_right (by rintro ⟨⟩)))
      | deletes => exact all_add held (new _ rfl (asked.resolve_right (by rintro ⟨⟩)))
      | saves => exact all_save held
      | restores restored => exact all_restore held restored
    | commits slot =>
      exact ⟨List.forall_mem_append.mpr ⟨ih.committed, (ih.held _ slot).writes⟩, by rintro tx ⟨⟩⟩
    | drops => exact ⟨ih.committed, by rintro tx ⟨⟩⟩

end Keeps
/-! ### Runs of messages -/

/-- The message is worker `i`'s to carry out: it is for one shard and the worker is its
    leader, or it is for several and there is no worker but this one. -/
def AddressedTo (i : Nat) (d : Delivery) (rocks : Env) : Prop :=
  d.worker_id = i ∧ d.pkt.leader = i ∧ (d.pkt.msgtype = 0 ∨ d.pkt.msgtype = 1 ∧ i = 0 ∧ rocks.num_workers = 1)

/-- A message that is not for its worker changes nothing. -/
theorem handles_addressed {d : Delivery} {rocks : Env} {done : Done} (worker : d.worker_id < rocks.num_workers)
    (answer : d.handle rocks = .ok done) : AddressedTo d.worker_id d rocks ∨ ∀ i, done.rocks.shard i = rocks.shard i := by
  cases course_cases worker answer with
  | astray _ _ _ _ left => exact .inr fun i => by rw [left]; rfl
  | crowded _ _ _ _ waited => exact .inr fun i => by rw [waited.shard]; rfl
  | busy type leader => exact .inl ⟨rfl, leader, .inl type⟩
  | unbegun type leader => exact .inl ⟨rfl, leader, .inl type⟩
  | committed type leader => exact .inl ⟨rfl, leader, .inl type⟩
  | aborted type leader => exact .inl ⟨rfl, leader, .inl type⟩
  | executed executes =>
    exact .inl ⟨rfl, executes.leader.trans executes.worker.symm, .inr ⟨executes.type, executes.worker, executes.alone⟩⟩
  | unheard type leader first alone => exact .inl ⟨rfl, leader.trans first.symm, .inr ⟨type, first, alone⟩⟩

/-- The write is on the disk from before, or the message with its number was worker `i`'s
    and asked for it. -/
def Origin (disk : Nat → List Write) (trail : List (Env × (Delivery × Done) × Env)) (i : Nat) (write : Write) : Prop :=
  write ∈ disk i ∨ ∃ m e, trail[m]? = some e ∧ write.message = m + 1 ∧ AddressedTo i e.2.1.1 e.1 ∧
    Asked (commandsOf e.2.1.1.pkt.message) write

theorem Origin.next {disk : Nat → List Write} {trail : List (Env × (Delivery × Done) × Env)} {i : Nat} {write : Write}
    (origin : Origin disk trail i write) (e : Env × (Delivery × Done) × Env) : Origin disk (trail ++ [e]) i write := by
  refine origin.imp_right ?_
  rintro ⟨m, e', at_m, rest⟩
  refine ⟨m, e', ?_, rest⟩
  rw [List.getElem?_append_left (List.getElem?_eq_some_iff.mp at_m).1]
  exact at_m

/-- What holds between the messages of a run. -/
structure Between (disk : Nat → List Write) (trail : List (Env × (Delivery × Done) × Env)) (rocks : Env) : Prop where
  number : rocks.lib.message = trail.length
  ordered : ∀ i, Ordered rocks.lib.message (rocks.shard i)
  grown : ∀ e ∈ trail, ∀ i, (e.1.shard i).committed <+: (e.2.2.shard i).committed ∧
    (e.2.2.shard i).committed <+: (rocks.shard i).committed
  origin : ∀ i, Records.Marked (Origin disk trail i) (rocks.shard i)

theorem between_first {disk : Nat → List Write} {faults : Nat → Call → Bool} {rocks : Env}
    (initial : Initial disk faults rocks) (old : ∀ i, ∀ write ∈ disk i, write.message = 0) : Between disk [] rocks := by
  have none : ∀ i tx, (rocks.shard i).tx ≠ some tx := fun i tx slot => by
    rw [initial.empty i] at slot
    cases slot
  refine ⟨initial.message, fun i => ⟨?_, fun tx slot => absurd slot (none i tx)⟩, by rintro e ⟨⟩,
    fun i => ⟨?_, fun tx slot => absurd slot (none i tx)⟩⟩
  · rw [initial.committed i]
    refine ⟨List.pairwise_iff_getElem.mpr fun a b below inside _ => ?_, fun w member => by rw [old i w member]; exact Nat.zero_le _⟩
    rw [List.getElem_map, List.getElem_map, old i _ (List.getElem_mem _), old i _ (List.getElem_mem _)]
  · rw [initial.committed i]
    exact fun write member => .inl member

theorem between_next {disk : Nat → List Write} {trail : List (Env × (Delivery × Done) × Env)} {rocks rocks' : Env}
    {handled : Delivery × Done} (between : Between disk trail rocks) (handles : Handles rocks handled rocks') :
    Between disk (trail ++ [(rocks, handled, rocks')]) rocks' := by
  have goes := handled_cases handles
  obtain ⟨-, -, number⟩ := handled_kept goes
  obtain ⟨worker, answer, rfl⟩ := handles
  have moved := handled_moves goes
  have grows : ∀ i, (rocks.shard i).committed <+: (handled.2.rocks.shard i).committed := fun i => by
    rcases moved i with ⟨-, moves⟩ | same
    · exact moves_grow moves
    · exact same ▸ List.prefix_rfl
  refine ⟨?_, fun i => ?_, ?_, fun i => ?_⟩
  · rw [number, between.number, List.length_append, List.length_singleton]
  · have before := (between.ordered i).mono (Nat.le_succ rocks.lib.message)
    rw [number]
    rcases moved i with ⟨-, moves⟩ | same
    · exact moves_ordered before moves
    · rw [same]
      exact before
  · refine List.forall_mem_append.mpr ⟨fun e member i => ?_, List.forall_mem_singleton.mpr fun i => ?_⟩
    · obtain ⟨here, since⟩ := between.grown e member i
      exact ⟨here, since.trans (grows i)⟩
    · exact ⟨grows i, List.prefix_rfl⟩
  · have before := (between.origin i).mono fun write origin => origin.next (rocks, handled, handled.2.rocks)
    have unchanged : handled.2.rocks.shard i = rocks.shard i →
        Records.Marked (Origin disk (trail ++ [(rocks, handled, handled.2.rocks)]) i) (handled.2.rocks.shard i) := fun same => by
      rw [same]
      exact before
    rcases handles_addressed worker answer with addressed | same
    · rcases moved i with ⟨rfl, moves⟩ | same
      · refine moves_marked before (fun write new asked => .inr
          ⟨trail.length, (rocks, handled, handled.2.rocks), ?_, ?_, addressed, asked⟩) moves
        · rw [List.getElem?_append_right (Nat.le_refl _), Nat.sub_self]
          rfl
        · rw [new, between.number]
      · exact unchanged same
    · exact unchanged (same i)

/-- Whatever errors the library reports, the databases are written in the order in
    which messages are handled, by messages that are their worker's and with what these
    ask for, and what is committed stays. -/
theorem serial_order {num_workers : Nat} (staffed : 0 < num_workers) {disk : Nat → List Write}
    (old : ∀ i, ∀ write ∈ disk i, write.message = 0) {faults : Nat → Call → Bool}
    {trail : List (Env × (Delivery × Done) × Env)} {last : Env}
    (run : Run Handles (init_database_env num_workers staffed disk faults) trail last) (i : Nat) :
    ((last.shard i).committed.map Write.message).Pairwise (· ≤ ·) ∧
    (∀ write ∈ (last.shard i).committed, Origin disk trail i write) ∧
    ∀ e ∈ trail, (e.1.shard i).committed <+: (e.2.2.shard i).committed ∧
      (e.2.2.shard i).committed <+: (last.shard i).committed := by
  have between := run_keeps (Between disk) (fun _ _ => True) (fun _ _ _ _ between handles _ => between_next between handles)
    (between_first (init_initial staffed disk faults) old) run fun _ _ => trivial
  exact ⟨(between.ordered i).committed.order, (between.origin i).committed, fun e member => between.grown e member i⟩

/-- `w 1 a` and `d 1` on the only worker. -/
theorem two_in_turn :
    ∃ trail last, Run Handles (init_database_env 1 (by decide) (fun _ => []) (fun _ _ => false)) trail last ∧
      (last.shard 0).committed = [⟨ascii "1", some (ascii "a"), 1⟩, ⟨ascii "1", none, 2⟩] ∧
      ∀ write ∈ (last.shard 0).committed, Origin (fun _ => []) trail 0 write := by
  have known : ((plain 0 (ascii "w 1 a")).handle (init_database_env 1 (by decide) (fun _ => []) (fun _ _ => false)) >>=
      fun first => ((plain 0 (ascii "d 1")).handle first.rocks).map fun second => (second.rocks.shard 0).committed) =
      .ok [⟨ascii "1", some (ascii "a"), 1⟩, ⟨ascii "1", none, 2⟩] := by decide +kernel
  obtain ⟨first, handled, known⟩ := bind_eq_ok.mp known
  obtain ⟨second, handled', committed⟩ := ok_of_map known
  obtain ⟨one, alone⟩ := handles_alone rfl rfl handled
  obtain ⟨two, -⟩ := handles_alone alone rfl handled'
  have run := (Run.stay.next one).next two
  obtain ⟨-, origin, -⟩ := serial_order (by decide) (by simp) run 0
  exact ⟨_, _, run, committed, origin⟩

end Shardb.Serial
