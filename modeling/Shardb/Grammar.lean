import Shardb.Overlaps
import Shardb.Termination

/-!
# Messages that are no list of commands

Nothing in the handler looks at the form of a message. Unknown letters are passed
over, words too many are dropped, and a missing argument is used as it is. A
malformed message is turned away only when one of its commands happens to fail
before an argument is missing. `Ledger` says on the state before a message which
commands those are.
-/

namespace Shardb.Grammar
open Shardb.Bytes (Text ascii)
open Shardb.CStrings Shardb.Loops Shardb.Journal Shardb.Rocks Shardb.Datastore Shardb.Handlers Shardb.Server Shardb.Tokens
open Shardb.Handling Shardb.Messages Shardb.Interpreter Shardb.Savepoints Shardb.SinglePartition Shardb.MultiPartition
open Shardb.Runs Shardb.Traffic Shardb.Barrier Shardb.Termination
open Shardb.Overlaps (Strcpy Documented moves wipes moves_documented wipes_documented Safe markedOf frontOf frontOf_fails_iff
  Sound Apart apart_sound handle_same handle_moves handle_wiped)

/-! ### The grammar -/

def words (segment : Text) : List Text := (segment.splitOn 32).filter (· ≠ [])

/-- `r K`, `w K V`, `d K`, `s` or `b`, up to blanks. -/
def Grammatical (segment : Text) : Prop :=
  (∃ k, words segment = [ascii "r", k] ∨ words segment = [ascii "d", k]) ∨
    (∃ k v, words segment = [ascii "w", k, v]) ∨ words segment = [ascii "s"] ∨ words segment = [ascii "b"]

/-- Some segment between `'@'` signs is not empty and no command. -/
def Malformed (text : Text) : Prop := ∃ segment ∈ text.splitOn 64, segment ≠ [] ∧ ¬ Grammatical segment

/-- The message is answered -1, nothing is committed, and `ret` is tested only
    where a handler of the message, or the begin of its transaction, assigned it.
    No argument was `NULL`, or the call had not returned. -/
def Enforced (strcpy : Strcpy) (d : Delivery) (rocks : Env) : Prop :=
  ∃ done, Overlaps.handle strcpy d rocks = .ok done ∧ done.ret = -1 ∧
    (∀ i, contents (done.rocks.shard i).committed = contents (rocks.shard i).committed) ∧
    ∀ pass ∈ done.log, pass.2.isSome

/-! ### What commands come to -/

/-- Where a shard is: its counter, the working copy its transaction stands for,
    and the number of library calls made. -/
structure Ledger where
  count : Int
  ws : Option (Workspace Contents)
  clock : Nat

def ledgerOf (c : Cell) : Ledger :=
  ⟨c.savepoint_count, if c.tx_db then c.tx.map (fun tx => Shown c.committed tx.toBatch) else none, c.lib.clock⟩

/-- A command uses a missing argument, or returns a negative value, or succeeds. -/
inductive Turn
  | crashes
  | fails
  | goes (s : Ledger)

/-- A command of a message for one shard. -/
def Ledger.serve (faults : Nat → Call → Bool) (s : Ledger) (cmd : Command) : Turn :=
  if Complete cmd then
    match s.ws with
    | none => .fails
    | some ws =>
      if refused faults s.clock cmd then .fails
      else
        match step ws cmd with
        | none => .fails
        | some ws => .goes ⟨s.count + countChange cmd, some ws, s.clock + 1⟩
  else .crashes

/-- A command of a message for several shards. -/
def Ledger.share (faults : Nat → Call → Bool) (opened : Bool) (base : Contents) (s : Ledger) (cmd : Command) : Turn :=
  if isData cmd then
    if keyOf cmd = none then .crashes
    else if ¬ Routed cmd then .fails
    else if s.count ≠ 0 then s.serve faults cmd
    else if s.ws.isNone ∧ opened = true ∧ faults s.clock .begin = false then
      Ledger.serve faults ⟨1, some (begun base), s.clock + 2⟩ cmd
    else .fails
  else if 0 < s.count then s.serve faults cmd
  else if cmd = .rollback then .goes { s with count := s.count - 1 }
  else .goes s

/-- One of the commands fails before an argument is missing. -/
def Denies (turn : Ledger → Command → Turn) : List Command → Ledger → Prop
  | [], _ => False
  | cmd :: cmds, s =>
    match turn s cmd with
    | .crashes => False
    | .fails => True
    | .goes s => Denies turn cmds s

/-- The handler answers as the ledger says. -/
def Turned (answer : Result (Int × Cell)) : Turn → Prop
  | .crashes => answer = .error .null
  | .fails => ∃ ret c, answer = .ok (ret, c) ∧ ret < 0
  | .goes s => ∃ ret c, answer = .ok (ret, c) ∧ 0 ≤ ret ∧ ledgerOf c = s

private theorem ledgerOf_idle {c : Cell} (idle : c.tx_db = false ∨ c.tx = none) : (ledgerOf c).ws = none := by
  rcases idle with closed | empty
  · simp [ledgerOf, closed]
  · simp [ledgerOf, empty]

private theorem ledgerOf_serving {c : Cell} {tx : Transaction} (serving : Serving c tx) :
    ledgerOf c = ⟨c.savepoint_count, some (Shown c.committed tx.toBatch), c.lib.clock⟩ := by
  simp [ledgerOf, serving.opened, serving.slot]

theorem singleCell_answers {cmd : Command} (complete : Complete cmd) (c : Cell) : ∃ a, singleCell cmd c = .ok a := by
  cases ran : singleCell cmd c with
  | error e => exact absurd complete (singleCell_error ran).2
  | ok a => exact ⟨a, rfl⟩

theorem singleCell_missing {cmd : Command} (missing : ¬ Complete cmd) (c : Cell) : singleCell cmd c = .error .null := by
  cases cmd with
  | read key => cases key with
    | none => rfl
    | some key => exact absurd rfl missing
  | write key val => cases key with
    | none => rfl
    | some key => cases val with
      | none => rfl
      | some val => exact absurd ⟨rfl, rfl⟩ missing
  | delete key => cases key with
    | none => rfl
    | some key => exact absurd rfl missing
  | savepoint => exact absurd trivial missing
  | rollback => exact absurd trivial missing

theorem serve_turned (cmd : Command) (c : Cell) : Turned (singleCell cmd c) ((ledgerOf c).serve c.lib.faults cmd) := by
  rw [Ledger.serve]
  by_cases complete : Complete cmd
  · rw [if_pos complete]
    obtain ⟨⟨ret, c'⟩, ran⟩ := singleCell_answers complete c
    rcases idle_or_serving c with idle | ⟨tx, serving⟩
    · rw [ledgerOf_idle idle]
      exact ⟨ret, c', ran, by have := (singleCell_idle idle ran).1; omega⟩
    · rw [ledgerOf_serving serving]
      have shown := carry_shown c.committed c.lib.message tx.toBatch cmd
      cases singleCell_effect serving ran with
      | carried accepted done =>
        rw [done] at shown
        simp only [accepted, ← shown, Bool.false_eq_true, if_false, Option.map_some]
        refine ⟨0, _, ran, Int.le_refl 0, ?_⟩
        rw [ledgerOf_serving (carriedOut_kept serving done).serving]
        rfl
      | failed ok reason =>
        have fails : Turned (singleCell cmd c) .fails := ⟨-1, _, ran, by omega⟩
        rcases reason with faulty | nothing
        · simp only [faulty, if_true]
          exact fails
        · rw [nothing] at shown
          simp only [← shown, Option.map_none]
          split_ifs <;> exact fails
  · rw [if_neg complete]
    exact singleCell_missing complete c

theorem share_turned (cmd : Command) (c : Cell) :
    Turned (multiCell cmd c) ((ledgerOf c).share c.lib.faults c.tx_db (contents c.committed) cmd) := by
  have count : (ledgerOf c).count = c.savepoint_count := rfl
  rw [Ledger.share]
  by_cases data : isData cmd
  · rw [if_pos data, multiCell_data data]
    cases given : keyOf cmd with
    | none =>
      rw [if_pos rfl]
      rfl
    | some key =>
      rw [if_neg (by simp), need_some, bind_ok]
      have inside : Routed cmd ↔ 0 ≤ atoi key ∧ atoi key < MAX_NUM_KEYS := by simp [Routed, given]
      by_cases routed : Routed cmd
      · rw [if_neg (not_not_intro routed), if_pos (inside.mp routed)]
        by_cases zero : c.savepoint_count = 0
        · rw [if_neg (not_not_intro (count.trans zero))]
          rcases busy_or_fresh c with busy | ⟨opened, empty⟩
          · have refuses : Turned (access 0 (singleCell cmd) c) .fails := ⟨-1, c, access_busy zero busy, by omega⟩
            rw [if_neg]
            · exact refuses
            · rintro ⟨none_left, opened, _⟩
              rcases busy with closed | taken
              · rw [closed] at opened
                cases opened
              · obtain ⟨tx, slot⟩ := Option.ne_none_iff_exists'.mp taken
                simp [ledgerOf, opened, slot] at none_left
          · have none_left : (ledgerOf c).ws.isNone := by rw [ledgerOf_idle (.inr empty)]; rfl
            cases fine : c.lib.fails .begin with
            | true =>
              have refuses : Turned (access 0 (singleCell cmd) c) .fails :=
                ⟨-1, _, access_faulty zero opened empty fine, by omega⟩
              rw [if_neg]
              · exact refuses
              · rintro ⟨_, _, calm⟩
                exact absurd (calm.symm.trans fine) Bool.false_ne_true
            | false =>
              rw [if_pos ⟨none_left, opened, fine⟩, access_fresh zero opened empty fine]
              have begins : ledgerOf (fresh c) = ⟨1, some (begun (contents c.committed)), c.lib.clock + 2⟩ :=
                ledgerOf_serving (c := fresh c) ⟨opened, rfl⟩
              have turned := serve_turned cmd (fresh c)
              rw [begins] at turned
              exact turned
        · rw [if_pos (by rw [count]; exact zero), access_counting zero]
          exact serve_turned cmd c
      · rw [if_pos routed, if_neg fun here => routed (inside.mpr here)]
        exact ⟨-1, c, rfl, by omega⟩
  · rw [if_neg data]
    by_cases positive : 0 < c.savepoint_count
    · rw [if_pos (by rw [count]; exact positive), multiCell_counting cmd (eq_false_of_ne_true data) positive]
      exact serve_turned cmd c
    · rw [if_neg (by rw [count]; exact positive)]
      cases cmd with
      | savepoint =>
        rw [if_neg (by simp)]
        exact ⟨0, c, by simp [multiCell, setsavepoint_shard, positive], Int.le_refl 0, rfl⟩
      | rollback =>
        rw [if_pos rfl]
        exact ⟨0, _, by simp only [multiCell, rollback_shard, if_neg positive]; rfl, Int.le_refl 0, rfl⟩
      | _ => exact absurd rfl data

/-- Commands fail exactly when the ledger says so. -/
theorem denies_iff {op : Command → Cell → Result (Int × Cell)} {turn : Ledger → Command → Turn} {start : Cell}
    (turned : ∀ cmd c, Standing start c → Turned (op cmd c) (turn (ledgerOf c) cmd))
    (stands : ∀ cmd c ret c', op cmd c = .ok (ret, c') → Standing c c') : ∀ {cmds : List Command} {c : Cell},
    Standing start c → (Denies turn cmds (ledgerOf c) ↔ ∃ c' calls, runCommands op cmds c = .ok (true, c', calls)) := by
  intro cmds
  induction cmds with
  | nil => intro c _; simp [Denies, runCommands]
  | cons cmd cs ih =>
    intro c stood
    have here := turned cmd c stood
    rw [Denies]
    cases verdict : turn (ledgerOf c) cmd with
    | crashes =>
      rw [verdict] at here
      have crashes : op cmd c = .error .null := here
      refine iff_of_false id ?_
      rintro ⟨c', calls, run⟩
      simp [runCommands, crashes] at run
    | fails =>
      rw [verdict] at here
      obtain ⟨ret, c', ran, negative⟩ := here
      exact iff_of_true trivial ⟨c', [(cmd, ret)], by simp [runCommands, ran, negative]⟩
    | goes s =>
      rw [verdict] at here
      obtain ⟨ret, next, ran, zero, rfl⟩ := here
      have going : ¬ ret < 0 := by omega
      refine (ih (stood.trans (stands cmd c ret next ran))).trans ⟨?_, ?_⟩
      · rintro ⟨c', calls, run⟩
        exact ⟨c', (cmd, ret) :: calls, by simp [runCommands, ran, going, run]⟩
      · rintro ⟨c', calls, run⟩
        obtain ⟨ret', next', ran', ⟨negative, _⟩ | ⟨_, later, rest, _⟩⟩ := runCommands_cons _ run
        · rw [ran] at ran'
          cases ran'
          omega
        · rw [ran] at ran'
          cases ran'
          exact ⟨c', later, rest⟩

/-! ### The record of the passes -/

/-- The message starts with a command. -/
def Begins (text : Text) : Prop := ∀ tok ∈ (tokensOf text).head?, (parse tok).isSome

section Log
variable {app : App} {fuel : Nat} {undef : Int} {mem : Mem Buf} {pkt : Mbuf} {rocks : Env} {done : Done}

/-- In a message for one shard `ret` is assigned before the first pass. -/
theorem single_log {w : Nat} (type : pkt.msgtype = 0) (leader : pkt.leader = w) (opened : (rocks.shard w).tx_db = true)
    (empty : (rocks.shard w).tx = none) (fine : rocks.lib.fails .begin = false)
    (handled : handle_db_message app fuel undef mem pkt w rocks = .ok done) : ∀ pass ∈ done.log, pass.2.isSome := by
  obtain ⟨msg, mem', called⟩ := first_token mem pkt.message
  simp only [handle_db_message, called, need_some, bind_ok, type, leader, if_true] at handled
  obtain ⟨rocks', e, ran, log⟩ := begun_log (Env.received rocks) opened empty fine handled
  obtain ⟨passes, same, assigned, _⟩ := runTokens_log (single w)
    (command_loop_ok (single w) undef (s := some ⟨.message, 0⟩) (p := ⟨.message, 0⟩) rfl called ran)
  rw [log, same]
  exact assigned (.inl rfl)

/-- In a message for several shards it is assigned if the first token is a command. -/
theorem multi_log (type : pkt.msgtype = 1) (leader : pkt.leader = 0) (alone : rocks.num_workers = 1)
    (handled : handle_db_message app fuel undef mem pkt 0 rocks = .ok done) :
    (∀ pass ∈ done.log, pass.2.isSome) ↔ Begins pkt.message := by
  obtain ⟨msg, mem', called⟩ := first_token mem pkt.message
  have passed : await_others 0 (Env.received rocks) = .ok (.inl (Env.received rocks)) := await_alone alone
  simp only [handle_db_message, called, need_some, bind_ok, type, leader, Nat.one_ne_zero, if_false, if_true,
    passed] at handled
  obtain ⟨e, ran, log, _⟩ := multi_settles (Env.received rocks) alone handled
  obtain ⟨passes, same, assigned, unassigned⟩ := runTokens_log multi
    (command_loop_ok multi undef (s := some ⟨.message, 0⟩) (p := ⟨.message, 0⟩) rfl called ran)
  rw [strcpy_str mem .message (message_clean pkt)] at assigned unassigned
  rw [log, same, List.nil_append]
  constructor
  · intro all tok first
    by_contra unparsed
    obtain ⟨pass, member, untested⟩ := unassigned rfl tok first (by simpa using unparsed)
    have := all pass member
    rw [untested] at this
    cases this
  · exact fun begins => assigned (.inr begins)

end Log

private theorem fails_map_iff {σ τ : Type} {f : σ → τ} (x : Result (Bool × σ × List (Command × Int))) :
    (∃ t calls, x.map (fun e => (e.1, f e.2.1, e.2.2)) = .ok (true, t, calls)) ↔ ∃ s calls, x = .ok (true, s, calls) := by
  constructor
  · rintro ⟨t, calls, known⟩
    obtain ⟨⟨failed, s, calls'⟩, is, ends⟩ := ok_of_map known
    obtain ⟨rfl, -⟩ := Prod.mk.inj ends
    exact ⟨s, calls', is⟩
  · rintro ⟨s, calls, rfl⟩
    exact ⟨_, _, rfl⟩

/-! ### Which messages are turned away -/

/-- On its shard the message begins a transaction, and one of the commands fails
    before an argument is missing. -/
structure DeniedSingle (cmds : List Command) (d : Delivery) (rocks : Env) : Prop where
  type : d.pkt.msgtype = 0
  leader : d.pkt.leader = d.worker_id
  opened : (rocks.shard d.worker_id).tx_db = true
  empty : (rocks.shard d.worker_id).tx = none
  fine : rocks.lib.fails .begin = false
  denies : Denies (Ledger.serve rocks.lib.faults) cmds
    ⟨(rocks.shard d.worker_id).savepoint_count + 1, some (begun (contents (rocks.shard d.worker_id).committed)),
      rocks.lib.clock + 2⟩

/-- On the only worker the message starts with a command, and one of the commands
    fails before an argument is missing. -/
structure DeniedMulti (cmds : List Command) (d : Delivery) (rocks : Env) : Prop where
  type : d.pkt.msgtype = 1
  leader : d.pkt.leader = 0
  alone : rocks.num_workers = 1
  begins : Begins d.pkt.message
  denies : Denies (Ledger.share rocks.lib.faults (rocks.shard 0).tx_db (contents (rocks.shard 0).committed)) cmds
    (ledgerOf (rocks.cell 0))

private theorem single_denies_iff {cmds : List Command} {d : Delivery} {rocks : Env}
    (opened : (rocks.shard d.worker_id).tx_db = true) :
    Denies (Ledger.serve rocks.lib.faults) cmds
        ⟨(rocks.shard d.worker_id).savepoint_count + 1, some (begun (contents (rocks.shard d.worker_id).committed)),
          rocks.lib.clock + 2⟩ ↔
      ∃ c calls, runCommands singleCell cmds (started d.worker_id ((Env.received rocks).cell d.worker_id)) =
        .ok (true, c, calls) := by
  have start : ledgerOf (started d.worker_id ((Env.received rocks).cell d.worker_id)) =
      ⟨(rocks.shard d.worker_id).savepoint_count + 1, some (begun (contents (rocks.shard d.worker_id).committed)),
        rocks.lib.clock + 2⟩ := ledgerOf_serving (started_serving d.worker_id opened)
  rw [← start]
  refine denies_iff (fun cmd c stood => ?_) (fun _ _ _ _ => singleCell_standing) (.refl _)
  have faults : c.lib.faults = rocks.lib.faults := stood.faults
  rw [← faults]
  exact serve_turned cmd c

private theorem multi_denies_iff {cmds : List Command} {rocks : Env} :
    Denies (Ledger.share rocks.lib.faults (rocks.shard 0).tx_db (contents (rocks.shard 0).committed)) cmds
        (ledgerOf (rocks.cell 0)) ↔
      ∃ c calls, runCommands multiCell cmds ((Env.received rocks).cell 0) = .ok (true, c, calls) := by
  have start : ledgerOf (rocks.cell 0) = ledgerOf ((Env.received rocks).cell 0) := rfl
  rw [start]
  refine denies_iff (fun cmd c stood => ?_) (fun _ _ _ _ => multiCell_standing) (.refl _)
  have faults : c.lib.faults = rocks.lib.faults := stood.faults
  have opened : c.tx_db = (rocks.shard 0).tx_db := stood.opened
  have committed : c.committed = (rocks.shard 0).committed := stood.committed
  rw [← faults, ← opened, ← committed]
  exact share_turned cmd c

theorem abort_shard_committed {fuel : Nat} {c c' : Cell} {ret : Int} (run : abort_shard fuel c = .ok (ret, c')) :
    c'.committed = c.committed :=
  abort_shard_keeps (fun c' => c'.committed = c.committed)
    (fun _ _ _ same ran => (singleCell_standing ran).committed.trans same) (fun _ _ _ same => same) rfl run

/-- Where one shard keeps its contents, all do. -/
private theorem contents_put {rocks : Env} {w : Nat} {c : Cell} (same : c.committed = (rocks.shard w).committed) (i : Nat) :
    contents ((rocks.put w c).shard i).committed = contents (rocks.shard i).committed := by
  by_cases here : i = w
  · rw [here, put_shard_self, same]
  · rw [put_shard_other rocks w c here]

private theorem begins_assigned {undef : Int} {text : Text} (begins : Begins text) : Assigned undef text :=
  fun tok head unparsed => by
    have := begins tok head
    rw [unparsed] at this
    cases this

section Reached
variable {num_workers : Nat} (staffed : 0 < num_workers) {disk : Nat → List Write} {faults : Nat → Call → Bool}
  (calm : ∀ t, faults t .rollback = false) {trail : List (Env × (Delivery × Done) × Env)} {last : Env}
  (run : Run Handles (init_database_env num_workers staffed disk faults) trail last) {d : Delivery}
  (worker : d.worker_id < last.num_workers) (short : d.pkt.message.length < MAXBUFSIZE) (enough : MAXBUFSIZE < d.fuel)
include run worker

/-- What is turned away is for nobody here or denied. -/
private theorem turned_denied {done : Done} (answer : d.handle last = .ok done) (ret : done.ret = -1)
    (tested : ∀ pass ∈ done.log, pass.2.isSome) : (d.pkt.msgtype ≠ 1 ∧ ¬ (d.pkt.msgtype = 0 ∧ d.pkt.leader = d.worker_id)) ∨
      DeniedSingle (commandsOf d.pkt.message) d last ∨ DeniedMulti (commandsOf d.pkt.message) d last := by
  have negative : done.ret ≠ 0 := by omega
  cases course_cases worker answer with
  | astray type other => exact .inl ⟨type, other⟩
  | crowded type crowded =>
    rw [quiet_blocked d (reached_quiet staffed run) type crowded] at answer
    cases answer
  | busy _ _ _ zero => exact absurd zero negative
  | unbegun _ _ _ _ _ zero => exact absurd zero negative
  | committed _ _ _ _ _ _ zero => exact absurd zero negative
  | aborted type leader opened empty fine ran =>
    exact .inr (.inl ⟨type, leader, opened, empty, fine, (single_denies_iff opened).mpr ⟨_, _, ran⟩⟩)
  | @executed executes failed c c' ran settled zero left =>
    obtain ⟨type, leader, first, alone, _⟩ := executes
    rw [Delivery.handle, first] at answer
    cases failed with
    | true =>
      exact .inr (.inr ⟨type, leader, alone, (multi_log type leader alone answer).mp tested,
        multi_denies_iff.mpr ⟨_, _, ran⟩⟩)
    | false => exact absurd zero negative
  | unheard type leader first alone unassigned =>
    rw [Delivery.handle, first] at answer
    exact absurd (begins_assigned ((multi_log type leader alone answer).mp tested)) unassigned

include calm short enough

private theorem DeniedSingle.turned (denied : DeniedSingle (commandsOf d.pkt.message) d last) : Enforced moves d last := by
  simp only [Enforced, handle_moves]
  obtain ⟨rested, same⟩ := reached_rested staffed run
  obtain ⟨type, leader, opened, empty, fine, denies⟩ := denied
  obtain ⟨c, calls, ran⟩ := (single_denies_iff opened).mp denies
  obtain ⟨done, answer⟩ := single_returns rested (fun t => by rw [same]; exact calm t) short enough d.app d.undef d.mem
    type leader opened empty fine ⟨_, ran⟩
  have tested := single_log type leader opened empty fine answer
  refine ⟨done, answer, ?_⟩
  cases course_cases worker answer with
  | astray _ other => exact absurd ⟨type, leader⟩ other
  | crowded multi => omega
  | busy _ _ busy =>
    rcases busy with closed | taken
    · rw [opened] at closed
      cases closed
    · exact absurd empty taken
  | unbegun _ _ _ _ faulty =>
    rw [fine] at faulty
    cases faulty
  | committed _ _ _ _ _ ran' =>
    rw [ran] at ran'
    cases ran'
  | @aborted _ _ _ _ _ c₁ c' _ ran' aborted ret left =>
    refine ⟨ret, fun i => ?_, tested⟩
    have stood := runCommands_standing (fun _ _ _ _ => singleCell_standing) ran'
    rw [left]
    exact contents_put ((abort_shard_committed aborted).trans stood.committed) i
  | executed executes => have := executes.type; omega
  | unheard multi => omega

private theorem DeniedMulti.turned (denied : DeniedMulti (commandsOf d.pkt.message) d last) : Enforced moves d last := by
  simp only [Enforced, handle_moves]
  obtain ⟨rested, same⟩ := reached_rested staffed run
  obtain ⟨type, leader, alone, begins, denies⟩ := denied
  obtain ⟨c, calls, ran⟩ := multi_denies_iff.mp denies
  have first : d.worker_id = 0 := by omega
  have assigned : Assigned d.undef d.pkt.message := begins_assigned begins
  obtain ⟨done, answer⟩ := multi_message_returns rested (fun t => by rw [same]; exact calm t) short enough type leader alone
    d.app d.undef d.mem assigned ⟨_, ran⟩
  obtain ⟨failed, c₁, c', ran', settled, left, ret⟩ := handle_executed type leader alone assigned answer
  rw [ran] at ran'
  cases ran'
  have stood := runCommands_standing (fun _ _ _ _ => multiCell_standing) ran
  have committed : c'.committed = ((entered (Env.received last)).shard 0).committed := by
    cases settled with
    | aborts _ aborted => exact (abort_shard_committed aborted).trans stood.committed
    | leaves => exact stood.committed
  refine ⟨done, by rw [Delivery.handle, first]; exact answer, ret, fun i => ?_,
    (multi_log type leader alone answer).mpr begins⟩
  rw [left]
  exact contents_put committed i

/-- Where the text that is copied over itself is moved. -/
private theorem moved_iff : Enforced moves d last ↔ (d.pkt.msgtype ≠ 1 ∧ ¬ (d.pkt.msgtype = 0 ∧ d.pkt.leader = d.worker_id)) ∨
    DeniedSingle (commandsOf d.pkt.message) d last ∨ DeniedMulti (commandsOf d.pkt.message) d last := by
  constructor
  · rintro ⟨done, answer, ret, -, tested⟩
    rw [handle_moves] at answer
    exact turned_denied staffed run worker answer ret tested
  · rintro (⟨type, other⟩ | denied | denied)
    · simp only [Enforced, handle_moves]
      obtain ⟨mem', handles⟩ := handle_astray d.app d.fuel d.undef d.mem d.pkt d.worker_id last (by omega)
      exact ⟨_, handles, rfl, fun _ => rfl, by simp⟩
    · exact denied.turned staffed calm run worker short enough
    · exact denied.turned staffed calm run worker short enough

end Reached

/-- The commands of the front fail on the shard when those of the message do and no copy
    that overlaps is come to before. -/
private theorem single_front_iff {d : Delivery} {rocks : Env} :
    (∃ c calls, runCommands singleCell (frontOf d.pkt.message)
        (started d.worker_id ((Env.received rocks).cell d.worker_id)) = .ok (true, c, calls)) ↔
      Safe (single d.worker_id) d.undef (markedOf none d.pkt.message) (some 0)
          ((Env.received rocks).put d.worker_id (started d.worker_id ((Env.received rocks).cell d.worker_id))) ∧
        ∃ c calls, runCommands singleCell (commandsOf d.pkt.message)
          (started d.worker_id ((Env.received rocks).cell d.worker_id)) = .ok (true, c, calls) := by
  have onCell (cmds : List Command) (c : Cell) :
      (∃ rocks' calls, runCommands (single d.worker_id) cmds ((Env.received rocks).put d.worker_id c) = .ok (true, rocks', calls)) ↔
        ∃ c' calls, runCommands singleCell cmds c = .ok (true, c', calls) := by
    rw [runCommands_single]
    exact fails_map_iff _
  rw [← onCell, ← onCell]
  exact frontOf_fails_iff _ (.inl rfl) _

private theorem multi_front_iff {d : Delivery} {rocks : Env} (alone : rocks.num_workers = 1) (begins : Begins d.pkt.message) :
    (∃ c calls, runCommands multiCell (frontOf d.pkt.message) ((Env.received rocks).cell 0) = .ok (true, c, calls)) ↔
      Safe multi d.undef (markedOf none d.pkt.message) none (entered (Env.received rocks)) ∧
        ∃ c calls, runCommands multiCell (commandsOf d.pkt.message) ((Env.received rocks).cell 0) = .ok (true, c, calls) := by
  have onCell (cmds : List Command) :
      (∃ rocks' calls, runCommands multi cmds (entered (Env.received rocks)) = .ok (true, rocks', calls)) ↔
        ∃ c' calls, runCommands multiCell cmds ((Env.received rocks).cell 0) = .ok (true, c', calls) := by
    have onEnv := runCommands_multi (entered (Env.received rocks)) alone cmds ((Env.received rocks).cell 0)
    rw [entered_put] at onEnv
    rw [onEnv]
    exact fails_map_iff _
  rw [← onCell, ← onCell]
  exact frontOf_fails_iff _ (.inr ⟨rfl, begins⟩) _

/-- In every state that is reached, a message, malformed or not, is turned away as the
    grammar demands exactly if it is for nobody here, or one of its commands fails before
    an argument is missing; and whatever `strcpy` leaves of text that is copied over
    itself, exactly if such a command stands in front of the first copy of that kind. -/
theorem enforced_iff {num_workers : Nat} (staffed : 0 < num_workers) {disk : Nat → List Write}
    {faults : Nat → Call → Bool} (calm : ∀ t, faults t .rollback = false)
    {trail : List (Env × (Delivery × Done) × Env)} {last : Env}
    (run : Run Handles (init_database_env num_workers staffed disk faults) trail last) (d : Delivery)
    (worker : d.worker_id < last.num_workers) (short : d.pkt.message.length < MAXBUFSIZE) (enough : MAXBUFSIZE < d.fuel) :
    (Enforced moves d last ↔ (d.pkt.msgtype ≠ 1 ∧ ¬ (d.pkt.msgtype = 0 ∧ d.pkt.leader = d.worker_id)) ∨
      DeniedSingle (commandsOf d.pkt.message) d last ∨ DeniedMulti (commandsOf d.pkt.message) d last) ∧
    ((∀ strcpy, Documented strcpy → Enforced strcpy d last) ↔
      (d.pkt.msgtype ≠ 1 ∧ ¬ (d.pkt.msgtype = 0 ∧ d.pkt.leader = d.worker_id)) ∨
      DeniedSingle (frontOf d.pkt.message) d last ∨ DeniedMulti (frontOf d.pkt.message) d last) := by
  have moved := moved_iff staffed calm run worker short enough
  refine ⟨moved, fun always => ?_, fun cases strcpy documented => ?_⟩
  · obtain ⟨done, answer, -⟩ := always wipes wipes_documented
    have sound := handle_wiped answer
    rcases moved.mp (always moves moves_documented) with astray | ⟨type, leader, opened, empty, fine, denies⟩ |
      ⟨type, leader, alone, begins, denies⟩
    · exact .inl astray
    · refine .inr (.inl ⟨type, leader, opened, empty, fine, (single_denies_iff opened).mpr (single_front_iff.mpr ⟨?_, ?_⟩)⟩)
      · exact sound.single type leader opened empty fine
      · exact (single_denies_iff opened).mp denies
    · refine .inr (.inr ⟨type, leader, alone, begins, multi_denies_iff.mpr ((multi_front_iff alone begins).mpr ⟨?_, ?_⟩)⟩)
      · exact sound.multi type leader (by omega) alone
      · exact multi_denies_iff.mp denies
  · suffices both : Sound d last ∧ Enforced moves d last by
      obtain ⟨sound, done, answer, rest⟩ := both
      rw [handle_moves, ← handle_same documented sound] at answer
      exact ⟨done, answer, rest⟩
    rcases cases with astray | ⟨type, leader, opened, empty, fine, denies⟩ | ⟨type, leader, alone, begins, denies⟩
    · refine ⟨⟨fun type leader => absurd ⟨type, leader⟩ astray.2, fun type => absurd type astray.1⟩, moved.mpr (.inl astray)⟩
    · obtain ⟨safe, fails⟩ := single_front_iff.mp ((single_denies_iff opened).mp denies)
      exact ⟨⟨fun _ _ _ _ _ => safe, fun multi => by omega⟩,
        moved.mpr (.inr (.inl ⟨type, leader, opened, empty, fine, (single_denies_iff opened).mpr fails⟩))⟩
    · obtain ⟨safe, fails⟩ := (multi_front_iff alone begins).mp (multi_denies_iff.mp denies)
      exact ⟨⟨fun single => by omega, fun _ _ _ _ => safe⟩,
        moved.mpr (.inr (.inr ⟨type, leader, alone, begins, multi_denies_iff.mpr fails⟩))⟩

/-- `b@b@r 1 w 2 b` is turned away for its second rollback, in front of the copy of
    `w 2 b` over itself. -/
theorem second_rollback_denied :
    (∀ strcpy, Documented strcpy → Enforced strcpy { plain 0 (ascii "b@b@r 1 w 2 b") with fuel := 2 * MAXBUFSIZE }
      (init_database_env 1 (by decide) (fun _ => []) (fun _ _ => false))) ∧
    frontOf (ascii "b@b@r 1 w 2 b") ≠ commandsOf (ascii "b@b@r 1 w 2 b") := by
  have cmds : frontOf (plain 0 (ascii "b@b@r 1 w 2 b")).pkt.message =
      [.rollback, .rollback, .read (some (ascii "1"))] := by decide +kernel
  refine ⟨(enforced_iff (by decide) (fun _ => rfl) .stay _ Nat.one_pos (by decide +kernel) (by decide)).2.mpr
    (.inr (.inl ⟨by decide +kernel, by decide +kernel, rfl, rfl, rfl, ?_⟩)), by decide +kernel⟩
  change Denies _ (frontOf (plain 0 (ascii "b@b@r 1 w 2 b")).pkt.message) _
  rw [cmds]
  trivial

/-- `w 1 a b` has a word too many and is answered 0; `w 1` has no value, and the
    handler works with `NULL`. -/
theorem malformed_served :
    (Malformed (ascii "w 1 a b") ∧ (plain 0 (ascii "w 1 a b")).pkt.message = ascii "w 1 a b" ∧ ∀ strcpy, Documented strcpy →
      ¬ Enforced strcpy (plain 0 (ascii "w 1 a b")) (init_database_env 1 (by decide) (fun _ => []) (fun _ _ => false))) ∧
    Malformed (ascii "w 1") ∧ (plain 0 (ascii "w 1")).pkt.message = ascii "w 1" ∧ ∀ strcpy, Documented strcpy →
      Overlaps.handle strcpy (plain 0 (ascii "w 1")) (init_database_env 1 (by decide) (fun _ => []) (fun _ _ => false)) =
        .error .null := by
  have four : words (ascii "w 1 a b") = [ascii "w", ascii "1", ascii "a", ascii "b"] := by decide +kernel
  have two : words (ascii "w 1") = [ascii "w", ascii "1"] := by decide +kernel
  have letters : ascii "w" ≠ ascii "r" ∧ ascii "w" ≠ ascii "d" := by decide
  have apart : Apart (plain 0 (ascii "w 1 a b")).pkt.message ∧ Apart (plain 0 (ascii "w 1")).pkt.message := by
    decide +kernel
  refine ⟨⟨⟨ascii "w 1 a b", by decide +kernel, by decide, ?_⟩, by decide +kernel, fun strcpy documented => ?_⟩,
    ⟨ascii "w 1", by decide +kernel, by decide, ?_⟩, by decide +kernel, fun strcpy documented => ?_⟩
  · simp [Grammatical, four]
  · rintro ⟨done, answer, ret, _⟩
    obtain ⟨done', answer', ret'⟩ := ok_of_map (b := (0 : Int)) (f := Done.ret)
      (a := (plain 0 (ascii "w 1 a b")).handle (init_database_env 1 (by decide) (fun _ => []) (fun _ _ => false)))
      (by decide +kernel)
    rw [handle_same documented (apart_sound _ apart.1), answer'] at answer
    cases answer
    omega
  · simp [Grammatical, two, letters]
  · have crashes : ((plain 0 (ascii "w 1")).handle
        (init_database_env 1 (by decide) (fun _ => []) (fun _ _ => false))).map Done.ret = .error .null := by decide +kernel
    exact (handle_same documented (apart_sound _ apart.2)).trans (map_error crashes)

end Shardb.Grammar
