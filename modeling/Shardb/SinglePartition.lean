import Shardb.Interpreter
import Shardb.Handling
import Shardb.Messages

/-!
# Messages for one shard

What lines 98 to 158 of `server.c` do to their shard: nothing is begun
(`single_partition_idle`, `single_partition_unbegun`) and the handler goes
straight to the commit, or the commands run on a transaction of this message
that is committed or unwound and deleted (`single_partition_begun`).
-/

namespace Shardb.SinglePartition
open Shardb.Bytes Shardb.CStrings Shardb.Loops Shardb.Journal Shardb.Rocks Shardb.Datastore Shardb.Handlers Shardb.Server
open Shardb.Tokens Shardb.Handling Shardb.Messages Shardb.Interpreter

/-! ### The loop on tokens handed to it -/

/-- The command loop where every pass is handed its token, in place of what
    `strtok` finds. -/
def feed {σ : Type} (h : Callees σ) (undef : Int) : List Text → Mem Buf → Option Int → σ →
    List (Option Command × Option Int) → Result (LoopEnd σ)
  | [], mem, _, rocks, log => .ok ⟨false, mem, rocks, log⟩
  | tok :: toks, mem, ret, rocks, log => do
    let a ← dispatch h ⟨.message, 0⟩ ret (mem.strcpy .message tok) rocks
    let log := log ++ [(a.call, a.ret)]
    if a.ret.getD undef < 0 then return ⟨true, a.mem, a.rocks, log⟩
    else feed h undef toks a.mem a.ret a.rocks log

theorem feed_eq {σ : Type} (op : Command → σ → Result (Int × σ)) (undef : Int) : ∀ (toks : List Text) (mem : Mem Buf)
    (ret : Option Int) (rocks : σ) (log : List (Option Command × Option Int)), (∀ tok ∈ toks, (0 : UInt8) ∉ tok) →
    (feed (.of op) undef toks mem ret rocks log).map (fun e => (e.tx_failed, e.rocks, e.log)) =
      runTokens op undef toks ret rocks log := by
  intro toks
  induction toks with
  | nil => intro mem ret rocks log _; rfl
  | cons tok toks ih =>
    intro mem ret rocks log clean
    obtain ⟨mem', carried, _⟩ := dispatch_eq op (strcpy_str mem .message (clean tok List.mem_cons_self))
    simp only [feed, carried, runTokens]
    cases ran : runToken op tok ret rocks with
    | error e => rfl
    | ok answer =>
      obtain ⟨call, ret', rocks'⟩ := answer
      simp only [Except.map, bind_ok]
      split_ifs
      · rfl
      · exact ih mem' ret' rocks' _ (fun tok member => clean tok (List.mem_cons_of_mem _ member))

/-- Written tokens are carried out as the commands they spell, whatever `ret` held. -/
theorem feed_commands {σ : Type} (op : Command → σ → Result (Int × σ)) (undef : Int) {cmds : List Command}
    (written : ∀ c ∈ cmds, WellFormed c) (mem : Mem Buf) (ret : Option Int) (rocks : σ) :
    (feed (.of op) undef (cmds.map spell) mem ret rocks []).map (fun e => (e.tx_failed, e.rocks, callsOf e.log)) =
      runCommands op cmds rocks := by
  have parsed : ∀ c ∈ cmds, parse (spell c) = some c := fun c member => by
    simpa using (parse_spell (written c member) 0 []).1
  have spelled : (cmds.map spell).filterMap parse = cmds := by
    rw [List.filterMap_map]
    exact (List.filterMap_congr (g := some) parsed).trans List.filterMap_some
  have clean : ∀ tok ∈ cmds.map spell, (0 : UInt8) ∉ tok := by
    intro tok member inside
    obtain ⟨c, listed, rfl⟩ := List.mem_map.mp member
    exact ((spell_separate (written c listed) 0).2 0 (List.mem_append_left _ inside)).1 rfl
  -- the first command assigns `ret`
  have assigns : runTokens op undef (cmds.map spell) ret rocks [] = runTokens op undef (cmds.map spell) (some 0) rocks [] := by
    cases cmds with
    | nil => rfl
    | cons c cs => simp only [List.map_cons, runTokens, runToken, parsed c List.mem_cons_self]
  calc (feed (.of op) undef (cmds.map spell) mem ret rocks []).map (fun e => (e.tx_failed, e.rocks, callsOf e.log))
      = (runTokens op undef (cmds.map spell) ret rocks []).map (fun e => (e.1, e.2.1, callsOf e.2.2)) := by
        rw [← feed_eq op undef _ mem _ rocks [] clean]
        cases feed (.of op) undef (cmds.map spell) mem ret rocks [] <;> rfl
    _ = runCommands op cmds rocks := by
        rw [assigns, runTokens_eq op undef _ _ rocks [] (by simp), spelled]
        cases runCommands op cmds rocks <;> rfl

theorem written_complete {cmd : Command} (written : WellFormed cmd) : Complete cmd := by
  cases cmd with
  | read key => obtain ⟨k, rfl, _⟩ := written; exact rfl
  | write key val => obtain ⟨k, v, rfl, rfl, _⟩ := written; exact ⟨rfl, rfl⟩
  | delete key => obtain ⟨k, rfl, _⟩ := written; exact rfl
  | savepoint => trivial
  | rollback => trivial

/-! ### Beginning -/

/-- The shard once the message's transaction is begun and its savepoint counted. -/
def started (w : Nat) (c : Cell) : Cell := { begunCell w c with savepoint_count := c.savepoint_count + 1 }

section Beginning
variable (app : App) (fuel : Nat) (run : Mem Buf → Option Int → Env → Result (LoopEnd Env)) (w : Nat) (mem : Mem Buf)
  (pkt : Mbuf) (rocks : Env)

/-- No transaction is begun on a closed database or over one that is still
    open: the handler commits what it finds and answers 0. -/
theorem single_partition_idle (busy : (rocks.cell w).tx_db = false ∨ (rocks.cell w).tx ≠ none) :
    single_partition app fuel run w mem pkt rocks =
      .ok ⟨0, rocks.put w (commit_shard (rocks.cell w)).2, mem, reply app pkt, []⟩ := by
  simp [single_partition, onShard_eq, begin_busy busy]

/-- When the library reports an error for the begin, `tx[w]` stays `NULL` and
    every following call refuses to work; the answer is 0. -/
theorem single_partition_unbegun (opened : (rocks.cell w).tx_db = true) (empty : (rocks.cell w).tx = none)
    (faulty : rocks.lib.fails .begin = true) :
    single_partition app fuel run w mem pkt rocks =
      .ok ⟨0, rocks.put w { rocks.cell w with savepoint_count := 0, lib := rocks.lib.tick (.begin w none) }, mem,
        reply app pkt, []⟩ := by
  have begins := begin_faulty opened empty w faulty
  have idle : ∀ body, onTransaction body { rocks.cell w with lib := (rocks.cell w).lib.tick (.begin w none) } =
      (-1, { rocks.cell w with lib := (rocks.cell w).lib.tick (.begin w none) }) := onTransaction_idle (.inr empty)
  have nothing : delete_transaction { rocks.cell w with lib := (rocks.cell w).lib.tick (.begin w none) } =
      (0, { rocks.cell w with lib := (rocks.cell w).lib.tick (.begin w none) }) := by
    simp [delete_transaction, opened, empty]
  simp [single_partition, onShard_eq, begins, counted_savepoint, set_savepoint, idle, nothing, commit_shard,
    commit_transaction]
  rfl

/-- Otherwise the commands run on a new transaction with one savepoint. -/
theorem single_partition_begun (opened : (rocks.cell w).tx_db = true) (empty : (rocks.cell w).tx = none)
    (fine : rocks.lib.fails .begin = false) :
    single_partition app fuel run w mem pkt rocks = (do
      let done ← run mem (some 0) (rocks.put w (started w (rocks.cell w)))
      if done.tx_failed then
        let (_, rocks) ← onShardM done.rocks w (abort_shard fuel)
        return ⟨-1, rocks, done.mem, pkt, done.log⟩
      else
        let (_, rocks) := done.rocks.onShard w commit_shard
        return ⟨0, rocks, done.mem, reply app pkt, done.log⟩) := by
  have begins : (begin_transaction w (rocks.cell w)).1 = 0 := by rw [begin_fresh opened empty w fine]
  have saves : counted_savepoint (begin_transaction w (rocks.cell w)).2 = (0, started w (rocks.cell w)) := by
    rw [counted_savepoint, begun_savepoint opened empty fine w]
    rfl
  simp [single_partition, onShard_eq, begins, saves]

end Beginning

/-! ### The commands on the new transaction -/

/-- The transaction a message starts with. -/
def firstTransaction (c : Cell) : Transaction := { writes := [], saved := [[]], id := c.lib.next }

theorem started_serving (w : Nat) {c : Cell} (opened : c.tx_db = true) : Serving (started w c) (firstTransaction c) :=
  ⟨opened, rfl⟩

/-- Single-partition commands change their shard alone. -/
theorem runCommands_single (w : Nat) (cmds : List Command) (rocks : Env) (c : Cell) :
    runCommands (single w) cmds (rocks.put w c) =
      (runCommands singleCell cmds c).map (fun e => (e.1, rocks.put w e.2.1, e.2.2)) :=
  runCommands_map _ (fun cmd c => put_onShardM rocks w c (singleCell cmd)) cmds c

/-- Without a transaction only the counter is cleared. -/
theorem commit_shard_idle {c : Cell} (idle : c.tx_db = false ∨ c.tx = none) :
    (commit_shard c).2 = { c with savepoint_count := 0 } := by
  rw [commit_shard, commit_transaction, onTransaction_idle idle]

theorem commit_shard_serving {c : Cell} {tx : Transaction} (serving : Serving c tx) : (commit_shard c).2 =
    if c.lib.fails .commit then { c with savepoint_count := 0, lib := c.lib.tick (.commit tx.id false) }
    else { c with committed := c.committed ++ tx.writes, tx := none, savepoint_count := 0,
                  lib := c.lib.tick (.commit tx.id true) } := by
  rw [commit_shard, commit_serving serving]
  cases c.lib.fails .commit <;> rfl

/-- How a message that began its transaction ends, when its loop runs `cmds`. -/
theorem begun_outcome {app : App} {fuel w : Nat} {run : Mem Buf → Option Int → Env → Result (LoopEnd Env)} {mem : Mem Buf}
    {pkt : Mbuf} (rocks : Env) {done : Done} {cmds : List Command} (opened : (rocks.cell w).tx_db = true)
    (empty : (rocks.cell w).tx = none) (fine : rocks.lib.fails .begin = false)
    (runs : ∀ rocks e, run mem (some 0) rocks = .ok e →
      runCommands (single w) cmds rocks = .ok (e.tx_failed, e.rocks, callsOf e.log))
    (finished : single_partition app fuel run w mem pkt rocks = .ok done) :
    ∃ failed c, runCommands singleCell cmds (started w (rocks.cell w)) = .ok (failed, c, callsOf done.log) ∧
      ((failed = false ∧ done.ret = 0 ∧ done.rocks = rocks.put w (commit_shard c).2) ∨
        (failed = true ∧ done.ret = -1 ∧ ∃ ret c', abort_shard fuel c = .ok (ret, c') ∧ done.rocks = rocks.put w c')) := by
  rw [single_partition_begun app fuel run w mem pkt rocks opened empty fine] at finished
  obtain ⟨e, ran, finished⟩ := bind_eq_ok.mp finished
  have commands := runs _ _ ran
  rw [runCommands_single] at commands
  obtain ⟨⟨failed, c, calls⟩, onCell, same⟩ := ok_of_map commands
  simp only [Prod.mk.injEq] at same
  obtain ⟨failedIs, rocksIs, rfl⟩ := same
  rw [← failedIs, ← rocksIs] at finished
  cases failed with
  | false =>
    simp only [Bool.false_eq_true, if_false, put_onShard, pure_ok, Except.ok.injEq] at finished
    subst finished
    exact ⟨false, c, onCell, .inl ⟨rfl, rfl, rfl⟩⟩
  | true =>
    simp only [if_true, put_onShardM] at finished
    obtain ⟨_, answered, ended⟩ := bind_eq_ok.mp finished
    obtain ⟨⟨ret, c'⟩, aborted, rfl⟩ := ok_of_map answered
    cases ended
    exact ⟨true, c, onCell, .inr ⟨rfl, rfl, ret, c', aborted, rfl⟩⟩

/-- The record of its passes is that of its loop. -/
theorem begun_log {app : App} {fuel w : Nat} {run : Mem Buf → Option Int → Env → Result (LoopEnd Env)} {mem : Mem Buf}
    {pkt : Mbuf} (rocks : Env) {done : Done} (opened : (rocks.cell w).tx_db = true) (empty : (rocks.cell w).tx = none)
    (fine : rocks.lib.fails .begin = false) (finished : single_partition app fuel run w mem pkt rocks = .ok done) :
    ∃ rocks' e, run mem (some 0) rocks' = .ok e ∧ done.log = e.log := by
  rw [single_partition_begun app fuel run w mem pkt rocks opened empty fine] at finished
  obtain ⟨e, ran, finished⟩ := bind_eq_ok.mp finished
  refine ⟨_, e, ran, ?_⟩
  split_ifs at finished
  · obtain ⟨a, _, ended⟩ := bind_eq_ok.mp finished
    cases ended
    rfl
  · cases finished
    rfl

/-- Conversely it ends when its loop and its abort do. -/
theorem begun_returns (app : App) (fuel : Nat) {w : Nat} (run : Mem Buf → Option Int → Env → Result (LoopEnd Env))
    {mem : Mem Buf} (pkt : Mbuf) (rocks : Env) {cmds : List Command} (opened : (rocks.cell w).tx_db = true)
    (empty : (rocks.cell w).tx = none) (fine : rocks.lib.fails .begin = false)
    (runs : ∀ rocks, (run mem (some 0) rocks).map (fun e => (e.tx_failed, e.rocks, callsOf e.log)) =
      runCommands (single w) cmds rocks)
    (answers : ∃ e, runCommands singleCell cmds (started w (rocks.cell w)) = .ok e)
    (aborts : ∀ c calls, runCommands singleCell cmds (started w (rocks.cell w)) = .ok (true, c, calls) →
      ∃ a, abort_shard fuel c = .ok a) :
    ∃ done, single_partition app fuel run w mem pkt rocks = .ok done := by
  rw [single_partition_begun app fuel run w mem pkt rocks opened empty fine]
  obtain ⟨⟨failed, c, calls⟩, onCell⟩ := answers
  have commands := runs (rocks.put w (started w (rocks.cell w)))
  rw [runCommands_single, onCell] at commands
  obtain ⟨e, ran, same⟩ := ok_of_map commands
  simp only [Prod.mk.injEq] at same
  rw [ran, bind_ok, same.1, same.2.1]
  cases failed with
  | false => exact ⟨_, rfl⟩
  | true =>
    obtain ⟨a, aborted⟩ := aborts c calls onCell
    simp only [if_true, put_onShardM, aborted]
    exact ⟨_, rfl⟩

/-! ### Without errors of the library -/

/-- A message for one shard does what the reference interpreter does: it commits
    the working copy, or it fails and leaves the contents. -/
theorem single_partition_interprets (app : App) (fuel : Nat) (undef : Int) (mem : Mem Buf) (pkt : Mbuf) {w : Nat}
    {rocks : Env} {cmds : List Command} (opened : (rocks.shard w).tx_db = true) (empty : (rocks.shard w).tx = none)
    (count : (rocks.shard w).savepoint_count = 0) (calm : ∀ t c, rocks.lib.faults t c = false)
    (written : ∀ c ∈ cmds, WellFormed c) (enough : cmds.length + 1 < fuel) :
    ∃ done, single_partition app fuel
        (fun mem ret rocks => feed (singleCallees w) undef (cmds.map spell) mem ret rocks []) w mem pkt rocks = .ok done ∧
      (match interpret (begun (contents (rocks.shard w).committed)) cmds with
        | some ws => done.ret = 0 ∧ contents (done.rocks.shard w).committed = ws.copy
        | none => done.ret = -1 ∧
            contents (done.rocks.shard w).committed = contents (rocks.shard w).committed) ∧
      (∀ i, i ≠ w → done.rocks.shard i = rocks.shard i) ∧
      (done.rocks.shard w).tx = none ∧ (done.rocks.shard w).savepoint_count = 0 := by
  have serving := started_serving w (c := rocks.cell w) opened
  have fine : rocks.lib.fails .begin = false := calm _ _
  have runs : ∀ rocks', (feed (singleCallees w) undef (cmds.map spell) mem (some 0) rocks' []).map
      (fun e => (e.tx_failed, e.rocks, callsOf e.log)) = runCommands (single w) cmds rocks' :=
    fun rocks' => feed_commands (single w) undef written mem (some 0) rocks'
  -- as long as the transaction is open the counter is the number of its save points
  have counted : ∀ {failed c calls}, runCommands singleCell cmds (started w (rocks.cell w)) = .ok (failed, c, calls) →
      ∃ tx, Carried (started w (rocks.cell w)) (firstTransaction (rocks.cell w)) c tx ∧
        c.savepoint_count = tx.saved.length := by
    intro failed c calls ran
    obtain ⟨tx, kept, _⟩ := runCommands_interpreted serving ran
    have depth := kept.depth
    simp only [started, firstTransaction, List.length_singleton] at depth
    have start : (rocks.cell w).savepoint_count = 0 := count
    exact ⟨tx, kept, by omega⟩
  obtain ⟨done, finished⟩ := begun_returns app fuel
    (fun mem ret rocks => feed (singleCallees w) undef (cmds.map spell) mem ret rocks []) pkt rocks opened empty fine runs
    (runCommands_returns (fun c member cell => singleCell_returns (written c member) cell) _)
    (by
      intro c calls ran
      obtain ⟨tx, kept, depth⟩ := counted ran
      have bound := runCommands_count serving ran
      refine abort_shard_returns kept.serving (fun t => by rw [kept.faults]; exact calm t _) (by omega) ?_
      have start : (started w (rocks.cell w)).savepoint_count = 1 := by
        change (rocks.shard w).savepoint_count + 1 = 1
        omega
      omega)
  refine ⟨done, finished, ?_⟩
  obtain ⟨failed, c, ran, ending⟩ := begun_outcome rocks opened empty fine
    (fun rocks' e looped => by have := runs rocks'; rw [looped] at this; exact this.symm) finished
  obtain ⟨tx, kept, outcome⟩ := runCommands_interpreted serving ran
  have calmly := interpretAt_calm calm cmds (started w (rocks.cell w)).lib.clock
    (begun (contents (rocks.shard w).committed))
  have others : ∀ c' : Cell, done.rocks = rocks.put w c' → ∀ i, i ≠ w → done.rocks.shard i = rocks.shard i := by
    intro c' left i other
    rw [left, put_shard_other rocks w c' other]
  rcases ending with ⟨rfl, ret, left⟩ | ⟨rfl, ret, ret', c', aborted, left⟩
  · rcases outcome with ⟨_, result, _, _⟩ | ⟨bad, _⟩
    · have meaning : interpret (begun (contents (rocks.shard w).committed)) cmds =
          some (Shown (rocks.shard w).committed tx.toBatch) := calmly.symm.trans result
      have commits : c.lib.fails .commit = false := by
        rw [Lib.fails, kept.faults]
        exact calm _ _
      have committed := commit_shard_serving kept.serving
      rw [commits, if_neg Bool.false_ne_true] at committed
      refine ⟨?_, others _ left, ?_, ?_⟩
      · rw [meaning]
        refine ⟨ret, ?_⟩
        rw [left, put_shard_self, committed, shown_copy]
        simp only [kept.committed]
        rfl
      · rw [left, put_shard_self, committed]
      · rw [left, put_shard_self, committed]
    · cases bad
  · rcases outcome with ⟨bad, _⟩ | ⟨_, result⟩
    · cases bad
    · have meaning : interpret (begun (contents (rocks.shard w).committed)) cmds = none := calmly.symm.trans result
      have cleared := abort_shard_aborted kept.serving aborted
      obtain ⟨tx', kept', depth⟩ := counted ran
      refine ⟨?_, others _ left, ?_, ?_⟩
      · rw [meaning]
        refine ⟨ret, ?_⟩
        rw [left, put_shard_self, cleared.committed, kept.committed]
        rfl
      · rw [left, put_shard_self, cleared.slot]
      · rw [left, put_shard_self]
        exact cleared.counted (by omega)

/-- `w 1 a`, `s`, `d 1`, `b` on an empty database leave key 1 with its value. -/
theorem delete_rolled_back :
    ∃ done, single_partition default 6
        (fun mem ret rocks => feed (singleCallees 0) 0 ([.write (some (ascii "1")) (some (ascii "a")), .savepoint,
          .delete (some (ascii "1")), .rollback].map spell) mem ret rocks []) 0 ⟨fun _ => [], none⟩ default
        (init_database_env 1 (by decide) (fun _ => []) (fun _ _ => false)) = .ok done ∧
      done.ret = 0 ∧ contents (done.rocks.shard 0).committed (ascii "1") = some (ascii "a") := by
  have argument : ∀ text ∈ [ascii "1", ascii "a"], Argument text := by
    unfold Argument
    decide +kernel
  have written : ∀ c ∈ [.write (some (ascii "1")) (some (ascii "a")), .savepoint, .delete (some (ascii "1")), .rollback],
      WellFormed c := by
    intro c member
    simp only [List.mem_cons, List.not_mem_nil, or_false] at member
    rcases member with rfl | rfl | rfl | rfl
    · exact ⟨_, _, rfl, rfl, argument _ (by simp), argument _ (by simp)⟩
    · trivial
    · exact ⟨_, rfl, argument _ (by simp)⟩
    · trivial
  have opened : ((init_database_env 1 (by decide) (fun _ => []) (fun _ _ => false)).shard 0).tx_db = true := rfl
  obtain ⟨done, finished, outcome, _⟩ := single_partition_interprets default 6 0 ⟨fun _ => [], none⟩ default
    opened rfl rfl (fun _ _ => rfl) written (by decide)
  obtain ⟨ret, committed⟩ : done.ret = 0 ∧ contents (done.rocks.shard 0).committed =
      Function.update (fun _ => none) (ascii "1") (some (ascii "a")) := outcome
  exact ⟨done, finished, ret, by rw [committed, Function.update_self]⟩

/-! ### Acknowledged messages -/

/-- The commands a text lists, with `'@'` between them. -/
def listed (text : Text) : List Command := (text.splitOn 64).filterMap parse

/-- Every command of the message ran, successfully, inside a transaction that
    the call began and committed. -/
def Committed (w : Nat) (rocks : Env) (pkt : Mbuf) (done : Done) : Prop :=
  ∃ tx, done.rocks.lib.trace = rocks.lib.trace ++ ([.begin w (some tx), .setSavepoint tx] ++
      (callsOf done.log).map (fun call => eventOf tx true call.1) ++ [.commit tx true]) ∧
    (∀ call ∈ callsOf done.log, 0 ≤ call.2) ∧ (listed pkt.message).Sublist ((callsOf done.log).map Prod.fst)

private theorem committed_calls {w : Nat} {rocks : Env} {pkt : Mbuf} {done : Done} (committed : Committed w rocks pkt done) :
    rocks.lib.trace.length + 3 ≤ done.rocks.lib.trace.length := by
  obtain ⟨tx, trace, _⟩ := committed
  simp [trace]

/-- A commit makes one call at most. -/
private theorem commit_shard_calls (c : Cell) : (commit_shard c).2.lib.trace.length ≤ c.lib.trace.length + 1 := by
  rcases idle_or_serving c with idle | ⟨tx, serving⟩
  · rw [commit_shard_idle idle]
    exact Nat.le_succ _
  · rw [commit_shard_serving serving]
    split_ifs <;> simp

/-- A message for one shard is acknowledged only when it was committed, exactly
    if a transaction can be begun and a message that the interpreter accepts is
    committed without an error and is heard to its end. -/
theorem acknowledged_iff (app : App) (fuel : Nat) (undef : Int) (mem : Mem Buf) {pkt : Mbuf} {w : Nat} (rocks : Env)
    (type : pkt.msgtype = 0) (leader : pkt.leader = w) (enough : pkt.message.length < fuel) :
    (∀ done, handle_db_message app fuel undef mem pkt w rocks = .ok done → done.ret = 0 → Committed w rocks pkt done) ↔
      (rocks.shard w).tx_db = true ∧ (rocks.shard w).tx = none ∧ rocks.lib.faults rocks.lib.clock .begin = false ∧
      ∀ ws, interpretAt rocks.lib.faults (rocks.lib.clock + 2) (begun (contents (rocks.shard w).committed))
          (commandsOf pkt.message) = some ws →
        rocks.lib.faults (rocks.lib.clock + 2 + (commandsOf pkt.message).length) .commit = false ∧
        (listed pkt.message).Sublist (commandsOf pkt.message) := by
  obtain ⟨msg, mem', handles, partly, wholly⟩ := handle_single app fuel undef mem pkt w rocks type leader
  rw [handles]
  constructor
  · intro committed
    -- nothing is begun on a shard that is closed or busy, or when the begin fails
    rcases busy_or_fresh ((Env.received rocks).cell w) with busy | ⟨opened, empty⟩
    · have short := committed_calls
        (committed _ (single_partition_idle app fuel _ w mem' pkt (Env.received rocks) busy) rfl)
      exact absurd (commit_shard_calls ((Env.received rocks).cell w)) (by
        change ¬ _ ≤ rocks.lib.trace.length + 1
        simp only [put_lib] at short
        omega)
    cases fine : (Env.received rocks).lib.fails .begin with
    | true =>
      have short := committed_calls
        (committed _ (single_partition_unbegun app fuel _ w mem' pkt (Env.received rocks) opened empty fine) rfl)
      simp [Env.received] at short
    | false =>
      refine ⟨opened, empty, fine, fun ws accepted => ?_⟩
      have serving := started_serving w (c := (Env.received rocks).cell w) opened
      obtain ⟨c', calls', ran'⟩ := runCommands_accepted serving accepted
      obtain ⟨done, finished⟩ := begun_returns app fuel _ pkt (Env.received rocks)
        opened empty fine (wholly enough) ⟨_, ran'⟩ (by
          intro c calls ran
          rw [ran] at ran'
          cases ran')
      obtain ⟨failed, c, ran, ending⟩ := begun_outcome (Env.received rocks) opened empty fine partly finished
      obtain ⟨tx, kept, outcome⟩ := runCommands_interpreted serving ran
      rw [ran] at ran'
      cases ran'
      rcases ending with ⟨_, ret, left⟩ | ⟨bad, _⟩
      · rcases outcome with ⟨_, _, clock, _⟩ | ⟨bad, _⟩
        · obtain ⟨id, trace, _, heard⟩ := committed done finished ret
          rw [((runCommands_calls _ ran).1 rfl).1] at heard
          refine ⟨?_, heard⟩
          -- the last call of the message is its commit
          have last := congrArg List.getLast? trace
          rw [left, put_lib, commit_shard_serving kept.serving] at last
          cases fails : c'.lib.fails .commit with
          | true =>
            simp only [fails, if_true, tick_trace, ← List.append_assoc, List.getLast?_concat, Option.some.injEq] at last
            cases last
          | false =>
            rw [Lib.fails, kept.faults, clock] at fails
            exact fails
        · cases bad
      · cases bad
  · rintro ⟨opened, empty, fine, accepted⟩ done finished acked
    obtain ⟨failed, c, ran, ending⟩ := begun_outcome (Env.received rocks) opened empty fine partly finished
    rcases ending with ⟨rfl, _, left⟩ | ⟨_, ret, _⟩
    · obtain ⟨tx, kept, outcome⟩ := runCommands_interpreted (started_serving w opened) ran
      rcases outcome with ⟨_, result, clock, trace⟩ | ⟨bad, _⟩
      · obtain ⟨commits, heard⟩ := accepted _ result
        obtain ⟨all, nonneg⟩ := (runCommands_calls _ ran).1 rfl
        have calm : c.lib.fails .commit = false := by
          rw [Lib.fails, kept.faults, clock]
          exact commits
        refine ⟨rocks.lib.next, ?_, nonneg, all ▸ heard⟩
        rw [left, put_lib, commit_shard_serving kept.serving, calm, if_neg Bool.false_ne_true]
        simp only [tick_trace, trace, kept.id, ← all, List.map_map]
        simp [started, begunCell, firstTransaction, Env.received, Env.cell, Function.comp_def]
      · cases bad
    · omega

/-- Without errors `w 1 a` is committed and acknowledged. -/
theorem write_acknowledged :
    ∃ done, handle_db_message default MAXBUFSIZE 0 ⟨fun _ => [], none⟩ (packet 0 0 (ascii "w 1 a")) 0
        (init_database_env 1 (by decide) (fun _ => []) (fun _ _ => false)) = .ok done ∧ done.ret = 0 ∧
      Committed 0 (init_database_env 1 (by decide) (fun _ => []) (fun _ _ => false)) (packet 0 0 (ascii "w 1 a")) done := by
  obtain ⟨done, handled, ret⟩ := ok_of_map (b := (0 : Int)) (f := Done.ret)
    (a := handle_db_message default MAXBUFSIZE 0 ⟨fun _ => [], none⟩ (packet 0 0 (ascii "w 1 a")) 0
      (init_database_env 1 (by decide) (fun _ => []) (fun _ _ => false))) (by decide +kernel)
  have type : (packet 0 0 (ascii "w 1 a")).msgtype = 0 := by decide +kernel
  have leader : (packet 0 0 (ascii "w 1 a")).leader = 0 := by decide +kernel
  have committed := (acknowledged_iff default MAXBUFSIZE 0 ⟨fun _ => [], none⟩
    (init_database_env 1 (by decide) (fun _ => []) (fun _ _ => false)) type leader (by decide +kernel)).mpr
    ⟨rfl, rfl, rfl, fun _ _ => ⟨rfl, by decide +kernel⟩⟩
  exact ⟨done, handled, ret, committed done handled ret⟩

/-- `w 1 a` is acknowledged although its commit fails. -/
theorem failed_commit_acknowledged :
    ∃ rocks done, (rocks.shard 0).tx_db = true ∧ (rocks.shard 0).tx = none ∧
      handle_db_message default MAXBUFSIZE 0 ⟨fun _ => [], none⟩ (packet 0 0 (ascii "w 1 a")) 0 rocks = .ok done ∧
      done.ret = 0 ∧ ¬ Committed 0 rocks (packet 0 0 (ascii "w 1 a")) done := by
  obtain ⟨done, handled, same⟩ := ok_of_map (b := ((0 : Int), some (Event.commit 0 false)))
    (f := fun done : Done => (done.ret, done.rocks.lib.trace.getLast?))
    (a := handle_db_message default MAXBUFSIZE 0 ⟨fun _ => [], none⟩ (packet 0 0 (ascii "w 1 a")) 0
      (init_database_env 1 (by decide) (fun _ => []) (fun _ c => c = .commit))) (by decide +kernel)
  obtain ⟨ret, last⟩ := Prod.mk.inj same
  refine ⟨_, done, rfl, rfl, handled, ret, ?_⟩
  rintro ⟨tx, trace, _⟩
  rw [trace, ← List.append_assoc, List.getLast?_concat] at last
  cases last

end Shardb.SinglePartition
