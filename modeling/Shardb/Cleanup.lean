import Shardb.MultiPartition
import Shardb.SinglePartition

/-!
# What a message leaves on the shards

`play` is a reference for the commands of a multi-partition message: there is no
working copy until a data command begins one, and a rollback that goes behind
the first snapshot is a verdict of its own. The shard follows it
(`play_meets`), and the verdict says whether the message tidies up.
-/

namespace Shardb.Cleanup
open Shardb.Bytes (Text ascii)
open Shardb.CStrings Shardb.Loops Shardb.Journal Shardb.Rocks Shardb.Datastore Shardb.Handlers Shardb.Server Shardb.Tokens
open Shardb.Handling Shardb.Messages Shardb.Interpreter Shardb.Routing Shardb.Savepoints Shardb.SinglePartition
open Shardb.MultiPartition

/-- No shard has a transaction or counts save points. -/
def Clean (rocks : Env) : Prop := ∀ i, (rocks.shard i).tx = none ∧ (rocks.shard i).savepoint_count = 0

/-! ### The reference -/

/-- How commands end: one of them is refused, one goes back behind the first
    save point, or all are carried out by time `t`, on a working copy if one was
    begun. -/
inductive Verdict
  | refused
  | sunk
  | ended (ws : Option (Workspace Contents)) (t : Nat)

/-- A command on a working copy. -/
def work (faults : Nat → Call → Bool) (t : Nat) (ws : Workspace Contents) (cmd : Command) : Verdict :=
  if Interpreter.refused faults t cmd then .refused
  else if cmd = .rollback ∧ ws.snapshots.length ≤ 1 then .sunk
  else
    match step ws cmd with
    | none => .refused
    | some ws => .ended (some ws) (t + 1)

/-- A command of a multi-partition message. -/
def turn (faults : Nat → Call → Bool) (opened : Bool) (base : Contents) (t : Nat) :
    Option (Workspace Contents) → Command → Verdict
  | some ws, cmd => if Routed cmd then work faults t ws cmd else .refused
  | none, .savepoint => .ended none t
  | none, .rollback => .sunk
  | none, cmd =>
    if Routed cmd ∧ opened = true ∧ faults t .begin = false then work faults (t + 2) (begun base) cmd else .refused

def play (faults : Nat → Call → Bool) (opened : Bool) (base : Contents) :
    Nat → Option (Workspace Contents) → List Command → Verdict
  | t, ws, [] => .ended ws t
  | t, ws, cmd :: cmds =>
    match turn faults opened base t ws cmd with
    | .ended ws t => play faults opened base t ws cmds
    | verdict => verdict

/-! ### The shard follows it -/

/-- The shard is where the reference is. -/
def Stands (c : Cell) : Option (Workspace Contents) → Prop
  | none => c.tx = none ∧ c.savepoint_count = 0
  | some ws => ∃ tx, Serving c tx ∧ Shown c.committed tx.toBatch = ws ∧ c.savepoint_count = tx.saved.length ∧
      0 < c.savepoint_count

/-- The counter has lost the transaction, or counts below 0 without one. -/
structure Sunken (c : Cell) : Prop where
  low : c.savepoint_count ≤ 0
  lost : c.tx = none → c.savepoint_count < 0

/-- The shard is as the verdict says, and a command failed if it says so. -/
def Meets (failed : Prop) (c : Cell) : Verdict → Prop
  | .refused => failed ∧ ∃ ws, Stands c ws
  | .sunk => Sunken c
  | .ended ws t => ¬ failed ∧ Stands c ws ∧ c.lib.clock = t

private theorem work_meets {cmd : Command} {c c' : Cell} {tx : Transaction} {ret : Int} (serving : Serving c tx)
    (count : c.savepoint_count = tx.saved.length) (positive : 0 < c.savepoint_count)
    (ran : singleCell cmd c = .ok (ret, c')) :
    Meets (ret < 0) c' (work c.lib.faults c.lib.clock (Shown c.committed tx.toBatch) cmd) := by
  have deep : (Shown c.committed tx.toBatch).snapshots.length = tx.saved.length := view_snapshots_length ..
  have shown := carry_shown c.committed c.lib.message tx.toBatch cmd
  cases singleCell_effect serving ran with
  | carried accepted done =>
    have kept := carriedOut_kept serving done
    have depth := kept.depth
    rw [done] at shown
    rw [work, accepted, if_neg Bool.false_ne_true, deep, ← shown]
    simp only [carriedOut] at depth
    split_ifs with last
    · obtain ⟨rfl, one⟩ := last
      simp only [countChange] at depth
      exact ⟨by simp only [carriedOut, countChange]; omega, by rintro ⟨⟩⟩
    · refine ⟨by omega, ⟨_, kept.serving, rfl, ?_, ?_⟩, rfl⟩
      · simp only [carriedOut]
        omega
      · simp only [carriedOut]
        cases cmd with
        | rollback =>
          have more : 1 < tx.saved.length := by simpa using last
          simp only [countChange]
          omega
        | _ => simp only [countChange]; omega
  | failed ok reason =>
    have stays : ∃ ws, Stands { c with lib := c.lib.tick (eventOf tx.id ok cmd) } ws :=
      ⟨some _, tx, ⟨serving.opened, serving.slot⟩, rfl, count, positive⟩
    rw [work]
    split_ifs with faulty last
    · exact ⟨by omega, stays⟩
    · obtain ⟨rfl, -⟩ := last
      have none_left : tx.restore = none := reason.resolve_left faulty
      cases saved : tx.saved with
      | nil =>
        rw [saved, List.length_nil] at count
        omega
      | cons newest older => simp [Batch.restore, saved] at none_left
    · rw [reason.resolve_left faulty] at shown
      rw [← shown]
      exact ⟨by omega, stays⟩

private theorem turn_data (faults : Nat → Call → Bool) (opened : Bool) (base : Contents) (t : Nat) {cmd : Command}
    (data : isData cmd) : turn faults opened base t none cmd =
      if Routed cmd ∧ opened = true ∧ faults t .begin = false then work faults (t + 2) (begun base) cmd
      else .refused := by
  cases cmd with
  | savepoint => cases data
  | rollback => cases data
  | _ => rfl

theorem turn_meets {cmd : Command} {c c' : Cell} {ws : Option (Workspace Contents)} {ret : Int} (stands : Stands c ws)
    (effect : MultiEffect cmd c ret c') :
    Meets (ret < 0) c' (turn c.lib.faults c.tx_db (contents c.committed) c.lib.clock ws cmd) := by
  cases effect with
  | refused lib data faults message reason =>
    cases ws with
    | none =>
      obtain ⟨empty, zero⟩ := stands
      rw [turn_data _ _ _ _ data, if_neg]
      · exact ⟨by omega, none, empty, zero⟩
      · rintro ⟨routed, opened, fine⟩
        rcases reason with astray | ⟨_, closed | taken | faulty⟩
        · exact astray routed
        · rw [closed] at opened
          cases opened
        · exact taken empty
        · exact absurd (fine.symm.trans faulty) Bool.false_ne_true
    | some ws =>
      obtain ⟨tx, serving, shown, count, positive⟩ := stands
      have astray : ¬ Routed cmd := reason.resolve_right fun idle => by omega
      rw [turn, if_neg astray]
      exact ⟨by omega, some ws, tx, ⟨serving.opened, serving.slot⟩, shown, count, positive⟩
  | begins data routed zero opened empty fine ran =>
    cases ws with
    | none =>
      have serving : Serving (fresh c) (firstTransaction c) := ⟨opened, rfl⟩
      rw [turn_data _ _ _ _ data, if_pos ⟨routed, opened, fine⟩]
      exact work_meets serving rfl Int.one_pos ran
    | some ws =>
      obtain ⟨tx, serving, _⟩ := stands
      rw [serving.slot] at empty
      cases empty
  | works routed counting ran =>
    cases ws with
    | none =>
      have zero := stands.2
      split_ifs at counting <;> omega
    | some ws =>
      obtain ⟨tx, serving, rfl, count, positive⟩ := stands
      rw [turn, if_pos routed]
      exact work_meets serving count positive ran
  | passes savepoint low =>
    subst savepoint
    cases ws with
    | none => exact ⟨by omega, stands, rfl⟩
    | some ws =>
      obtain ⟨tx, _, _, _, positive⟩ := stands
      omega
  | sinks rollback low =>
    subst rollback
    cases ws with
    | none => exact ⟨by simp only; omega, fun _ => by simp only; have := stands.2; omega⟩
    | some ws =>
      obtain ⟨tx, _, _, _, positive⟩ := stands
      omega

/-- What has sunk stays down. -/
theorem effect_sunken {cmd : Command} {c c' : Cell} {ret : Int} (sunken : Sunken c)
    (effect : MultiEffect cmd c ret c') : Sunken c' := by
  have low := sunken.low
  cases effect with
  | refused => exact ⟨low, sunken.lost⟩
  | begins data routed zero opened empty =>
    have := sunken.lost empty
    omega
  | works routed counting ran =>
    have noChange := countChange_data (data_of_low counting low).1
    rcases idle_or_serving c with idle | ⟨tx, serving⟩
    · rw [(singleCell_idle idle ran).2]
      exact sunken
    · cases singleCell_effect serving ran with
      | carried => exact ⟨by simp only [carriedOut]; omega, by rintro ⟨⟩⟩
      | failed => exact ⟨low, sunken.lost⟩
  | passes => exact sunken
  | sinks => exact ⟨by simp only; omega, fun _ => by simp only; omega⟩

/-- The shard follows the reference through a message. -/
theorem play_meets : ∀ {cmds : List Command} {c c' : Cell} {ws : Option (Workspace Contents)} {failed : Bool}
    {calls : List (Command × Int)}, Stands c ws → runCommands multiCell cmds c = .ok (failed, c', calls) →
    Meets (failed = true) c' (play c.lib.faults c.tx_db (contents c.committed) c.lib.clock ws cmds) := by
  intro cmds
  induction cmds with
  | nil =>
    intro c c' ws failed calls stands run
    cases run
    exact ⟨Bool.false_ne_true, stands, rfl⟩
  | cons cmd cs ih =>
    intro c c' ws failed calls stands run
    obtain ⟨ret, next, ran, first⟩ := runCommands_cons _ run
    have effect := multiCell_effect ran
    have same := effect.standing
    have meets := turn_meets stands effect
    rw [play]
    cases turned : turn c.lib.faults c.tx_db (contents c.committed) c.lib.clock ws cmd with
    | refused =>
      rw [turned] at meets
      obtain ⟨negative, left⟩ := meets
      rcases first with ⟨_, fails, rfl, _⟩ | ⟨zero, _⟩
      · exact ⟨fails, left⟩
      · omega
    | sunk =>
      rw [turned] at meets
      rcases first with ⟨_, _, rfl, _⟩ | ⟨_, later, rest, _⟩
      · exact meets
      · exact runCommands_keeps multiCell Sunken (fun _ _ _ _ sunken ran => effect_sunken sunken (multiCell_effect ran))
          meets rest
    | ended ws' t =>
      rw [turned] at meets
      obtain ⟨zero, stands', rfl⟩ := meets
      rcases first with ⟨negative, _⟩ | ⟨_, later, rest, _⟩
      · exact absurd negative zero
      · have := ih stands' rest
        rw [same.faults, same.opened, same.committed] at this
        exact this

/-- A message that ends so leaves nothing behind. -/
def Verdict.Tidy (faults : Nat → Call → Bool) : Verdict → Prop
  | .refused | .ended none _ => True
  | .sunk => False
  | .ended (some _) t => faults t .commit = false

theorem settled_clean {fuel : Nat} {failed : Bool} {c c' : Cell} {verdict : Verdict}
    (meets : Meets (failed = true) c verdict) (settled : Settled fuel c failed c') :
    (c'.tx = none ∧ c'.savepoint_count = 0) ↔ verdict.Tidy c.lib.faults := by
  cases verdict with
  | refused =>
    obtain ⟨rfl, ws, stands⟩ := meets
    refine iff_of_true ?_ trivial
    cases ws with
    | none =>
      cases settled with
      | aborts counting => exact absurd stands.2 (by omega)
      | leaves => exact stands
    | some ws =>
      obtain ⟨tx, serving, _, _, positive⟩ := stands
      cases settled with
      | aborts counting aborted =>
        have gone := abort_shard_aborted serving aborted
        exact ⟨gone.slot, gone.counted (by omega)⟩
      | leaves _ low => omega
  | sunk =>
    have low : c.savepoint_count ≤ 0 := meets.low
    refine iff_of_false ?_ id
    cases settled with
    | commits counting => omega
    | aborts counting => omega
    | leaves =>
      rintro ⟨empty, zero⟩
      have := meets.lost empty
      omega
  | ended ws t =>
    obtain ⟨fine, stands, rfl⟩ := meets
    obtain rfl : failed = false := eq_false_of_ne_true fine
    cases ws with
    | none =>
      refine iff_of_true ?_ trivial
      cases settled with
      | commits counting => exact absurd stands.2 (by omega)
      | leaves => exact stands
    | some ws =>
      obtain ⟨tx, serving, _, _, positive⟩ := stands
      cases settled with
      | commits =>
        rw [commit_shard_serving serving]
        cases faulty : c.lib.fails .commit with
        | true => exact iff_of_false (by simp [serving.slot]) fun fine => by cases fine.symm.trans faulty
        | false => exact iff_of_true ⟨rfl, rfl⟩ faulty
      | leaves _ low => omega

/-! ### Messages -/

/-- When a message ends with its commit the library reports no error, and a
    multi-partition message never rolls back behind the first save point. -/
structure Tidy (undef : Int) (pkt : Mbuf) (w : Nat) (rocks : Env) : Prop where
  single : pkt.msgtype = 0 → pkt.leader = w → (rocks.shard w).tx_db = true →
    rocks.lib.faults rocks.lib.clock .begin = false →
    (interpretAt rocks.lib.faults (rocks.lib.clock + 2) (begun (contents (rocks.shard w).committed))
      (commandsOf pkt.message)).isSome →
    rocks.lib.faults (rocks.lib.clock + 2 + (commandsOf pkt.message).length) .commit = false
  multi : pkt.msgtype = 1 → pkt.leader = 0 → rocks.num_workers = 1 → Assigned undef pkt.message →
    (play rocks.lib.faults (rocks.shard 0).tx_db (contents (rocks.shard 0).committed) rocks.lib.clock none
      (commandsOf pkt.message)).Tidy rocks.lib.faults

private theorem clean_put {rocks : Env} (clean : Clean rocks) (i : Nat) (c : Cell) :
    Clean (rocks.put i c) ↔ c.tx = none ∧ c.savepoint_count = 0 := by
  constructor
  · intro all
    have here := all i
    rw [put_shard_self] at here
    exact here
  · intro here j
    by_cases same : j = i
    · rw [same, put_shard_self]
      exact here
    · rw [put_shard_other rocks i c same]
      exact clean j

private theorem clean_left {rocks : Env} (clean : Clean rocks) (c : Cell) :
    Clean (leftEnv rocks c) ↔ c.tx = none ∧ c.savepoint_count = 0 :=
  clean_put (show Clean (entered rocks) from clean) 0 c

/-- Messages for one shard. -/
private theorem single_clean (app : App) {fuel w : Nat} {run : Mem Buf → Option Int → Env → Result (LoopEnd Env)}
    {mem : Mem Buf} {pkt : Mbuf} {rocks : Env} {done : Done} {cmds : List Command} (clean : Clean rocks)
    (runs : ∀ rocks e, run mem (some 0) rocks = .ok e →
      runCommands (single w) cmds rocks = .ok (e.tx_failed, e.rocks, callsOf e.log))
    (finished : single_partition app fuel run w mem pkt rocks = .ok done) :
    Clean done.rocks ↔ ((rocks.shard w).tx_db = true → rocks.lib.faults rocks.lib.clock .begin = false →
      (interpretAt rocks.lib.faults (rocks.lib.clock + 2) (begun (contents (rocks.shard w).committed)) cmds).isSome →
      rocks.lib.faults (rocks.lib.clock + 2 + cmds.length) .commit = false) := by
  obtain ⟨empty, zero⟩ := clean w
  cases opened : (rocks.shard w).tx_db with
  | false =>
    rw [single_partition_idle app fuel run w mem pkt rocks (.inl opened)] at finished
    cases finished
    refine iff_of_true ((clean_put clean _ _).mpr ?_) (by simp)
    rw [commit_shard_idle (.inl opened)]
    exact ⟨empty, rfl⟩
  | true =>
    cases fine : rocks.lib.faults rocks.lib.clock .begin with
    | true =>
      rw [single_partition_unbegun app fuel run w mem pkt rocks opened empty fine] at finished
      cases finished
      exact iff_of_true ((clean_put clean _ _).mpr ⟨empty, rfl⟩) (by simp)
    | false =>
      obtain ⟨failed, c, ran, ending⟩ := begun_outcome rocks opened empty fine runs finished
      obtain ⟨tx, kept, outcome⟩ := runCommands_interpreted (started_serving w opened) ran
      rcases ending with ⟨rfl, _, left⟩ | ⟨rfl, _, ret, c', aborted, left⟩
      · obtain ⟨_, accepted, clock, _⟩ := outcome.resolve_right (by simp)
        have accepted' : (interpretAt rocks.lib.faults (rocks.lib.clock + 2)
            (begun (contents (rocks.shard w).committed)) cmds).isSome := Option.isSome_iff_exists.mpr ⟨_, accepted⟩
        have commits : c.lib.fails .commit = rocks.lib.faults (rocks.lib.clock + 2 + cmds.length) .commit := by
          rw [Lib.fails, kept.faults, clock]
          rfl
        rw [left, clean_put clean, commit_shard_serving kept.serving, commits]
        cases faulty : rocks.lib.faults (rocks.lib.clock + 2 + cmds.length) .commit with
        | true => exact iff_of_false (by simp [kept.serving.slot]) (by simp [accepted'])
        | false => exact iff_of_true ⟨rfl, rfl⟩ (by simp)
      · obtain ⟨_, result⟩ := outcome.resolve_left (by simp)
        have refused : interpretAt rocks.lib.faults (rocks.lib.clock + 2) (begun (contents (rocks.shard w).committed))
            cmds = none := result
        have gone := abort_shard_aborted kept.serving aborted
        have depth := kept.depth
        simp only [started, firstTransaction, List.length_singleton] at depth
        have start : (rocks.cell w).savepoint_count = 0 := zero
        rw [left, clean_put clean, refused]
        exact iff_of_true ⟨gone.slot, gone.counted (by omega)⟩ (by simp)

/-- From shards without transactions a message leaves shards without
    transactions exactly if it is tidy. -/
theorem clean_iff (app : App) (fuel : Nat) (undef : Int) (mem : Mem Buf) {pkt : Mbuf} {w : Nat} {rocks : Env}
    {done : Done} (worker : w < rocks.num_workers) (clean : Clean rocks)
    (handled : handle_db_message app fuel undef mem pkt w rocks = .ok done) :
    Clean done.rocks ↔ Tidy undef pkt w rocks := by
  have clean' : Clean (Env.received rocks) := clean
  by_cases type₀ : pkt.msgtype = 0
  · have noMulti : pkt.msgtype ≠ 1 := by omega
    by_cases leader : pkt.leader = w
    · obtain ⟨msg, mem', handles, partly, _⟩ := handle_single app fuel undef mem pkt w rocks type₀ leader
      rw [handles] at handled
      refine (single_clean app clean' partly handled).trans ⟨fun tidy => ⟨fun _ _ => tidy, ?_⟩, fun tidy => ?_⟩
      · exact fun type => absurd type noMulti
      · exact tidy.single type₀ leader
    · obtain ⟨mem', handles⟩ := handle_astray app fuel undef mem pkt w rocks (.inl ⟨type₀, leader⟩)
      rw [handles] at handled
      cases handled
      exact iff_of_true clean' ⟨fun _ here => absurd here leader, fun type => absurd type noMulti⟩
  · by_cases type₁ : pkt.msgtype = 1
    · by_cases alone : pkt.leader = 0 ∧ rocks.num_workers = 1
      · obtain ⟨leader, alone⟩ := alone
        obtain rfl : w = 0 := by omega
        by_cases assigned : Assigned undef pkt.message
        · obtain ⟨failed, c, c', ran, settled, leaves, _⟩ := handle_executed type₁ leader alone assigned handled
          have stands : Stands ((Env.received rocks).cell 0) none := clean 0
          have tidy := settled_clean (play_meets stands ran) settled
          rw [(runCommands_standing (fun _ _ _ _ => multiCell_standing) ran).faults] at tidy
          rw [leaves, clean_left clean', tidy]
          exact ⟨fun fine => ⟨fun type => absurd type type₀, fun _ _ _ _ => fine⟩,
            fun fine => fine.multi type₁ leader alone assigned⟩
        · obtain ⟨_, _, c', settled, leaves⟩ := handle_unassigned type₁ leader alone assigned handled
          have zero : ((Env.received rocks).cell 0).savepoint_count = 0 := (clean 0).2
          rw [leaves, clean_left clean']
          refine iff_of_true ?_ ⟨fun type => absurd type type₀, fun _ _ _ here => absurd here assigned⟩
          cases settled with
          | aborts counting => omega
          | leaves => exact clean 0
      · have crowded : pkt.leader ≠ 0 ∨ rocks.num_workers ≠ 1 := by
          by_contra neither
          exact alone (by omega)
        obtain ⟨_, _, waited⟩ := handle_crowded type₁ crowded handled
        refine iff_of_true (fun i => by rw [waited.shard]; exact clean i) ⟨fun type => absurd type type₀, ?_⟩
        exact fun _ leader workers => absurd ⟨leader, workers⟩ alone
    · obtain ⟨mem', handles⟩ := handle_astray app fuel undef mem pkt w rocks (.inr ⟨type₀, type₁⟩)
      rw [handles] at handled
      cases handled
      exact iff_of_true clean' ⟨fun type => absurd type type₀, fun type => absurd type type₁⟩

/-- `s@w 1 a` tidies up. -/
theorem savepoint_then_write_clean :
    ∃ done, handle_db_message default MAXBUFSIZE 0 ⟨fun _ => [], none⟩ (packet 1 0 (ascii "s@w 1 a")) 0
      (untouched 1 (by decide)) = .ok done ∧ Clean done.rocks := by
  obtain ⟨done, handled, _⟩ := ok_of_map (b := (0 : Int)) (f := Done.ret)
    (a := handle_db_message default MAXBUFSIZE 0 ⟨fun _ => [], none⟩ (packet 1 0 (ascii "s@w 1 a")) 0
      (untouched 1 (by decide))) (by decide +kernel)
  have type : (packet 1 0 (ascii "s@w 1 a")).msgtype ≠ 0 := by decide +kernel
  have cmds : commandsOf (packet 1 0 (ascii "s@w 1 a")).message =
      [.savepoint, .write (some (ascii "1")) (some (ascii "a"))] := by decide +kernel
  refine ⟨done, handled, (clean_iff default MAXBUFSIZE 0 ⟨fun _ => [], none⟩ Nat.one_pos (fun _ => ⟨rfl, rfl⟩)
    handled).mpr ⟨fun single => absurd single type, fun _ _ _ _ => ?_⟩⟩
  rw [cmds]
  exact rfl

/-- `b` on a shard without a transaction leaves the counter at -1. -/
theorem rollback_left_below_zero :
    ∃ rocks done, Clean rocks ∧ (∀ t, rocks.lib.faults t .rollback = false) ∧
      handle_db_message default MAXBUFSIZE 0 ⟨fun _ => [], none⟩ (packet 1 0 (ascii "b")) 0 rocks = .ok done ∧
      ¬ Clean done.rocks := by
  obtain ⟨done, handled, left⟩ := ok_of_map (b := (-1 : Int)) (f := fun done => (done.rocks.shard 0).savepoint_count)
    (a := handle_db_message default MAXBUFSIZE 0 ⟨fun _ => [], none⟩ (packet 1 0 (ascii "b")) 0 (untouched 1 (by decide)))
    (by decide +kernel)
  refine ⟨_, done, fun _ => ⟨rfl, rfl⟩, fun _ => rfl, handled, fun clean => ?_⟩
  rw [(clean 0).2] at left
  cases left

end Shardb.Cleanup
