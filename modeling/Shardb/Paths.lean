import Shardb.Cleanup
import Shardb.Execution
import Shardb.Termination

/-!
# The two ways to execute commands

On a single worker the same commands can come as a message for one shard or for
several. The first begins its transaction and sets a save point before all
commands; the second does so at the first data command, and passes over the `s`
and `b` before it. So the first has more save points, older than all of the
second's (`Related`), and the two agree until a rollback needs one of them.
-/

namespace Shardb.Paths
open Shardb.Bytes (Text ascii)
open Shardb.CStrings Shardb.Journal Shardb.Rocks Shardb.Datastore Shardb.Handlers Shardb.Server Shardb.Tokens
open Shardb.Handling Shardb.Messages Shardb.Interpreter Shardb.Routing Shardb.Savepoints Shardb.SinglePartition
open Shardb.MultiPartition Shardb.Execution Shardb.Cleanup Shardb.Traffic Shardb.Termination

/-! ### Working copies of the two paths -/

/-- The working copy of the multi-partition path, none before its first data
    command, beside that of the single-partition path: the same copy over a part
    of the snapshots, the others being those of the start. -/
def Related (base : Contents) : Option (Workspace Contents) → Workspace Contents → Prop
  | none, ws' => ws'.copy = base ∧ ws'.snapshots.getLast? = some base ∧ ∀ s ∈ ws'.snapshots, s = base
  | some ws, ws' => ws'.copy = ws.copy ∧ ws.snapshots <+: ws'.snapshots ∧ ws.snapshots ≠ []

/-- The save points that the multi-partition path counts. -/
def height : Option (Workspace Contents) → Int
  | none => 0
  | some ws => ws.snapshots.length

theorem related_begun (base : Contents) : Related base none (begun base) :=
  ⟨rfl, rfl, fun _ member => List.mem_singleton.mp member⟩

/-- What a command of the multi-partition path says of the same command on the
    working copy of the other. -/
def Foretells (base : Contents) (ws' : Workspace Contents) (cmd : Command) (s : Slot) : Verdict → Prop
  | .sunk => cmd = .rollback ∧ s.count < 2
  | .refused => cmd ≠ .rollback ∧ step ws' cmd = none
  | .ended ows _ => (cmd = .rollback → 2 ≤ s.count) ∧
      ∃ next, step ws' cmd = some next ∧ Related base ows next ∧ (s.step cmd).count = height ows

private theorem refused_calm {faults : Nat → Call → Bool} (calm : ∀ t c, faults t c = false) (t : Nat) (cmd : Command) :
    Interpreter.refused faults t cmd = false := by
  cases cmd <;> simp [Interpreter.refused, calm]

/-- A command other than a rollback leaves the snapshots, or adds the copy to them. -/
private theorem step_forward {cmd : Command} (forward : cmd ≠ .rollback) {ws ws' : Workspace Contents}
    (same : ws'.copy = ws.copy) :
    (step ws cmd = none ∧ step ws' cmd = none) ∨
      ∃ next next', step ws cmd = some next ∧ step ws' cmd = some next' ∧ next'.copy = next.copy ∧
        ((cmd = .savepoint ∧ next.snapshots = ws.copy :: ws.snapshots ∧ next'.snapshots = ws.copy :: ws'.snapshots) ∨
          (cmd ≠ .savepoint ∧ next.snapshots = ws.snapshots ∧ next'.snapshots = ws'.snapshots)) := by
  cases cmd with
  | read key =>
    cases key with
    | none => exact .inl ⟨rfl, rfl⟩
    | some key =>
      simp only [step, same]
      split_ifs
      · exact .inr ⟨ws, ws', rfl, rfl, same, .inr ⟨by simp, rfl, rfl⟩⟩
      · exact .inl ⟨rfl, rfl⟩
  | write key val =>
    cases key with
    | none => exact .inl ⟨rfl, rfl⟩
    | some key =>
      cases val with
      | none => exact .inl ⟨rfl, rfl⟩
      | some val =>
        refine .inr ⟨_, _, rfl, rfl, ?_, .inr ⟨by simp, rfl, rfl⟩⟩
        simp only [Workspace.write, same]
  | delete key =>
    cases key with
    | none => exact .inl ⟨rfl, rfl⟩
    | some key =>
      refine .inr ⟨_, _, rfl, rfl, ?_, .inr ⟨by simp, rfl, rfl⟩⟩
      simp only [Workspace.write, same]
  | savepoint => exact .inr ⟨_, _, rfl, rfl, same, .inl ⟨rfl, rfl, by simp only [Workspace.push, same]⟩⟩
  | rollback => exact absurd rfl forward

/-- A command on a working copy that was begun. -/
private theorem work_foretells {faults : Nat → Call → Bool} (calm : ∀ t c, faults t c = false) (base : Contents)
    {ws ws' : Workspace Contents} {cmd : Command} {s : Slot} (t : Nat) (related : Related base (some ws) ws')
    (count : (cmd = .rollback → s.count = ws.snapshots.length) ∧
      ∀ next, step ws cmd = some next → (s.step cmd).count = next.snapshots.length) :
    Foretells base ws' cmd s (work faults t ws cmd) := by
  obtain ⟨same, older, deep⟩ := related
  rw [work, refused_calm calm, if_neg Bool.false_ne_true]
  by_cases back : cmd = .rollback
  · subst back
    have start := count.1 rfl
    obtain ⟨newest, rest, split⟩ := List.exists_cons_of_ne_nil deep
    obtain ⟨oldest, whole⟩ := older
    rw [split, List.cons_append] at whole
    split_ifs with low
    · exact ⟨rfl, by have := low.2; omega⟩
    · have popped : step ws .rollback = some ⟨newest, rest⟩ := by simp [step, Workspace.pop, split]
      have popped' : step ws' .rollback = some ⟨newest, rest ++ oldest⟩ := by simp [step, Workspace.pop, ← whole]
      rw [popped]
      have high : ¬ ws.snapshots.length ≤ 1 := fun few => low ⟨rfl, few⟩
      refine ⟨fun _ => by omega, _, popped', ⟨rfl, ⟨oldest, rfl⟩, ?_⟩, count.2 _ popped⟩
      rintro rfl
      rw [split] at high
      exact high (Nat.le_refl 1)
  · rw [if_neg fun low => back low.1]
    rcases step_forward back same with ⟨none_left, none_left'⟩ | ⟨next, next', stepped, stepped', copies, snapshots⟩
    · rw [none_left]
      exact ⟨back, none_left'⟩
    · rw [stepped]
      refine ⟨fun rolled => absurd rolled back, next', stepped', ⟨copies, ?_⟩, count.2 _ stepped⟩
      rcases snapshots with ⟨_, here, there⟩ | ⟨_, here, there⟩
      · rw [here, there]
        exact ⟨(List.prefix_cons_inj _).mpr older, List.cons_ne_nil _ _⟩
      · rw [here, there]
        exact ⟨older, deep⟩

/-- The counter goes with the snapshots. -/
private theorem step_height {cmd : Command} {ws next : Workspace Contents} {s : Slot} (deep : ws.snapshots ≠ [])
    (count : s.count = ws.snapshots.length) (stepped : step ws cmd = some next) :
    (s.step cmd).count = next.snapshots.length := by
  have positive : 0 < ws.snapshots.length := List.length_pos_iff.mpr deep
  by_cases back : cmd = .rollback
  · subst back
    obtain ⟨newest, rest, split⟩ := List.exists_cons_of_ne_nil deep
    simp only [step, Workspace.pop, split, Option.some.injEq] at stepped
    subst stepped
    simp only [Slot.step, count, split, List.length_cons]
    omega
  · have works : if isData cmd then s.count ≠ 0 else 0 < s.count := by split_ifs <;> omega
    rw [Slot.step_works works]
    rcases step_forward back (Eq.refl ws.copy) with ⟨none_left, _⟩ | ⟨next₁, _, stepped₁, _, _, snapshots⟩
    · rw [stepped] at none_left
      cases none_left
    · obtain rfl : next = next₁ := Option.some.inj (stepped.symm.trans stepped₁)
      rcases snapshots with ⟨rfl, here, _⟩ | ⟨other, here, _⟩
      · rw [here]
        simp only [countChange, List.length_cons]
        omega
      · have noChange : countChange cmd = 0 := by
          cases cmd with
          | savepoint => exact absurd rfl other
          | rollback => exact absurd rfl back
          | _ => rfl
        rw [here]
        simp only [noChange]
        omega

/-- One command, wherever the two working copies are. -/
theorem turn_foretells {faults : Nat → Call → Bool} (calm : ∀ t c, faults t c = false) {base : Contents}
    {ows : Option (Workspace Contents)} {ws' : Workspace Contents} {cmd : Command} {s : Slot} (t : Nat)
    (routed : Routed cmd) (related : Related base ows ws') (count : s.count = height ows) :
    Foretells base ws' cmd s (turn faults true base t ows cmd) := by
  cases ows with
  | some ws =>
    rw [turn, if_pos routed]
    exact work_foretells calm base t related ⟨fun _ => count, fun next => step_height related.2.2 count⟩
  | none =>
    obtain ⟨copy, oldest, all⟩ := related
    by_cases data : isData cmd
    · -- the working copy that is begun here is the other's with a part of its snapshots
      have other : cmd ≠ .rollback := by rintro rfl; cases data
      have started : Related base (some (begun base)) ws' := by
        refine ⟨copy, ?_⟩
        cases snapshots : ws'.snapshots with
        | nil => rw [snapshots] at oldest; cases oldest
        | cons newest rest =>
          have same := all newest (by rw [snapshots]; exact List.mem_cons_self)
          rw [same]
          exact ⟨⟨rest, rfl⟩, List.cons_ne_nil _ _⟩
      have turned : turn faults true base t none cmd = work faults (t + 2) (begun base) cmd := by
        cases cmd with
        | savepoint => cases data
        | rollback => cases data
        | _ => simp only [turn]; rw [if_pos ⟨routed, trivial, calm _ _⟩]
      rw [turned]
      refine work_foretells calm base (t + 2) started ⟨fun rolled => absurd rolled other, ?_⟩
      intro next stepped
      have counted := step_height (s := ⟨1, true, s.clock + 2⟩) (by simp [begun]) rfl stepped
      rw [Slot.step_begins data count]
      rw [Slot.step_works (by rw [if_pos data]; exact Int.one_ne_zero), countChange_data data] at counted
      exact counted
    · cases cmd with
      | savepoint =>
        refine ⟨by rintro ⟨⟩, _, rfl, ⟨copy, ?_, ?_⟩, ?_⟩
        · rw [Workspace.push, List.getLast?_cons, oldest]
          rfl
        · exact List.forall_mem_cons.mpr ⟨copy, all⟩
        · rw [Slot.step_passes (Int.le_of_eq count)]
          exact count
      | rollback =>
        have zero : s.count = 0 := count
        exact ⟨rfl, by omega⟩
      | _ => exact absurd rfl data

/-! ### All commands -/

/-- Every rollback that is reached finds two save points at least behind the
    first data command: `front` is carried out, and counted by the slot `s`. -/
def DeepFrom (s : Slot) (ws : Workspace Contents) (cmds : List Command) : Prop :=
  ∀ front rest, cmds = front ++ .rollback :: rest → (interpret ws front).isSome → 2 ≤ (s.after front).count

theorem deepFrom_cons {s : Slot} {ws : Workspace Contents} {cmd : Command} {cmds : List Command} :
    DeepFrom s ws (cmd :: cmds) ↔
      (cmd = .rollback → 2 ≤ s.count) ∧ ∀ next, step ws cmd = some next → DeepFrom (s.step cmd) next cmds := by
  constructor
  · intro deep
    constructor
    · rintro rfl
      exact deep [] cmds rfl rfl
    · rintro next stepped front rest rfl carried
      exact deep (cmd :: front) rest rfl (by rw [interpret, stepped]; exact carried)
  · rintro ⟨here, later⟩ front rest split carried
    cases front with
    | nil =>
      simp only [List.nil_append, List.cons.injEq] at split
      exact here split.1
    | cons first front =>
      simp only [List.cons_append, List.cons.injEq] at split
      obtain ⟨rfl, rfl⟩ := split
      obtain ⟨ws', interpreted⟩ := Option.isSome_iff_exists.mp carried
      obtain ⟨next, stepped, rest'⟩ := Option.bind_eq_some_iff.mp interpreted
      exact later next stepped front rest rfl (by rw [rest']; rfl)

/-- What the multi-partition path's verdict says of the interpretation. -/
def Concludes (base : Contents) (deep : Prop) (result : Option (Workspace Contents)) : Verdict → Prop
  | .sunk => ¬ deep
  | .refused => deep ∧ result = none
  | .ended ows _ => deep ∧ ∃ ws', result = some ws' ∧ Related base ows ws'

theorem play_concludes {faults : Nat → Call → Bool} (calm : ∀ t c, faults t c = false) {base : Contents} :
    ∀ {cmds : List Command} {ows : Option (Workspace Contents)} {ws' : Workspace Contents} {s : Slot} (t : Nat),
      (∀ cmd ∈ cmds, Routed cmd) → Related base ows ws' → s.count = height ows →
      Concludes base (DeepFrom s ws' cmds) (interpret ws' cmds) (play faults true base t ows cmds) := by
  intro cmds
  induction cmds with
  | nil =>
    intro ows ws' s t _ related _
    refine ⟨fun front rest split => ?_, ws', rfl, related⟩
    simp at split
  | cons cmd cs ih =>
    intro ows ws' s t routed related count
    obtain ⟨here, later⟩ := List.forall_mem_cons.mp routed
    have foretold := turn_foretells calm t here related count
    rw [play]
    cases turned : turn faults true base t ows cmd with
    | sunk =>
      rw [turned] at foretold
      obtain ⟨rolled, low⟩ := foretold
      intro all
      have := (deepFrom_cons.mp all).1 rolled
      omega
    | refused =>
      rw [turned] at foretold
      obtain ⟨forward, none_left⟩ := foretold
      refine ⟨deepFrom_cons.mpr ⟨fun rolled => absurd rolled forward, fun next stepped => ?_⟩, ?_⟩
      · rw [none_left] at stepped
        cases stepped
      · rw [interpret, none_left]
        rfl
    | ended ows' t' =>
      rw [turned] at foretold
      obtain ⟨high, next, stepped, related', count'⟩ := foretold
      have rest := ih t' later related' count'
      have same : DeepFrom s ws' (cmd :: cs) ↔ DeepFrom (s.step cmd) next cs := by
        rw [deepFrom_cons]
        constructor
        · exact fun both => both.2 next stepped
        · intro all
          refine ⟨high, fun next' stepped' => ?_⟩
          rw [stepped] at stepped'
          cases stepped'
          exact all
      rw [interpret, stepped, Option.bind_some]
      change Concludes base (DeepFrom s ws' (cmd :: cs)) (interpret next cs) (play faults true base t' ows' cs)
      cases played : play faults true base t' ows' cs with
      | sunk => rw [played] at rest; exact fun all => rest (same.mp all)
      | refused => rw [played] at rest; exact ⟨same.mpr rest.1, rest.2⟩
      | ended ows'' t'' => rw [played] at rest; exact ⟨same.mpr rest.1, rest.2⟩

/-! ### The messages -/

/-- What a verdict says of the answer and of the contents. -/
def Shows (base : Contents) (ret : Int) (left : Contents) : Verdict → Prop
  | .sunk => True
  | .refused => ret = -1 ∧ left = base
  | .ended none _ => ret = 0 ∧ left = base
  | .ended (some ws) _ => ret = 0 ∧ left = ws.copy

theorem settled_shows {fuel : Nat} {failed : Bool} {c c' : Cell} {verdict : Verdict}
    (commits : c.lib.fails .commit = false) (meets : Meets (failed = true) c verdict) (settled : Settled fuel c failed c') :
    Shows (contents c.committed) (if failed then -1 else 0) (contents c'.committed) verdict := by
  cases verdict with
  | sunk => trivial
  | refused =>
    obtain ⟨rfl, ows, stands⟩ := meets
    refine ⟨rfl, ?_⟩
    cases settled with
    | leaves => rfl
    | aborts counting aborted =>
      cases ows with
      | none => exact absurd stands.2 (by omega)
      | some ws =>
        obtain ⟨tx, serving, _⟩ := stands
        rw [(abort_shard_aborted serving aborted).committed]
  | ended ows t =>
    obtain ⟨fine, stands, _⟩ := meets
    obtain rfl : failed = false := eq_false_of_ne_true fine
    cases ows with
    | none =>
      cases settled with
      | commits counting => exact absurd stands.2 (by omega)
      | leaves => exact ⟨rfl, rfl⟩
    | some ws =>
      obtain ⟨tx, serving, shown, _, positive⟩ := stands
      cases settled with
      | leaves _ low => omega
      | commits =>
        rw [commit_shard_serving serving, commits, if_neg Bool.false_ne_true, ← shown]
        exact ⟨rfl, (shown_copy ..).symm⟩

/-- Two calls give the same answer and leave the same on shard 0. -/
structure Agree (one other : Done) : Prop where
  ret : one.ret = other.ret
  contents : contents (one.rocks.shard 0).committed = contents (other.rocks.shard 0).committed
  tx : (one.rocks.shard 0).tx = (other.rocks.shard 0).tx
  count : (one.rocks.shard 0).savepoint_count = (other.rocks.shard 0).savepoint_count

/-- Every rollback that is reached has a save point to go back to that was set
    behind the first data command. -/
def Deep (base : Contents) (cmds : List Command) : Prop := DeepFrom ⟨0, false, 0⟩ (begun base) cmds

/-- On a single worker, from a clean shard: the tokens of a message get the same
    answer and leave the same on both paths exactly if no rollback goes back to
    the first data command or behind it. -/
theorem paths_agree_iff (app : App) (fuel : Nat) (undef : Int) (mem : Mem Buf) (pkt : Mbuf) {rocks : Env}
    {cmds : List Command} (alone : rocks.num_workers = 1) (opened : (rocks.shard 0).tx_db = true)
    (empty : (rocks.shard 0).tx = none) (count : (rocks.shard 0).savepoint_count = 0)
    (calm : ∀ t c, rocks.lib.faults t c = false) (written : ∀ cmd ∈ cmds, WellFormed cmd)
    (routed : ∀ cmd ∈ cmds, Routed cmd) (enough : cmds.length + 1 < fuel) :
    ∃ one other,
      single_partition app fuel (fun mem ret rocks => feed (singleCallees 0) undef (cmds.map spell) mem ret rocks []) 0 mem
        pkt rocks = .ok one ∧
      multi_partition app fuel (fun mem ret rocks => feed multiCallees undef (cmds.map spell) mem ret rocks []) 0 0 mem pkt
        rocks = .ok other ∧
      (Agree one other ↔ Deep (contents (rocks.shard 0).committed) cmds) := by
  obtain ⟨one, single, meaning, _, slot, zero⟩ := single_partition_interprets app fuel undef mem pkt opened empty count calm
    written enough
  have runs : ∀ rocks', (feed multiCallees undef (cmds.map spell) mem none rocks' []).map
      (fun e => (e.tx_failed, e.rocks, callsOf e.log)) = runCommands multi cmds rocks' :=
    fun rocks' => feed_commands multi undef written mem none rocks'
  have stands : Stands (rocks.cell 0) none := ⟨empty, count⟩
  obtain ⟨e, ran⟩ : ∃ e, runCommands multiCell cmds (rocks.cell 0) = .ok e := by
    cases ran : runCommands multiCell cmds (rocks.cell 0) with
    | ok e => exact ⟨e, rfl⟩
    | error e =>
      obtain ⟨cmd, member, c, crashes⟩ := runCommands_error _ ran
      exact absurd (written_complete (written cmd member)) (multiCell_error crashes).2
  obtain ⟨other, multiple⟩ := multi_returns app fuel
    (fun mem ret rocks => feed multiCallees undef (cmds.map spell) mem ret rocks []) pkt rocks alone runs ⟨e, ran⟩ (by
      intro c calls ran counting
      have backed := runCommands_keeps multiCell (fun c => Backed c.toShard)
        (fun _ _ _ _ backed ran => multiCell_backed backed ran) (backed_low (Int.le_of_eq count)) ran
      have stood := runCommands_standing (fun _ _ _ _ => multiCell_standing) ran
      obtain ⟨tx, serving, deep⟩ := backed.serving counting
      have more := multi_count ran
      have start : (rocks.cell 0).savepoint_count = 0 := count
      exact abort_shard_returns serving (fun t => by rw [stood.faults]; exact calm t _) deep (by omega))
  refine ⟨one, other, single, multiple, ?_⟩
  obtain ⟨failed, c, c', ran', settled, left, ret⟩ := multi_outcome alone
    (fun rocks' e looped => by have := runs rocks'; rw [looped] at this; exact this.symm) multiple
  have stood := runCommands_standing (fun _ _ _ _ => multiCell_standing) ran'
  have meets := play_meets stands ran'
  have onlyTidy := settled_clean meets settled
  have shows := settled_shows (by rw [Lib.fails, stood.faults]; exact calm _ _) meets settled
  rw [stood.committed, ← ret] at shows
  have concludes := play_concludes calm (rocks.cell 0).lib.clock routed
    (related_begun (contents (rocks.shard 0).committed)) (s := ⟨0, false, 0⟩) rfl
  have shard : other.rocks.shard 0 = c'.toShard := by rw [left, leftEnv_shard]
  have verdict : play (rocks.cell 0).lib.faults (rocks.cell 0).tx_db (contents (rocks.cell 0).committed)
      (rocks.cell 0).lib.clock none cmds =
    play rocks.lib.faults true (contents (rocks.shard 0).committed) (rocks.cell 0).lib.clock none cmds := by
    rw [← opened]
    rfl
  rw [verdict] at onlyTidy shows
  cases played : play rocks.lib.faults true (contents (rocks.shard 0).committed) (rocks.cell 0).lib.clock none cmds with
  | sunk =>
    rw [played] at concludes onlyTidy
    refine iff_of_false (fun agree => ?_) concludes
    refine onlyTidy.mp ⟨?_, ?_⟩
    · rw [← slot, agree.tx, shard]
    · rw [← zero, agree.count, shard]
  | refused =>
    rw [played] at concludes onlyTidy shows
    obtain ⟨deep, result⟩ := concludes
    rw [result] at meaning
    obtain ⟨clear, counted⟩ := onlyTidy.mpr trivial
    refine iff_of_true ⟨meaning.1.trans shows.1.symm, ?_, ?_, ?_⟩ deep
    · rw [shard, meaning.2, shows.2]
      rfl
    · rw [shard, slot, clear]
    · rw [shard, zero, counted]
  | ended ows t =>
    rw [played] at concludes onlyTidy shows
    obtain ⟨deep, ws, result, related⟩ := concludes
    rw [result] at meaning
    obtain ⟨clear, counted⟩ := onlyTidy.mpr (by
      cases ows with
      | none => trivial
      | some _ => rw [Verdict.Tidy, stood.faults]; exact calm _ _)
    have answers : other.ret = 0 ∧ contents c'.committed = ws.copy := by
      cases ows with
      | none => exact ⟨shows.1, shows.2.trans related.1.symm⟩
      | some _ => exact ⟨shows.1, shows.2.trans related.1.symm⟩
    refine iff_of_true ⟨meaning.1.trans answers.1.symm, ?_, ?_, ?_⟩ deep
    · rw [shard, meaning.2, answers.2]
    · rw [shard, slot, clear]
    · rw [shard, zero, counted]

/-- `w 1 a`, `s`, `d 1`, `b` agree. -/
theorem delete_rolled_back_agrees :
    ∃ one other,
      single_partition default 6
        (fun mem ret rocks => feed (singleCallees 0) 0 ([.write (some (ascii "1")) (some (ascii "a")), .savepoint,
          .delete (some (ascii "1")), .rollback].map spell) mem ret rocks []) 0 ⟨fun _ => [], none⟩ default
        (untouched 1 (by decide)) = .ok one ∧
      multi_partition default 6
        (fun mem ret rocks => feed multiCallees 0 ([.write (some (ascii "1")) (some (ascii "a")), .savepoint,
          .delete (some (ascii "1")), .rollback].map spell) mem ret rocks []) 0 0 ⟨fun _ => [], none⟩ default
        (untouched 1 (by decide)) = .ok other ∧ Agree one other := by
  have argument : ∀ text ∈ [ascii "1", ascii "a"], Argument text := by
    unfold Argument
    decide +kernel
  have written : ∀ c ∈ [.write (some (ascii "1")) (some (ascii "a")), .savepoint, .delete (some (ascii "1")), .rollback],
      WellFormed c := by
    intro c member
    simp only [List.mem_cons, List.not_mem_nil, or_false] at member
    rcases member with rfl | rfl | rfl | rfl
    · exact ⟨_, _, rfl, rfl, argument _ (by simp), argument _ (by simp)⟩
    · trivial
    · exact ⟨_, rfl, argument _ (by simp)⟩
    · trivial
  have alone : (untouched 1 (by decide)).num_workers = 1 := rfl
  obtain ⟨one, other, single, multiple, agree⟩ := paths_agree_iff default 6 0 ⟨fun _ => [], none⟩ default
    alone rfl rfl rfl (fun _ _ => rfl) written (by decide +kernel) (by decide)
  refine ⟨one, other, single, multiple, agree.mpr ?_⟩
  refine deepFrom_cons.mpr ⟨by rintro ⟨⟩, fun _ _ => ?_⟩
  refine deepFrom_cons.mpr ⟨by rintro ⟨⟩, fun _ _ => ?_⟩
  refine deepFrom_cons.mpr ⟨by rintro ⟨⟩, fun _ _ => ?_⟩
  refine deepFrom_cons.mpr ⟨fun _ => by decide, fun _ _ front rest split => ?_⟩
  simp at split

/-- `b` alone is answered 0 on both paths, but one of them counts it. -/
theorem rollback_disagrees :
    ∃ one other, (plain 0 (ascii "b")).handle (untouched 1 (by decide)) = .ok one ∧
      (plain 1 (ascii "b")).handle (untouched 1 (by decide)) = .ok other ∧ ¬ Agree one other := by
  obtain ⟨one, single, zero⟩ := ok_of_map (b := (0 : Int)) (f := fun done => (done.rocks.shard 0).savepoint_count)
    (a := (plain 0 (ascii "b")).handle (untouched 1 (by decide))) (by decide +kernel)
  obtain ⟨other, multiple, below⟩ := ok_of_map (b := (-1 : Int)) (f := fun done => (done.rocks.shard 0).savepoint_count)
    (a := (plain 1 (ascii "b")).handle (untouched 1 (by decide))) (by decide +kernel)
  refine ⟨one, other, single, multiple, fun agree => ?_⟩
  have same : (0 : Int) = -1 := zero.symm.trans (agree.count.trans below)
  cases same

end Shardb.Paths
