import Shardb.MultiPartition
import Shardb.SinglePartition

/-!
# Which writes a shard holds

Commands add only what they put or delete. So what all writes of a shard
satisfy, committed or held back, is kept by a message if its commands permit it.
-/

namespace Shardb.Records
open Shardb.Bytes (Text)
open Shardb.Loops Shardb.Journal Shardb.Rocks Shardb.Datastore Shardb.Handlers Shardb.Server Shardb.Tokens
open Shardb.Interpreter Shardb.SinglePartition Shardb.MultiPartition

/-- Every write on the shard, committed or held back, satisfies `P`. -/
structure Marked (P : Write → Prop) (s : Shard) : Prop where
  committed : ∀ write ∈ s.committed, P write
  held : ∀ tx, s.tx = some tx → tx.toBatch.All P

/-- What the command puts or deletes for the message satisfies `P`. -/
structure Permits (P : Write → Prop) (message : Nat) (cmd : Command) : Prop where
  puts : ∀ key val, cmd = .write (some key) (some val) → P ⟨key, some val, message⟩
  deletes : ∀ key, cmd = .delete (some key) → P ⟨key, none, message⟩

/-- The writes of the message that the shard is working for satisfy `P`. -/
def Allowed (P : Write → Prop) (c : Cell) : Prop := ∀ write, write.message = c.lib.message → P write

variable {P : Write → Prop} {c c' : Cell}

theorem Allowed.permits (allowed : Allowed P c) (cmd : Command) : Permits P c.lib.message cmd :=
  ⟨fun _ _ _ => allowed _ rfl, fun _ _ => allowed _ rfl⟩

/-- A rollback puts nothing. -/
private theorem rollback_permits (message : Nat) : Permits P message .rollback :=
  ⟨by rintro _ _ ⟨⟩, by rintro _ ⟨⟩⟩

private theorem carry_all {committed : List Write} {message : Nat} {b b' : Batch Write} {cmd : Command} (all : b.All P)
    (permits : Permits P message cmd) (done : carry committed message b cmd = some b') : b'.All P := by
  cases carry_change done with
  | reads => exact all
  | puts => exact all_add all (permits.puts _ _ rfl)
  | deletes => exact all_add all (permits.deletes _ rfl)
  | saves => exact all_save all
  | restores restored => exact all_restore all restored

/-! ### One command -/

theorem singleCell_marked {cmd : Command} {ret : Int} (marked : Marked P c.toShard)
    (permits : Permits P c.lib.message cmd) (ran : singleCell cmd c = .ok (ret, c')) : Marked P c'.toShard := by
  rcases idle_or_serving c with idle | ⟨tx, serving⟩
  · rw [(singleCell_idle idle ran).2]
    exact marked
  · cases singleCell_effect serving ran with
    | carried accepted done =>
      refine ⟨marked.committed, ?_⟩
      rintro tx' ⟨⟩
      exact carry_all (marked.held tx serving.slot) permits done
    | failed => exact ⟨marked.committed, marked.held⟩

/-- A transaction that was just begun holds nothing back. -/
theorem begun_marked (marked : Marked P c.toShard) (w : Nat) (count : Int) :
    Marked P { (begunCell w c).toShard with savepoint_count := count } := by
  refine ⟨marked.committed, ?_⟩
  rintro tx ⟨⟩
  exact all_begun

theorem effect_marked {cmd : Command} {ret : Int} (marked : Marked P c.toShard)
    (permits : Routed cmd → Permits P c.lib.message cmd) (effect : MultiEffect cmd c ret c') : Marked P c'.toShard := by
  cases effect with
  | refused => exact ⟨marked.committed, marked.held⟩
  | begins data routed zero opened empty fine ran =>
    exact singleCell_marked (c := fresh c) (begun_marked marked 0 1) (permits routed) ran
  | works routed counting ran => exact singleCell_marked marked (permits routed) ran
  | passes => exact marked
  | sinks => exact ⟨marked.committed, marked.held⟩

/-! ### The commands of a message -/

private theorem runCommands_marked {op : Command → Cell → Result (Int × Cell)} {cmds : List Command} {failed : Bool}
    {calls : List (Command × Int)}
    (keeps : ∀ cmd ∈ cmds, ∀ c₁ ret c₂, c₁.lib.message = c.lib.message → Marked P c₁.toShard →
      op cmd c₁ = .ok (ret, c₂) → Marked P c₂.toShard ∧ Standing c₁ c₂)
    (marked : Marked P c.toShard) (run : runCommands op cmds c = .ok (failed, c', calls)) : Marked P c'.toShard := by
  refine (runCommands_keeps_each op (fun c₁ => c₁.lib.message = c.lib.message ∧ Marked P c₁.toShard) ?_ ⟨rfl, marked⟩ run).2
  rintro cmd member c₁ ret c₂ ⟨same, marked⟩ ran
  obtain ⟨marked', stood⟩ := keeps cmd member c₁ ret c₂ same marked ran
  exact ⟨stood.message.trans same, marked'⟩

theorem single_marked {cmds : List Command} {failed : Bool} {calls : List (Command × Int)} (marked : Marked P c.toShard)
    (permits : ∀ cmd ∈ cmds, Permits P c.lib.message cmd) (run : runCommands singleCell cmds c = .ok (failed, c', calls)) :
    Marked P c'.toShard := by
  refine runCommands_marked (fun cmd member c₁ ret c₂ same marked ran => ?_) marked run
  exact ⟨singleCell_marked marked (same ▸ permits cmd member) ran, singleCell_standing ran⟩

theorem multi_marked {cmds : List Command} {failed : Bool} {calls : List (Command × Int)} (marked : Marked P c.toShard)
    (permits : ∀ cmd ∈ cmds, Routed cmd → Permits P c.lib.message cmd)
    (run : runCommands multiCell cmds c = .ok (failed, c', calls)) : Marked P c'.toShard := by
  refine runCommands_marked (fun cmd member c₁ ret c₂ same marked ran => ?_) marked run
  exact ⟨effect_marked marked (same ▸ permits cmd member) (multiCell_effect ran), multiCell_standing ran⟩

theorem commit_shard_marked (marked : Marked P c.toShard) : Marked P (commit_shard c).2.toShard := by
  rcases idle_or_serving c with idle | ⟨tx, serving⟩
  · rw [commit_shard_idle idle]
    exact ⟨marked.committed, marked.held⟩
  · rw [commit_shard_serving serving]
    split_ifs
    · exact ⟨marked.committed, marked.held⟩
    · exact ⟨List.forall_mem_append.mpr ⟨marked.committed, (marked.held tx serving.slot).writes⟩, by rintro tx ⟨⟩⟩

theorem abort_shard_marked {fuel : Nat} {ret : Int} (marked : Marked P c.toShard)
    (run : abort_shard fuel c = .ok (ret, c')) : Marked P c'.toShard := by
  refine abort_shard_keeps (fun c => Marked P c.toShard) ?_ ?_ marked run
  · intro c ret c' marked ran
    exact singleCell_marked marked (rollback_permits _) ran
  · intro c tx _ marked
    exact ⟨marked.committed, by rintro tx ⟨⟩⟩

theorem Marked.mono {Q : Write → Prop} {s : Shard} (marked : Marked P s) (weaker : ∀ write, P write → Q write) :
    Marked Q s where
  committed write member := weaker write (marked.committed write member)
  held tx slot :=
    ⟨fun write member => weaker write ((marked.held tx slot).writes write member),
      fun writes saved write member => weaker write ((marked.held tx slot).saved writes saved write member)⟩

theorem Marked.and {Q : Write → Prop} {s : Shard} (first : Marked P s) (second : Marked Q s) :
    Marked (fun write => P write ∧ Q write) s where
  committed write member := ⟨first.committed write member, second.committed write member⟩
  held tx slot :=
    ⟨fun write member => ⟨(first.held tx slot).writes write member, (second.held tx slot).writes write member⟩,
      fun writes saved write member =>
        ⟨(first.held tx slot).saved writes saved write member, (second.held tx slot).saved writes saved write member⟩⟩

theorem settled_marked {fuel : Nat} {failed : Bool} (marked : Marked P c.toShard) (settled : Settled fuel c failed c') :
    Marked P c'.toShard := by
  cases settled with
  | commits => exact commit_shard_marked marked
  | aborts _ aborted => exact abort_shard_marked marked aborted
  | leaves => exact marked

end Shardb.Records
