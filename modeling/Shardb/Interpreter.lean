import Shardb.Tokens

/-!
# What the commands of a message mean

The reference interpreter keeps a working copy of the database and a stack of
snapshots. `carry` is the same for the batch of a transaction (`carry_shown`),
and the functions of a single-partition message carry out commands that way on
an open transaction, whatever the library reports (`singleCell_effect`,
`runCommands_interpreted`).
-/

namespace Shardb.Interpreter
open Shardb.Bytes (Text)
open Shardb.Loops Shardb.Journal Shardb.Rocks Shardb.Datastore Shardb.Handlers Shardb.Server Shardb.Tokens

/-! ### The reference interpreter -/

/-- One command on a working copy, `none` when it fails. -/
def step (ws : Workspace Contents) : Command → Option (Workspace Contents)
  | .read (some key) => if (ws.copy key).isSome then some ws else none
  | .write (some key) (some val) => some (ws.write (Function.update ws.copy key (some val)))
  | .delete (some key) => some (ws.write (Function.update ws.copy key none))
  | .savepoint => some ws.push
  | .rollback => ws.pop
  | _ => none

/-- Commands one after another, until one fails. -/
def interpret : Workspace Contents → List Command → Option (Workspace Contents)
  | ws, [] => some ws
  | ws, c :: cs => (step ws c).bind (fun ws => interpret ws cs)

/-- The start of an interpretation: one snapshot of the contents is taken. -/
def begun (start : Contents) : Workspace Contents := ⟨start, [start]⟩

/-- Whether the library reports an error for a command at time `t`. -/
def refused (faults : Nat → Call → Bool) (t : Nat) : Command → Bool
  | .read _ => faults t .get
  | .write _ _ => faults t .put
  | .delete _ => faults t .delete
  | .savepoint => false
  | .rollback => faults t .rollback

/-- The interpreter over a library that reports errors; every command is one call. -/
def interpretAt (faults : Nat → Call → Bool) : Nat → Workspace Contents → List Command → Option (Workspace Contents)
  | _, ws, [] => some ws
  | t, ws, c :: cs => if refused faults t c then none else (step ws c).bind (fun ws => interpretAt faults (t + 1) ws cs)

theorem interpretAt_calm {faults : Nat → Call → Bool} (calm : ∀ t c, faults t c = false) :
    ∀ (cmds : List Command) (t : Nat) (ws : Workspace Contents), interpretAt faults t ws cmds = interpret ws cmds := by
  intro cmds
  induction cmds with
  | nil => intro t ws; rfl
  | cons c cs ih =>
    intro t ws
    have accepted : refused faults t c = false := by cases c <;> simp [refused, calm]
    simp only [interpretAt, interpret, accepted, Bool.false_eq_true, if_false, ih]

/-! ### Commands on a batch -/

/-- One command on the batch of a transaction over the committed writes. -/
def carry (committed : List Write) (message : Nat) (b : Batch Write) : Command → Option (Batch Write)
  | .read (some key) => if (contents (committed ++ b.writes) key).isSome then some b else none
  | .write (some key) (some val) => some (b.add ⟨key, some val, message⟩)
  | .delete (some key) => some (b.add ⟨key, none, message⟩)
  | .savepoint => some b.save
  | .rollback => b.restore
  | _ => none

/-- What a command that succeeds makes of a batch. -/
inductive Change (message : Nat) (b : Batch Write) : Command → Batch Write → Prop
  | reads (key : Text) : Change message b (.read (some key)) b
  | puts (key val : Text) : Change message b (.write (some key) (some val)) (b.add ⟨key, some val, message⟩)
  | deletes (key : Text) : Change message b (.delete (some key)) (b.add ⟨key, none, message⟩)
  | saves : Change message b .savepoint b.save
  | restores {b' : Batch Write} (restored : b.restore = some b') : Change message b .rollback b'

theorem carry_change {committed : List Write} {message : Nat} {b b' : Batch Write} {cmd : Command}
    (done : carry committed message b cmd = some b') : Change message b cmd b' := by
  cases cmd with
  | read key =>
    cases key with
    | none => cases done
    | some key =>
      simp only [carry] at done
      split_ifs at done
      cases done
      exact .reads key
  | write key val =>
    cases key with
    | none => cases done
    | some key =>
      cases val with
      | none => cases done
      | some val => cases done; exact .puts key val
  | delete key =>
    cases key with
    | none => cases done
    | some key => cases done; exact .deletes key
  | savepoint => cases done; exact .saves
  | rollback => exact .restores done

/-- The working copy and snapshots a batch stands for. -/
def Shown (committed : List Write) (b : Batch Write) : Workspace Contents := b.view Write.apply (contents committed)

theorem shown_copy (committed : List Write) (b : Batch Write) :
    (Shown committed b).copy = contents (committed ++ b.writes) := (replay_append ..).symm

/-- A command on the batch is the command on the working copy. -/
theorem carry_shown (committed : List Write) (message : Nat) (b : Batch Write) (c : Command) :
    (carry committed message b c).map (Shown committed) = step (Shown committed b) c := by
  cases c with
  | read key =>
    cases key with
    | none => rfl
    | some key =>
      simp only [carry, step, shown_copy]
      split_ifs <;> rfl
  | write key val =>
    cases key with
    | none => rfl
    | some key =>
      cases val with
      | none => rfl
      | some val => exact congrArg some (view_add Write.apply (contents committed) b _)
  | delete key =>
    cases key with
    | none => rfl
    | some key => exact congrArg some (view_add Write.apply (contents committed) b _)
  | savepoint => exact congrArg some (view_save Write.apply (contents committed) b)
  | rollback => exact view_restore Write.apply (contents committed) b

/-! ### Commands on an open transaction -/

/-- The call a command makes on transaction `id`. -/
def eventOf (id : Nat) (ok : Bool) : Command → Event
  | .read key => .get id (key.getD []) ok
  | .write key val => .put id (key.getD []) (val.getD []) ok
  | .delete key => .delete id (key.getD []) ok
  | .savepoint => .setSavepoint id
  | .rollback => .rollback id ok

/-- What a command that succeeds adds to `savepoint_count`. -/
def countChange : Command → Int
  | .savepoint => 1
  | .rollback => -1
  | _ => 0

theorem countChange_forward {cmd : Command} (forward : cmd ≠ .rollback) : 0 ≤ countChange cmd := by
  cases cmd with
  | rollback => exact absurd rfl forward
  | _ => simp [countChange]

/-- The shard once a command on `tx` left `batch`. -/
def carriedOut (c : Cell) (tx : Transaction) (cmd : Command) (batch : Batch Write) : Cell :=
  { c with
    tx := some { tx with toBatch := batch }
    savepoint_count := c.savepoint_count + countChange cmd
    lib := c.lib.tick (eventOf tx.id true cmd) }

/-- What a command does to a shard with an open transaction: it leaves the batch
    of `carry`, or changes nothing but the record of calls and fails. -/
inductive Effect (cmd : Command) (c : Cell) (tx : Transaction) : Int → Cell → Prop
  | carried {batch : Batch Write} (accepted : refused c.lib.faults c.lib.clock cmd = false)
      (done : carry c.committed c.lib.message tx.toBatch cmd = some batch) :
      Effect cmd c tx 0 (carriedOut c tx cmd batch)
  | failed (ok : Bool)
      (reason : refused c.lib.faults c.lib.clock cmd = true ∨ carry c.committed c.lib.message tx.toBatch cmd = none) :
      Effect cmd c tx (-1) { c with lib := c.lib.tick (eventOf tx.id ok cmd) }

theorem singleCell_effect {cmd : Command} {c c' : Cell} {tx : Transaction} {ret : Int} (serving : Serving c tx)
    (ran : singleCell cmd c = .ok (ret, c')) : Effect cmd c tx ret c' := by
  cases cmd with
  | read key =>
    cases key with
    | none => cases ran
    | some key =>
      simp only [singleCell, need_some, bind_ok, read_serving serving] at ran
      cases faulty : c.lib.fails .get
      · cases held : contents (c.committed ++ tx.writes) key with
        | none =>
          simp only [faulty, held] at ran
          cases ran
          exact .failed true (.inr (by simp [carry, held]))
        | some val =>
          simp only [faulty, held] at ran
          cases ran
          have same : carriedOut c tx (.read (some key)) tx.toBatch =
              { c with lib := c.lib.tick (.get tx.id key true) } := by
            simp [carriedOut, countChange, eventOf, ← serving.slot]
          simp only [Option.isSome_some, if_true, ← same]
          exact .carried faulty (by simp [carry, held])
      · simp only [faulty, if_true] at ran
        cases ran
        exact .failed false (.inl faulty)
  | write key val =>
    cases key with
    | none => cases ran
    | some key =>
      cases val with
      | none => cases ran
      | some val =>
        simp only [singleCell, need_some, bind_ok, write_serving serving] at ran
        cases faulty : c.lib.fails .put
        · simp only [faulty] at ran
          cases ran
          have same : carriedOut c tx (.write (some key) (some val)) (tx.add ⟨key, some val, c.lib.message⟩) =
              { c with tx := some { tx with toBatch := tx.add ⟨key, some val, c.lib.message⟩ },
                       lib := c.lib.tick (.put tx.id key val true) } := by
            simp [carriedOut, countChange, eventOf]
          exact same ▸ .carried faulty rfl
        · simp only [faulty, if_true] at ran
          cases ran
          exact .failed false (.inl faulty)
  | delete key =>
    cases key with
    | none => cases ran
    | some key =>
      simp only [singleCell, need_some, bind_ok, delete_serving serving] at ran
      cases faulty : c.lib.fails .delete
      · simp only [faulty] at ran
        cases ran
        have same : carriedOut c tx (.delete (some key)) (tx.add ⟨key, none, c.lib.message⟩) =
            { c with tx := some { tx with toBatch := tx.add ⟨key, none, c.lib.message⟩ },
                     lib := c.lib.tick (.delete tx.id key true) } := by
          simp [carriedOut, countChange, eventOf]
        exact same ▸ .carried faulty rfl
      · simp only [faulty, if_true] at ran
        cases ran
        exact .failed false (.inl faulty)
  | savepoint =>
    simp only [singleCell, counted_savepoint, set_savepoint_serving serving] at ran
    cases ran
    exact .carried rfl rfl
  | rollback =>
    simp only [singleCell, counted_rollback, rollback_serving serving] at ran
    cases faulty : c.lib.fails .rollback
    · cases restored : tx.restore with
      | none =>
        simp only [faulty, restored] at ran
        cases ran
        exact .failed false (.inr restored)
      | some batch =>
        simp only [faulty, restored] at ran
        cases ran
        exact .carried faulty restored
    · simp only [faulty, if_true] at ran
      cases ran
      exact .failed false (.inl faulty)

/-- Without an open database and a transaction no command works. -/
theorem singleCell_idle {cmd : Command} {c c' : Cell} {ret : Int} (idle : c.tx_db = false ∨ c.tx = none)
    (ran : singleCell cmd c = .ok (ret, c')) : ret = -1 ∧ c' = c := by
  have refuses : ∀ body, onTransaction body c = (-1, c) := onTransaction_idle idle
  cases cmd with
  | read key => cases key with
    | none => cases ran
    | some key =>
      simp only [singleCell, need_some, bind_ok, read_keyval_pair, refuses] at ran
      cases ran
      exact ⟨rfl, rfl⟩
  | write key val => cases key with
    | none => cases ran
    | some key => cases val with
      | none => cases ran
      | some val =>
        simp only [singleCell, need_some, bind_ok, write_keyval_pair, refuses] at ran
        cases ran
        exact ⟨rfl, rfl⟩
  | delete key => cases key with
    | none => cases ran
    | some key =>
      simp only [singleCell, need_some, bind_ok, delete_keyval_pair, refuses] at ran
      cases ran
      exact ⟨rfl, rfl⟩
  | savepoint =>
    simp only [singleCell, counted_savepoint, set_savepoint, refuses] at ran
    cases ran
    exact ⟨rfl, rfl⟩
  | rollback =>
    simp only [singleCell, counted_rollback, rollback_to_last_savepoint, refuses] at ran
    cases ran
    exact ⟨rfl, rfl⟩

/-- All arguments of the command were there. -/
def Complete : Command → Prop
  | .read key | .delete key => key.isSome
  | .write key val => key.isSome ∧ val.isSome
  | .savepoint | .rollback => True

instance : DecidablePred Complete := fun cmd => by
  cases cmd <;> unfold Complete <;> infer_instance

/-- A command gets an answer unless an argument is missing. -/
theorem singleCell_error {cmd : Command} {c : Cell} {e : Fault} (crashes : singleCell cmd c = .error e) :
    e = .null ∧ ¬ Complete cmd := by
  cases cmd with
  | read key => cases key with
    | none => cases crashes; exact ⟨rfl, by simp [Complete]⟩
    | some key => cases crashes
  | write key val => cases key with
    | none => cases crashes; exact ⟨rfl, by simp [Complete]⟩
    | some key => cases val with
      | none => cases crashes; exact ⟨rfl, by simp [Complete]⟩
      | some val => cases crashes
  | delete key => cases key with
    | none => cases crashes; exact ⟨rfl, by simp [Complete]⟩
    | some key => cases crashes
  | savepoint => cases crashes
  | rollback => cases crashes

/-- A command that succeeds worked on an open transaction. -/
theorem singleCell_succeeds {cmd : Command} {c c' : Cell} {ret : Int} (ran : singleCell cmd c = .ok (ret, c'))
    (fine : 0 ≤ ret) : ∃ tx batch, Serving c tx ∧ refused c.lib.faults c.lib.clock cmd = false ∧
      carry c.committed c.lib.message tx.toBatch cmd = some batch ∧ c' = carriedOut c tx cmd batch := by
  rcases idle_or_serving c with idle | ⟨tx, serving⟩
  · have := (singleCell_idle idle ran).1
    omega
  · cases singleCell_effect serving ran with
    | carried accepted done => exact ⟨tx, _, serving, accepted, done, rfl⟩
    | failed ok reason => omega

/-- What commands leave of a shard with an open transaction. -/
structure Carried (c : Cell) (tx : Transaction) (c' : Cell) (tx' : Transaction) : Prop where
  serving : Serving c' tx'
  id : tx'.id = tx.id
  committed : c'.committed = c.committed
  faults : c'.lib.faults = c.lib.faults
  message : c'.lib.message = c.lib.message
  depth : c'.savepoint_count - tx'.saved.length = c.savepoint_count - tx.saved.length

theorem Carried.refl {c : Cell} {tx : Transaction} (serving : Serving c tx) : Carried c tx c tx :=
  ⟨serving, rfl, rfl, rfl, rfl, rfl⟩

theorem Carried.trans {c c' c'' : Cell} {tx tx' tx'' : Transaction} (first : Carried c tx c' tx')
    (second : Carried c' tx' c'' tx'') : Carried c tx c'' tx'' :=
  ⟨second.serving, second.id.trans first.id, second.committed.trans first.committed, second.faults.trans first.faults,
    second.message.trans first.message, second.depth.trans first.depth⟩

private theorem carry_depth {committed : List Write} {message : Nat} {b b' : Batch Write} {cmd : Command}
    (done : carry committed message b cmd = some b') : (b'.saved.length : Int) = b.saved.length + countChange cmd := by
  cases carry_change done with
  | reads => simp [countChange]
  | puts => simp [countChange, Batch.add]
  | deletes => simp [countChange, Batch.add]
  | saves => simp [countChange, Batch.save]
  | restores restored =>
    rw [Batch.restore] at restored
    split at restored
    · cases restored
    · rename_i saved
      cases restored
      simp only [countChange, saved, List.length_cons]
      omega

theorem carriedOut_kept {cmd : Command} {c : Cell} {tx : Transaction} {batch : Batch Write} (serving : Serving c tx)
    (done : carry c.committed c.lib.message tx.toBatch cmd = some batch) :
    Carried c tx (carriedOut c tx cmd batch) { tx with toBatch := batch } := by
  refine ⟨⟨serving.opened, rfl⟩, rfl, rfl, rfl, rfl, ?_⟩
  have depth := carry_depth done
  simp only [carriedOut]
  omega

/-- The commands of a message on an open transaction: they leave what the
    interpreter leaves, and one of them fails exactly when the interpreter does. -/
theorem runCommands_interpreted : ∀ {cmds : List Command} {c c' : Cell} {tx : Transaction} {failed : Bool}
    {calls : List (Command × Int)}, Serving c tx → runCommands singleCell cmds c = .ok (failed, c', calls) →
    ∃ tx', Carried c tx c' tx' ∧
      ((failed = false ∧ interpretAt c.lib.faults c.lib.clock (Shown c.committed tx.toBatch) cmds =
          some (Shown c.committed tx'.toBatch) ∧
        c'.lib.clock = c.lib.clock + cmds.length ∧ c'.lib.trace = c.lib.trace ++ cmds.map (eventOf tx.id true)) ∨
        (failed = true ∧ interpretAt c.lib.faults c.lib.clock (Shown c.committed tx.toBatch) cmds = none)) := by
  intro cmds
  induction cmds with
  | nil =>
    intro c c' tx failed calls serving run
    cases run
    exact ⟨tx, .refl serving, .inl ⟨rfl, rfl, rfl, (List.append_nil _).symm⟩⟩
  | cons cmd cs ih =>
    intro c c' tx failed calls serving run
    obtain ⟨ret, next, ran, first⟩ := runCommands_cons _ run
    cases singleCell_effect serving ran with
    | failed ok reason =>
      rcases first with ⟨_, rfl, rfl, _⟩ | ⟨zero, _⟩
      · refine ⟨tx, ⟨⟨serving.opened, serving.slot⟩, rfl, rfl, rfl, rfl, rfl⟩, .inr ⟨rfl, ?_⟩⟩
        rw [interpretAt]
        rcases reason with faulty | nothing
        · rw [if_pos faulty]
        · rw [← carry_shown c.committed c.lib.message, nothing]
          split_ifs <;> rfl
      · omega
    | @carried batch accepted done =>
      rcases first with ⟨negative, _⟩ | ⟨_, later, rest, _⟩
      · omega
      · have now := carriedOut_kept serving done
        obtain ⟨tx', kept, outcome⟩ := ih now.serving rest
        refine ⟨tx', now.trans kept, ?_⟩
        have stepped : step (Shown c.committed tx.toBatch) cmd = some (Shown c.committed batch) := by
          rw [← carry_shown c.committed c.lib.message, done]
          rfl
        rw [interpretAt, accepted, stepped]
        rcases outcome with ⟨fine, interpreted, clock, trace⟩ | ⟨fails, interpreted⟩
        · refine .inl ⟨fine, interpreted, ?_, ?_⟩
          · rw [clock]
            simp only [carriedOut, tick_clock, List.length_cons]
            omega
          · rw [trace]
            simp [carriedOut]
        · exact .inr ⟨fails, interpreted⟩

private theorem step_incomplete {cmd : Command} (missing : ¬ Complete cmd) (ws : Workspace Contents) :
    step ws cmd = none := by
  cases cmd with
  | read key => cases key <;> simp_all [Complete, step]
  | write key val => cases key <;> cases val <;> simp_all [Complete, step]
  | delete key => cases key <;> simp_all [Complete, step]
  | savepoint => exact absurd trivial missing
  | rollback => exact absurd trivial missing

/-- What the interpreter accepts runs to its end. -/
theorem runCommands_accepted : ∀ {cmds : List Command} {c : Cell} {tx : Transaction} {ws : Workspace Contents},
    Serving c tx → interpretAt c.lib.faults c.lib.clock (Shown c.committed tx.toBatch) cmds = some ws →
    ∃ c' calls, runCommands singleCell cmds c = .ok (false, c', calls) := by
  intro cmds
  induction cmds with
  | nil => intro c tx ws _ _; exact ⟨c, [], rfl⟩
  | cons cmd cs ih =>
    intro c tx ws serving accepted
    rw [interpretAt] at accepted
    split_ifs at accepted with faulty
    obtain ⟨ws', stepped, rest⟩ := Option.bind_eq_some_iff.mp accepted
    cases ran : singleCell cmd c with
    | error e => rw [step_incomplete (singleCell_error ran).2] at stepped; cases stepped
    | ok answer =>
      obtain ⟨ret, next⟩ := answer
      cases singleCell_effect serving ran with
      | failed ok reason =>
        rcases reason with bad | nothing
        · exact absurd bad faulty
        · rw [← carry_shown c.committed c.lib.message, nothing] at stepped
          cases stepped
      | @carried batch fine done =>
        rw [← carry_shown c.committed c.lib.message, done] at stepped
        cases stepped
        obtain ⟨c', calls, later⟩ := ih (carriedOut_kept serving done).serving rest
        exact ⟨c', (cmd, 0) :: calls, by simp [runCommands, ran, later]⟩

/-- Every command adds one savepoint at most. -/
theorem runCommands_count : ∀ {cmds : List Command} {c c' : Cell} {tx : Transaction} {failed : Bool}
    {calls : List (Command × Int)}, Serving c tx → runCommands singleCell cmds c = .ok (failed, c', calls) →
    c'.savepoint_count ≤ c.savepoint_count + cmds.length := by
  have change : ∀ cmd, countChange cmd ≤ 1 := by intro cmd; cases cmd <;> simp [countChange]
  intro cmds
  induction cmds with
  | nil => intro c c' tx failed calls _ run; cases run; simp
  | cons cmd cs ih =>
    intro c c' tx failed calls serving run
    obtain ⟨ret, next, ran, first⟩ := runCommands_cons _ run
    have once : ∃ tx', Serving next tx' ∧ next.savepoint_count ≤ c.savepoint_count + 1 := by
      have := change cmd
      cases singleCell_effect serving ran with
      | carried accepted done =>
        refine ⟨_, (carriedOut_kept serving done).serving, ?_⟩
        simp only [carriedOut]
        omega
      | failed ok reason => exact ⟨tx, ⟨serving.opened, serving.slot⟩, by simp only; omega⟩
    obtain ⟨tx', serving', more⟩ := once
    rw [List.length_cons]
    rcases first with ⟨_, _, rfl, _⟩ | ⟨_, later, rest, _⟩
    · omega
    · have := ih serving' rest
      omega

/-! ### Aborting -/

theorem counted_rollback_effect {c : Cell} {tx : Transaction} (serving : Serving c tx) :
    ∃ ret c', counted_rollback c = (ret, c') ∧ Effect .rollback c tx ret c' :=
  ⟨_, _, rfl, singleCell_effect serving rfl⟩

/-- Unwinding ends when the counter is used up, with what rollbacks keep. -/
theorem unwind_ok (I : Cell → Prop) (keeps : ∀ c, 0 < c.savepoint_count → I c → I (counted_rollback c).2)
    {fuel : Nat} {c c' : Cell} (holds : I c) (run : unwind fuel c = .ok c') : I c' ∧ c'.savepoint_count ≤ 0 := by
  refine loop_ok I (fun c' => I c' ∧ c'.savepoint_count ≤ 0) ?_ ?_ holds run
  · intro c next holds once
    split_ifs at once with more
    · cases once
      exact keeps c more holds
    · cases once
  · intro c result holds once
    split_ifs at once with more
    · cases once
    · cases once
      exact ⟨holds, by omega⟩

/-- An abort deletes the transaction that the unwinding leaves. -/
theorem abort_shard_ok (I : Cell → Prop) (keeps : ∀ c, 0 < c.savepoint_count → I c → I (counted_rollback c).2)
    {fuel : Nat} {c c' : Cell} {ret : Int} (holds : I c) (run : abort_shard fuel c = .ok (ret, c')) :
    ∃ left, I left ∧ left.savepoint_count ≤ 0 ∧ c' = (delete_transaction left).2 := by
  obtain ⟨left, unwound, deleted⟩ := bind_eq_ok.mp run
  obtain ⟨kept, spent⟩ := unwind_ok I keeps holds unwound
  exact ⟨left, kept, spent, (congrArg Prod.snd (Except.ok.inj deleted)).symm⟩

/-- What rollbacks and the deletion of the transaction keep is kept by an abort. -/
theorem abort_shard_keeps (I : Cell → Prop)
    (rollback : ∀ c ret c', I c → singleCell .rollback c = .ok (ret, c') → I c')
    (delete : ∀ c tx, Serving c tx → I c → I { c with tx := none, lib := c.lib.tick (.destroy tx.id) }) {fuel : Nat}
    {c c' : Cell} {ret : Int} (holds : I c) (run : abort_shard fuel c = .ok (ret, c')) : I c' := by
  obtain ⟨left, kept, _, rfl⟩ := abort_shard_ok I (fun c _ holds => rollback c _ _ holds rfl) holds run
  rcases idle_or_serving left with idle | ⟨tx, serving⟩
  · rw [delete_transaction_idle idle]
    exact kept
  · rw [delete_transaction_serving serving]
    exact delete left tx serving kept

/-- What an abort leaves of a shard. -/
structure Aborted (c c' : Cell) : Prop where
  opened : c'.tx_db = true
  slot : c'.tx = none
  committed : c'.committed = c.committed
  faults : c'.lib.faults = c.lib.faults
  message : c'.lib.message = c.lib.message
  spent : c'.savepoint_count ≤ 0
  counted : 0 ≤ c.savepoint_count → c'.savepoint_count = 0

theorem abort_shard_aborted {fuel : Nat} {c c' : Cell} {tx : Transaction} {ret : Int} (serving : Serving c tx)
    (run : abort_shard fuel c = .ok (ret, c')) : Aborted c c' := by
  obtain ⟨left, ⟨tx', kept, low⟩, spent, rfl⟩ := abort_shard_ok
    (fun c₁ => ∃ tx₁, Carried c tx c₁ tx₁ ∧ (0 ≤ c.savepoint_count → 0 ≤ c₁.savepoint_count)) (by
      rintro c₁ more ⟨tx₁, kept, low⟩
      obtain ⟨ret, c₂, rolled, effect⟩ := counted_rollback_effect kept.serving
      rw [rolled]
      cases effect with
      | carried accepted done =>
        refine ⟨_, kept.trans (carriedOut_kept kept.serving done), fun nonneg => ?_⟩
        simp only [carriedOut, countChange]
        omega
      | failed ok reason =>
        exact ⟨tx₁, kept.trans ⟨⟨kept.serving.opened, kept.serving.slot⟩, rfl, rfl, rfl, rfl, rfl⟩, low⟩)
    ⟨tx, .refl serving, id⟩ run
  rw [delete_transaction_serving kept.serving]
  exact ⟨kept.serving.opened, rfl, kept.committed, kept.faults, kept.message, spent,
    fun nonneg => Int.le_antisymm spent (low nonneg)⟩

/-- When rollbacks fail for want of a save point only, an abort comes to its end. -/
theorem abort_shard_returns {fuel : Nat} {c : Cell} {tx : Transaction} (serving : Serving c tx)
    (calm : ∀ t, c.lib.faults t .rollback = false) (deep : c.savepoint_count ≤ tx.saved.length)
    (enough : c.savepoint_count.toNat < fuel) : ∃ a, abort_shard fuel c = .ok a := by
  obtain ⟨c', unwound, _⟩ : ∃ c', unwind fuel c = .ok c' ∧ True := by
    refine loop_total (fun c₁ => ∃ tx₁, Carried c tx c₁ tx₁) (fun c => c.savepoint_count.toNat) ?_
      ⟨tx, .refl serving⟩ enough
    rintro c₁ ⟨tx₁, kept⟩
    by_cases more : 0 < c₁.savepoint_count
    · obtain ⟨ret, c₂, rolled, effect⟩ := counted_rollback_effect kept.serving
      refine .inl ⟨c₂, by rw [if_pos more, rolled], ?_⟩
      have depth := kept.depth
      cases saved : tx₁.saved with
      | nil => rw [saved, List.length_nil] at depth; omega
      | cons newest older =>
        have restored : tx₁.restore = some ⟨newest, older⟩ := by simp [Batch.restore, saved]
        have accepted : c₁.lib.faults c₁.lib.clock .rollback = false := by rw [kept.faults, calm]
        cases effect with
        | @carried batch accepted done =>
          refine ⟨⟨_, kept.trans (carriedOut_kept kept.serving done)⟩, ?_⟩
          simp only [carriedOut, countChange]
          omega
        | failed ok reason =>
          rcases reason with faulty | nothing
          · exact absurd faulty (by simp [refused, accepted])
          · exact absurd nothing (by simp [carry, restored])
    · exact .inr ⟨_, if_neg more, trivial⟩
  exact ⟨_, by rw [abort_shard, unwound]; rfl⟩

end Shardb.Interpreter
