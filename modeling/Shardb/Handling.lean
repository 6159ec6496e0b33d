import Shardb.Tokens

/-!
# Where a message goes

`handle_db_message` sends a message to the single-partition code, to the
multi-partition code or nowhere. The multi-partition code is reached only when
the leader is worker 0 and there is no other worker (`await_alone`,
`await_others_left`).
-/

namespace Shardb.Handling
open Shardb.Bytes Shardb.CStrings Shardb.Loops Shardb.Rocks Shardb.Datastore Shardb.Handlers Shardb.Server Shardb.Tokens

/-- A packet with the given type, leader and message; its other bytes are zero. -/
def packet (msgtype leader : Nat) (text : Text) : Mbuf :=
  { data := List.replicate app_offset 0 ++ (text ++ List.replicate (MAXBUFSIZE - text.length) 0) ++ be16 msgtype ++
      be16 leader ++ [0, 0]
    data_len := 0, pkt_len := 0, l2_len := 0, l3_len := 0, l4_len := 0, ol_flags := [] }

/-- The message of a packet holds no NUL. -/
theorem message_clean (pkt : Mbuf) : (0 : UInt8) ∉ pkt.message := by
  intro member
  have := List.mem_takeWhile_imp member
  simp at this

section Handler
variable (app : App) (fuel : Nat) (undef : Int) (mem : Mem Buf) (pkt : Mbuf) (w : Nat) (rocks : Env)

/-- A message for the shard of its worker runs the commands of its text there. -/
theorem handle_single (type : pkt.msgtype = 0) (leader : pkt.leader = w) :
    ∃ msg mem', handle_db_message app fuel undef mem pkt w rocks =
        single_partition app fuel (command_loop (singleCallees w) undef fuel msg) w mem' pkt (Env.received rocks) ∧
      (∀ rocks e, command_loop (singleCallees w) undef fuel msg mem' (some 0) rocks = .ok e →
        runCommands (single w) (commandsOf pkt.message) rocks = .ok (e.tx_failed, e.rocks, callsOf e.log)) ∧
      (pkt.message.length < fuel → ∀ rocks,
        (command_loop (singleCallees w) undef fuel msg mem' (some 0) rocks).map
            (fun e => (e.tx_failed, e.rocks, callsOf e.log)) =
          runCommands (single w) (commandsOf pkt.message) rocks) := by
  obtain ⟨msg, mem', called, loops⟩ := message_loop (single w) undef fuel mem (message_clean pkt) (some 0)
    (fun _ _ _ => Int.le_refl 0)
  refine ⟨msg, mem', ?_, loops⟩
  simp [handle_db_message, called, type, leader]

/-- Other messages are turned away, with the environment as it was. -/
theorem handle_astray (astray : (pkt.msgtype = 0 ∧ pkt.leader ≠ w) ∨ (pkt.msgtype ≠ 0 ∧ pkt.msgtype ≠ 1)) :
    ∃ mem', handle_db_message app fuel undef mem pkt w rocks = .ok ⟨-1, Env.received rocks, mem', pkt, []⟩ := by
  obtain ⟨msg, mem', called⟩ := first_token mem pkt.message
  refine ⟨mem', ?_⟩
  rcases astray with ⟨type, other⟩ | ⟨notSingle, notMulti⟩
  · simp [handle_db_message, called, type, other]
  · simp [handle_db_message, called, notSingle, notMulti]

end Handler

/-! ### The other workers -/

theorem await_alone {rocks : Env} (alone : rocks.num_workers = 1) : await_others 0 rocks = .ok (.inl rocks) := by
  simp [await_others, alone, forLoop]

/-- What waiting for a worker changes: its lock is taken and given back. -/
structure Waited (rocks rocks' : Env) : Prop where
  num_workers : rocks'.num_workers = rocks.num_workers
  shard : rocks'.shard = rocks.shard
  faults : rocks'.lib.faults = rocks.lib.faults
  message : rocks'.lib.message = rocks.lib.message
  next : rocks'.lib.next = rocks.lib.next

/-- The pass of the loop that meets worker `i`. -/
private def wait (leader i : Nat) (rocks : Env) : Result (Env ⊕ Env) :=
  if i ≠ leader then do
    let rocks ← pthread_mutex_lock i rocks
    if (rocks.workers i).transaction_done = 0 then .error .blocked
    else return .inr (pthread_mutex_unlock i rocks)
  else .ok (.inl rocks)

private theorem wait_left {leader i : Nat} {rocks : Env} {left : Env ⊕ Env} (other : i ≠ leader)
    (waited : wait leader i rocks = .ok left) : ∃ rocks', left = .inr rocks' ∧ Waited rocks rocks' := by
  rw [wait, if_pos other, pthread_mutex_lock] at waited
  by_cases held : (rocks.workers i).transaction_lock = true
  · rw [if_pos held] at waited
    cases waited
  · rw [if_neg held, bind_ok] at waited
    split_ifs at waited
    cases left with
    | inl _ => cases waited
    | inr rocks' =>
      cases waited
      exact ⟨_, rfl, rfl, rfl, rfl, rfl, rfl⟩

/-- With another worker than the leader the handler leaves at the first of them. -/
theorem await_others_left {leader : Nat} (rocks : Env) {left : Env ⊕ Env} (crowded : leader ≠ 0 ∨ rocks.num_workers ≠ 1)
    (waited : await_others leader rocks = .ok left) : ∃ rocks', left = .inr rocks' ∧ Waited rocks rocks' := by
  change forLoop (wait leader) rocks.num_workers 0 rocks = .ok left at waited
  obtain ⟨m, workers⟩ := Nat.exists_eq_add_of_le' rocks.staffed
  rw [workers, forLoop] at waited
  by_cases first : 0 = leader
  · subst first
    obtain ⟨k, rfl⟩ : ∃ k, m = k + 1 := Nat.exists_eq_add_of_le' (by omega)
    have passed : wait 0 0 rocks = .ok (.inl rocks) := rfl
    simp only [passed, forLoop] at waited
    cases second : wait 0 1 rocks with
    | error e => simp [second] at waited
    | ok left' =>
      obtain ⟨rocks', rfl, same⟩ := wait_left (by decide) second
      simp only [second, Except.ok.injEq] at waited
      exact ⟨rocks', waited.symm, same⟩
  · cases second : wait leader 0 rocks with
    | error e => simp [second] at waited
    | ok left' =>
      obtain ⟨rocks', rfl, same⟩ := wait_left first second
      simp only [second, Except.ok.injEq] at waited
      exact ⟨rocks', waited.symm, same⟩

/-- A multi-partition message that meets another worker is answered -1; the
    shards are as they were. -/
theorem handle_crowded {app : App} {fuel : Nat} {undef : Int} {mem : Mem Buf} {pkt : Mbuf} {w : Nat} {rocks : Env}
    {done : Done} (type : pkt.msgtype = 1) (crowded : pkt.leader ≠ 0 ∨ rocks.num_workers ≠ 1)
    (handled : handle_db_message app fuel undef mem pkt w rocks = .ok done) :
    done.ret = -1 ∧ done.log = [] ∧ Waited (Env.received rocks) done.rocks := by
  obtain ⟨msg, mem', called⟩ := first_token mem pkt.message
  simp only [handle_db_message, called, need_some, bind_ok, type, Nat.one_ne_zero, if_false, if_true] at handled
  cases waited : await_others pkt.leader (Env.received rocks) with
  | error e => rw [waited] at handled; cases handled
  | ok left =>
    obtain ⟨rocks', rfl, same⟩ := await_others_left (Env.received rocks) crowded waited
    rw [waited] at handled
    cases handled
    exact ⟨rfl, rfl, same⟩

/-- The first other worker ends the loop one way or the other: while its flag is
    not set, nobody gets past it. -/
theorem await_others_blocked {leader : Nat} {rocks : Env} (crowded : leader ≠ 0 ∨ rocks.num_workers ≠ 1)
    (undone : ∀ i, (rocks.workers i).transaction_done = 0) : await_others leader rocks = .error .blocked := by
  have blocks : ∀ i, i ≠ leader → wait leader i rocks = .error .blocked := by
    intro i other
    rw [wait, if_pos other, pthread_mutex_lock]
    split_ifs with held
    · rfl
    · simp [Env.record, Env.setWorker, undone]
  change forLoop (wait leader) rocks.num_workers 0 rocks = .error .blocked
  obtain ⟨m, workers⟩ := Nat.exists_eq_add_of_le' rocks.staffed
  rw [workers, forLoop]
  by_cases first : 0 = leader
  · subst first
    obtain ⟨k, rfl⟩ : ∃ k, m = k + 1 := Nat.exists_eq_add_of_le' (by omega)
    have passed : wait 0 0 rocks = .ok (.inl rocks) := rfl
    simp only [passed, forLoop, blocks 1 (by decide)]
  · rw [blocks 0 first]

theorem handle_blocked (app : App) (fuel : Nat) (undef : Int) (mem : Mem Buf) {pkt : Mbuf} (w : Nat) {rocks : Env}
    (type : pkt.msgtype = 1) (crowded : pkt.leader ≠ 0 ∨ rocks.num_workers ≠ 1)
    (undone : ∀ i, (rocks.workers i).transaction_done = 0) :
    handle_db_message app fuel undef mem pkt w rocks = .error .blocked := by
  obtain ⟨msg, mem', called⟩ := first_token mem pkt.message
  have blocked : await_others pkt.leader (Env.received rocks) = .error .blocked := await_others_blocked crowded undone
  simp only [handle_db_message, called, need_some, bind_ok, type, Nat.one_ne_zero, if_false, if_true, blocked, bind_error]

/-- On a single worker a multi-partition message runs the commands of its text. -/
theorem handle_multi (app : App) (fuel : Nat) (undef : Int) (mem : Mem Buf) (pkt : Mbuf) (w : Nat) (rocks : Env)
    (type : pkt.msgtype = 1) (leader : pkt.leader = 0) (alone : rocks.num_workers = 1)
    (assigned : Assigned undef pkt.message) :
    ∃ msg mem', handle_db_message app fuel undef mem pkt w rocks =
        multi_partition app fuel (command_loop multiCallees undef fuel msg) 0 w mem' pkt (Env.received rocks) ∧
      (∀ rocks e, command_loop multiCallees undef fuel msg mem' none rocks = .ok e →
        runCommands multi (commandsOf pkt.message) rocks = .ok (e.tx_failed, e.rocks, callsOf e.log)) ∧
      (pkt.message.length < fuel → ∀ rocks,
        (command_loop multiCallees undef fuel msg mem' none rocks).map
            (fun e => (e.tx_failed, e.rocks, callsOf e.log)) =
          runCommands multi (commandsOf pkt.message) rocks) := by
  obtain ⟨msg, mem', called, loops⟩ := message_loop multi undef fuel mem (message_clean pkt) none assigned
  refine ⟨msg, mem', ?_, loops⟩
  have passed : await_others 0 (Env.received rocks) = .ok (.inl (Env.received rocks)) := await_alone alone
  simp [handle_db_message, called, type, leader, passed]

end Shardb.Handling
