import Shardb.Interleaving
import Shardb.WholeServer

/-!
# Workers that handle their messages side by side

Each worker handles the messages that come to it one after another, and the calls
of the workers' handlers are interleaved (`handle_all`). Without errors of the library,
and as long as nobody finds the cursor of `strtok` in another worker's array, a worker
that is through with its messages has given the answers and left the contents that it
gives and leaves when messages are handled one after another, in whatever order that is
(`interleaved_serial`). So the passes of the whole server, which are one step each, come
to what such interleavings of its workers come to (`passes_stand`).
-/

namespace Shardb.SideBySide
open Shardb.Bytes (Text ascii)
open Shardb.Loops Shardb.Journal Shardb.Rocks Shardb.Datastore Shardb.Handlers Shardb.Server Shardb.Tokens
open Shardb.Interpreter Shardb.Runs Shardb.Traffic Shardb.Store Shardb.Threads
open Shardb.Interleaving hiding Handles

/-! ### The answers to a worker's messages -/

/-- The packet is for worker `w`, and for one shard. -/
abbrev For (w : Nat) (pkt : Mbuf) : Prop := pkt.msgtype = 0 ∧ pkt.leader = w

/-- The answer of worker `w` to a packet and what it leaves of its contents. -/
def respond (w : Nat) (held : Contents) (pkt : Mbuf) : Int × Contents :=
  if For w pkt then
    (if (interpret (begun held) (commandsOf pkt.message)).isSome then 0 else -1, serve held (commandsOf pkt.message))
  else (-1, held)

/-- The answers to packets one after another, and the contents in the end. -/
def respondAll (w : Nat) : Contents → List Mbuf → List Int × Contents
  | held, [] => ([], held)
  | held, pkt :: pkts =>
    let (ret, held) := respond w held pkt
    let (rets, held) := respondAll w held pkts
    (ret :: rets, held)

theorem respondAll_append (w : Nat) (held : Contents) (pkts more : List Mbuf) :
    respondAll w held (pkts ++ more) =
      ((respondAll w held pkts).1 ++ (respondAll w (respondAll w held pkts).2 more).1,
        (respondAll w (respondAll w held pkts).2 more).2) := by
  induction pkts generalizing held with
  | nil => rfl
  | cons pkt pkts ih => simp only [List.cons_append, respondAll, ih]

theorem respondAll_singleton (w : Nat) (held : Contents) (pkt : Mbuf) :
    respondAll w held [pkt] = ([(respond w held pkt).1], (respond w held pkt).2) := rfl

/-- Only the bytes of a packet matter. -/
theorem respondAll_data (w : Nat) (held : Contents) (pkts pkts' : List Mbuf) (same : pkts.map Mbuf.data = pkts'.map Mbuf.data) :
    respondAll w held pkts = respondAll w held pkts' := by
  induction pkts generalizing held pkts' with
  | nil =>
    rw [List.map_nil, eq_comm, List.map_eq_nil_iff] at same
    rw [same]
  | cons pkt pkts ih =>
    obtain ⟨pkt', rest, rfl, here, later⟩ := List.map_eq_cons_iff.mp same.symm
    have once : respond w held pkt = respond w held pkt' := by
      have reads : pkt.msgtype = pkt'.msgtype ∧ pkt.leader = pkt'.leader ∧ pkt.message = pkt'.message := by
        simp only [Mbuf.msgtype, Mbuf.leader, Mbuf.message, here, and_self]
      simp only [respond, For, reads]
    simp only [respondAll, once, ih _ rest later.symm]

/-- A shard between messages, when the library reports no errors. -/
structure Ready (c : Cell) : Prop where
  calm : ∀ t call, c.lib.faults t call = false
  rested : Rested c.toShard
  opened : c.tx_db = true

section Handler
variable {d : Delivery} {rocks : Env} {done : Done} (several : rocks.num_workers ≠ 1) (worker : d.worker_id < rocks.num_workers)
  (answer : d.handle rocks = .ok done)
include several worker answer

/-- What is not addressed to its worker is refused. -/
theorem astray_refused (other : ¬ For d.worker_id d.pkt) : done.ret = -1 := by
  cases course_cases worker answer with
  | astray _ _ ret | crowded _ _ ret | aborted _ _ _ _ _ _ _ ret | unheard _ _ _ _ _ _ ret => exact ret
  | busy type leader | unbegun type leader | committed type leader => exact absurd ⟨type, leader⟩ other
  | executed executes => exact absurd executes.alone several

/-- A call of the handler, at the shard of its worker. -/
theorem handled_responds (calm : ∀ t c, rocks.lib.faults t c = false) (rested : ∀ i, Rested (rocks.shard i))
    (opened : (rocks.shard d.worker_id).tx_db = true) :
    respond d.worker_id (contents (rocks.shard d.worker_id).committed) d.pkt =
      (done.ret, contents (done.rocks.shard d.worker_id).committed) := by
  obtain ⟨outcome, -, -⟩ := handled_outcome calm rested (fun alone => absurd alone several) worker answer d.worker_id
  cases outcome with
  | elsewhere other same =>
    have astray : ¬ For d.worker_id d.pkt := fun here => other ⟨rfl, here⟩
    rw [respond, if_neg astray, same, astray_refused several worker answer astray]
  | unopened here closed =>
    rw [opened] at closed
    cases closed
  | committed here _ ret interpreted left =>
    rw [respond, if_pos (show For _ _ from here.2), serve, interpreted, left, ret]
    rfl
  | aborted here _ ret refused left =>
    rw [respond, if_pos (show For _ _ from here.2), serve, refused, left, ret]
    rfl

end Handler

/-! ### One after another -/

/-- The calls of worker `w`. -/
def handledBy (w : Nat) (messages : List (Env × (Delivery × Done) × Env)) : List (Delivery × Done) :=
  (messages.map fun e => e.2.1).filter fun h => h.1.worker_id = w

theorem handledBy_own {w : Nat} (messages : List (Env × (Delivery × Done) × Env)) {e : Env × (Delivery × Done) × Env}
    (own : e.2.1.1.worker_id = w) : handledBy w (messages ++ [e]) = handledBy w messages ++ [e.2.1] := by
  simp [handledBy, own]

theorem handledBy_other {w : Nat} (messages : List (Env × (Delivery × Done) × Env)) {e : Env × (Delivery × Done) × Env}
    (other : e.2.1.1.worker_id ≠ w) : handledBy w (messages ++ [e]) = handledBy w messages := by
  simp [handledBy, other]

/-- `n` workers between messages, when the library reports no errors. -/
structure Calm (n : Nat) (rocks : Env) : Prop where
  staff : rocks.num_workers = n
  calm : ∀ t c, rocks.lib.faults t c = false
  rested : ∀ i, Rested (rocks.shard i)

/-- Handled one after another, in whatever order, a worker's messages get the answers
    that they get when it is alone. -/
theorem serial_responds {n : Nat} (several : n ≠ 1) {rocks last : Env} {messages : List (Env × (Delivery × Done) × Env)}
    (calm : Calm n rocks) {w : Nat} (opened : (rocks.shard w).tx_db = true) (run : Run Handles rocks messages last) :
    respondAll w (contents (rocks.shard w).committed) ((handledBy w messages).map fun h => h.1.pkt) =
      ((handledBy w messages).map fun h => h.2.ret, contents (last.shard w).committed) := by
  refine (run_keeps (fun messages (now : Env) => Calm n now ∧ (now.shard w).tx_db = true ∧
    respondAll w (contents (rocks.shard w).committed) ((handledBy w messages).map fun h => h.1.pkt) =
      ((handledBy w messages).map fun h => h.2.ret, contents (now.shard w).committed)) (fun _ _ => True) ?_
    ⟨calm, opened, rfl⟩ run fun _ _ => trivial).2.2
  rintro messages now ⟨d, done⟩ now' ⟨calm, opened, before⟩ handles -
  obtain ⟨staff, faults, -⟩ := handled_kept (handled_cases handles)
  obtain ⟨worker, answer, rfl⟩ := handles
  have many : now.num_workers ≠ 1 := calm.staff ▸ several
  have step := handled_outcome calm.calm calm.rested (fun alone => absurd alone many) worker answer
  refine ⟨⟨staff.trans calm.staff, fun t c => by rw [faults]; exact calm.calm t c, fun i => (step i).2.1⟩,
    (step w).2.2.trans opened, ?_⟩
  by_cases own : d.worker_id = w
  · subst own
    rw [handledBy_own messages (e := (now, (d, done), done.rocks)) rfl, List.map_append, List.map_append, respondAll_append,
      before, List.map_singleton, respondAll_singleton, handled_responds many worker answer calm.calm calm.rested opened]
    rfl
  · rw [handledBy_other messages own, before]
    cases (step w).1 with
    | elsewhere _ same => rw [same]
    | unopened here | committed here | aborted here => exact absurd here.1 own

/-! ### Side by side -/

section Workers
variable {n : Nat}

/-- The messages a worker handles are numbered. -/
def number (c : Cell) : Int × Cell := (0, { c with lib := { c.lib with message := c.lib.message + 1 } })

/-- A message for another worker is copied and its first command looked for. One for
    several shards waits for another worker then, and nobody ends the wait. -/
def turn_away (d : Delivery) : Calls n Int := do
  Calls.call (.strcpy .message (.inl d.pkt.message))
  let _ ← Calls.strtok (some .message) (ascii "@")
  if d.pkt.msgtype = 1 then .fault .blocked else return -1

/-- `handle_db_message` on worker `i` of several. -/
def handle (i : Fin n) (d : Delivery) : Calls n Int := do
  let _ ← Calls.call (.shard number)
  if For i d.pkt then (do
    let (ret, _, _) ← Calls.handle_db_message d.app d.fuel d.undef d.pkt i
    return ret)
  else turn_away d

/-- A worker at the messages that come to it: the answers. -/
def handle_all (i : Fin n) : List Delivery → Calls n (List Int)
  | [] => return []
  | d :: ds => do
    let ret ← handle i d
    let rets ← handle_all i ds
    return ret :: rets

theorem keeps_turn_away (i : Fin n) (d : Delivery) : Keeps i (fun _ => True) (turn_away d) := by
  have message : Good i (.strcpy .message (.inl d.pkt.message)) := by rintro p ⟨⟩
  refine uses_bind (keeps_call message) fun _ _ => uses_bind (keeps_strtok _ _) fun _ _ => ?_
  split_ifs <;> trivial

theorem keeps_handle (i : Fin n) (d : Delivery) : Keeps i (fun _ => True) (handle i d) := by
  refine uses_bind (keeps_call trivial) fun _ _ => ?_
  split_ifs
  · exact uses_bind (keeps_handler d.app d.fuel d.undef d.pkt) fun _ _ => trivial
  · exact keeps_turn_away i d

theorem keeps_handle_all (i : Fin n) (ds : List Delivery) : Keeps i (fun _ => True) (handle_all i ds) := by
  induction ds with
  | nil => trivial
  | cons d ds ih => exact uses_bind (keeps_handle i d) fun _ _ => uses_bind ih fun _ _ => trivial

/-- The first command of a message is looked for in the worker's own array. -/
theorem strtok_alone (i : Fin n) (b : Buf) (delim : List UInt8) (w : World n) :
    ∃ token w', (Calls.strtok (some b) delim).run (perform i) w = (.ok token, w') ∧ w'.cell = w.cell := by
  rw [Calls.strtok, Calls.call, run_call]
  have start : (some (⟨(i, b), 0⟩ : CStrings.Ptr (Fin n × Buf))).or w.mem.cursor = some ⟨(i, b), 0⟩ := rfl
  simp only [perform, Option.map_some, CStrings.strtok_cut delim start]
  exact ⟨_, _, rfl, rfl⟩

theorem turn_away_alone {i : Fin n} {d : Delivery} {w w' : World n} {ret : Int}
    (run : (turn_away d).run (perform i) w = (.ok ret, w')) : ret = -1 ∧ w'.cell = w.cell := by
  obtain ⟨token, w₁, took, same⟩ := strtok_alone i .message (ascii "@") (perform i (.strcpy .message (.inl d.pkt.message)) w).2
  rw [turn_away, Calls.call, run_call, run_bind, took] at run
  dsimp only at run
  split_ifs at run
  · cases run
  · cases run
    exact ⟨rfl, same⟩

/-- A worker alone with a message for it does what the handler does. -/
theorem handler_alone {i : Fin n} {d : Delivery} {w w' : World n} {ret : Int} {pkt : Mbuf} {log : Log} (here : For i d.pkt)
    (run : (Calls.handle_db_message d.app d.fuel d.undef d.pkt i).run (perform i) (w.onShard i number).2 =
      (.ok (ret, pkt, log), w')) (base : Env) :
    ∃ done, { d with mem := (w.onShard i number).2.own i, worker_id := i }.handle (base.put i (w.cell i)) = .ok done ∧
      done.ret = ret ∧ done.rocks = base.put i (w'.cell i) := by
  have numbered : Env.received (base.put i (w.cell i)) = base.put i ((w.onShard i number).2.cell i) := by
    rw [onShard_cell]
    rfl
  have does : Interleaving.Handles i base _
      (handle_db_message d.app d.fuel d.undef ((w.onShard i number).2.own i) d.pkt i (base.put i (w.cell i))) :=
    handler_comes here.1 here.2 (fun _ => rfl) numbered
  rw [run] at does
  cases handled : handle_db_message d.app d.fuel d.undef ((w.onShard i number).2.own i) d.pkt i (base.put i (w.cell i)) with
  | error e =>
    rw [handled] at does
    exact does.elim
  | ok done =>
    rw [handled] at does
    obtain ⟨same, mirrors⟩ := does
    exact ⟨done, handled, (congrArg Prod.fst same).symm, mirrors.rocks⟩

/-- A process as an environment, worker `i`'s shard in it. -/
theorem mirror_calm {i : Fin n} {c : Cell} (ready : Ready c) :
    Calm n ((Routing.untouched n (Nat.zero_lt_of_lt i.isLt)).put i c) := by
  refine ⟨rfl, ready.calm, fun j => ?_⟩
  by_cases here : j = i
  · rw [here, put_shard_self]
    exact ready.rested
  · rw [put_shard_other _ _ _ here]
    exact ⟨rfl, rfl⟩

/-- A worker alone with a message. -/
theorem handle_alone (several : n ≠ 1) {i : Fin n} {d : Delivery} {w w' : World n} {ret : Int} (ready : Ready (w.cell i))
    (run : (handle i d).run (perform i) w = (.ok ret, w')) :
    Ready (w'.cell i) ∧
      respond i (contents (w.cell i).committed) d.pkt = (ret, contents (w'.cell i).committed) := by
  rw [handle, shard_run] at run
  split_ifs at run with here
  · obtain ⟨⟨ret', pkt, log⟩, w₁, ran, ends⟩ := run_bind_ok.mp run
    cases ends
    have calm := mirror_calm (i := i) ready
    obtain ⟨done, answer, same, left⟩ := handler_alone here ran (Routing.untouched n (Nat.zero_lt_of_lt i.isLt))
    have opened : (((Routing.untouched n (Nat.zero_lt_of_lt i.isLt)).put i (w.cell i)).shard i).tx_db = true := by
      rw [put_shard_self]
      exact ready.opened
    have responds := handled_responds several i.isLt answer calm.calm calm.rested opened
    have kept := handled_outcome calm.calm calm.rested (fun alone => absurd alone several) i.isLt answer i
    obtain ⟨-, faults, -⟩ := handled_kept (handled_cases ⟨i.isLt, answer, rfl⟩)
    simp only [left, put_shard_self] at kept responds
    rw [left] at faults
    refine ⟨⟨fun t call => ?_, kept.2.1, kept.2.2.trans ready.opened⟩, responds.trans (by rw [same])⟩
    exact (congrFun (congrFun faults t) call).trans (ready.calm t call)
  · obtain ⟨rfl, same⟩ := turn_away_alone run
    rw [same, onShard_cell, respond, if_neg here]
    exact ⟨⟨ready.calm, ⟨ready.rested.empty, ready.rested.count⟩, ready.opened⟩, rfl⟩

theorem handle_all_alone (several : n ≠ 1) {i : Fin n} {w w' : World n} : ∀ {ds : List Delivery} {rets : List Int},
    Ready (w.cell i) → (handle_all i ds).run (perform i) w = (.ok rets, w') →
    respondAll i (contents (w.cell i).committed) (ds.map Delivery.pkt) = (rets, contents (w'.cell i).committed) := by
  intro ds
  induction ds generalizing w with
  | nil =>
    rintro rets - run
    cases run
    rfl
  | cons d ds ih =>
    intro rets ready run
    obtain ⟨ret, w₁, first, run⟩ := run_bind_ok.mp run
    obtain ⟨rets', w₂, later, ends⟩ := run_bind_ok.mp run
    cases ends
    obtain ⟨ready₁, responds⟩ := handle_alone several ready first
    simp only [List.map_cons, respondAll, responds, ih ready₁ later]

/-- What is left of the workers' calls, and the process. -/
abbrev Staff (n : Nat) := Config (Returned (n := n)) Fault (List Int) (World n) (Fin n)

/-- Every worker has its messages before it. -/
def serving (w : World n) (msgs : Fin n → List Delivery) : Staff n := ⟨fun i => handle_all i (msgs i), w⟩

section Interleaved
variable {w : World n} {msgs : Fin n → List Delivery} {trail : List (Staff n × Fin n × Staff n)} {last : Staff n}
  (several : n ≠ 1) (run : Run (Step perform) (serving w msgs) trail last)
  (fine : ∀ e ∈ trail, NextFine Undisturbed e.1 e.2.1) {i : Fin n} (ready : Ready (w.cell i)) {rets : List Int}
  (ended : last.threads i = .ret rets)
include several run fine ready ended

/-- A worker that is through has given the answers and left the contents that it gives
    and leaves alone. -/
theorem interleaved_responds : respondAll i (contents (w.cell i).committed) ((msgs i).map Delivery.pkt) =
    (rets, contents (last.state.cell i).committed) := by
  obtain ⟨alone, reaches, agree⟩ := separate agree_refl own_call other_call
    (fun i => keeps_handle_all i (msgs i)) run fine i
  rw [ended] at reaches
  rw [handle_all_alone several ready reaches, agree.cell]

/-- They are those of the same messages handled one after another, in whatever order. -/
theorem interleaved_serial {rocks final : Env} {messages : List (Env × (Delivery × Done) × Env)} (calm : Calm n rocks)
    (opened : (rocks.shard i).tx_db = true) (held : contents (rocks.shard i).committed = contents (w.cell i).committed)
    (serial : Run Handles rocks messages final)
    (same : (msgs i).map (fun d => d.pkt.data) = (handledBy i messages).map fun h => h.1.pkt.data) :
    rets = (handledBy i messages).map (fun h => h.2.ret) ∧
      contents (last.state.cell i).committed = contents (final.shard i).committed := by
  have here := interleaved_responds several run fine ready ended
  have there := serial_responds several calm opened serial
  have bytes := respondAll_data i (contents (w.cell i).committed) ((msgs i).map Delivery.pkt)
    ((handledBy i messages).map fun h => h.1.pkt) (by rw [List.map_map, List.map_map]; exact same)
  rw [held, ← bytes, here] at there
  exact Prod.mk.inj there

end Interleaved

end Workers

/-! ### The whole server -/

section Server
open Shardb.Wiring Shardb.Transit Shardb.Service
open Shardb.Conservation (small)

/-- What worker `k` handled, in the order of the log. -/
def handledAt (log : List Entry) (k : Nat) : List Entry := log.filter fun e => e.delivery.worker_id = k

theorem handledBy_log {messages : List (Env × (Delivery × Done) × Env)} {log : List Entry}
    (same : messages.map (fun e => e.2.1) = log.map fun e => (e.delivery, e.done)) (k : Nat) :
    handledBy k messages = (handledAt log k).map fun e => (e.delivery, e.done) := by
  rw [handledBy, same, handledAt, List.filter_map]
  rfl

/-- The start of the databases, when the library reports no errors. -/
theorem init_calm {n : Nat} (staffed : 0 < n) (disk : Nat → List Write) {faults : Nat → Rocks.Call → Bool}
    (calm : ∀ t c, faults t c = false) : Calm n (init_database_env n staffed disk faults) := by
  have initial := init_initial staffed disk faults
  exact ⟨rfl, fun t c => by rw [initial.faults]; exact calm t c, fun i => ⟨initial.empty i, initial.count i⟩⟩

/-- In a run of the whole server a worker's pass is one step. Let the workers handle the
    packets that they handled in such a run with their calls interleaved in any way, as
    long as nobody finds the cursor of `strtok` in another worker's array: a worker that
    is through has given the answers of the log and left what its database holds. -/
theorem passes_stand {app : Params} {roles : Nat → Role} {lpm_lookup : Nat → Option Nat} {start : System Arrival}
    {disk : Nat → List Write} {faults : Nat → Rocks.Call → Bool} {trail : List (Host × Deed × Host)} {last : Host}
    (receiving : 0 < app.burst_size_io_rx_write) (working : 0 < app.burst_size_worker_write)
    (ready : app_init app roles = .ok start) (staffed : 0 < (workers start.lcore_params).length)
    (calm : ∀ t c, faults t c = false) (run : Run (Serves lpm_lookup) (switched_on start staffed disk faults) trail last)
    {n : Nat} (staff : (workers start.lcore_params).length = n) (several : 1 < n) (fits : n ≤ MAX_WORKER_CORE)
    {w : World n} (shards : ∀ i, Ready (w.cell i)) (held : ∀ i, contents (w.cell i).committed = contents (disk i))
    {msgs : Fin n → List Delivery}
    (same : ∀ i, (msgs i).map (fun d => d.pkt.data) = (handledAt last.log i).map fun e => e.mbuf.data)
    {calls : List (Staff n × Fin n × Staff n)} {process : Staff n}
    (interleaved : Run (Step perform) (serving w msgs) calls process)
    (fine : ∀ e ∈ calls, NextFine Undisturbed e.1 e.2.1) {i : Fin n} {rets : List Int}
    (ended : process.threads i = .ret rets) :
    rets = (handledAt last.log i).map (fun e => e.done.ret) ∧
      contents (process.state.cell i).committed = contents (last.rocks.shard i).committed := by
  obtain ⟨-, accounted⟩ := Accounting.run_accounted receiving working ready staffed run
  obtain ⟨messages, handled, logged⟩ := run_messages receiving working ready staffed disk faults run
  have calls_of := handledBy_log logged i
  have begins := init_initial staffed disk faults
  have opened : ((init_database_env _ staffed disk faults).shard i).tx_db = true :=
    (opened_iff staffed disk (fun t => calm t _) i).mpr (Nat.lt_of_lt_of_le i.isLt fits)
  have packets : (msgs i).map (fun d => d.pkt.data) = (handledBy i messages).map fun h => h.1.pkt.data := by
    rw [same i, calls_of, List.map_map]
    refine List.map_congr_left fun e member => ?_
    exact (accounted.calls e (List.mem_filter.mp member).1).1.symm
  obtain ⟨answers, left⟩ := interleaved_serial (Nat.ne_of_gt several) interleaved fine (shards i) ended
    (staff ▸ init_calm staffed disk calm) opened (by rw [begins.committed, held]) handled packets
  rw [calls_of, List.map_map] at answers
  exact ⟨answers, left⟩

/-- Two messages for each of two workers; their second byte tells. -/
def four_messages (i : Fin 2) : List Delivery :=
  (if i.val = 0 then [ascii "w6 x", ascii "r6@w8 z"] else [ascii "w7 y", ascii "r9"]).map fun text =>
    { plain_to i text with fuel := 16 }

/-- They are received in turns and handled in passes. -/
theorem four_handled : ∃ start trail, ∃ last : Host, ∃ staffed : 0 < (workers start.lcore_params).length,
    app_init small Dispatch.oneRoles = .ok start ∧
    Run (Serves fun _ => none) (switched_on start staffed (fun _ => []) fun _ _ => false) trail last ∧
    (workers start.lcore_params).length = 2 ∧
    ∀ i : Fin 2, (four_messages i).map (fun d => d.pkt.data) = (handledAt last.log i).map fun e => e.mbuf.data := by
  have played : (do
      let start ← app_init small Dispatch.oneRoles
      if staffed : 0 < (workers start.lcore_params).length then
        let s ← serve (fun _ => none) (switched_on start staffed (fun _ => []) fun _ _ => false) (.lcore
          (.io_rx 0 fun _ => [0, 1].map fun i => (plain_to i (if i = 0 then ascii "w6 x" else ascii "w7 y")).pkt.data))
        let s ← serve (fun _ => none) s (.lcore
          (.io_rx 0 fun _ => [0, 1].map fun i => (plain_to i (if i = 0 then ascii "r6@w8 z" else ascii "r9")).pkt.data))
        let s ← serve (fun _ => none) s (.worker 1 fun _ => plain_to 0 [])
        let s ← serve (fun _ => none) s (.worker 2 fun _ => plain_to 1 [])
        return ((workers start.lcore_params).length,
          decide (∀ i : Fin 2, (four_messages i).map (fun d : Delivery => d.pkt.data) =
            (handledAt s.log i).map fun e : Entry => e.mbuf.data))
      else .error .panic) = .ok (2, true) := by
    decide +kernel
  obtain ⟨start, ready, played⟩ := bind_eq_ok.mp played
  split at played
  · rename_i staffed
    obtain ⟨s₁, one, played⟩ := bind_eq_ok.mp played
    obtain ⟨s₂, two, played⟩ := bind_eq_ok.mp played
    obtain ⟨s₃, three, played⟩ := bind_eq_ok.mp played
    obtain ⟨s₄, four, played⟩ := bind_eq_ok.mp played
    obtain ⟨staff, same⟩ := Prod.mk.inj (Except.ok.inj played)
    exact ⟨start, _, s₄, staffed, ready, (((Run.stay.next one).next two).next three).next four, staff, of_decide_eq_true same⟩
  · cases played

/-- The second worker handles its first message before the first worker commits, and
    aborts its second one when the first worker is through. -/
def four_turns (first second : Fin 2) : List (Fin 2) :=
  List.replicate 14 first ++ List.replicate 14 second ++ List.replicate 3 first ++ List.replicate 12 second ++
    List.replicate 19 first ++ List.replicate 4 second

theorem four_stand : ∃ start trail, ∃ last : Host, ∃ staffed : 0 < (workers start.lcore_params).length,
    app_init small Dispatch.oneRoles = .ok start ∧
    Run (Serves fun _ => none) (switched_on start staffed (fun _ => []) fun _ _ => false) trail last ∧
    ∃ calls process, Run (Step perform) (serving twoWorkers four_messages) calls process ∧
      ∀ i, process.threads i = .ret ((handledAt last.log i).map fun e => e.done.ret) ∧
        contents (process.state.cell i).committed = contents (last.rocks.shard i).committed := by
  obtain ⟨start, trail, last, staffed, ready, run, staff, same⟩ := four_handled
  obtain ⟨calls, interleaved, fine⟩ :=
    schedule_run perform (serving twoWorkers four_messages) Undisturbed (four_turns 0 1) (by decide +kernel)
  have ended : ∀ i, (((four_turns 0 1).foldl (turn perform) (serving twoWorkers four_messages)).threads i).result =
      some (if i = 0 then [0, 0] else [0, -1]) := by decide +kernel
  refine ⟨start, trail, last, staffed, ready, run, calls, _, interleaved, fun i => ?_⟩
  have ended := ret_of_result (ended i)
  obtain ⟨answers, left⟩ := passes_stand (by decide) (by decide) ready staffed (fun _ _ => rfl) run staff (by decide)
    (by decide) (w := twoWorkers) (fun _ => ⟨fun _ _ => rfl, ⟨rfl, rfl⟩, rfl⟩) (fun _ => rfl) same interleaved fine ended
  exact ⟨answers ▸ ended, left⟩

end Server

end Shardb.SideBySide
