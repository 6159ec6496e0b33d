import Shardb.Accounting
import Shardb.Dispatch
import Shardb.Startup
import Shardb.Store

/-!
# From the port to the database and back

What the lcores do with packets and what the handler does with databases together:
a database holds what the interpreter makes of the packets that its worker took out
of its rings, which are those that came over the one receiving lcore in the order in
which they came (`stored_in_sequence`), and a packet that leaves the server says that
its message was carried out there (`replies_truthful`).
-/

namespace Shardb.WholeServer
open Shardb.Loops Shardb.Wiring Shardb.Runs Shardb.Transit Shardb.Conservation Shardb.Steps Shardb.Service Shardb.Accounting
open Shardb.Bytes (ascii)
open Shardb.Datastore (MAX_WORKER_CORE)
open Shardb.Lcores (worker_of)
open Shardb.Rocks (contents)
open Shardb.Tokens (commandsOf)
open Shardb.Interpreter (interpret begun)
open Shardb.Traffic (Delivery Handles)
open Shardb.Store

/-- No lcore but `l` has queues to receive from. -/
def Receives (roles : Nat → Role) (l : Nat) : Prop :=
  ∀ l' nic_queues nic_ports, roles l' = .io nic_queues nic_ports → nic_queues ≠ [] → l' = l

section Runs
variable {app : Params} {roles : Nat → Role} {lpm_lookup : Nat → Option Nat} {start : System Arrival}
  {disk : Nat → List Rocks.Write} {faults : Nat → Rocks.Call → Bool} {trail : List (Host × Deed × Host)} {last : Host}

/-- What is received comes over an lcore that receives. -/
theorem received_by {l : Nat} (receiving : 0 < app.burst_size_io_rx_write) (working : 0 < app.burst_size_worker_write)
    (ready : app_init app roles = .ok start) (staffed : 0 < (workers start.lcore_params).length) (only : Receives roles l)
    (run : Run (Serves lpm_lookup) (switched_on start staffed disk faults) trail last) :
    ∀ m ∈ last.lcores.net.received, m.lcore = l := by
  obtain ⟨-, calls, called, -⟩ := run_calls receiving working ready staffed disk faults run
  have going : Going app lpm_lookup start last.lcores := run_keeps (fun _ s => Going app lpm_lookup start s) (fun _ _ => True)
    (fun _ _ _ _ going step _ => going.step step) (.first receiving working ready) called fun _ _ => trivial
  intro m member
  obtain ⟨rx, tx, queue, is, listed⟩ := going.queued m member
  have made := Startup.app_init_role ready m.lcore
  rw [is] at made
  split_ifs at made
  · exact only m.lcore rx.nic_queues tx.nic_ports made.symm (List.ne_nil_of_mem listed)
  · cases made

/-- The messages of the log, up to one of its entries and behind it. -/
theorem messages_split {messages : List (Datastore.Env × (Delivery × Server.Done) × Datastore.Env)} {log before after : List Entry}
    {e : Entry} (same : messages.map (fun h => h.2.1) = log.map fun e => (e.delivery, e.done)) (split : log = before ++ e :: after) :
    ∃ before' h after', messages = before' ++ h :: after' ∧ h.2.1 = (e.delivery, e.done) ∧
      before'.map (fun h => h.2.1.1) = before.map Entry.delivery := by
  rw [split, List.map_append, List.map_cons] at same
  obtain ⟨before', rest, rfl, first, behind⟩ := List.map_eq_append_iff.mp same
  obtain ⟨h, after', rfl, here, -⟩ := List.map_eq_cons_iff.mp behind
  refine ⟨before', h, after', rfl, here, ?_⟩
  have deliveries := congrArg (List.map Prod.fst) first
  rwa [List.map_map, List.map_map] at deliveries

/-- Without errors of the library a database holds what the messages that its worker
    took out of its rings make of it, one after another; these are messages that were
    received, in the order of arrival when one lcore receives. -/
theorem stored_in_sequence {l k : Nat} (receiving : 0 < app.burst_size_io_rx_write) (working : 0 < app.burst_size_worker_write)
    (ready : app_init app roles = .ok start) (several : 1 < (workers start.lcore_params).length) (only : Receives roles l)
    (fits : (workers start.lcore_params).length ≤ MAX_WORKER_CORE) (calm : ∀ t c, faults t c = false)
    (worker : k < (workers start.lcore_params).length)
    (run : Run (Serves lpm_lookup) (switched_on start (Nat.zero_lt_of_lt several) disk faults) trail last) :
    contents (last.rocks.shard k).committed =
      served (contents (disk k)) (asked k ((handledFrom last.log l k).map Entry.delivery)) ∧
    (∀ e ∈ handledFrom last.log l k, e.delivery.pkt.data = e.mbuf.data) ∧
    ((handledFrom last.log l k).map Entry.mbuf).Sublist last.lcores.net.received := by
  have staffed := Nat.zero_lt_of_lt several
  obtain ⟨-, accounted⟩ := run_accounted receiving working ready staffed run
  obtain ⟨messages, handled, same⟩ := run_messages receiving working ready staffed disk faults run
  have arrived := received_by receiving working ready staffed only run
  -- what another worker handled is not addressed to this one
  have own : asked k (last.log.map Entry.delivery) = asked k ((handledFrom last.log l k).map Entry.delivery) := by
    simp only [asked, List.filter_map, List.map_map, handledFrom, List.filter_filter]
    refine congrArg _ (List.filter_congr fun e member => ?_)
    have here := arrived _ (accounted.arrived e member).1
    by_cases addressed : Addressed k e.delivery
    · simp [addressed, addressed.1, here]
    · simp [addressed]
  refine ⟨?_, fun e member => (accounted.calls e (List.mem_filter.mp member).1).1, accounted.in_order staffed l k⟩
  have deliveries := congrArg (List.map Prod.fst) same
  rw [List.map_map, List.map_map] at deliveries
  rw [← own, ← show messages.map (fun h => h.2.1.1) = last.log.map Entry.delivery from deliveries]
  exact opened_contents staffed calm handled (fun alone => by omega) (Nat.lt_of_lt_of_le worker fits)


/-- Without errors of the library a packet that leaves the server has a message that was
    carried out in its place in the log. -/
theorem replies_truthful (receiving : 0 < app.burst_size_io_rx_write) (working : 0 < app.burst_size_worker_write)
    (ready : app_init app roles = .ok start) (several : 1 < (workers start.lcore_params).length)
    (fits : (workers start.lcore_params).length ≤ MAX_WORKER_CORE) (calm : ∀ t c, faults t c = false)
    (run : Run (Serves lpm_lookup) (switched_on start (Nat.zero_lt_of_lt several) disk faults) trail last) {port k : Nat}
    {m : Arrival} (sent : m ∈ last.lcores.net.transmitted port)
    (dispatched : worker_of (workers start.lcore_params).length app.pos_lb m.data = k) :
    ∃ before e after, last.log = before ++ e :: after ∧ e.mbuf = m ∧ e.delivery.pkt.data = m.data ∧ Addressed k e.delivery ∧
      (interpret (begun (served (contents (disk k)) (asked k (before.map Entry.delivery))))
        (commandsOf e.delivery.pkt.message)).isSome := by
  have staffed := Nat.zero_lt_of_lt several
  obtain ⟨-, accounted⟩ := run_accounted receiving working ready staffed run
  obtain ⟨messages, handled, same⟩ := run_messages receiving working ready staffed disk faults run
  obtain ⟨e, member, rfl, ret⟩ := accounted.sent sent
  obtain ⟨data, own⟩ := accounted.calls e member
  obtain ⟨before, after, split⟩ := List.append_of_mem member
  obtain ⟨before', ⟨rocks, ⟨d, done⟩, rocks'⟩, after', split', here, earlier⟩ := messages_split same split
  obtain ⟨rfl, rfl⟩ := Prod.mk.inj here
  obtain ⟨first, worker, answer, -⟩ := handled.split split'
  have more : rocks.num_workers ≠ 1 := by
    rw [run_workers staffed first]
    omega
  obtain rfl : e.delivery.worker_id = k := own.trans dispatched
  have addressed := answered_addressed more worker answer ret
  refine ⟨before, e, after, split, rfl, data, addressed, ?_⟩
  rw [← earlier]
  have inside : e.delivery.worker_id < (workers start.lcore_params).length := by
    rw [← dispatched]
    exact WorkerCount.worker_of_lt staffed (by unfold MAX_WORKER_CORE at fits; omega) _ _
  exact (opened_answers staffed calm handled (fun alone => by omega) (Nat.lt_of_lt_of_le inside fits) split' addressed).mp ret

end Runs

/-- Two messages for the second of two workers; their second byte tells. -/
def two_writes : List (List UInt8) :=
  [(Handling.packet 0 1 (Bytes.ascii "w7 x")).data, (Handling.packet 0 1 (Bytes.ascii "w9 y")).data]

theorem first_receives : Receives Dispatch.oneRoles 0 := by
  intro l nic_queues nic_ports is queued
  by_contra other
  rw [Dispatch.oneRoles, if_neg other] at is
  split_ifs at is

/-- They are received, handled and sent back. -/
theorem two_written : ∃ start trail, ∃ last : Host, ∃ several : 1 < (workers start.lcore_params).length,
    app_init small Dispatch.oneRoles = .ok start ∧
    Run (Serves fun _ => none) (switched_on start (Nat.zero_lt_of_lt several) (fun _ => []) fun _ _ => false) trail last ∧
    asked 1 ((handledFrom last.log 0 1).map Entry.delivery) =
      [[.write (some (ascii "7")) (some (ascii "x"))], [.write (some (ascii "9")) (some (ascii "y"))]] ∧
    (workers start.lcore_params).length = 2 ∧ ∃ m ∈ last.lcores.net.transmitted 0, m.serial = 1 ∧
      worker_of (workers start.lcore_params).length small.pos_lb m.data = 1 := by
  have played : (do
      let start ← app_init small Dispatch.oneRoles
      if several : 1 < (workers start.lcore_params).length then
        let s ← serve (fun _ => none) (switched_on start (Nat.zero_lt_of_lt several) (fun _ => []) fun _ _ => false)
          (.lcore (.io_rx 0 fun _ => two_writes))
        let s ← serve (fun _ => none) s (.worker 2 fun _ => plain_to 1 [])
        let s ← serve (fun _ => none) s (.lcore (.io_tx 0 fun _ burst => burst.length))
        return (asked 1 ((handledFrom s.log 0 1).map Entry.delivery), (workers start.lcore_params).length,
          (s.lcores.net.transmitted 0).map fun m : Arrival =>
            (m.serial, worker_of (workers start.lcore_params).length small.pos_lb m.data))
      else .error .panic) =
      .ok ([[.write (some (ascii "7")) (some (ascii "x"))], [.write (some (ascii "9")) (some (ascii "y"))]], 2,
        [(0, 1), (1, 1)]) := by
    decide +kernel
  obtain ⟨start, ready, played⟩ := bind_eq_ok.mp played
  split at played
  · rename_i several
    obtain ⟨s₁, one, played⟩ := bind_eq_ok.mp played
    obtain ⟨s₂, two, played⟩ := bind_eq_ok.mp played
    obtain ⟨s₃, three, played⟩ := bind_eq_ok.mp played
    obtain ⟨messages, rest⟩ := Prod.mk.inj (Except.ok.inj played)
    obtain ⟨two_workers, sent⟩ := Prod.mk.inj rest
    refine ⟨start, _, s₃, several, ready, ((Run.stay.next one).next two).next three, messages, two_workers, ?_⟩
    have last : (1, 1) ∈ (s₃.lcores.net.transmitted 0).map fun m : Arrival =>
        (m.serial, worker_of (workers start.lcore_params).length small.pos_lb m.data) := by
      rw [sent]
      exact List.mem_cons_of_mem _ List.mem_cons_self
    obtain ⟨m, member, same⟩ := List.mem_map.mp last
    obtain ⟨serial, own⟩ := Prod.mk.inj same
    exact ⟨m, member, serial, own⟩
  · cases played

theorem two_stored : ∃ start trail, ∃ last : Host, ∃ several : 1 < (workers start.lcore_params).length,
    app_init small Dispatch.oneRoles = .ok start ∧
    Run (Serves fun _ => none) (switched_on start (Nat.zero_lt_of_lt several) (fun _ => []) fun _ _ => false) trail last ∧
    contents (last.rocks.shard 1).committed (ascii "7") = some (ascii "x") ∧
    contents (last.rocks.shard 1).committed (ascii "9") = some (ascii "y") := by
  obtain ⟨start, trail, last, several, ready, run, messages, two_workers, -⟩ := two_written
  obtain ⟨held, -⟩ := stored_in_sequence (by decide) (by decide) ready several first_receives
    (two_workers.trans_le (by decide)) (fun _ _ => rfl) (k := 1) (by rw [two_workers]; decide) run
  rw [messages] at held
  refine ⟨start, trail, last, several, ready, run, ?_⟩
  rw [held]
  decide +kernel

theorem two_truthful : ∃ start trail, ∃ last : Host, ∃ several : 1 < (workers start.lcore_params).length,
    app_init small Dispatch.oneRoles = .ok start ∧
    Run (Serves fun _ => none) (switched_on start (Nat.zero_lt_of_lt several) (fun _ => []) fun _ _ => false) trail last ∧
    ∃ m ∈ last.lcores.net.transmitted 0, m.serial = 1 ∧ ∃ before e after, last.log = before ++ e :: after ∧ e.mbuf = m ∧
      (interpret (begun (served (contents []) (asked 1 (before.map Entry.delivery))))
        (commandsOf e.delivery.pkt.message)).isSome := by
  obtain ⟨start, trail, last, several, ready, run, -, two_workers, m, sent, serial, own⟩ := two_written
  obtain ⟨before, e, after, split, same, -, -, accepted⟩ :=
    replies_truthful (by decide) (by decide) ready several (two_workers.trans_le (by decide)) (fun _ _ => rfl) run sent own
  exact ⟨start, trail, last, several, ready, run, m, sent, serial, before, e, after, split, same, accepted⟩

end Shardb.WholeServer
