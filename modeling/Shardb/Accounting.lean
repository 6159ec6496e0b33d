import Mathlib.Data.List.Perm.Subperm
import Shardb.Service
import Shardb.WorkerCount

/-!
# Every message once, and in order

What an I/O lcore receives for a worker goes into one buffer and one ring, and the
worker takes it out from the front. So each message is handled once at most, by the
worker that its byte tells, in the order of arrival (`handled_in_order`), in whole
bursts (`handled_in_bursts`), and only what was answered is sent
(`sent_answered`).
-/

namespace Shardb.Accounting
open Shardb.Loops Shardb.Rings Shardb.Flow Shardb.Wiring Shardb.Runs Shardb.Transit Shardb.Conservation Shardb.Steps
open Shardb.Service
open Shardb.Lcores (Net Outputs Rx Tx RingId worker_of index to_worker io_rx_queue app_lcore_io_rx app_lcore_io_rx_flush
  io_tx_ring app_lcore_io_tx io_tx_flush_port app_lcore_io_tx_flush worker_flush_port app_lcore_worker_flush
  app_lcore_io_rx_buffer_to_send rx_queue_eq app_mbuf_array)
open Shardb.Traffic (Delivery Handles course_cases)

/-! ### What is on its way to a worker -/

/-- In the ring from lcore `l` to worker lcore `w`, and in buffer `k`, the oldest first. -/
def line (net : Net Arrival) (out : Outputs Arrival) (l k w : Nat) : List Arrival := (net.rings (.rx l w)).items ++ items out k

/-- What the functions that receive leave as it is. -/
structure Inbound (l : Nat) (net net' : Net Arrival) : Prop where
  others : ∀ l' v, l' ≠ l → net'.rings (.rx l' v) = net.rings (.rx l' v)
  outgoing : ∀ w port, net'.rings (.tx w port) = net.rings (.tx w port)
  transmitted : net'.transmitted = net.transmitted
  freed : net.freed ⊆ net'.freed

/-- And those that send, when they are given what a worker has handled. -/
structure Outbound (net net' : Net Arrival) : Prop where
  incoming : ∀ l w, net'.rings (.rx l w) = net.rings (.rx l w)
  received : net'.received = net.received
  freed : net.freed ⊆ net'.freed

section Frames
variable {net net' net'' : Net Arrival} {l : Nat}

theorem Inbound.refl : Inbound l net net := ⟨fun _ _ _ => rfl, fun _ _ => rfl, rfl, List.Subset.refl _⟩

theorem Inbound.trans (first : Inbound l net net') (second : Inbound l net' net'') : Inbound l net net'' :=
  ⟨fun l' v other => (second.others l' v other).trans (first.others l' v other),
    fun w port => (second.outgoing w port).trans (first.outgoing w port), second.transmitted.trans first.transmitted,
    List.Subset.trans first.freed second.freed⟩

theorem Outbound.refl : Outbound net net := ⟨fun _ _ => rfl, rfl, List.Subset.refl _⟩

theorem Outbound.trans (first : Outbound net net') (second : Outbound net' net'') : Outbound net net'' :=
  ⟨fun l w => (second.incoming l w).trans (first.incoming l w), second.received.trans first.received,
    List.Subset.trans first.freed second.freed⟩

end Frames

section Receiving
variable {plan : Plan} {out out' : Outputs Arrival} {rx rx' : Rx Arrival} {net net' : Net Arrival} {l i bsz : Nat}
  {m : Arrival} {ring : Option RingId}

/-- What leaves a buffer goes to its ring or is freed. -/
private theorem enqueue_line {mbufs : List Arrival} (once : plan.workers.Nodup)
    (to_ring : ∀ id, ring = some id → ∃ v, plan.workers[i]? = some v ∧ id = RingId.rx l v)
    (run : net.enqueue ring mbufs = .ok net') :
    Inbound l net net' ∧ ∀ k w, plan.workers[k]? = some w →
      (k = i → (net'.rings (.rx l w)).items.Sublist ((net.rings (.rx l w)).items ++ mbufs)) ∧
      (k ≠ i → net'.rings (.rx l w) = net.rings (.rx l w)) := by
  simp only [Net.enqueue, bind_eq_ok] at run
  obtain ⟨id, found, run⟩ := run
  obtain ⟨v, there, rfl⟩ : ∃ v, plan.workers[i]? = some v ∧ id = RingId.rx l v := by
    cases ring with
    | none => cases found
    | some id' => cases found; exact to_ring _ rfl
  cases full : (net.rings (.rx l v)).enqueueBulk mbufs with
  | some ring' =>
    simp only [full] at run
    cases run
    refine ⟨⟨fun l' v' other => ?_, fun w port => ?_, rfl, List.Subset.refl _⟩, fun k w worker => ⟨fun here => ?_, fun other => ?_⟩⟩
    · exact Function.update_of_ne (fun same => other (RingId.rx.inj same).1) ..
    · show Function.update net.rings (.rx l v) ring' (.tx w port) = _
      exact Function.update_of_ne (by rintro ⟨⟩) ..
    · subst here
      rw [worker] at there
      cases there
      show (Function.update net.rings _ ring' _).items.Sublist _
      rw [Function.update_self, BulkRing.enqueued full]
    · refine Function.update_of_ne (fun same => other ?_) ..
      cases same
      exact (List.getElem?_inj (List.getElem?_eq_some_iff.mp worker).1 once).mp (worker.trans there.symm)
  | none =>
    simp only [full] at run
    cases run
    exact ⟨⟨fun _ _ _ => rfl, fun _ _ => rfl, rfl, List.subset_append_left ..⟩, fun _ _ _ =>
      ⟨fun _ => List.sublist_append_left .., fun _ => rfl⟩⟩

private theorem append_line (once : plan.workers.Nodup)
    (to_ring : ∀ id, ring = some id → ∃ v, plan.workers[i]? = some v ∧ id = RingId.rx l v)
    (run : out.append i m bsz ring net = .ok (out', net')) :
    Inbound l net net' ∧ ∀ k w, plan.workers[k]? = some w → (line net' out' l k w).Sublist (line net out l k w ++ [m]) := by
  rw [Outputs.append] at run
  cases pushed : (out.mbuf_out i).push [m] with
  | none => simp only [pushed] at run; cases run
  | some buffer =>
    have grown : buffer.items = items out i ++ [m] := Buffer.pushed pushed
    simp only [pushed] at run
    split_ifs at run
    · cases run
      refine ⟨.refl, fun k w _ => ?_⟩
      show ((net.rings (.rx l w)).items ++ (Function.update out.mbuf_out i buffer k).items).Sublist _
      by_cases here : k = i
      · subst here
        rw [Function.update_self, grown, line, List.append_assoc]
      · rw [Function.update_of_ne here]
        exact List.sublist_append_left ..
    · obtain ⟨net₁, enqueued, run⟩ := bind_eq_ok.mp run
      cases run
      obtain ⟨inbound, rings⟩ := enqueue_line once to_ring enqueued
      refine ⟨inbound, fun k w worker => ?_⟩
      obtain ⟨own, others⟩ := rings k w worker
      rw [line, items_reset]
      by_cases here : k = i
      · subst here
        rw [Function.update_self, List.append_nil]
        refine (own rfl).trans ?_
        rw [line, List.append_assoc, ← grown]
        exact (List.take_sublist ..).append_left _
      · rw [Function.update_of_ne here, others here]
        exact List.sublist_append_left ..

private theorem flush_line (once : plan.workers.Nodup)
    (to_ring : ∀ id, ring = some id → ∃ v, plan.workers[i]? = some v ∧ id = RingId.rx l v)
    (run : out.flush i ring net = .ok (out', net')) :
    Inbound l net net' ∧ ∀ k w, plan.workers[k]? = some w → (line net' out' l k w).Sublist (line net out l k w) := by
  rw [Outputs.flush] at run
  split_ifs at run
  · cases run
    exact ⟨.refl, fun _ _ _ => .refl _⟩
  · obtain ⟨net₁, enqueued, run⟩ := bind_eq_ok.mp run
    cases run
    obtain ⟨inbound, rings⟩ := enqueue_line once to_ring enqueued
    refine ⟨inbound, fun k w worker => ?_⟩
    obtain ⟨own, others⟩ := rings k w worker
    rw [line, items_reset]
    by_cases here : k = i
    · subst here
      rw [Function.update_self, List.append_nil]
      exact own rfl
    · rw [Function.update_of_ne here, others here]
      exact .refl _

/-- The rings of a receiving lcore. -/
abbrev RxRings (plan : Plan) (l : Nat) (rx : Rx Arrival) : Prop :=
  ∀ {k : Nat} {id}, rx.rings[k]? = some id → ∃ w, plan.workers[k]? = some w ∧ id = RingId.rx l w

/-- A burst is put at the end of the lines. -/
private theorem sent_line {burst : List Arrival} {n_workers pos_lb : Nat} (once : plan.workers.Nodup)
    (run : burst.foldlM (fun s m => to_worker n_workers bsz pos_lb m.data m s) (rx, net) = .ok (rx', net'))
    (rings : RxRings plan l rx) :
    rx'.rings = rx.rings ∧ Inbound l net net' ∧ net'.received = net.received ∧ ∀ k w, plan.workers[k]? = some w →
      (line net' rx'.toOutputs l k w).Sublist (line net rx.toOutputs l k w ++ burst) := by
  -- behind `rest` packets of the burst, those before are in the lines
  have all := foldlM_ok (fun rest (s : Rx Arrival × Net Arrival) => s.1.rings = rx.rings ∧ Inbound l net s.2 ∧
    s.2.received = net.received ∧ ∃ done, burst = done ++ rest ∧ ∀ k w, plan.workers[k]? = some w →
      (line s.2 s.1.toOutputs l k w).Sublist (line net rx.toOutputs l k w ++ done)) ?_
    ⟨rfl, .refl, rfl, [], rfl, by simp⟩ run
  · obtain ⟨same, inbound, received, done, split, ordered⟩ := all
    rw [List.append_nil] at split
    exact ⟨same, inbound, received, split ▸ ordered⟩
  rintro m rest ⟨rx₁, net₁⟩ ⟨rx₂, net₂⟩ ⟨same, inbound, received, done, split, ordered⟩ sent
  simp only [to_worker, app_lcore_io_rx_buffer_to_send, bind_eq_ok] at sent
  obtain ⟨-, -, ⟨out, net₃⟩, appended, sent⟩ := sent
  cases sent
  obtain ⟨inbound', ordered'⟩ := append_line once (fun id found => rings (same ▸ found)) appended
  refine ⟨same, inbound.trans inbound', (append_frame appended).2.2.2.trans received, done ++ [m],
    by rw [split, List.append_assoc]; rfl, fun k w worker => ?_⟩
  rw [← List.append_assoc]
  exact (ordered' k w worker).trans ((ordered k w worker).append_right _)

/-- What is received is put at the end of the lines. -/
theorem io_rx_line {packets : Nat → List (List UInt8)} {n_workers bsz_rd bsz_wr pos_lb : Nat}
    (once : plan.workers.Nodup) (rings : RxRings plan l rx)
    (run : app_lcore_io_rx (fun port _ i (net : Net Arrival) => arrive l port net.received.length (packets i)) Arrival.data
      n_workers bsz_rd bsz_wr pos_lb rx net = .ok (rx', net')) :
    Inbound l net net' ∧ ∃ more, net'.received = net.received ++ more ∧ ∀ k w, plan.workers[k]? = some w →
      (line net' rx'.toOutputs l k w).Sublist (line net rx.toOutputs l k w ++ more) := by
  have all := foldlM_ok (fun _ (s : Rx Arrival × Net Arrival) => s.1.rings = rx.rings ∧ Inbound l net s.2 ∧
    ∃ more, s.2.received = net.received ++ more ∧ ∀ k w, plan.workers[k]? = some w →
      (line s.2 s.1.toOutputs l k w).Sublist (line net rx.toOutputs l k w ++ more)) ?_
    ⟨rfl, .refl, [], (List.append_nil _).symm, by simp⟩ run
  · exact all.2
  rintro ⟨⟨port, queue⟩, i⟩ - ⟨rx₁, net₁⟩ ⟨rx₂, net₂⟩ ⟨same, inbound, more, received, ordered⟩ queued
  set burst := (arrive l port net₁.received.length (packets i)).take (bsz_rd % 2 ^ 16)
  have counted : net₁.received ++ burst = net.received ++ (more ++ burst) := by
    rw [show net₁.received = net.received ++ more from received, List.append_assoc]
  simp only [io_rx_queue, bind_eq_ok] at queued
  obtain ⟨-, -, queued⟩ := queued
  split_ifs at queued with none
  · cases queued
    refine ⟨same, ⟨inbound.others, inbound.outgoing, inbound.transmitted, inbound.freed⟩, more ++ burst, counted, ?_⟩
    rw [none, List.append_nil more]
    exact ordered
  · rw [rx_queue_eq] at queued
    obtain ⟨same', inbound', received', ordered'⟩ := sent_line once queued fun found => rings (same ▸ found)
    refine ⟨same'.trans same, ⟨fun l' v other => (inbound'.others l' v other).trans (inbound.others l' v other),
      fun w port => (inbound'.outgoing w port).trans (inbound.outgoing w port),
      inbound'.transmitted.trans inbound.transmitted, List.Subset.trans inbound.freed inbound'.freed⟩, more ++ burst,
      received'.trans counted, fun k w worker => ?_⟩
    rw [← List.append_assoc]
    exact (ordered' k w worker).trans ((ordered k w worker).append_right _)

theorem io_rx_flush_line {n_workers : Nat} (once : plan.workers.Nodup) (rings : RxRings plan l rx)
    (run : app_lcore_io_rx_flush n_workers rx net = .ok (rx', net')) :
    Inbound l net net' ∧ ∀ k w, plan.workers[k]? = some w →
      (line net' rx'.toOutputs l k w).Sublist (line net rx.toOutputs l k w) := by
  refine (foldlM_ok (fun _ (s : Rx Arrival × Net Arrival) => s.1.rings = rx.rings ∧ Inbound l net s.2 ∧
    ∀ k w, plan.workers[k]? = some w → (line s.2 s.1.toOutputs l k w).Sublist (line net rx.toOutputs l k w)) ?_
    ⟨rfl, .refl, fun _ _ _ => .refl _⟩ run).2
  rintro i - ⟨rx₁, net₁⟩ ⟨rx₂, net₂⟩ ⟨same, inbound, ordered⟩ flushes
  simp only [bind_eq_ok] at flushes
  obtain ⟨-, -, ⟨out, net₃⟩, flushed, flushes⟩ := flushes
  cases flushes
  obtain ⟨inbound', ordered'⟩ := flush_line once (fun id found => rings (same ▸ found)) flushed
  exact ⟨same, inbound.trans inbound', fun k w worker => (ordered' k w worker).trans (ordered k w worker)⟩

end Receiving

section Sending
variable {tx tx' : Tx Arrival} {lp lp' : Lcores.Worker Arrival} {net net' : Net Arrival} {w : Nat}
  {tx_burst : Nat → List Arrival → Nat}

private theorem setRing_outbound (port : Nat) (ring : BulkRing Arrival) : Outbound net (net.setRing (.tx w port) ring) := by
  refine ⟨fun l v => ?_, rfl, List.Subset.refl _⟩
  show Function.update net.rings (.tx w port) ring (.rx l v) = _
  exact Function.update_of_ne (by rintro ⟨⟩) ..

private theorem send_outbound (port : Nat) (mbufs : List Arrival) : Outbound net (net.send tx_burst port mbufs) :=
  ⟨fun _ _ => rfl, rfl, List.subset_append_left ..⟩

private theorem io_tx_ring_outbound {bsz_rd bsz_wr worker port : Nat}
    (names : ∀ port k id, tx.rings port k = some id → ∃ w, id = RingId.tx w port)
    (run : io_tx_ring tx_burst bsz_rd bsz_wr worker port (tx, net) = .ok (tx', net')) :
    tx'.rings = tx.rings ∧ Outbound net net' := by
  simp only [io_tx_ring, bind_eq_ok] at run
  obtain ⟨-, -, -, -, -, -, id, found, run⟩ := run
  obtain ⟨w, rfl⟩ : ∃ w, id = RingId.tx w port := by
    cases ring : tx.rings port worker with
    | none => rw [ring] at found; cases found
    | some id' => rw [ring] at found; cases found; exact names _ _ _ ring
  cases taken : (net.rings (.tx w port)).dequeueBulk bsz_rd with
  | none =>
    simp only [taken] at run
    cases run
    exact ⟨rfl, .refl⟩
  | some pair =>
    simp only [taken] at run
    cases pushed : (tx.mbuf_out port).push pair.1 with
    | none => simp only [pushed] at run; cases run
    | some buffer =>
      simp only [pushed] at run
      split_ifs at run
      · cases run
        exact ⟨rfl, setRing_outbound _ _⟩
      · cases run
        exact ⟨rfl, (setRing_outbound _ _).trans (send_outbound _ _)⟩

theorem io_tx_outbound {n_workers bsz_rd bsz_wr : Nat}
    (names : ∀ port k id, tx.rings port k = some id → ∃ w, id = RingId.tx w port)
    (run : app_lcore_io_tx tx_burst n_workers bsz_rd bsz_wr tx net = .ok (tx', net')) : Outbound net net' := by
  refine (foldlM_ok (fun _ (s : Tx Arrival × Net Arrival) => s.1.rings = tx.rings ∧ Outbound net s.2) ?_ ⟨rfl, .refl⟩ run).2
  rintro worker - s s' outer ports
  refine foldlM_ok (fun _ (s : Tx Arrival × Net Arrival) => s.1.rings = tx.rings ∧ Outbound net s.2) ?_ outer ports
  rintro port - ⟨tx₁, net₁⟩ ⟨tx₂, net₂⟩ ⟨same, outbound⟩ once
  obtain ⟨same', outbound'⟩ := io_tx_ring_outbound (fun port k id found => names port k id (same ▸ found)) once
  exact ⟨same'.trans same, outbound.trans outbound'⟩

theorem io_tx_flush_outbound (run : app_lcore_io_tx_flush tx_burst tx net = .ok (tx', net')) : Outbound net net' := by
  refine foldlM_ok (fun _ (s : Tx Arrival × Net Arrival) => Outbound net s.2) ?_ .refl run
  rintro port - ⟨tx₁, net₁⟩ ⟨tx₂, net₂⟩ outbound once
  simp only [io_tx_flush_port, bind_eq_ok] at once
  obtain ⟨-, -, once⟩ := once
  split_ifs at once
  · cases once
    exact outbound
  · cases once
    exact outbound.trans (send_outbound _ _)

theorem worker_flush_outbound (rings_out : ∀ {port id}, lp.rings_out port = some id → id = RingId.tx w port)
    (run : app_lcore_worker_flush lp net = .ok (lp', net')) : Outbound net net' := by
  refine (foldlM_ok (fun _ (s : Lcores.Worker Arrival × Net Arrival) => s.1.rings_out = lp.rings_out ∧ Outbound net s.2) ?_
    ⟨rfl, .refl⟩ run).2
  rintro port - ⟨lp₁, net₁⟩ ⟨lp₂, net₂⟩ ⟨same, outbound⟩ once
  simp only [worker_flush_port] at once
  split_ifs at once
  · cases once
    exact ⟨same, outbound⟩
  · obtain ⟨⟨out, net₃⟩, flushed, once⟩ := bind_eq_ok.mp once
    cases once
    refine ⟨same, outbound.trans ?_⟩
    rw [Outputs.flush] at flushed
    split_ifs at flushed
    · cases flushed
      exact .refl
    · obtain ⟨net₄, enqueued, flushed⟩ := bind_eq_ok.mp flushed
      cases flushed
      simp only [Net.enqueue, bind_eq_ok] at enqueued
      obtain ⟨id, found, enqueued⟩ := enqueued
      obtain rfl : id = RingId.tx w port := by
        cases ring : lp₁.rings_out port with
        | none => rw [ring] at found; cases found
        | some id' =>
          rw [ring] at found
          cases found
          exact rings_out (same ▸ ring)
      cases full : (net₁.rings (.tx w port)).enqueueBulk (lp₁.mbuf_out port).items with
      | some ring' =>
        simp only [full] at enqueued
        cases enqueued
        exact setRing_outbound _ _
      | none =>
        simp only [full] at enqueued
        cases enqueued
        exact ⟨fun _ _ => rfl, rfl, List.subset_append_left ..⟩

end Sending

/-! ### Before the worker and behind it -/

/-- How far an mbuf has come. -/
inductive Stage
  | waiting
  | passed
  | freed
  deriving DecidableEq

def stage : Place → Stage
  | .hand _ | .out (.rx _) _ | .ring (.rx _ _) => .waiting
  | .out (.worker _) _ | .ring (.tx _ _) | .out (.tx _) _ | .transmitted _ => .passed
  | .freed => .freed

def At (s : System Arrival) (st : Stage) (m : Arrival) : Prop := ∃ a, stage a = st ∧ m ∈ (stock s).held a

section Stages
variable {app : Params} {P : Plan} {lpm_lookup : Nat → Option Nat} {s s' : System Arrival} {a : Act} {m : Arrival} {st st' : Stage}

theorem at_freed : At s .freed m ↔ m ∈ s.net.freed := by
  constructor
  · rintro ⟨a, here, held⟩
    cases a with
    | freed => exact held
    | hand => cases here
    | transmitted => cases here
    | ring id => cases id <;> cases here
    | out site k => cases site <;> cases here
  · exact fun held => ⟨.freed, rfl, held⟩

/-- An mbuf that was received is at one of the stages. -/
theorem at_some (inv : Inv app P lpm_lookup s) : m ∈ s.net.received ↔ ∃ st, At s st m := by
  constructor
  · intro received
    obtain ⟨a, held⟩ := (inv.sound.conserved.whole m).mp received
    exact ⟨stage a, a, rfl, held⟩
  · rintro ⟨st, a, -, held⟩
    exact (inv.sound.conserved.whole m).mpr ⟨a, held⟩

theorem at_one (inv : Inv app P lpm_lookup s) (here : At s st m) (there : At s st' m) : st = st' := by
  obtain ⟨a, rfl, held⟩ := here
  obtain ⟨b, rfl, held'⟩ := there
  rw [inv.sound.conserved.single held held']

/-- What a call that handles nothing leaves: one half of the way, and the lines. -/
structure Passing (P : Plan) (s s' : System Arrival) : Prop where
  half : (∀ a, stage a = .passed → (stock s').held a = (stock s).held a) ∨
    (s'.net.received = s.net.received ∧ ∀ a, stage a = .waiting → (stock s').held a = (stock s).held a)
  freed : s.net.freed ⊆ s'.net.freed
  lines : ∃ more, s'.net.received = s.net.received ++ more ∧ ∀ l k w, P.workers[k]? = some w →
    ((s'.net.rings (.rx l w)).items ++ buffers s'.lcore_params (.rx l) k).Sublist
      ((s.net.rings (.rx l w)).items ++ buffers s.lcore_params (.rx l) k ++ more)

private theorem other_lcore {l l' : Nat} {p : Lcore Arrival} {net : Net Arrival} (other : l' ≠ l) :
    (put s l p net).lcore_params l' = s.lcore_params l' := Function.update_of_ne other ..

private theorem put_self {l : Nat} {p : Lcore Arrival} {net : Net Arrival} : (put s l p net).lcore_params l = p :=
  Function.update_self ..

/-- A call of a function that receives. -/
private theorem inbound_passing {l : Nat} {rx rx' : Rx Arrival} {tx : Tx Arrival} {net : Net Arrival}
    (is : s.lcore_params l = .io rx tx) (inbound : Inbound l s.net net)
    {more : List Arrival} (received : net.received = s.net.received ++ more) (lines : ∀ k w, P.workers[k]? = some w →
      (line net rx'.toOutputs l k w).Sublist (line s.net rx.toOutputs l k w ++ more)) :
    Passing P s (put s l (.io rx' tx) net) := by
  refine ⟨.inl fun a passed => ?_, inbound.freed, more, received, fun l' k w worker => ?_⟩
  · cases a with
    | hand => cases passed
    | freed => cases passed
    | transmitted port => exact congrFun inbound.transmitted port
    | ring id =>
      cases id with
      | rx => cases passed
      | tx w port => exact congrArg BulkRing.items (inbound.outgoing w port)
    | out site k =>
      by_cases own : (match site with | .rx l' | .worker l' | .tx l' => l') = l
      · cases site with
        | rx => cases passed
        | worker l' =>
          obtain rfl : l' = l := own
          simp only [stock, buffers, put_self, is]
        | tx l' =>
          obtain rfl : l' = l := own
          simp only [stock, buffers, put_self, is]
      · cases site with
        | rx => cases passed
        | worker l' => simp only [stock, buffers, other_lcore own]
        | tx l' => simp only [stock, buffers, other_lcore own]
  · by_cases own : l' = l
    · subst own
      simp only [buffers, put_self, is]
      exact lines k w worker
    · simp only [buffers, other_lcore own]
      rw [show (put s l (.io rx' tx) net).net.rings (.rx l' w) = s.net.rings (.rx l' w) from inbound.others l' w own]
      exact List.sublist_append_left ..

/-- And of one that sends. -/
private theorem outbound_passing {l : Nat} {p : Lcore Arrival} {net : Net Arrival} (outbound : Outbound s.net net)
    (receiving : ∀ k, buffers (put s l p net).lcore_params (.rx l) k = buffers s.lcore_params (.rx l) k) :
    Passing P s (put s l p net) := by
  have same : ∀ l' k, buffers (put s l p net).lcore_params (.rx l') k = buffers s.lcore_params (.rx l') k := by
    intro l' k
    by_cases own : l' = l
    · subst own
      exact receiving k
    · simp only [buffers, other_lcore own]
  refine ⟨.inr ⟨outbound.received, fun a waiting => ?_⟩, outbound.freed, [], ?_, fun l' k w _ => ?_⟩
  · cases a with
    | hand => rfl
    | freed => cases waiting
    | transmitted => cases waiting
    | ring id =>
      cases id with
      | rx l' w => exact congrArg BulkRing.items (outbound.incoming l' w)
      | tx => cases waiting
    | out site k =>
      cases site with
      | rx l' => exact same l' k
      | worker => cases waiting
      | tx => cases waiting
  · exact outbound.received.trans (List.append_nil _).symm
  · rw [same, show (put s l p net).net.rings (.rx l' w) = s.net.rings (.rx l' w) from outbound.incoming l' w, List.append_nil]

theorem ran_passing (inv : Inv app P lpm_lookup s) (idle : ∀ l f, a ≠ .worker l f) (ran : Ran lpm_lookup s a s') :
    Passing P s s' := by
  have once : P.workers.Nodup := by
    rw [← inv.wired.planned]
    exact workers_nodup _
  cases ran with
  | worker => exact absurd rfl (idle _ _)
  | @io_rx l packets rx rx' tx net is run =>
    obtain ⟨inbound, more, received, lines⟩ := io_rx_line once (inv.wired.rings is) run
    exact inbound_passing is inbound received lines
  | @io_rx_flush l rx rx' tx net is run =>
    obtain ⟨inbound, lines⟩ := io_rx_flush_line once (inv.wired.rings is) run
    refine inbound_passing is inbound ((io_rx_flush_kept run).2.trans (List.append_nil _).symm) fun k w worker => ?_
    rw [List.append_nil]
    exact lines k w worker
  | @io_tx l tx_burst rx tx tx' net is run =>
    refine outbound_passing (io_tx_outbound (fun port k id found => ?_) run) fun k => by simp only [buffers, put_self, is]
    obtain ⟨w, -, -, rfl⟩ := inv.wired.tx_rings is found
    exact ⟨w, rfl⟩
  | @io_tx_flush l tx_burst rx tx tx' net is run =>
    exact outbound_passing (io_tx_flush_outbound run) fun k => by simp only [buffers, put_self, is]
  | @worker_flush l lp lp' net is run =>
    exact outbound_passing (worker_flush_outbound (inv.wired.rings_out is) run) fun k => by simp only [buffers, put_self, is]

/-- Without a worker no mbuf passes one. -/
theorem Passing.passed (passing : Passing P s s') (inv : Inv app P lpm_lookup s) (inv' : Inv app P lpm_lookup s')
    (passed : At s' .passed m) : At s .passed m := by
  rcases passing.half with same | ⟨received, same⟩
  · obtain ⟨a, here, held⟩ := passed
    exact ⟨a, here, same a here ▸ held⟩
  · obtain ⟨st, here⟩ := (at_some inv).mp (received ▸ (at_some inv').mpr ⟨_, passed⟩)
    cases st with
    | passed => exact here
    | waiting =>
      obtain ⟨a, waits, held⟩ := here
      cases at_one inv' passed ⟨a, waits, (same a waits).symm ▸ held⟩
    | freed => cases at_one inv' passed (at_freed.mpr (passing.freed (at_freed.mp here)))

theorem Passing.waiting (passing : Passing P s s') (inv : Inv app P lpm_lookup s) (inv' : Inv app P lpm_lookup s')
    (received : m ∈ s.net.received) (waiting : At s' .waiting m) : At s .waiting m := by
  obtain ⟨st, here⟩ := (at_some inv).mp received
  cases st with
  | waiting => exact here
  | freed => cases at_one inv' waiting (at_freed.mpr (passing.freed (at_freed.mp here)))
  | passed =>
    rcases passing.half with same | ⟨-, same⟩
    · obtain ⟨a, passed, held⟩ := here
      cases at_one inv' waiting ⟨a, passed, (same a passed).symm ▸ held⟩
    · obtain ⟨a, waits, held⟩ := waiting
      exact ⟨a, waits, same a waits ▸ held⟩

/-- What a worker takes waited, and waits no longer; what it passes on was answered. -/
theorem worker_stages {l bsz_rd : Nat} {locals : Arrival → Delivery} {new : List Entry} {lp lp' : Lcores.Worker Arrival}
    {net : Net Arrival} {rocks rocks' : Datastore.Env} (inv : Inv app P lpm_lookup s)
    (is : s.lcore_params l = .worker lp) (took : Took l bsz_rd new s.net net)
    (stretch : Stretch locals new lp s.net rocks lp' net rocks') :
    (∀ e ∈ new, At s .waiting e.mbuf) ∧
    (∀ m, At (put s l (.worker lp') net) .waiting m → At s .waiting m ∧ ∀ e ∈ new, e.mbuf ≠ m) ∧
    ∀ m, At (put s l (.worker lp') net) .passed m → At s .passed m ∨ ∃ e ∈ new, e.mbuf = m ∧ 0 ≤ e.done.ret := by
  have ringed : ∀ e ∈ new, e.mbuf ∈ (s.net.rings (.rx e.mbuf.lcore l)).items := by
    intro e member
    rw [took.own]
    exact List.mem_append_left _ (List.mem_map_of_mem (List.mem_filter.mpr ⟨member, by simp⟩))
  have waits : ∀ e ∈ new, At s .waiting e.mbuf := fun e member => ⟨.ring (.rx e.mbuf.lcore l), rfl, ringed e member⟩
  have single := @inv.sound.conserved.single
  refine ⟨waits, fun m waiting => ?_, fun m passed => ?_⟩
  · obtain ⟨a, here, held⟩ := waiting
    have elsewhere : ∀ a : Place, m ∈ (stock s).held a → (∀ l', a ≠ .ring (.rx l' l)) → ∀ e ∈ new, e.mbuf ≠ m := by
      rintro a held other e member rfl
      exact other _ (single held (ringed e member : e.mbuf ∈ (stock s).held (.ring (.rx e.mbuf.lcore l))))
    cases a with
    | hand => cases held
    | freed => cases here
    | transmitted => cases here
    | out site k =>
      cases site with
      | worker => cases here
      | tx => cases here
      | rx l' =>
        have same : buffers (put s l (.worker lp') net).lcore_params (.rx l') k = buffers s.lcore_params (.rx l') k :=
          buffers_worker is (by rintro ⟨⟩) k
        have before : m ∈ (stock s).held (.out (.rx l') k) := by
          show m ∈ buffers s.lcore_params (.rx l') k
          rw [← same]
          exact held
        exact ⟨⟨_, rfl, before⟩, elsewhere _ before (by rintro _ ⟨⟩)⟩
    | ring id =>
      cases id with
      | tx => cases here
      | rx l' w =>
        by_cases own : w = l
        · subst own
          have whole := took.own l'
          have before : m ∈ (stock s).held (.ring (.rx l' w)) := by
            show m ∈ (s.net.rings (.rx l' w)).items
            rw [whole]
            exact List.mem_append_right _ held
          refine ⟨⟨_, rfl, before⟩, ?_⟩
          rintro e member rfl
          have own : l' = e.mbuf.lcore := ((passed_kind inv before).1).symm
          subst own
          have once := inv.sound.conserved.once (.ring (.rx e.mbuf.lcore w))
          change (s.net.rings (.rx e.mbuf.lcore w)).items.Nodup at once
          rw [whole] at once
          exact (List.nodup_append.mp once).2.2 _ (List.mem_map_of_mem (List.mem_filter.mpr ⟨member, by simp⟩)) _ held rfl
        · have same : net.rings (.rx l' w) = s.net.rings (.rx l' w) := took.others l' w own
          have before : m ∈ (stock s).held (.ring (.rx l' w)) := by
            show m ∈ (s.net.rings (.rx l' w)).items
            rw [← same]
            exact held
          exact ⟨⟨_, rfl, before⟩, elsewhere _ before fun l'' same => own (RingId.rx.inj (Place.ring.inj same)).2⟩
  · obtain ⟨a, here, held⟩ := passed
    have from_worker : Ahead lp' net m → At s .passed m ∨ ∃ e ∈ new, e.mbuf = m ∧ 0 ≤ e.done.ret := by
      intro ahead
      refine (stretch.forwards m ahead).imp_left ?_
      rintro (⟨i, held⟩ | ⟨w, port, held⟩)
      · refine ⟨.out (.worker l) i, rfl, ?_⟩
        show m ∈ buffers s.lcore_params (.worker l) i
        simp only [buffers, is]
        exact held
      · exact ⟨.ring (.tx w port), rfl, held⟩
    cases a with
    | hand => cases here
    | freed => cases here
    | transmitted port =>
      refine .inl ⟨.transmitted port, rfl, ?_⟩
      show m ∈ s.net.transmitted port
      rw [← stretch.transmitted]
      exact held
    | ring id =>
      cases id with
      | rx => cases here
      | tx w port => exact from_worker (.inr ⟨w, port, held⟩)
    | out site k =>
      by_cases own : site = .worker l
      · subst own
        refine from_worker (.inl ⟨k, ?_⟩)
        change m ∈ buffers (put s l (.worker lp') net).lcore_params (.worker l) k at held
        simp only [buffers, put_self] at held
        exact held
      · refine .inl ⟨.out site k, here, ?_⟩
        have same : buffers (put s l (.worker lp') net).lcore_params site k = buffers s.lcore_params site k :=
          buffers_worker is own k
        show m ∈ buffers s.lcore_params site k
        rw [← same]
        exact held

end Stages

/-! ### The log -/

/-- What lcore `l` received and worker `k` handled, in the order of the log. -/
def handledFrom (log : List Entry) (l k : Nat) : List Entry :=
  log.filter fun e => e.mbuf.lcore = l ∧ e.delivery.worker_id = k

/-- The log and the places of the mbufs. -/
structure Accounted (app : Params) (P : Plan) (s : Host) : Prop where
  once : (s.log.map Entry.mbuf).Nodup
  arrived : ∀ e ∈ s.log, e.mbuf ∈ s.lcores.net.received ∧ ¬ At s.lcores .waiting e.mbuf
  calls : ∀ e ∈ s.log, e.delivery.pkt.data = e.mbuf.data ∧
    e.delivery.worker_id = worker_of P.workers.length app.pos_lb e.mbuf.data
  answers : ∀ e ∈ s.log, e.done.ret = 0 ∨ e.done.ret = -1
  passed : ∀ m, At s.lcores .passed m → ∃ e ∈ s.log, e.mbuf = m ∧ 0 ≤ e.done.ret
  refused : ∀ e ∈ s.log, e.done.ret < 0 → e.mbuf ∈ s.lcores.net.freed
  order : ∀ l k w, P.workers[k]? = some w →
    ((handledFrom s.log l k).map Entry.mbuf ++
      ((s.lcores.net.rings (.rx l w)).items ++ buffers s.lcores.lcore_params (.rx l) k)).Sublist s.lcores.net.received
  bursts : ∀ l k, app.burst_size_worker_read ∣ (handledFrom s.log l k).length

section Accounted
variable {app : Params} {roles : Nat → Role} {P : Plan} {lpm_lookup : Nat → Option Nat} {s s' : Host} {d : Deed}

private theorem answer_cases {d : Delivery} {rocks rocks' : Datastore.Env} {done : Server.Done}
    (handles : Handles rocks (d, done) rocks') : done.ret = 0 ∨ done.ret = -1 := by
  cases course_cases handles.worker handles.answer with
  | astray _ _ ret | crowded _ _ ret | aborted _ _ _ _ _ _ _ ret | unheard _ _ _ _ _ _ ret => exact .inr ret
  | busy _ _ _ ret | unbegun _ _ _ _ _ ret | committed _ _ _ _ _ _ ret => exact .inl ret
  | @executed _ failed _ _ _ _ ret =>
    cases failed with
    | true => exact .inr ret
    | false => exact .inl ret

private theorem workers_few (lcores : Nat → Lcore Arrival) : (workers lcores).length ≤ 128 := by
  have few := List.length_filter_le (fun l => (lcores l).isWorker) (List.range Lcores.APP_MAX_LCORES)
  rwa [List.length_range] at few

private theorem run_answers {rocks rocks' : Datastore.Env}
    {messages : List (Datastore.Env × (Delivery × Server.Done) × Datastore.Env)} (run : Run Handles rocks messages rocks') :
    ∀ e ∈ messages, e.2.1.2.ret = 0 ∨ e.2.1.2.ret = -1 := by
  induction run with
  | stay => simp
  | next _ handles ih => exact List.forall_mem_append.mpr ⟨ih, List.forall_mem_singleton.mpr (answer_cases handles)⟩

/-- A call that handles nothing. -/
private theorem Accounted.other (accounted : Accounted app P s) (inv : Inv app P lpm_lookup s.lcores) {lcores : System Arrival}
    (inv' : Inv app P lpm_lookup lcores) (passing : Passing P s.lcores lcores) :
    Accounted app P { s with lcores := lcores } := by
  obtain ⟨once, arrived, calls, answers, passed, refused, order, bursts⟩ := accounted
  obtain ⟨more, received, lines⟩ := passing.lines
  refine ⟨once, fun e member => ?_, calls, answers, fun m passes => passed m (passing.passed inv inv' passes),
    fun e member negative => passing.freed (refused e member negative), fun l k w worker => ?_, bursts⟩
  · obtain ⟨here, handled⟩ := arrived e member
    refine ⟨?_, fun waits => handled (passing.waiting inv inv' here waits)⟩
    show e.mbuf ∈ lcores.net.received
    rw [received]
    exact List.mem_append_left _ here
  · show List.Sublist _ lcores.net.received
    rw [received]
    refine ((lines l k w worker).append_left _).trans ?_
    rw [← List.append_assoc]
    exact (order l k w worker).append_right _

/-- What a worker handles. -/
private theorem Accounted.worker (accounted : Accounted app P s) (inv : HostInv app P lpm_lookup s) {l : Nat}
    {locals : Arrival → Delivery} {lp lp' : Lcores.Worker Arrival} {net : Net Arrival} {rocks : Datastore.Env}
    {new : List Entry} (is : s.lcores.lcore_params l = .worker lp)
    (took : Took l s.lcores.app.burst_size_worker_read new s.lcores.net net)
    (stretch : Stretch locals new lp s.lcores.net s.rocks lp' net rocks) :
    Accounted app P ⟨put s.lcores l (.worker lp') net, rocks, s.log ++ new⟩ := by
  obtain ⟨once, arrived, calls, answers, passed, refused, order, bursts⟩ := accounted
  obtain ⟨waits, waiting, passes⟩ := worker_stages inv.lcores is took stretch
  have id := inv.lcores.wired.worker_id is
  have size := (List.getElem?_eq_some_iff.mp id).1
  have nodup : P.workers.Nodup := by
    rw [← inv.lcores.wired.planned]
    exact workers_nodup _
  have ids : ∀ e ∈ new, e.delivery.worker_id = lp.worker_id := by
    intro e member
    rw [stretch.calls e member]
    rfl
  have here : ∀ l', handledFrom new l' lp.worker_id = new.filter fun e => e.mbuf.lcore = l' := by
    intro l'
    refine List.filter_congr fun e member => ?_
    simp [ids e member]
  have none : ∀ l' k, k ≠ lp.worker_id → handledFrom new l' k = [] := by
    intro l' k other
    refine List.filter_eq_nil_iff.mpr fun e member => ?_
    rw [ids e member, decide_eq_true_eq]
    exact fun both => other both.2.symm
  have both : ∀ l' k, handledFrom (s.log ++ new) l' k = handledFrom s.log l' k ++ handledFrom new l' k := fun _ _ =>
    List.filter_append ..
  have params := inv.lcores.params
  refine ⟨?_, ?_, ?_, ?_, fun m passed' => ?_, ?_, fun l' k w worker => ?_, fun l' k => ?_⟩
  · rw [List.map_append]
    refine List.Nodup.append once (took.nodup fun l' => inv.lcores.sound.conserved.once (.ring (.rx l' l))) ?_
    intro m old member
    obtain ⟨e, taken, rfl⟩ := List.mem_map.mp member
    obtain ⟨e', logged, same⟩ := List.mem_map.mp old
    exact (arrived e' logged).2 (same ▸ waits e taken)
  · show ∀ e ∈ s.log ++ new, e.mbuf ∈ net.received ∧ _
    rw [stretch.received]
    refine List.forall_mem_append.mpr ⟨fun e member => ?_, fun e member => ?_⟩
    · obtain ⟨there, handled⟩ := arrived e member
      exact ⟨there, fun waits' => handled (waiting _ waits').1⟩
    · exact ⟨(at_some inv.lcores).mpr ⟨_, waits e member⟩, fun waits' => (waiting _ waits').2 e member rfl⟩
  · refine List.forall_mem_append.mpr ⟨calls, fun e member => ?_⟩
    have ringed : e.mbuf ∈ (s.lcores.net.rings (.rx e.mbuf.lcore l)).items := by
      rw [took.own]
      exact List.mem_append_left _ (List.mem_map_of_mem (List.mem_filter.mpr ⟨member, by simp⟩))
    rw [stretch.calls e member]
    exact ⟨rfl, (List.getElem?_inj size nodup).mp (id.trans (passed_kind inv.lcores ringed).2.symm)⟩
  · refine List.forall_mem_append.mpr ⟨answers, fun e member => ?_⟩
    obtain ⟨messages, handled, same⟩ := stretch.handled
    have logged : (e.delivery, e.done) ∈ messages.map fun e => e.2.1 := by
      rw [same]
      exact List.mem_map_of_mem member
    obtain ⟨e', member', same'⟩ := List.mem_map.mp logged
    have answer := run_answers handled e' member'
    rwa [same'] at answer
  · rcases passes m passed' with before | ⟨e, member, same⟩
    · obtain ⟨e, member, same⟩ := passed m before
      exact ⟨e, List.mem_append_left _ member, same⟩
    · exact ⟨e, List.mem_append_right _ member, same⟩
  · refine List.forall_mem_append.mpr ⟨fun e member negative => ?_, fun e member negative => ?_⟩
    · exact stretch.frees _ (.inl (refused e member negative))
    · exact stretch.frees _ (.inr ⟨e, member, rfl, negative⟩)
  · have buffer : buffers (put s.lcores l (.worker lp') net).lcore_params (.rx l') k = buffers s.lcores.lcore_params (.rx l') k :=
      buffers_worker is (by rintro ⟨⟩) k
    show (_ ++ ((net.rings (.rx l' w)).items ++ _)).Sublist net.received
    rw [buffer, stretch.received, both]
    by_cases own : k = lp.worker_id
    · subst own
      obtain rfl : w = l := Option.some.inj (worker.symm.trans id)
      have ordered := order l' lp.worker_id w worker
      rw [took.own] at ordered
      rw [here, List.map_append]
      simpa only [List.append_assoc] using ordered
    · have other : w ≠ l := by
        rintro rfl
        exact own ((List.getElem?_inj size nodup).mp (id.trans worker.symm)).symm
      rw [none l' k own, List.append_nil, took.others l' w other]
      exact order l' k w worker
  · rw [both, List.length_append]
    refine Nat.dvd_add (bursts l' k) ?_
    by_cases own : k = lp.worker_id
    · rw [own, here, ← params]
      exact took.bursts l'
    · rw [none l' k own]
      exact Nat.dvd_zero _

theorem Accounted.serve (accounted : Accounted app P s) (inv : HostInv app P lpm_lookup s) (inv' : HostInv app P lpm_lookup s')
    (step : Serves lpm_lookup s d s') : Accounted app P s' := by
  cases serve_served step with
  | other idle goes => exact accounted.other inv.lcores inv'.lcores (ran_passing inv.lcores idle (act_ran goes))
  | worker is run =>
    obtain ⟨new, rfl, took, stretch, -⟩ := inv.worker is run
    exact accounted.worker inv is took stretch

private theorem switched_on_accounted {start : System Arrival} (receiving : 0 < app.burst_size_io_rx_write)
    (working : 0 < app.burst_size_worker_write) (ready : app_init app roles = .ok start)
    (staffed : 0 < (workers start.lcore_params).length) (disk : Nat → List Rocks.Write) (faults : Nat → Rocks.Call → Bool) :
    Accounted app (plan start.lcore_params) (switched_on start staffed disk faults) := by
  have inv := start_inv (fun _ => none) receiving working ready
  have idle := (app_init_wired ready).2
  have nothing : ∀ m, m ∉ start.net.received := by simp [idle.received]
  have empty : ∀ a, (stock start).held a = [] := by
    intro a
    refine List.eq_nil_iff_forall_not_mem.mpr fun m held => nothing m ?_
    exact (inv.sound.conserved.whole m).mpr ⟨a, held⟩
  refine ⟨List.nodup_nil, by rintro _ ⟨⟩, by rintro _ ⟨⟩, by rintro _ ⟨⟩, ?_, by rintro _ ⟨⟩, fun l k w _ => ?_,
    fun _ _ => Nat.dvd_zero _⟩
  · rintro m ⟨a, -, held⟩
    have none : m ∈ (stock start).held a := held
    rw [empty a] at none
    cases none
  · have ring : (start.net.rings (.rx l w)).items = [] := empty (.ring (.rx l w))
    have buffer : buffers start.lcore_params (.rx l) k = [] := empty (.out (.rx l) k)
    show ([] ++ ((start.net.rings (.rx l w)).items ++ buffers start.lcore_params (.rx l) k)).Sublist _
    rw [ring, buffer]
    exact List.nil_sublist _

/-- What holds of the log and the places in every run. -/
theorem run_accounted {start : System Arrival} (receiving : 0 < app.burst_size_io_rx_write)
    (working : 0 < app.burst_size_worker_write) (ready : app_init app roles = .ok start)
    (staffed : 0 < (workers start.lcore_params).length) {disk : Nat → List Rocks.Write} {faults : Nat → Rocks.Call → Bool}
    {trail : List (Host × Deed × Host)} {last : Host}
    (run : Run (Serves lpm_lookup) (switched_on start staffed disk faults) trail last) :
    HostInv app (plan start.lcore_params) lpm_lookup last ∧ Accounted app (plan start.lcore_params) last := by
  refine run_keeps (fun _ s => HostInv app (plan start.lcore_params) lpm_lookup s ∧ Accounted app (plan start.lcore_params) s)
    (fun _ _ => True) ?_ ⟨switched_on_inv lpm_lookup receiving working ready staffed disk faults,
      switched_on_accounted receiving working ready staffed disk faults⟩ run fun _ _ => trivial
  rintro _ s d s' ⟨inv, accounted⟩ step -
  obtain ⟨inv', -⟩ := inv.serve step
  exact ⟨inv', accounted.serve inv inv' step⟩

/-- What one worker handled of one lcore came in that order. -/
theorem Accounted.in_order {lcores : Nat → Lcore Arrival} (accounted : Accounted app (plan lcores) s)
    (staffed : 0 < (workers lcores).length) (l k : Nat) :
    ((handledFrom s.log l k).map Entry.mbuf).Sublist s.lcores.net.received := by
  by_cases inside : k < (workers lcores).length
  · exact (List.sublist_append_left ..).trans (accounted.order l k _ (List.getElem?_eq_getElem inside))
  · have none : handledFrom s.log l k = [] := by
      refine List.filter_eq_nil_iff.mpr fun e member => ?_
      rw [decide_eq_true_eq]
      rintro ⟨-, rfl⟩
      refine inside ?_
      rw [(accounted.calls e member).2]
      exact WorkerCount.worker_of_lt staffed (by have := workers_few lcores; omega) _ _
    rw [none]
    exact List.nil_sublist _

/-- What is sent was answered. -/
theorem Accounted.sent (accounted : Accounted app P s) {m : Arrival} {port : Nat} (sent : m ∈ s.lcores.net.transmitted port) :
    ∃ e ∈ s.log, e.mbuf = m ∧ e.done.ret = 0 := by
  obtain ⟨e, member, same, positive⟩ := accounted.passed m ⟨.transmitted port, rfl, sent⟩
  refine ⟨e, member, same, (accounted.answers e member).resolve_right fun refused => ?_⟩
  rw [refused] at positive
  exact absurd positive (by decide)

section Runs
variable {start : System Arrival} {disk : Nat → List Rocks.Write} {faults : Nat → Rocks.Call → Bool}
  {trail : List (Host × Deed × Host)} {last : Host}

/-- A message is handled once at most, by the worker that its byte tells, with the
    data it came with, and one worker handles what one lcore received in the order of
    arrival. -/
theorem handled_in_order (receiving : 0 < app.burst_size_io_rx_write) (working : 0 < app.burst_size_worker_write)
    (ready : app_init app roles = .ok start) (staffed : 0 < (workers start.lcore_params).length)
    (run : Run (Serves lpm_lookup) (switched_on start staffed disk faults) trail last) :
    (last.log.map Entry.mbuf).Nodup ∧
    (∀ e ∈ last.log, e.mbuf ∈ last.lcores.net.received ∧ e.delivery.pkt.data = e.mbuf.data ∧
      e.delivery.worker_id = worker_of (workers start.lcore_params).length app.pos_lb e.mbuf.data) ∧
    ∀ l k, ((handledFrom last.log l k).map Entry.mbuf).Sublist last.lcores.net.received := by
  obtain ⟨-, accounted⟩ := run_accounted receiving working ready staffed run
  exact ⟨accounted.once, fun e member => ⟨(accounted.arrived e member).1, accounted.calls e member⟩,
    accounted.in_order staffed⟩

/-- Only what a worker has answered is sent, and by the port for its destination.
    What is not answered is freed, and what is not handled waits for its worker or is
    freed. -/
theorem sent_answered (receiving : 0 < app.burst_size_io_rx_write) (working : 0 < app.burst_size_worker_write)
    (ready : app_init app roles = .ok start) (staffed : 0 < (workers start.lcore_params).length)
    (run : Run (Serves lpm_lookup) (switched_on start staffed disk faults) trail last) :
    (∀ port, ∀ m ∈ last.lcores.net.transmitted port,
      port = out_port lpm_lookup m ∧ ∃ e ∈ last.log, e.mbuf = m ∧ e.done.ret = 0) ∧
    (∀ e ∈ last.log, e.done.ret ≠ 0 → e.mbuf ∈ last.lcores.net.freed ∧ ∀ port, e.mbuf ∉ last.lcores.net.transmitted port) ∧
    ∀ m ∈ last.lcores.net.received, m ∉ last.log.map Entry.mbuf → At last.lcores .waiting m ∨ m ∈ last.lcores.net.freed := by
  obtain ⟨inv, accounted⟩ := run_accounted receiving working ready staffed run
  refine ⟨fun port m sent => ?_, fun e member unanswered => ?_, fun m received unhandled => ?_⟩
  · have held : m ∈ (stock last.lcores).held (.transmitted port) := sent
    exact ⟨(transmitted_on ((inv.lcores.sound.onWay held).resolve_right (by rintro ⟨⟩))).symm, accounted.sent sent⟩
  · have refused := (accounted.answers e member).resolve_left unanswered
    have freed := accounted.refused e member (by rw [refused]; decide)
    exact ⟨freed, fun port sent => by cases at_one inv.lcores (at_freed.mpr freed) ⟨.transmitted port, rfl, sent⟩⟩
  · obtain ⟨st, here⟩ := (at_some inv.lcores).mp received
    cases st with
    | waiting => exact .inl here
    | freed => exact .inr (at_freed.mp here)
    | passed =>
      obtain ⟨e, member, same, -⟩ := accounted.passed m here
      exact absurd (same ▸ List.mem_map_of_mem member) unhandled

/-- At the ends of its passes a worker has handled what one lcore received in whole
    bursts: as long as fewer came than a burst is, none of them is handled. -/
theorem handled_in_bursts (receiving : 0 < app.burst_size_io_rx_write) (working : 0 < app.burst_size_worker_write)
    (ready : app_init app roles = .ok start) (staffed : 0 < (workers start.lcore_params).length)
    (run : Run (Serves lpm_lookup) (switched_on start staffed disk faults) trail last) (l k : Nat) :
    app.burst_size_worker_read ∣ (handledFrom last.log l k).length ∧
    (handledFrom last.log l k).length ≤ (last.lcores.net.received.filter fun m => m.lcore = l ∧
      worker_of (workers start.lcore_params).length app.pos_lb m.data = k).length := by
  obtain ⟨-, accounted⟩ := run_accounted receiving working ready staffed run
  refine ⟨accounted.bursts l k, ?_⟩
  rw [← List.length_map Entry.mbuf]
  refine ((accounted.once.sublist (List.filter_sublist.map _)).subperm fun m member => ?_).length_le
  obtain ⟨e, taken, rfl⟩ := List.mem_map.mp member
  obtain ⟨logged, here⟩ := List.mem_filter.mp taken
  obtain ⟨own, id⟩ := of_decide_eq_true here
  refine List.mem_filter.mpr ⟨(accounted.arrived e logged).1, decide_eq_true ⟨own, ?_⟩⟩
  rw [← id, (accounted.calls e logged).2]
  rfl

end Runs
end Accounted

/-- The two messages of a server of `small` that received them and handled them. -/
def TwoHandled (last : Host) : Prop :=
  ∃ start trail, ∃ staffed : 0 < (workers start.lcore_params).length, app_init small smallRoles = .ok start ∧
    Run (Serves fun _ => none) (switched_on start staffed (fun _ => []) fun _ _ => false) trail last ∧
    last.log.map (fun e => (e.mbuf.serial, e.done.ret)) = [(0, 0), (1, -1)]

theorem two_in_order : ∃ last, TwoHandled last ∧ (last.log.map Entry.mbuf).Nodup ∧
    ∀ l k, ((handledFrom last.log l k).map Entry.mbuf).Sublist last.lcores.net.received := by
  obtain ⟨start, trail, last, staffed, ready, run, -, log, -⟩ := two_served
  obtain ⟨once, -, order⟩ := handled_in_order (by decide) (by decide) ready staffed run
  exact ⟨last, ⟨start, trail, staffed, ready, run, log⟩, once, order⟩

/-- Two bursts of them, what was answered is sent, and one more is received. -/
theorem five_received : ∃ start trail, ∃ last : Host, ∃ staffed : 0 < (workers start.lcore_params).length,
    app_init small smallRoles = .ok start ∧
    Run (Serves fun _ => none) (switched_on start staffed (fun _ => []) fun _ _ => false) trail last ∧
    last.log.map (fun e => (e.mbuf.serial, e.done.ret)) = [(0, 0), (1, -1), (2, 0), (3, -1)] ∧
    (last.lcores.net.transmitted 0).map Arrival.serial = [0, 2] ∧
    last.lcores.net.received.map Arrival.serial = [0, 1, 2, 3, 4] := by
  have played : (do
      let start ← app_init small smallRoles
      if staffed : 0 < (workers start.lcore_params).length then
        let s ← serve (fun _ => none) (switched_on start staffed (fun _ => []) fun _ _ => false)
          (.lcore (.io_rx 0 fun _ => two_packets))
        let s ← serve (fun _ => none) s (.worker 1 fun _ => Traffic.plain 0 [])
        let s ← serve (fun _ => none) s (.lcore (.io_rx 0 fun _ => two_packets))
        let s ← serve (fun _ => none) s (.worker 1 fun _ => Traffic.plain 0 [])
        let s ← serve (fun _ => none) s (.lcore (.io_tx 0 fun _ burst => burst.length))
        let s ← serve (fun _ => none) s (.lcore (.io_rx 0 fun _ => two_packets.take 1))
        return (s.log.map fun e : Entry => (e.mbuf.serial, e.done.ret), (s.lcores.net.transmitted 0).map Arrival.serial,
          s.lcores.net.received.map Arrival.serial)
      else .error .panic) = .ok ([(0, 0), (1, -1), (2, 0), (3, -1)], [0, 2], [0, 1, 2, 3, 4]) := by decide +kernel
  obtain ⟨start, ready, played⟩ := bind_eq_ok.mp played
  split at played
  · rename_i staffed
    obtain ⟨s₁, one, played⟩ := bind_eq_ok.mp played
    obtain ⟨s₂, two, played⟩ := bind_eq_ok.mp played
    obtain ⟨s₃, three, played⟩ := bind_eq_ok.mp played
    obtain ⟨s₄, four, played⟩ := bind_eq_ok.mp played
    obtain ⟨s₅, five, played⟩ := bind_eq_ok.mp played
    obtain ⟨s₆, six, played⟩ := bind_eq_ok.mp played
    obtain ⟨log, rest⟩ := Prod.mk.inj (Except.ok.inj played)
    obtain ⟨sent, received⟩ := Prod.mk.inj rest
    exact ⟨start, _, s₆, staffed, ready, (((((Run.stay.next one).next two).next three).next four).next five).next six,
      log, sent, received⟩
  · cases played

/-- The third was answered and sent, the fourth refused and freed, the fifth is not
    handled yet. -/
theorem five_answered : ∃ start trail, ∃ last : Host, ∃ staffed : 0 < (workers start.lcore_params).length,
    app_init small smallRoles = .ok start ∧
    Run (Serves fun _ => none) (switched_on start staffed (fun _ => []) fun _ _ => false) trail last ∧
    (∃ m ∈ last.lcores.net.transmitted 0, m.serial = 2 ∧ ∃ e ∈ last.log, e.mbuf = m ∧ e.done.ret = 0) ∧
    (∃ e ∈ last.log, e.mbuf.serial = 3 ∧ e.mbuf ∈ last.lcores.net.freed ∧ ∀ port, e.mbuf ∉ last.lcores.net.transmitted port) ∧
    ∃ m ∈ last.lcores.net.received, m.serial = 4 ∧ (At last.lcores .waiting m ∨ m ∈ last.lcores.net.freed) := by
  obtain ⟨start, trail, last, staffed, ready, run, log, sent, received⟩ := five_received
  obtain ⟨answered, refused, unhandled⟩ := sent_answered (by decide) (by decide) ready staffed run
  refine ⟨start, trail, last, staffed, ready, run, ?_, ?_, ?_⟩
  · obtain ⟨m, there, serial⟩ := List.mem_map.mp (sent ▸ (by simp : 2 ∈ [0, 2]))
    exact ⟨m, there, serial, (answered 0 m there).2⟩
  · obtain ⟨e, there, same⟩ := List.mem_map.mp (log ▸ (by simp : ((3 : Nat), (-1 : Int)) ∈ [(0, 0), (1, -1), (2, 0), (3, -1)]))
    obtain ⟨serial, ret⟩ := Prod.mk.inj same
    obtain ⟨freed, unsent⟩ := refused e there (by rw [ret]; decide)
    exact ⟨e, there, serial, freed, unsent⟩
  · obtain ⟨m, there, serial⟩ := List.mem_map.mp (received ▸ (by simp : 4 ∈ [0, 1, 2, 3, 4]))
    refine ⟨m, there, serial, unhandled m there fun handled => ?_⟩
    obtain ⟨e, logged, rfl⟩ := List.mem_map.mp handled
    have bound : (e.mbuf.serial, e.done.ret) ∈ last.log.map fun e => (e.mbuf.serial, e.done.ret) :=
      List.mem_map_of_mem (f := fun e : Entry => (e.mbuf.serial, e.done.ret)) logged
    rw [log, serial] at bound
    simp at bound

theorem two_in_bursts : ∃ last, TwoHandled last ∧ ∀ l k, 2 ∣ (handledFrom last.log l k).length := by
  obtain ⟨start, trail, last, staffed, ready, run, -, log, -⟩ := two_served
  exact ⟨last, ⟨start, trail, staffed, ready, run, log⟩, fun l k =>
    (handled_in_bursts (by decide) (by decide) ready staffed run l k).1⟩

end Shardb.Accounting
