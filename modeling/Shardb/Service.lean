import Shardb.MainLoops
import Shardb.Traffic

/-!
# The lcores and the databases together

A worker calls the handler on every packet it takes out of its rings, and what the
handler answers decides whether the packet goes on. What the lcores do is then a run
of them by themselves, for the answers given (`run_calls`), and what becomes of the
databases is a run of the messages in the order in which the workers came to them
(`run_messages`).

A worker's call of `app_lcore_worker` is one step here, with all its calls of the
handler, and there is no such step if one of these does not return. The workers of the
source are threads that call the library in turns; `SideBySide` says which of their
runs come to the same.
-/

namespace Shardb.Service
open Shardb.Loops Shardb.Rings Shardb.Wiring Shardb.Runs Shardb.Transit Shardb.Conservation Shardb.Steps Shardb.MainLoops
open Shardb.Lcores (Net Outputs Processing RingId worker_pkt worker_ring app_lcore_worker app_mbuf_array
  APP_MBUF_ARRAY_SIZE APP_MAX_NIC_PORTS index)
open Shardb.Datastore (Env)
open Shardb.Server (Done)
open Shardb.Traffic (Delivery Handles handled_cases handled_kept)

/-- A message that was handled: its mbuf, the call, and how the call ended. -/
structure Entry where
  mbuf : Arrival
  delivery : Delivery
  done : Done

/-- The call of the handler for an mbuf. What the locals hold is not the worker's to
    say. -/
def called (locals : Arrival → Delivery) (worker_id : Nat) (m : Arrival) : Delivery :=
  { locals m with pkt := { (locals m).pkt with data := m.data }, worker_id := worker_id }

/-- The handler as `process_pkt`, on the databases and on what was handled so far. A
    call that does not return leaves nothing. -/
def handling (lpm_lookup : Nat → Option Nat) (locals : Arrival → Delivery) (worker_id : Nat) :
    Processing Arrival (Option (Env × List Entry)) where
  process_pkt m
    | none => (-1, none)
    | some (rocks, log) =>
      match (called locals worker_id m).handle rocks with
      | .ok done => (done.ret, some (done.rocks, log ++ [⟨m, called locals worker_id m, done⟩]))
      | .error _ => (-1, none)
  lpm_lookup := lpm_lookup
  mtod := Arrival.data
  port := Arrival.port

section Handling
variable {lpm_lookup : Nat → Option Nat} {locals : Arrival → Delivery} {worker_id : Nat} {m : Arrival} {rocks : Env}
  {log : List Entry} {done : Done}

private theorem process_gone : (handling lpm_lookup locals worker_id).process_pkt m none = (-1, none) := by
  simp only [handling]

private theorem process_error {fault : Handlers.Fault}
    (answer : (called locals worker_id m).handle rocks = .error fault) :
    (handling lpm_lookup locals worker_id).process_pkt m (some (rocks, log)) = (-1, none) := by
  simp only [handling, answer]

private theorem process_ok (answer : (called locals worker_id m).handle rocks = .ok done) :
    (handling lpm_lookup locals worker_id).process_pkt m (some (rocks, log)) =
      (done.ret, some (done.rocks, log ++ [⟨m, called locals worker_id m, done⟩])) := by
  simp only [handling, answer]

private theorem process_port : (handling lpm_lookup locals worker_id).out_port m = Transit.out_port lpm_lookup m := rfl

end Handling

/-! ### One worker's call -/

/-- What a worker holds that it has dealt with, and the rings to the ports. -/
def Ahead (lp : Lcores.Worker Arrival) (net : Net Arrival) (m : Arrival) : Prop :=
  (∃ i, m ∈ items lp.toOutputs i) ∨ ∃ w port, m ∈ (net.rings (.tx w port)).items

/-- What handling the messages of `new` does: to the worker, to the net and to the
    databases. -/
structure Stretch (locals : Arrival → Delivery) (new : List Entry) (lp : Lcores.Worker Arrival) (net : Net Arrival)
    (rocks : Env) (lp' : Lcores.Worker Arrival) (net' : Net Arrival) (rocks' : Env) : Prop where
  calls : ∀ e ∈ new, e.delivery = called locals lp.worker_id e.mbuf
  handled : ∃ trail, Run Handles rocks trail rocks' ∧ trail.map (fun e => e.2.1) = new.map fun e => (e.delivery, e.done)
  staff : rocks'.num_workers = rocks.num_workers
  kept : WorkerKept lp lp'
  received : net'.received = net.received
  transmitted : net'.transmitted = net.transmitted
  forwards : ∀ m, Ahead lp' net' m → Ahead lp net m ∨ ∃ e ∈ new, e.mbuf = m ∧ 0 ≤ e.done.ret
  frees : ∀ m, (m ∈ net.freed ∨ ∃ e ∈ new, e.mbuf = m ∧ e.done.ret < 0) → m ∈ net'.freed

section Stretch
variable {locals : Arrival → Delivery} {new new' : List Entry} {lp lp' lp'' : Lcores.Worker Arrival}
  {net net' net'' : Net Arrival} {rocks rocks' rocks'' : Env}

theorem Stretch.refl : Stretch locals [] lp net rocks lp net rocks :=
  ⟨by simp, ⟨[], .stay, rfl⟩, rfl, ⟨rfl, rfl, rfl⟩, rfl, rfl, fun _ => .inl, by simp⟩

theorem Stretch.append (first : Stretch locals new lp net rocks lp' net' rocks')
    (second : Stretch locals new' lp' net' rocks' lp'' net'' rocks'') :
    Stretch locals (new ++ new') lp net rocks lp'' net'' rocks'' := by
  obtain ⟨trail, run, made⟩ := first.handled
  obtain ⟨trail', run', made'⟩ := second.handled
  refine ⟨?_, ⟨trail ++ trail', run.append run', by rw [List.map_append, made, made', List.map_append]⟩,
    second.staff.trans first.staff, ⟨second.kept.rings_in.trans first.kept.rings_in,
      second.kept.rings_out.trans first.kept.rings_out, second.kept.worker_id.trans first.kept.worker_id⟩,
    second.received.trans first.received, second.transmitted.trans first.transmitted, fun m ahead => ?_, fun m gone => ?_⟩
  · have same : lp'.worker_id = lp.worker_id := first.kept.worker_id
    exact List.forall_mem_append.mpr ⟨first.calls, fun e member => same ▸ second.calls e member⟩
  · rcases second.forwards m ahead with before | ⟨e, member, here⟩
    · rcases first.forwards m before with before | ⟨e, member, here⟩
      · exact .inl before
      · exact .inr ⟨e, List.mem_append_left _ member, here⟩
    · exact .inr ⟨e, List.mem_append_right _ member, here⟩
  · refine second.frees m ?_
    rcases gone with before | ⟨e, member, here⟩
    · exact .inl (first.frees m (.inl before))
    · rcases List.mem_append.mp member with early | late
      · exact .inl (first.frees m (.inr ⟨e, early, here⟩))
      · exact .inr ⟨e, late, here⟩

end Stretch

section Working
variable {lpm_lookup : Nat → Option Nat} {locals : Arrival → Delivery} {bsz_rd bsz_wr w : Nat}
  {lp lp' : Lcores.Worker Arrival} {net net' : Net Arrival} {rocks rocks' : Env} {log log' : List Entry}

/-- What is appended to a buffer is then in it, in a ring to a port or freed, and the
    rings to the workers are as they were. -/
private theorem append_ahead {out out' : Outputs Arrival} {i bsz : Nat} {m : Arrival} {ring : Option RingId}
    (to_port : ∀ id, ring = some id → ∃ port, id = RingId.tx w port) (run : out.append i m bsz ring net = .ok (out', net')) :
    (∀ l v, net'.rings (.rx l v) = net.rings (.rx l v)) ∧ net'.received = net.received ∧
      net'.transmitted = net.transmitted ∧ net.freed ⊆ net'.freed ∧
      ∀ m', ((∃ k, m' ∈ items out' k) ∨ ∃ v port, m' ∈ (net'.rings (.tx v port)).items) →
        ((∃ k, m' ∈ items out k) ∨ ∃ v port, m' ∈ (net.rings (.tx v port)).items) ∨ m' = m := by
  rw [Outputs.append] at run
  cases pushed : (out.mbuf_out i).push [m] with
  | none => simp only [pushed] at run; cases run
  | some buffer =>
    have grown := Buffer.pushed pushed
    have inBuffer : ∀ m' ∈ buffer.items, (∃ k, m' ∈ items out k) ∨ m' = m := by
      intro m' member
      rw [grown, List.mem_append, List.mem_singleton] at member
      exact member.imp_left fun before => ⟨i, before⟩
    have inOut : ∀ (out₁ : app_mbuf_array Arrival) (m' : Arrival), (∀ m' ∈ out₁.items, (∃ k, m' ∈ items out k) ∨ m' = m) →
        ∀ k, m' ∈ (Function.update out.mbuf_out i out₁ k).items → (∃ k, m' ∈ items out k) ∨ m' = m := by
      intro out₁ m' new k member
      by_cases same : k = i
      · rw [same, Function.update_self] at member
        exact new m' member
      · rw [Function.update_of_ne same] at member
        exact .inl ⟨k, member⟩
    simp only [pushed] at run
    split_ifs at run
    · cases run
      refine ⟨fun _ _ => rfl, rfl, rfl, List.Subset.refl _, fun m' held => ?_⟩
      rcases held with ⟨k, member⟩ | ringed
      · exact (inOut buffer m' inBuffer k member).imp_left .inl
      · exact .inl (.inr ringed)
    · simp only [Net.enqueue, bind_eq_ok] at run
      obtain ⟨net₁, ⟨id, found, put⟩, run⟩ := run
      cases run
      have kept : ∀ m', (∃ k, m' ∈ items (out.reset i false) k) → (∃ k, m' ∈ items out k) ∨ m' = m := by
        rintro m' ⟨k, member⟩
        exact inOut .empty m' (fun m' none => absurd none List.not_mem_nil) k member
      obtain ⟨port, rfl⟩ : ∃ port, id = RingId.tx w port := by
        cases ring with
        | none => cases found
        | some id' => cases found; exact to_port _ rfl
      cases full : (net.rings (.tx w port)).enqueueBulk (buffer.items.take bsz) with
      | some ring' =>
        simp only [full] at put
        cases put
        refine ⟨fun l v => ?_, rfl, rfl, List.Subset.refl _, fun m' held => ?_⟩
        · show Function.update net.rings (.tx w port) ring' (.rx l v) = _
          exact Function.update_of_ne (by rintro ⟨⟩) ..
        rcases held with out₁ | ⟨v, port', member⟩
        · exact (kept m' out₁).imp_left .inl
        · change m' ∈ (Function.update net.rings (.tx w port) ring' (.tx v port')).items at member
          by_cases same : RingId.tx v port' = .tx w port
          · rw [same, Function.update_self, BulkRing.enqueued full, List.mem_append] at member
            rcases member with before | moved
            · exact .inl (.inr ⟨w, port, before⟩)
            · exact (inBuffer m' (List.mem_of_mem_take moved)).imp_left .inl
          · rw [Function.update_of_ne same] at member
            exact .inl (.inr ⟨v, port', member⟩)
      | none =>
        simp only [full] at put
        cases put
        refine ⟨fun _ _ => rfl, rfl, rfl, List.subset_append_left .., fun m' held => ?_⟩
        rcases held with out₁ | ringed
        · exact (kept m' out₁).imp_left .inl
        · exact .inl (.inr ringed)

/-- A call that did not return is never made good. -/
private theorem gone_pkts {hand : List Arrival} {worker_id : Nat}
    {t t' : Lcores.Worker Arrival × Net Arrival × Option (Env × List Entry)}
    (run : hand.foldlM (fun t pkt => worker_pkt (handling lpm_lookup locals worker_id) bsz_wr pkt t) t = .ok t')
    (gone : t.2.2 = none) : t'.2.2 = none := by
  refine foldlM_ok (fun _ (t : Lcores.Worker Arrival × Net Arrival × Option (Env × List Entry)) => t.2.2 = none) ?_ gone run
  rintro m - ⟨lp, net, left⟩ t' gone once
  cases gone
  simp only [worker_pkt, process_gone] at once
  rw [if_pos (by decide)] at once
  cases once
  rfl

private theorem gone_rings {ids : List RingId} {worker_id : Nat}
    {t t' : Lcores.Worker Arrival × Net Arrival × Option (Env × List Entry)}
    (run : ids.foldlM (fun t id => worker_ring (handling lpm_lookup locals worker_id) bsz_rd bsz_wr id t) t = .ok t')
    (gone : t.2.2 = none) : t'.2.2 = none := by
  refine foldlM_ok (fun _ (t : Lcores.Worker Arrival × Net Arrival × Option (Env × List Entry)) => t.2.2 = none) ?_ gone run
  rintro id - ⟨lp, net, left⟩ t' gone once
  cases gone
  simp only [worker_ring] at once
  split at once
  · cases once
    rfl
  · obtain ⟨-, -, once⟩ := bind_eq_ok.mp once
    exact gone_pkts once rfl

/-- What one packet leaves of the rings to the workers. -/
def InRings (net net' : Net Arrival) : Prop := ∀ l v, net'.rings (.rx l v) = net.rings (.rx l v)

/-- One packet. -/
private theorem pkt_stretch {m : Arrival} {worker_id : Nat} {left : Option (Env × List Entry)}
    (id : lp.worker_id = worker_id) (staffed : worker_id < rocks.num_workers)
    (rings_out : ∀ {port id}, lp.rings_out port = some id → id = RingId.tx w port)
    (run : worker_pkt (handling lpm_lookup locals worker_id) bsz_wr m (lp, net, some (rocks, log)) = .ok (lp', net', left)) :
    left = none ∨ ∃ e, left = some (e.done.rocks, log ++ [e]) ∧ e.mbuf = m ∧
      Stretch locals [e] lp net rocks lp' net' e.done.rocks ∧ InRings net net' ∧
      ∀ f, f m = e.done.ret → worker_pkt (processing lpm_lookup f) bsz_wr m (lp, net, ()) = .ok (lp', net', ()) := by
  subst id
  cases answer : (called locals lp.worker_id m).handle rocks with
  | error fault =>
    refine .inl ?_
    simp only [worker_pkt, process_error answer] at run
    rw [if_pos (by decide)] at run
    cases run
    rfl
  | ok done =>
    have handles : Handles rocks (called locals lp.worker_id m, done) done.rocks := ⟨staffed, answer, rfl⟩
    refine .inr ⟨⟨m, called locals lp.worker_id m, done⟩, ?_⟩
    have stretch : WorkerKept lp lp' → net'.received = net.received → net'.transmitted = net.transmitted →
        (∀ m', Ahead lp' net' m' → Ahead lp net m' ∨ (m' = m ∧ 0 ≤ done.ret)) → net.freed ⊆ net'.freed →
        (done.ret < 0 → m ∈ net'.freed) →
        Stretch locals [⟨m, called locals lp.worker_id m, done⟩] lp net rocks lp' net' done.rocks := by
      intro kept received transmitted forwards freed refused
      refine ⟨by simp, ⟨_, .next .stay handles, rfl⟩, (handled_kept (handled_cases handles)).1, kept, received, transmitted,
        fun m' ahead => ?_, fun m' gone => ?_⟩
      · rcases forwards m' ahead with before | ⟨rfl, positive⟩
        · exact .inl before
        · exact .inr ⟨_, List.mem_singleton_self _, rfl, positive⟩
      · rcases gone with before | ⟨e, member, rfl, negative⟩
        · exact freed before
        · cases List.mem_singleton.mp member
          exact refused negative
    simp only [worker_pkt, process_ok answer, process_port] at run
    by_cases refused : done.ret < 0
    · rw [if_pos refused] at run
      cases run
      refine ⟨rfl, rfl, stretch ⟨rfl, rfl, rfl⟩ rfl rfl (fun _ => .inl) (List.subset_append_left ..)
        (fun _ => List.mem_append_right _ (List.mem_singleton_self m)), fun _ _ => rfl, fun f agrees => ?_⟩
      simp only [worker_pkt, processing, agrees, if_pos refused]
      rfl
    · rw [if_neg refused] at run
      simp only [bind_eq_ok] at run
      obtain ⟨u, inside, ⟨out, net₁⟩, appended, run⟩ := run
      cases run
      obtain ⟨rings, received, transmitted, freed, ahead⟩ :=
        append_ahead (fun id found => ⟨_, rings_out found⟩) appended
      refine ⟨rfl, rfl, stretch ⟨rfl, rfl, rfl⟩ received transmitted (fun m' held => ?_) freed
        (fun negative => absurd negative refused), rings, fun f agrees => ?_⟩
      · exact (ahead m' held).imp_right fun same => ⟨same, Int.not_lt.mp refused⟩
      · simp only [worker_pkt, processing, agrees, if_neg refused]
        exact bind_eq_ok.mpr ⟨u, inside, bind_eq_ok.mpr ⟨_, appended, rfl⟩⟩

/-- One burst. -/
private theorem pkts_stretch {worker_id : Nat} {hand : List Arrival} (id : lp.worker_id = worker_id)
    (staffed : worker_id < rocks.num_workers)
    (rings_out : ∀ {port id}, lp.rings_out port = some id → id = RingId.tx w port)
    (run : hand.foldlM (fun t pkt => worker_pkt (handling lpm_lookup locals worker_id) bsz_wr pkt t)
      (lp, net, some (rocks, log)) = .ok (lp', net', some (rocks', log'))) :
    ∃ new, log' = log ++ new ∧ new.map Entry.mbuf = hand ∧ Stretch locals new lp net rocks lp' net' rocks' ∧
      InRings net net' ∧ ∀ f, (∀ e ∈ new, f e.mbuf = e.done.ret) →
        hand.foldlM (fun t pkt => worker_pkt (processing lpm_lookup f) bsz_wr pkt t) (lp, net, ()) = .ok (lp', net', ()) := by
  induction hand generalizing lp net rocks log with
  | nil =>
    cases run
    exact ⟨[], (List.append_nil _).symm, rfl, .refl, fun _ _ => rfl, fun _ _ => rfl⟩
  | cons m hand ih =>
    rw [List.foldlM_cons] at run
    obtain ⟨⟨lp₁, net₁, left⟩, once, others⟩ := bind_eq_ok.mp run
    rcases pkt_stretch id staffed rings_out once with rfl | ⟨e, rfl, rfl, first, rings, plainly⟩
    · cases gone_pkts others rfl
    · have kept := first.kept
      obtain ⟨new, rfl, rest, second, rings', plainly'⟩ := ih (kept.worker_id.trans id) (by rw [first.staff]; exact staffed)
        (by rw [kept.rings_out]; exact rings_out) others
      refine ⟨e :: new, by rw [List.append_assoc]; rfl, by rw [List.map_cons, rest], first.append second,
        fun l v => (rings' l v).trans (rings l v), fun f agrees => ?_⟩
      obtain ⟨here, later⟩ := List.forall_mem_cons.mp agrees
      rw [List.foldlM_cons]
      exact bind_eq_ok.mpr ⟨_, plainly f here, plainly' f later⟩

/-- What is taken out of the rings of worker lcore `w`. -/
structure Took (w bsz_rd : Nat) (new : List Entry) (net net' : Net Arrival) : Prop where
  own : ∀ l, (net.rings (.rx l w)).items =
    (new.filter fun e => e.mbuf.lcore = l).map Entry.mbuf ++ (net'.rings (.rx l w)).items
  others : ∀ l v, v ≠ w → net'.rings (.rx l v) = net.rings (.rx l v)
  bursts : ∀ l, bsz_rd ∣ (new.filter fun e => e.mbuf.lcore = l).length

theorem Took.refl : Took w bsz_rd [] net net := ⟨fun _ => rfl, fun _ _ _ => rfl, fun _ => Nat.dvd_zero _⟩

theorem Took.append {new new' : List Entry} {net'' : Net Arrival} (first : Took w bsz_rd new net net')
    (second : Took w bsz_rd new' net' net'') : Took w bsz_rd (new ++ new') net net'' := by
  refine ⟨fun l => ?_, fun l v other => (second.others l v other).trans (first.others l v other), fun l => ?_⟩
  · rw [first.own, second.own, List.filter_append, List.map_append, List.append_assoc]
  · rw [List.filter_append, List.length_append]
    exact Nat.dvd_add (first.bursts l) (second.bursts l)

/-- Every ring holds what its lcore received. -/
def Named (net : Net Arrival) : Prop := ∀ l v, ∀ m ∈ (net.rings (.rx l v)).items, m.lcore = l

theorem Took.named {new : List Entry} (took : Took w bsz_rd new net net') (named : Named net) : Named net' := by
  intro l v m member
  by_cases own : v = w
  · subst own
    refine named l v m ?_
    rw [took.own]
    exact List.mem_append_right _ member
  · rw [took.others l v own] at member
    exact named l v m member

/-- One ring. -/
private theorem ring_stretch {worker_id l : Nat} (id : lp.worker_id = worker_id) (staffed : worker_id < rocks.num_workers)
    (rings_out : ∀ {port id}, lp.rings_out port = some id → id = RingId.tx w port) (named : Named net)
    (run : worker_ring (handling lpm_lookup locals worker_id) bsz_rd bsz_wr (.rx l w) (lp, net, some (rocks, log)) =
      .ok (lp', net', some (rocks', log'))) :
    ∃ new, log' = log ++ new ∧ Took w bsz_rd new net net' ∧ Stretch locals new lp net rocks lp' net' rocks' ∧
      ∀ f, (∀ e ∈ new, f e.mbuf = e.done.ret) →
        worker_ring (processing lpm_lookup f) bsz_rd bsz_wr (.rx l w) (lp, net, ()) = .ok (lp', net', ()) := by
  simp only [worker_ring] at run ⊢
  cases taken : (net.rings (.rx l w)).dequeueBulk bsz_rd with
  | none =>
    simp only [taken] at run
    cases run
    exact ⟨[], (List.append_nil _).symm, .refl, .refl, fun _ _ => rfl⟩
  | some pair =>
    obtain ⟨mbufs, ring⟩ := pair
    have split := BulkRing.dequeued taken
    simp only [taken] at run
    obtain ⟨u, inside, run⟩ := bind_eq_ok.mp run
    obtain ⟨new, rfl, same, stretch, rings, plainly⟩ := pkts_stretch id staffed rings_out run
    have own : ∀ e ∈ new, e.mbuf.lcore = l := by
      intro e member
      refine named l w e.mbuf ?_
      rw [split, ← same]
      exact List.mem_append_left _ (List.mem_map_of_mem member)
    have whole : new.filter (fun e => e.mbuf.lcore = l) = new := by
      rw [List.filter_eq_self]
      exact fun e member => decide_eq_true (own e member)
    have none : ∀ l', l' ≠ l → new.filter (fun e => e.mbuf.lcore = l') = [] := by
      intro l' other
      rw [List.filter_eq_nil_iff]
      intro e member here
      exact other ((of_decide_eq_true here).symm.trans (own e member))
    have after : ∀ l' v, net'.rings (.rx l' v) = Function.update net.rings (.rx l w) ring (.rx l' v) := rings
    refine ⟨new, rfl, ⟨fun l' => ?_, fun l' v other => ?_, fun l' => ?_⟩, ?_, fun f agrees => ?_⟩
    · by_cases here : l' = l
      · subst here
        rw [whole, same, split, after, Function.update_self]
      · rw [none l' here, after, Function.update_of_ne fun eq => here (RingId.rx.inj eq).1]
        rfl
    · rw [after, Function.update_of_ne fun eq => other (RingId.rx.inj eq).2]
    · by_cases here : l' = l
      · subst here
        have all : mbufs.length = bsz_rd := by
          rw [BulkRing.dequeueBulk] at taken
          split_ifs at taken with enough
          cases taken
          exact List.length_take_of_le enough.2
        exact ⟨1, by rw [whole, ← List.length_map Entry.mbuf, same, all, Nat.mul_one]⟩
      · rw [none l' here]
        exact Nat.dvd_zero _
    · refine ⟨stretch.calls, stretch.handled, stretch.staff, stretch.kept, stretch.received, stretch.transmitted,
        fun m ahead => ?_, stretch.frees⟩
      refine (stretch.forwards m ahead).imp_left fun before => before.imp_right ?_
      rintro ⟨v, port, member⟩
      refine ⟨v, port, ?_⟩
      change m ∈ (Function.update net.rings (.rx l w) ring (.tx v port)).items at member
      rwa [Function.update_of_ne (by rintro ⟨⟩)] at member
    · exact bind_eq_ok.mpr ⟨u, inside, plainly f agrees⟩

/-- One call of `app_lcore_worker`. -/
theorem worker_stretch {worker_id : Nat} (id : lp.worker_id = worker_id) (staffed : worker_id < rocks.num_workers)
    (rings_in : ∀ {id}, id ∈ lp.rings_in → ∃ l, id = RingId.rx l w)
    (rings_out : ∀ {port id}, lp.rings_out port = some id → id = RingId.tx w port) (named : Named net)
    (run : app_lcore_worker (handling lpm_lookup locals worker_id) bsz_rd bsz_wr (lp, net, some (rocks, log)) =
      .ok (lp', net', some (rocks', log'))) :
    ∃ new, log' = log ++ new ∧ Took w bsz_rd new net net' ∧ Stretch locals new lp net rocks lp' net' rocks' ∧
      ∀ f, (∀ e ∈ new, f e.mbuf = e.done.ret) →
        app_lcore_worker (processing lpm_lookup f) bsz_rd bsz_wr (lp, net, ()) = .ok (lp', net', ()) := by
  suffices all : ∀ ids : List RingId, (∀ id ∈ ids, ∃ l, id = RingId.rx l w) → ∀ {lp net rocks log},
      lp.worker_id = worker_id → worker_id < rocks.num_workers →
      (∀ {port id}, lp.rings_out port = some id → id = RingId.tx w port) → Named net →
      ids.foldlM (fun t id => worker_ring (handling lpm_lookup locals worker_id) bsz_rd bsz_wr id t)
        (lp, net, some (rocks, log)) = .ok (lp', net', some (rocks', log')) →
      ∃ new, log' = log ++ new ∧ Took w bsz_rd new net net' ∧ Stretch locals new lp net rocks lp' net' rocks' ∧
        ∀ f, (∀ e ∈ new, f e.mbuf = e.done.ret) →
          ids.foldlM (fun t id => worker_ring (processing lpm_lookup f) bsz_rd bsz_wr id t) (lp, net, ()) =
            .ok (lp', net', ()) by
    exact all lp.rings_in (fun _ => rings_in) id staffed rings_out named run
  intro ids
  induction ids with
  | nil =>
    intro _ lp net rocks log _ _ _ _ run
    cases run
    exact ⟨[], (List.append_nil _).symm, .refl, .refl, fun _ _ => rfl⟩
  | cons ring_in ids ih =>
    intro names lp net rocks log id staffed rings_out named run
    obtain ⟨⟨l, rfl⟩, others⟩ := List.forall_mem_cons.mp names
    rw [List.foldlM_cons] at run
    obtain ⟨⟨lp₁, net₁, left⟩, once, run⟩ := bind_eq_ok.mp run
    cases left with
    | none => cases gone_rings run rfl
    | some left =>
      obtain ⟨rocks₁, log₁⟩ := left
      obtain ⟨new, rfl, took, first, plainly⟩ := ring_stretch id staffed rings_out named once
      have kept := first.kept
      obtain ⟨new', rfl, took', second, plainly'⟩ := ih others (kept.worker_id.trans id) (by rw [first.staff]; exact staffed)
        (by rw [kept.rings_out]; exact rings_out) (took.named named) run
      refine ⟨new ++ new', by rw [List.append_assoc], took.append took', first.append second, fun f agrees => ?_⟩
      obtain ⟨here, later⟩ := List.forall_mem_append.mp agrees
      rw [List.foldlM_cons]
      exact bind_eq_ok.mpr ⟨_, plainly f here, plainly' f later⟩

end Working

/-! ### The server as a whole -/

/-- The lcores, the databases, and the messages that were handled so far. -/
structure Host where
  lcores : System Arrival
  rocks : Env
  log : List Entry

/-- An lcore calls one of its functions; a worker handles packets when it does. -/
inductive Deed
  | lcore (a : Act)
  | worker (lcore : Nat) (locals : Arrival → Delivery)

/-- Who calls, and what. -/
def Deed.call_of : Deed → Nat × Call
  | .lcore a => MainLoops.call_of a
  | .worker l _ => (l, .worker)

def serve (lpm_lookup : Nat → Option Nat) (s : Host) : Deed → Lcores.Result Host
  | .lcore (.worker _ _) => .error .panic
  | .lcore a => do
    let lcores ← act lpm_lookup s.lcores a
    return { s with lcores := lcores }
  | .worker l locals =>
    match s.lcores.lcore_params l with
    | .worker lp => do
      let (lp', net, left) ← app_lcore_worker (handling lpm_lookup locals lp.worker_id) s.lcores.app.burst_size_worker_read
        s.lcores.app.burst_size_worker_write (lp, s.lcores.net, some (s.rocks, s.log))
      match left with
      | some (rocks, log) => return ⟨put s.lcores l (.worker lp') net, rocks, log⟩
      | none => .error .panic
    | _ => .error .panic

def Serves (lpm_lookup : Nat → Option Nat) (s : Host) (d : Deed) (s' : Host) : Prop := serve lpm_lookup s d = .ok s'

section Serves
variable {app : Params} {roles : Nat → Role} {P : Plan} {lpm_lookup : Nat → Option Nat} {s s' : Host} {d : Deed}

/-- A step of the lcores that handles nothing, or a worker at its rings. -/
inductive Served (lpm_lookup : Nat → Option Nat) (s : Host) : Deed → Host → Prop
  | other {a : Act} {lcores : System Arrival} (idle : ∀ l f, a ≠ .worker l f) (step : Steps lpm_lookup s.lcores a lcores) :
      Served lpm_lookup s (.lcore a) { s with lcores := lcores }
  | worker {l : Nat} {locals : Arrival → Delivery} {lp lp' : Lcores.Worker Arrival} {net : Net Arrival} {rocks : Env}
      {log : List Entry} (is : s.lcores.lcore_params l = .worker lp)
      (run : app_lcore_worker (handling lpm_lookup locals lp.worker_id) s.lcores.app.burst_size_worker_read
        s.lcores.app.burst_size_worker_write (lp, s.lcores.net, some (s.rocks, s.log)) = .ok (lp', net, some (rocks, log))) :
      Served lpm_lookup s (.worker l locals) ⟨put s.lcores l (.worker lp') net, rocks, log⟩

theorem serve_served (step : Serves lpm_lookup s d s') : Served lpm_lookup s d s' := by
  cases d with
  | lcore a =>
    cases a with
    | worker l f => cases step
    | io_rx | io_rx_flush | io_tx | io_tx_flush | worker_flush =>
      obtain ⟨lcores, goes, done⟩ := bind_eq_ok.mp step
      cases done
      exact .other (by rintro _ _ ⟨⟩) goes
  | worker l locals =>
    simp only [Serves, serve] at step
    cases is : s.lcores.lcore_params l with
    | disabled =>
      rw [is] at step
      cases step
    | io rx tx =>
      rw [is] at step
      cases step
    | worker lp =>
      rw [is] at step
      obtain ⟨⟨lp', net, left⟩, run, step⟩ := bind_eq_ok.mp step
      cases left with
      | none => cases step
      | some left =>
        obtain ⟨rocks, log⟩ := left
        cases step
        exact .worker is run

/-- The answers, as a function of the mbufs. -/
def answers (new : List Entry) (m : Arrival) : Int := ((new.find? fun e => e.mbuf = m).map fun e => e.done.ret).getD 0

private theorem answers_agree : ∀ {new : List Entry}, (new.map Entry.mbuf).Nodup → ∀ e ∈ new, answers new e.mbuf = e.done.ret := by
  intro new
  induction new with
  | nil => simp
  | cons first new ih =>
    intro once e member
    obtain ⟨fresh, once⟩ := List.nodup_cons.mp once
    rcases List.mem_cons.mp member with rfl | later
    · simp [answers]
    · have other : ¬ first.mbuf = e.mbuf := fun same => fresh (same ▸ List.mem_map_of_mem later)
      rw [← ih once e later, answers, answers, List.find?_cons_of_neg (by simpa using other)]

/-- What a worker takes out of its rings it takes once. -/
theorem Took.nodup {w bsz_rd : Nat} {new : List Entry} {net net' : Net Arrival} (took : Took w bsz_rd new net net')
    (once : ∀ l, (net.rings (.rx l w)).items.Nodup) : (new.map Entry.mbuf).Nodup := by
  refine List.nodup_iff_count_le_one.mpr fun m => ?_
  have here := once m.lcore
  rw [took.own] at here
  have single := List.nodup_iff_count_le_one.mp (List.nodup_append.mp here).1 m
  have same : (new.filter fun e => e.mbuf.lcore = m.lcore).map Entry.mbuf =
      (new.map Entry.mbuf).filter fun m' => m'.lcore = m.lcore := by
    rw [List.filter_map]
    rfl
  rwa [same, List.count_filter (by simp)] at single

/-- What holds of the lcores, and that the databases are for them. -/
structure HostInv (app : Params) (P : Plan) (lpm_lookup : Nat → Option Nat) (s : Host) : Prop where
  lcores : Inv app P lpm_lookup s.lcores
  staff : s.rocks.num_workers = P.workers.length

theorem HostInv.named (inv : HostInv app P lpm_lookup s) : Named s.lcores.net :=
  fun _ _ _ member => (passed_kind inv.lcores member).1

theorem HostInv.staffed (inv : HostInv app P lpm_lookup s) {l : Nat} {lp : Lcores.Worker Arrival}
    (is : s.lcores.lcore_params l = .worker lp) : lp.worker_id < s.rocks.num_workers := by
  rw [inv.staff]
  exact (List.getElem?_eq_some_iff.mp (inv.lcores.wired.worker_id is)).1

/-- The worker's call, for the answers it gets. -/
theorem HostInv.worker (inv : HostInv app P lpm_lookup s) {l : Nat} {locals : Arrival → Delivery}
    {lp lp' : Lcores.Worker Arrival} {net : Net Arrival} {rocks : Env} {log : List Entry}
    (is : s.lcores.lcore_params l = .worker lp)
    (run : app_lcore_worker (handling lpm_lookup locals lp.worker_id) s.lcores.app.burst_size_worker_read
      s.lcores.app.burst_size_worker_write (lp, s.lcores.net, some (s.rocks, s.log)) = .ok (lp', net, some (rocks, log))) :
    ∃ new, log = s.log ++ new ∧ Took l s.lcores.app.burst_size_worker_read new s.lcores.net net ∧
      Stretch locals new lp s.lcores.net s.rocks lp' net rocks ∧
      Steps lpm_lookup s.lcores (.worker l (answers new)) (put s.lcores l (.worker lp') net) := by
  obtain ⟨new, rfl, took, stretch, plainly⟩ := worker_stretch rfl (inv.staffed is) (inv.lcores.wired.rings_in is)
    (inv.lcores.wired.rings_out is) inv.named run
  have once := took.nodup fun l' => inv.lcores.sound.conserved.once (.ring (.rx l' l))
  refine ⟨new, rfl, took, stretch, ?_⟩
  simp only [Steps, act, is]
  exact bind_eq_ok.mpr ⟨_, plainly _ (answers_agree once), rfl⟩

/-- A step of the whole server is one of its lcores, and a run of the messages it adds. -/
theorem HostInv.serve (inv : HostInv app P lpm_lookup s) (step : Serves lpm_lookup s d s') :
    HostInv app P lpm_lookup s' ∧ ∃ a new messages, call_of a = d.call_of ∧ Steps lpm_lookup s.lcores a s'.lcores ∧
      s'.log = s.log ++ new ∧ Run Handles s.rocks messages s'.rocks ∧
      messages.map (fun e => e.2.1) = new.map fun e => (e.delivery, e.done) := by
  cases serve_served step with
  | @other a lcores _ goes =>
    exact ⟨⟨act_inv inv.lcores goes, inv.staff⟩, a, [], [], rfl, goes, (List.append_nil _).symm, .stay, rfl⟩
  | worker is run =>
    obtain ⟨new, rfl, -, stretch, goes⟩ := inv.worker is run
    obtain ⟨messages, handled, same⟩ := stretch.handled
    exact ⟨⟨act_inv inv.lcores goes, stretch.staff.trans inv.staff⟩, _, new, messages, rfl, goes, rfl, handled, same⟩

/-- Before the first packet. -/
def switched_on (start : System Arrival) (staffed : 0 < (workers start.lcore_params).length) (disk : Nat → List Rocks.Write)
    (faults : Nat → Rocks.Call → Bool) : Host :=
  ⟨start, Datastore.init_database_env _ staffed disk faults, []⟩

theorem switched_on_inv {start : System Arrival} (lpm_lookup : Nat → Option Nat) (receiving : 0 < app.burst_size_io_rx_write)
    (working : 0 < app.burst_size_worker_write) (ready : app_init app roles = .ok start)
    (staffed : 0 < (workers start.lcore_params).length) (disk : Nat → List Rocks.Write) (faults : Nat → Rocks.Call → Bool) :
    HostInv app (plan start.lcore_params) lpm_lookup (switched_on start staffed disk faults) :=
  ⟨start_inv lpm_lookup receiving working ready, rfl⟩

section Runs
variable {start : System Arrival} (receiving : 0 < app.burst_size_io_rx_write) (working : 0 < app.burst_size_worker_write)
  (ready : app_init app roles = .ok start) (staffed : 0 < (workers start.lcore_params).length) (disk : Nat → List Rocks.Write)
  (faults : Nat → Rocks.Call → Bool) {trail : List (Host × Deed × Host)} {last : Host}
  (run : Run (Serves lpm_lookup) (switched_on start staffed disk faults) trail last)
include receiving working ready run

/-- The lcores run by themselves, with the answers they get. -/
theorem run_calls : HostInv app (plan start.lcore_params) lpm_lookup last ∧ ∃ calls, Run (Steps lpm_lookup) start calls last.lcores ∧
    calls.map (fun e => call_of e.2.1) = trail.map fun e => e.2.1.call_of := by
  refine run_keeps (fun trail (s : Host) => HostInv app (plan start.lcore_params) lpm_lookup s ∧
    ∃ calls, Run (Steps lpm_lookup) start calls s.lcores ∧
      calls.map (fun e => call_of e.2.1) = trail.map fun e => e.2.1.call_of) (fun _ _ => True) ?_
    ⟨switched_on_inv lpm_lookup receiving working ready staffed disk faults, [], .stay, rfl⟩ run fun _ _ => trivial
  rintro trail s d s' ⟨inv, calls, called, same⟩ step -
  obtain ⟨inv', a, -, -, caller, goes, -⟩ := inv.serve step
  refine ⟨inv', _, called.next goes, ?_⟩
  rw [List.map_append, List.map_append, same]
  exact congrArg (_ ++ [·]) caller

/-- The databases are what the messages of the log make of them. -/
theorem run_messages : ∃ messages, Run Handles (Datastore.init_database_env _ staffed disk faults) messages last.rocks ∧
    messages.map (fun e => e.2.1) = last.log.map fun e => (e.delivery, e.done) := by
  refine (run_keeps (fun _ (s : Host) => HostInv app (plan start.lcore_params) lpm_lookup s ∧
    ∃ messages, Run Handles (Datastore.init_database_env _ staffed disk faults) messages s.rocks ∧
      messages.map (fun e => e.2.1) = s.log.map fun e => (e.delivery, e.done)) (fun _ _ => True) ?_
    ⟨switched_on_inv lpm_lookup receiving working ready staffed disk faults, [], .stay, rfl⟩ run fun _ _ => trivial).2
  rintro _ s d s' ⟨inv, messages, handled, logged⟩ step -
  obtain ⟨inv', _, new, more, -, -, log, handled', logged'⟩ := inv.serve step
  refine ⟨inv', _, handled.append handled', ?_⟩
  rw [List.map_append, logged, logged', log, List.map_append]

end Runs

end Serves

/-- Two messages for the only worker, the second of no known type. -/
def two_packets : List (List UInt8) :=
  [(Handling.packet 0 0 (Bytes.ascii "w 1 a")).data, (Handling.packet 2 0 (Bytes.ascii "w 2 b")).data]

/-- The server of `small` receives them and handles them. -/
theorem two_served : ∃ start trail last, ∃ staffed : 0 < (workers start.lcore_params).length,
    app_init small smallRoles = .ok start ∧
    Run (Serves fun _ => none) (switched_on start staffed (fun _ => []) fun _ _ => false) trail last ∧
    trail.map (fun e => e.2.1.call_of) = [(0, .io_rx), (1, .worker)] ∧
    last.log.map (fun e => (e.mbuf.serial, e.done.ret)) = [(0, 0), (1, -1)] ∧ last.lcores.net.received.length = 2 := by
  have played : (do
      let start ← app_init small smallRoles
      if staffed : 0 < (workers start.lcore_params).length then
        let s ← serve (fun _ => none) (switched_on start staffed (fun _ => []) fun _ _ => false)
          (.lcore (.io_rx 0 fun _ => two_packets))
        let s ← serve (fun _ => none) s (.worker 1 fun _ => Traffic.plain 0 [])
        return (s.log.map fun e : Entry => (e.mbuf.serial, e.done.ret), s.lcores.net.received.length)
      else .error .panic) = .ok ([(0, 0), (1, -1)], 2) := by decide +kernel
  obtain ⟨start, ready, played⟩ := bind_eq_ok.mp played
  split at played
  · rename_i staffed
    obtain ⟨s₁, one, played⟩ := bind_eq_ok.mp played
    obtain ⟨s₂, two, played⟩ := bind_eq_ok.mp played
    obtain ⟨log, received⟩ := Prod.mk.inj (Except.ok.inj played)
    exact ⟨start, _, s₂, staffed, ready, (Run.stay.next one).next two, rfl, log, received⟩
  · cases played

end Shardb.Service
