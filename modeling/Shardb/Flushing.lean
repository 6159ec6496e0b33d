import Shardb.Dispatch
import Shardb.MainLoops
import Shardb.Ranges
import Shardb.Steps

/-!
# How long a buffer holds an mbuf

A buffer that is not full waits for its flush, and the first flush may only set
the flag. An mbuf that was in the buffer before is gone at the second, so it
waits for two million passes of its lcore at most (`waits_two_flushes`), whatever
the other lcores do and whatever traffic there is.
-/

namespace Shardb.Flushing
open Shardb.Loops Shardb.Rings Shardb.Flow Shardb.Lcores Shardb.Wiring Shardb.Runs Shardb.Transit Shardb.Conservation
open Shardb.Steps Shardb.MainLoops

/-! ### One buffer -/

section Outputs
variable {μ : Type} {out out' out'' : Outputs μ} {net net' : Net μ} {i k bsz : Nat} {m : μ} {ring : Option RingId}

/-- What is in buffer `k` and is not new was there before, under the flag it has now. -/
def Grown (new : μ → Prop) (k : Nat) (out out' : Outputs μ) : Prop :=
  ∀ m, ¬ new m → m ∈ (out'.mbuf_out k).items →
    m ∈ (out.mbuf_out k).items ∧ out'.mbuf_out_flush k = out.mbuf_out_flush k

/-- Buffer `k` has been flushed: the flag is set, and nothing is left if it was. -/
structure Flushed (k : Nat) (out out' : Outputs μ) : Prop where
  flag : out'.mbuf_out_flush k = true
  gone : out.mbuf_out_flush k = true → (out'.mbuf_out k).items = []

/-- Buffer `k` is as it was. -/
structure Same (k : Nat) (out out' : Outputs μ) : Prop where
  items : out'.mbuf_out k = out.mbuf_out k
  flag : out'.mbuf_out_flush k = out.mbuf_out_flush k

theorem Grown.refl {new : μ → Prop} : Grown new k out out := fun _ _ here => ⟨here, rfl⟩

theorem Grown.trans {new : μ → Prop} (first : Grown new k out out') (second : Grown new k out' out'') :
    Grown new k out out'' := by
  intro m old here
  obtain ⟨between, flag⟩ := second m old here
  obtain ⟨before, flag'⟩ := first m old between
  exact ⟨before, flag.trans flag'⟩

theorem Grown.mono {new new' : μ → Prop} (grown : Grown new k out out') (more : ∀ m, new m → new' m) :
    Grown new' k out out' :=
  fun m old here => grown m (fun isNew => old (more m isNew)) here

theorem store_grown {new : μ → Prop} {buffer : app_mbuf_array μ} {added : List μ}
    (grown : buffer.items = (out.mbuf_out i).items ++ added) (isNew : ∀ m ∈ added, new m) :
    Grown new k out (out.store i buffer) := by
  intro m old here
  change m ∈ (Function.update out.mbuf_out i buffer k).items at here
  by_cases same : k = i
  · subst same
    rw [Function.update_self, grown, List.mem_append] at here
    exact ⟨here.resolve_right fun added => old (isNew m added), rfl⟩
  · rw [Function.update_of_ne same] at here
    exact ⟨here, rfl⟩

theorem reset_grown (new : μ → Prop) (flush : Bool) : Grown new k out (out.reset i flush) := by
  intro m _ here
  change m ∈ (Function.update out.mbuf_out i .empty k).items at here
  by_cases same : k = i
  · rw [same, Function.update_self] at here
    cases here
  · rw [Function.update_of_ne same] at here
    exact ⟨here, Function.update_of_ne same ..⟩

theorem append_grown (run : out.append i m bsz ring net = .ok (out', net')) : Grown (· = m) k out out' := by
  rw [Outputs.append] at run
  cases pushed : (out.mbuf_out i).push [m] with
  | none => simp only [pushed] at run; cases run
  | some buffer =>
    simp only [pushed] at run
    split_ifs at run
    · cases run
      exact store_grown (Buffer.pushed pushed) fun m member => List.mem_singleton.mp member
    · simp only [bind_eq_ok] at run
      obtain ⟨net₁, -, run⟩ := run
      cases run
      exact reset_grown _ false

theorem reset_same (flush : Bool) (other : k ≠ i) : Same k out (out.reset i flush) :=
  ⟨Function.update_of_ne other .., Function.update_of_ne other ..⟩

theorem reset_flushed : Flushed k out (out.reset k true) := by
  refine ⟨Function.update_self .., fun _ => ?_⟩
  show (Function.update out.mbuf_out k .empty k).items = []
  rw [Function.update_self]
  rfl

/-- The flag is all that is set. -/
theorem idle_flushed (idle : out.mbuf_out_flush k = false ∨ (out.mbuf_out k).items = []) :
    Flushed k out { out with mbuf_out_flush := Function.update out.mbuf_out_flush k true } := by
  refine ⟨Function.update_self .., fun set => idle.resolve_left fun unset => ?_⟩
  rw [set] at unset
  cases unset

theorem idle_same (flush : Bool) (other : k ≠ i) :
    Same k out { out with mbuf_out_flush := Function.update out.mbuf_out_flush i flush } :=
  ⟨rfl, Function.update_of_ne other ..⟩

theorem flush_flushed (run : out.flush k ring net = .ok (out', net')) : Flushed k out out' := by
  rw [Outputs.flush] at run
  split_ifs at run with idle
  · cases run
    exact idle_flushed idle
  · simp only [bind_eq_ok] at run
    obtain ⟨net₁, -, run⟩ := run
    cases run
    exact reset_flushed

theorem flush_same (run : out.flush i ring net = .ok (out', net')) (other : k ≠ i) : Same k out out' := by
  rw [Outputs.flush] at run
  split_ifs at run
  · cases run
    exact idle_same true other
  · simp only [bind_eq_ok] at run
    obtain ⟨net₁, -, run⟩ := run
    cases run
    exact reset_same true other

theorem Flushed.same (flushed : Flushed k out out') (same : Same k out' out'') : Flushed k out out'' :=
  ⟨same.flag.trans flushed.flag, fun set => by rw [same.items]; exact flushed.gone set⟩

theorem Same.flushed (same : Same k out out') (flushed : Flushed k out' out'') : Flushed k out out'' :=
  ⟨flushed.flag, fun set => flushed.gone (same.flag.trans set)⟩

theorem Same.trans (first : Same k out out') (second : Same k out' out'') : Same k out out'' :=
  ⟨second.items.trans first.items, second.flag.trans first.flag⟩

/-- A second flush leaves nothing. -/
theorem Flushed.twice (first : Flushed k out out') (second : Flushed k out' out'') : Flushed k out out'' :=
  ⟨second.flag, fun _ => second.gone first.flag⟩

end Outputs

/-- A loop that flushes buffer after buffer has flushed all of its list. -/
theorem loop_flushes {μ σ : Type} (outputs : σ → Outputs μ) (Fine : σ → Prop) {f : σ → Nat → Result σ} {k : Nat}
    (keeps : ∀ {s s' i}, Fine s → f s i = .ok s' → Fine s')
    (own : ∀ {s s'}, Fine s → f s k = .ok s' → Flushed k (outputs s) (outputs s'))
    (others : ∀ {s s' i}, f s i = .ok s' → k ≠ i → Same k (outputs s) (outputs s')) {list : List Nat} (listed : k ∈ list)
    {s s' : σ} (fine : Fine s) (run : list.foldlM f s = .ok s') : Flushed k (outputs s) (outputs s') := by
  have all := foldlM_ok (fun rest t => Fine t ∧
    ((k ∈ rest ∧ Same k (outputs s) (outputs t)) ∨ Flushed k (outputs s) (outputs t))) ?_ ⟨fine, .inl ⟨listed, rfl, rfl⟩⟩ run
  · exact all.2.resolve_left fun none => absurd none.1 List.not_mem_nil
  · rintro i rest t t' ⟨fine, done⟩ once
    refine ⟨keeps fine once, ?_⟩
    by_cases here : k = i
    · subst here
      rcases done with ⟨-, same⟩ | flushed
      · exact .inr (same.flushed (own fine once))
      · exact .inr (flushed.twice (own fine once))
    · have same := others once here
      rcases done with ⟨later, before⟩ | flushed
      · exact .inl ⟨(List.mem_cons.mp later).resolve_left here, before.trans same⟩
      · exact .inr (flushed.same same)

/-! ### The functions -/

section Receiving
variable {rx rx' : Rx Arrival} {net net' : Net Arrival} {n_workers bsz pos_lb k : Nat}

private theorem to_worker_grown {m : Arrival}
    (run : to_worker n_workers bsz pos_lb m.data m (rx, net) = .ok (rx', net')) :
    Grown (· = m) k rx.toOutputs rx'.toOutputs ∧ net'.received = net.received := by
  simp only [to_worker, app_lcore_io_rx_buffer_to_send, bind_eq_ok] at run
  obtain ⟨-, -, ⟨out, net₁⟩, appended, run⟩ := run
  cases run
  exact ⟨append_grown appended, (append_frame appended).2.2.2⟩

/-- What one queue yields is numbered on from what was received. -/
private theorem io_rx_queue_grown {l port n : Nat} {packets : List (List UInt8)}
    (run : io_rx_queue Arrival.data n_workers bsz pos_lb ((arrive l port net.received.length packets).take n) (rx, net) =
      .ok (rx', net')) :
    Grown (fun m => net.received.length ≤ m.serial) k rx.toOutputs rx'.toOutputs ∧
      net.received.length ≤ net'.received.length := by
  have later : ∀ m ∈ (arrive l port net.received.length packets).take n, net.received.length ≤ m.serial := by
    intro m member
    have member := List.mem_of_mem_take member
    rw [arrive, List.mem_mapIdx] at member
    obtain ⟨i, inside, rfl⟩ := member
    exact Nat.le_add_right ..
  set burst := (arrive l port net.received.length packets).take n
  simp only [io_rx_queue, bind_eq_ok] at run
  obtain ⟨-, -, run⟩ := run
  split_ifs at run with none
  · cases run
    exact ⟨.refl, by simp⟩
  · rw [rx_queue_eq] at run
    have all := foldlM_ok (fun rest (s : Rx Arrival × Net Arrival) => (∀ m ∈ rest, net.received.length ≤ m.serial) ∧
      Grown (fun m => net.received.length ≤ m.serial) k rx.toOutputs s.1.toOutputs ∧
      net.received.length ≤ s.2.received.length) ?_ ⟨later, .refl, by simp⟩ run
    · exact all.2
    · rintro m rest ⟨rx₁, net₁⟩ ⟨rx₂, net₂⟩ ⟨later, grown, more⟩ once
      obtain ⟨here, later⟩ := List.forall_mem_cons.mp later
      obtain ⟨step, received⟩ := to_worker_grown once
      refine ⟨later, grown.trans (step.mono fun m' same => ?_), ?_⟩
      · rw [same]
        exact here
      · rw [received]
        exact more

theorem io_rx_grown {l bsz_rd : Nat} {packets : Nat → List (List UInt8)}
    (run : app_lcore_io_rx (fun port _ i (net : Net Arrival) => arrive l port net.received.length (packets i)) Arrival.data
      n_workers bsz_rd bsz pos_lb rx net = .ok (rx', net')) :
    Grown (fun m => net.received.length ≤ m.serial) k rx.toOutputs rx'.toOutputs := by
  refine (foldlM_ok (fun _ (s : Rx Arrival × Net Arrival) =>
    Grown (fun m => net.received.length ≤ m.serial) k rx.toOutputs s.1.toOutputs ∧
      net.received.length ≤ s.2.received.length) ?_ ⟨.refl, Nat.le_refl _⟩ run).1
  rintro queue - ⟨rx₁, net₁⟩ ⟨rx₂, net₂⟩ ⟨grown, more⟩ once
  obtain ⟨step, more'⟩ := io_rx_queue_grown once
  exact ⟨grown.trans (step.mono fun m later => more.trans later), more.trans more'⟩

theorem io_rx_flush_flushed (inside : k < n_workers) (run : app_lcore_io_rx_flush n_workers rx net = .ok (rx', net')) :
    Flushed k rx.toOutputs rx'.toOutputs := by
  refine loop_flushes (fun s : Rx Arrival × Net Arrival => s.1.toOutputs) (fun _ => True) (fun _ _ => trivial) ?_ ?_
    (List.mem_range.mpr inside) trivial run
  · rintro ⟨rx₁, net₁⟩ ⟨rx₂, net₂⟩ - once
    simp only [bind_eq_ok] at once
    obtain ⟨-, -, ⟨out, net₃⟩, flushed, once⟩ := once
    cases once
    exact flush_flushed flushed
  · rintro ⟨rx₁, net₁⟩ ⟨rx₂, net₂⟩ i once other
    simp only [bind_eq_ok] at once
    obtain ⟨-, -, ⟨out, net₃⟩, flushed, once⟩ := once
    cases once
    exact flush_same flushed other

end Receiving

section Sending
variable {tx tx' : Tx Arrival} {net net' : Net Arrival} {tx_burst : Nat → List Arrival → Nat} {n_workers bsz_rd bsz_wr k : Nat}

private theorem io_tx_ring_grown {worker port : Nat}
    (run : io_tx_ring tx_burst bsz_rd bsz_wr worker port (tx, net) = .ok (tx', net')) :
    Grown (fun m => ∃ id, m ∈ (net.rings id).items) k tx.toOutputs tx'.toOutputs ∧
      ∀ id, (net'.rings id).items ⊆ (net.rings id).items := by
  simp only [io_tx_ring, bind_eq_ok] at run
  obtain ⟨-, -, -, -, -, -, id, -, run⟩ := run
  cases taken : (net.rings id).dequeueBulk bsz_rd with
  | none =>
    simp only [taken] at run
    cases run
    exact ⟨.refl, fun id => List.Subset.refl _⟩
  | some pair =>
    obtain ⟨mbufs, ring⟩ := pair
    have split := BulkRing.dequeued taken
    have fewer : ∀ id', ((net.setRing id ring).rings id').items ⊆ (net.rings id').items := by
      intro id' m member
      change m ∈ (Function.update net.rings id ring id').items at member
      by_cases same : id' = id
      · subst same
        rw [Function.update_self] at member
        rw [split]
        exact List.mem_append_right _ member
      · rwa [Function.update_of_ne same] at member
    simp only [taken] at run
    cases pushed : (tx.mbuf_out port).push mbufs with
    | none => simp only [pushed] at run; cases run
    | some buffer =>
      simp only [pushed] at run
      split_ifs at run
      · cases run
        refine ⟨store_grown (Buffer.pushed pushed) fun m member => ⟨id, ?_⟩, fewer⟩
        rw [split]
        exact List.mem_append_left _ member
      · cases run
        exact ⟨reset_grown _ false, fewer⟩

theorem io_tx_grown (run : app_lcore_io_tx tx_burst n_workers bsz_rd bsz_wr tx net = .ok (tx', net')) :
    Grown (fun m => ∃ id, m ∈ (net.rings id).items) k tx.toOutputs tx'.toOutputs := by
  have all := foldlM_ok (fun _ (s : Tx Arrival × Net Arrival) =>
    Grown (fun m => ∃ id, m ∈ (net.rings id).items) k tx.toOutputs s.1.toOutputs ∧
      ∀ id, (s.2.rings id).items ⊆ (net.rings id).items) ?_ ⟨.refl, fun id => List.Subset.refl _⟩ run
  · exact all.1
  rintro worker - s s' outer ports
  refine foldlM_ok (fun _ (s : Tx Arrival × Net Arrival) =>
    Grown (fun m => ∃ id, m ∈ (net.rings id).items) k tx.toOutputs s.1.toOutputs ∧
      ∀ id, (s.2.rings id).items ⊆ (net.rings id).items) ?_ outer ports
  rintro port - ⟨tx₁, net₁⟩ ⟨tx₂, net₂⟩ ⟨grown, fewer⟩ once
  obtain ⟨step, fewer'⟩ := io_tx_ring_grown once
  exact ⟨grown.trans (step.mono fun m ⟨id, held⟩ => ⟨id, fewer id held⟩), fun id => List.Subset.trans (fewer' id) (fewer id)⟩

theorem io_tx_flush_flushed (listed : k ∈ tx.nic_ports) (run : app_lcore_io_tx_flush tx_burst tx net = .ok (tx', net')) :
    Flushed k tx.toOutputs tx'.toOutputs := by
  refine loop_flushes (fun s : Tx Arrival × Net Arrival => s.1.toOutputs) (fun _ => True) (fun _ _ => trivial) ?_ ?_ listed
    trivial run
  · rintro ⟨tx₁, net₁⟩ ⟨tx₂, net₂⟩ - once
    simp only [io_tx_flush_port, bind_eq_ok] at once
    obtain ⟨-, -, once⟩ := once
    split_ifs at once with idle
    · cases once
      exact idle_flushed idle
    · cases once
      exact reset_flushed
  · rintro ⟨tx₁, net₁⟩ ⟨tx₂, net₂⟩ i once other
    simp only [io_tx_flush_port, bind_eq_ok] at once
    obtain ⟨-, -, once⟩ := once
    split_ifs at once
    · cases once
      exact idle_same true other
    · cases once
      exact reset_same true other

end Sending

section Working
variable {lp lp' : Worker Arrival} {net net' : Net Arrival} {lpm_lookup : Nat → Option Nat} {process_pkt : Arrival → Int}
  {bsz_rd bsz_wr w k : Nat}

/-- What a worker takes was in its rings. -/
theorem mem_taken : ∀ {ids : List RingId} {net : Net Arrival} {m : Arrival}, m ∈ taken bsz_rd ids net →
    ∃ id ∈ ids, m ∈ (net.rings id).items := by
  intro ids
  induction ids with
  | nil =>
    intro net m member
    cases member
  | cons id ids ih =>
    intro net m member
    rw [taken] at member
    cases taking : (net.rings id).dequeueBulk bsz_rd with
    | none =>
      rw [taking] at member
      obtain ⟨id', listed, held⟩ := ih member
      exact ⟨id', List.mem_cons_of_mem _ listed, held⟩
    | some pair =>
      obtain ⟨mbufs, ring⟩ := pair
      have split := BulkRing.dequeued taking
      simp only [taking, List.mem_append] at member
      rcases member with first | later
      · exact ⟨id, List.mem_cons_self, by rw [split]; exact List.mem_append_left _ first⟩
      · obtain ⟨id', listed, held⟩ := ih later
        change m ∈ (Function.update net.rings id ring id').items at held
        refine ⟨id', List.mem_cons_of_mem _ listed, ?_⟩
        by_cases same : id' = id
        · subst same
          rw [Function.update_self] at held
          rw [split]
          exact List.mem_append_right _ held
        · rwa [Function.update_of_ne same] at held

theorem worker_grown (rings_in : ∀ {id}, id ∈ lp.rings_in → ∃ l, id = RingId.rx l w)
    (rings_out : ∀ {port id}, lp.rings_out port = some id → id = RingId.tx w port) {s' : Unit}
    (run : app_lcore_worker (processing lpm_lookup process_pkt) bsz_rd bsz_wr (lp, net, ()) = .ok (lp', net', s')) :
    Grown (fun m => ∃ id, m ∈ (net.rings id).items) k lp.toOutputs lp'.toOutputs := by
  have all : Yields (fun t : Worker Arrival × Net Arrival × Unit =>
      ((∀ m ∈ ([] ++ [] : List Arrival), ∃ id, m ∈ (net.rings id).items) ∧
        Grown (fun m => ∃ id, m ∈ (net.rings id).items) k lp.toOutputs t.1.toOutputs) ∧ WorkerKept lp t.1) (fun _ => True)
      (app_lcore_worker (processing lpm_lookup process_pkt) bsz_rd bsz_wr (lp, net, ())) := by
    refine worker_rule (fun hand more lp₁ _ => (∀ m ∈ hand ++ more, ∃ id, m ∈ (net.rings id).items) ∧
      Grown (fun m => ∃ id, m ∈ (net.rings id).items) k lp.toOutputs lp₁.toOutputs) rings_in rings_out ?_
      (fun _ => trivial) ?_ ⟨fun m member => ?_, .refl⟩
    · intro l mbufs ring more lp₁ net₁ _ holds
      exact holds
    · rintro m hand more lp₁ net₁ kept ⟨ringed, grown⟩
      obtain ⟨here, ringed⟩ := List.forall_mem_cons.mp ringed
      cases once : worker_pkt (processing lpm_lookup process_pkt) bsz_wr m (lp₁, net₁, ()) with
      | error e => trivial
      | ok t =>
        refine ⟨ringed, grown.trans ?_⟩
        rcases worker_pkt_cases once with ⟨-, same, -⟩ | ⟨out, -, -, appended, same⟩
        · rw [same]
          exact .refl
        · rw [same]
          exact (append_grown appended).mono fun m' is => is ▸ here
    · obtain ⟨id, -, held⟩ := mem_taken member
      exact ⟨id, held⟩
  rw [run] at all
  exact all.1.2

private theorem worker_flush_port_cases {port : Nat} (run : worker_flush_port port (lp, net) = .ok (lp', net')) :
    (lp.rings_out port = none ∧ lp' = lp) ∨
    ∃ out, lp.flush port (lp.rings_out port) net = .ok (out, net') ∧ lp' = { lp with toOutputs := out } := by
  simp only [worker_flush_port] at run
  split_ifs at run with none
  · cases run
    exact .inl ⟨none, rfl⟩
  · simp only [bind_eq_ok] at run
    obtain ⟨⟨out, net₁⟩, flushed, run⟩ := run
    cases run
    exact .inr ⟨out, flushed, rfl⟩

theorem worker_flush_flushed (inside : k < APP_MAX_NIC_PORTS) (ring : lp.rings_out k ≠ none)
    (run : app_lcore_worker_flush lp net = .ok (lp', net')) : Flushed k lp.toOutputs lp'.toOutputs := by
  refine loop_flushes (fun t : Worker Arrival × Net Arrival => t.1.toOutputs) (fun t => t.1.rings_out k ≠ none) ?_ ?_ ?_
    (List.mem_range.mpr inside) ring run
  · rintro ⟨lp₁, net₁⟩ ⟨lp₂, net₂⟩ i ring once
    rcases worker_flush_port_cases once with ⟨-, rfl⟩ | ⟨out, -, rfl⟩
    · exact ring
    · exact ring
  · rintro ⟨lp₁, net₁⟩ ⟨lp₂, net₂⟩ ring once
    rcases worker_flush_port_cases once with ⟨none, -⟩ | ⟨out, flushed, rfl⟩
    · exact absurd none ring
    · exact flush_flushed flushed
  · rintro ⟨lp₁, net₁⟩ ⟨lp₂, net₂⟩ i once other
    rcases worker_flush_port_cases once with ⟨-, rfl⟩ | ⟨out, flushed, rfl⟩
    · exact ⟨rfl, rfl⟩
    · exact flush_same flushed other

end Working

/-! ### The buffers of all lcores -/

/-- The lcore whose buffers these are, and the call that flushes them. -/
def owner : Site → Nat × Call
  | .rx l => (l, .io_rx_flush)
  | .worker l => (l, .worker_flush)
  | .tx l => (l, .io_tx_flush)

/-- The buffers of the site's kind that an lcore has. -/
def part : Site → Lcore Arrival → Option (Outputs Arrival)
  | .rx _, .io rx _ => some rx.toOutputs
  | .tx _, .io _ tx => some tx.toOutputs
  | .worker _, .worker lp => some lp.toOutputs
  | _, _ => none

def outputs (lcores : Nat → Lcore Arrival) (site : Site) : Option (Outputs Arrival) := part site (lcores (owner site).1)

theorem buffers_eq (lcores : Nat → Lcore Arrival) (site : Site) (k : Nat) :
    buffers lcores site k = (outputs lcores site).elim [] fun out => (out.mbuf_out k).items := by
  cases site with
  | rx l => simp only [buffers, outputs, owner]; cases lcores l <;> rfl
  | worker l => simp only [buffers, outputs, owner]; cases lcores l <;> rfl
  | tx l => simp only [buffers, outputs, owner]; cases lcores l <;> rfl

/-- The flush comes to the buffer. -/
def Reached (lcores : Nat → Lcore Arrival) : Site → Nat → Prop
  | .rx l, k => k < (workers lcores).length ∧ ∃ rx tx, lcores l = .io rx tx ∧ rx.nic_queues ≠ []
  | .tx l, k => ∃ rx tx, lcores l = .io rx tx ∧ k ∈ tx.nic_ports
  | .worker w, k => k < APP_MAX_NIC_PORTS ∧ ∃ lp, lcores w = .worker lp ∧ lp.rings_out k ≠ none

/-- An mbuf that was not in a buffer before a step. -/
def New (s : System Arrival) (m : Arrival) : Prop := s.net.received.length ≤ m.serial ∨ ∃ id, m ∈ (s.net.rings id).items

section Steps
variable {lpm_lookup : Nat → Option Nat} {s s' : System Arrival} {a : Act} {site : Site} {k : Nat}

private theorem outputs_put {l : Nat} {p : Lcore Arrival} {net : Net Arrival} {out' : Outputs Arrival} {call : Call}
    (there : outputs (put s l p net).lcore_params site = some out')
    (own : (owner site).1 = l → part site p = some out' → ∃ out, part site (s.lcore_params l) = some out ∧
      ((l, call) = owner site → Reached s.lcore_params site k → Flushed k out out') ∧
      ((l, call) ≠ owner site → Grown (New s) k out out')) :
    ∃ out, outputs s.lcore_params site = some out ∧
      ((l, call) = owner site → Reached s.lcore_params site k → Flushed k out out') ∧
      ((l, call) ≠ owner site → Grown (New s) k out out') := by
  change part site (Function.update s.lcore_params l p (owner site).1) = some out' at there
  by_cases here : (owner site).1 = l
  · rw [here, Function.update_self] at there
    obtain ⟨out, before, done⟩ := own here there
    exact ⟨out, by rw [outputs, here]; exact before, done⟩
  · rw [Function.update_of_ne here] at there
    exact ⟨out', there, fun same => absurd (congrArg Prod.fst same.symm) here, fun _ => .refl⟩

/-- A step flushes the buffers it is for, and what it does to others it does under
    their flags. -/
theorem ran_outputs {plan : Plan} (wired : Wired plan s.lcore_params) (ran : Ran lpm_lookup s a s') {out' : Outputs Arrival}
    (there : outputs s'.lcore_params site = some out') :
    ∃ out, outputs s.lcore_params site = some out ∧
      (call_of a = owner site → Reached s.lcore_params site k → Flushed k out out') ∧
      (call_of a ≠ owner site → Grown (New s) k out out') := by
  cases ran with
  | @io_rx l packets rx rx' tx net is run =>
    refine outputs_put there fun own there => ?_
    rw [is]
    cases site with
    | worker l' => cases there
    | tx l' => exact ⟨out', there, by rintro ⟨⟩, fun _ => .refl⟩
    | rx l' =>
      cases there
      exact ⟨_, rfl, by rintro ⟨⟩, fun _ => (io_rx_grown run).mono fun m later => .inl later⟩
  | @io_rx_flush l rx rx' tx net is run =>
    refine outputs_put there fun own there => ?_
    rw [is]
    cases site with
    | worker l' => cases there
    | tx l' => exact ⟨out', there, by rintro ⟨⟩, fun _ => .refl⟩
    | rx l' =>
      cases there
      exact ⟨_, rfl, fun _ reached => io_rx_flush_flushed reached.1 run, fun other => absurd (by rw [← own]; rfl) other⟩
  | @io_tx l tx_burst rx tx tx' net is run =>
    refine outputs_put there fun own there => ?_
    rw [is]
    cases site with
    | worker l' => cases there
    | rx l' => exact ⟨out', there, by rintro ⟨⟩, fun _ => .refl⟩
    | tx l' =>
      cases there
      exact ⟨_, rfl, by rintro ⟨⟩, fun _ => (io_tx_grown run).mono fun m ringed => .inr ringed⟩
  | @io_tx_flush l tx_burst rx tx tx' net is run =>
    refine outputs_put there fun own there => ?_
    rw [is]
    cases site with
    | worker l' => cases there
    | rx l' => exact ⟨out', there, by rintro ⟨⟩, fun _ => .refl⟩
    | tx l' =>
      cases there
      refine ⟨_, rfl, fun _ reached => ?_, fun other => absurd (by rw [← own]; rfl) other⟩
      obtain ⟨rx₀, tx₀, is₀, listed⟩ := reached
      rw [show l' = l from own, is] at is₀
      cases is₀
      exact io_tx_flush_flushed listed run
  | @worker l process_pkt lp lp' net is run =>
    refine outputs_put there fun own there => ?_
    rw [is]
    cases site with
    | rx l' => cases there
    | tx l' => cases there
    | worker l' =>
      cases there
      exact ⟨_, rfl, by rintro ⟨⟩, fun _ =>
        (worker_grown (wired.rings_in is) (wired.rings_out is) run).mono fun m ringed => .inr ringed⟩
  | @worker_flush l lp lp' net is run =>
    refine outputs_put there fun own there => ?_
    rw [is]
    cases site with
    | rx l' => cases there
    | tx l' => cases there
    | worker l' =>
      cases there
      refine ⟨_, rfl, fun _ reached => ?_, fun other => absurd (by rw [← own]; rfl) other⟩
      obtain ⟨inside, lp₀, is₀, ring⟩ := reached
      rw [show l' = l from own, is] at is₀
      cases is₀
      exact worker_flush_flushed inside ring run

/-- The flag of a buffer. -/
def flag (lcores : Nat → Lcore Arrival) (site : Site) (k : Nat) : Bool :=
  (outputs lcores site).elim false fun out => out.mbuf_out_flush k

/-- What a step does to a buffer that holds an mbuf before and after: if it is the
    flush, it only sets the flag. -/
theorem step_waits {app : Params} {plan : Plan} (inv : Inv app plan lpm_lookup s) (step : Steps lpm_lookup s a s')
    (reached : Reached s.lcore_params site k) {m : Arrival} (before : m ∈ buffers s.lcore_params site k)
    (after : m ∈ buffers s'.lcore_params site k) :
    (call_of a = owner site → flag s.lcore_params site k = false ∧ flag s'.lcore_params site k = true) ∧
      (call_of a ≠ owner site → flag s'.lcore_params site k = flag s.lcore_params site k) := by
  rw [buffers_eq] at after
  cases there : outputs s'.lcore_params site with
  | none =>
    rw [there] at after
    cases after
  | some out' =>
    obtain ⟨out, here, flushes, grows⟩ := ran_outputs (k := k) inv.wired (act_ran step) there
    have old : ¬ New s m := by
      have held : m ∈ (stock s).held (.out site k) := before
      rintro (later | ⟨id, ringed⟩)
      · have received : m ∈ s.net.received := (inv.sound.conserved.whole m).mpr ⟨_, held⟩
        have numbered : m.serial ∈ List.range s.net.received.length := inv.numbered ▸ List.mem_map_of_mem received
        exact absurd (List.mem_range.mp numbered) (Nat.not_lt.mpr later)
      · have inRing : m ∈ (stock s).held (.ring id) := ringed
        cases inv.sound.conserved.single held inRing
    rw [there] at after
    rw [flag, flag, there, here]
    refine ⟨fun own => ?_, fun other => (grows other m old after).2⟩
    have flushed := flushes own reached
    refine ⟨?_, flushed.flag⟩
    by_contra set
    have gone := flushed.gone (eq_true_of_ne_false set)
    rw [Option.elim_some, gone] at after
    cases after

end Steps

/-! ### The main loops -/

/-- The calls that flush. -/
def flushes : Call → Bool
  | .io_rx_flush | .io_tx_flush | .worker_flush => true
  | _ => false

theorem owner_flushes (site : Site) : flushes (owner site).2 = true := by cases site <;> rfl

private theorem io_pass_spec (receives sends : Bool) (i : Nat) :
    (io_pass receives sends i).1.Nodup ∧
      ((i = APP_LCORE_IO_FLUSH ∧ (io_pass receives sends i).2 = 1 ∧
          (receives = true → .io_rx_flush ∈ (io_pass receives sends i).1) ∧
          (sends = true → .io_tx_flush ∈ (io_pass receives sends i).1)) ∨
        (i ≠ APP_LCORE_IO_FLUSH ∧ (io_pass receives sends i).2 = i + 1 ∧
          ∀ call ∈ (io_pass receives sends i).1, flushes call = false)) := by
  have positive : APP_LCORE_IO_FLUSH ≠ 0 := by decide
  by_cases due : i = APP_LCORE_IO_FLUSH
  · subst due
    cases receives <;> cases sends <;> simp [io_pass, positive]
  · cases receives <;> cases sends <;> simp [io_pass, due, flushes]

private theorem worker_pass_spec (i : Nat) : (worker_pass i).1.Nodup ∧
    ((i = APP_LCORE_IO_FLUSH ∧ (worker_pass i).2 = 1 ∧ .worker_flush ∈ (worker_pass i).1) ∨
      (i ≠ APP_LCORE_IO_FLUSH ∧ (worker_pass i).2 = i + 1 ∧ ∀ call ∈ (worker_pass i).1, flushes call = false)) := by
  have same : APP_LCORE_WORKER_FLUSH = APP_LCORE_IO_FLUSH := rfl
  have positive : APP_LCORE_IO_FLUSH ≠ 0 := by decide
  by_cases due : i = APP_LCORE_IO_FLUSH
  · subst due
    simp [worker_pass, same, positive]
  · simp [worker_pass, same, due, flushes]

/-- One pass counts one up, or makes the flushes of its lcore and starts over. -/
private theorem begin_pass_cases (lcores : Nat → Lcore Arrival) (l : Nat) (loop : Loop) :
    (lcores l = .disabled ∧ begin_pass false (lcores l) loop = { loop with returned := true }) ∨
    ∃ calls i, begin_pass false (lcores l) loop = { loop with i := i, calls := calls } ∧ calls.Nodup ∧
      ((loop.i = APP_LCORE_IO_FLUSH ∧ i = 1 ∧
          ∀ site k, (owner site).1 = l → Reached lcores site k → (owner site).2 ∈ calls) ∨
        (loop.i ≠ APP_LCORE_IO_FLUSH ∧ i = loop.i + 1 ∧ ∀ call ∈ calls, flushes call = false)) := by
  cases kind : lcores l with
  | disabled => exact .inl ⟨rfl, rfl⟩
  | io rx tx =>
    obtain ⟨once, ⟨now, one, receives, sends⟩ | early⟩ :=
      io_pass_spec (! rx.nic_queues.isEmpty) (! tx.nic_ports.isEmpty) loop.i
    · refine .inr ⟨_, _, rfl, once, .inl ⟨now, one, fun site k own reached => ?_⟩⟩
      cases site with
      | rx l' =>
        obtain ⟨-, rx', tx', is, some⟩ := reached
        rw [show l' = l from own, kind] at is
        cases is
        exact receives (by simpa using some)
      | tx l' =>
        obtain ⟨rx', tx', is, listed⟩ := reached
        rw [show l' = l from own, kind] at is
        cases is
        exact sends (by simpa using List.ne_nil_of_mem listed)
      | worker l' =>
        obtain ⟨-, lp, is, -⟩ := reached
        rw [show l' = l from own, kind] at is
        cases is
    · exact .inr ⟨_, _, rfl, once, .inr early⟩
  | worker lp =>
    obtain ⟨once, ⟨now, one, listed⟩ | early⟩ := worker_pass_spec loop.i
    · refine .inr ⟨_, _, rfl, once, .inl ⟨now, one, fun site k own reached => ?_⟩⟩
      cases site with
      | rx l' =>
        obtain ⟨-, rx', tx', is, -⟩ := reached
        rw [show l' = l from own, kind] at is
        cases is
      | tx l' =>
        obtain ⟨rx', tx', is, -⟩ := reached
        rw [show l' = l from own, kind] at is
        cases is
      | worker l' => exact listed
    · exact .inr ⟨_, _, rfl, once, .inr early⟩

/-- The counter of lcore `l`, and when its flushes are due. -/
structure Paced (lcores : Nat → Lcore Arrival) (l : Nat) (loop : Loop) : Prop where
  small : loop.i ≤ APP_LCORE_IO_FLUSH
  once : loop.calls.Nodup
  due : ∀ call ∈ loop.calls, flushes call = true → loop.i = 1
  idle : loop.i = 0 → loop.calls = [] ∧ ∀ site k, (owner site).1 = l → buffers lcores site k = []

section Paced
variable {lpm_lookup : Nat → Option Nat} {m m' : Machine (System Arrival)} {t : Turn Act}

private theorem ran_others {s s' : System Arrival} {a : Act} (ran : Ran lpm_lookup s a s') {l : Nat}
    (other : l ≠ (call_of a).1) : s'.lcore_params l = s.lcore_params l := by
  cases ran <;> exact Function.update_of_ne other ..

private theorem buffers_others {lcores lcores' : Nat → Lcore Arrival} {site : Site}
    (same : lcores' (owner site).1 = lcores (owner site).1) (k : Nat) : buffers lcores' site k = buffers lcores site k := by
  rw [buffers_eq, buffers_eq, outputs, outputs, same]

/-- What holds of all loops holds of them when one of them goes on. -/
private theorem of_loop {loops : Nat → Loop} (P : Nat → Loop → Prop) {l : Nat} {loop : Loop} (here : P l loop)
    (others : ∀ l', l' ≠ l → P l' (loops l')) (l' : Nat) : P l' (Function.update loops l loop l') := by
  by_cases same : l' = l
  · subst same
    rw [Function.update_self]
    exact here
  · rw [Function.update_of_ne same]
    exact others l' same

private theorem begin_pass_paced {lcores : Nat → Lcore Arrival} {l : Nat} {loop : Loop} (paced : Paced lcores l loop)
    (quit : Bool) : Paced lcores l (begin_pass quit (lcores l) loop) := by
  have returned : Paced lcores l { loop with returned := true } := ⟨paced.small, paced.once, paced.due, paced.idle⟩
  cases quit with
  | true =>
    rw [begin_pass_quit]
    exact returned
  | false =>
    rcases begin_pass_cases lcores l loop with ⟨-, ends⟩ | ⟨calls, i, goes, once, ⟨-, one, -⟩ | ⟨early, next, plain⟩⟩
    · rw [ends]
      exact returned
    · rw [goes, one]
      exact ⟨show 1 ≤ APP_LCORE_IO_FLUSH by decide, once, fun _ _ _ => rfl, by simp⟩
    · rw [goes, next]
      have small := paced.small
      refine ⟨?_, once, fun call listed flush => ?_, by simp⟩
      · show loop.i + 1 ≤ APP_LCORE_IO_FLUSH
        omega
      · rw [plain call listed] at flush
        cases flush

theorem turn_paced (paced : ∀ l, Paced m.state.lcore_params l (m.loops l)) (step : LoopTurns lpm_lookup m t m') (l : Nat) :
    Paced m'.state.lcore_params l (m'.loops l) := by
  cases t with
  | int_handler =>
    cases step
    exact paced l
  | pass l₀ =>
    obtain ⟨-, -, rfl⟩ := turn_pass step
    exact of_loop (Paced m.state.lcore_params) (begin_pass_paced (paced l₀) _) (fun l' _ => paced l') l
  | call a =>
    obtain ⟨calls, s, left, done, rfl⟩ := turn_call step
    have ran : Ran lpm_lookup m.state a s := act_ran done
    refine of_loop (Paced s.lcore_params) ?_ (fun l' other => ?_) l
    · obtain ⟨small, once, due, idle⟩ := paced (call_of a).1
      rw [left] at once due
      refine ⟨small, (List.nodup_cons.mp once).2, fun call listed => due call (List.mem_cons_of_mem _ listed), fun zero => ?_⟩
      rw [(idle zero).1] at left
      cases left
    · obtain ⟨small, once, due, idle⟩ := paced l'
      refine ⟨small, once, due, fun zero => ⟨(idle zero).1, fun site k own => ?_⟩⟩
      rw [buffers_others (ran_others ran (own ▸ other))]
      exact (idle zero).2 site k own

/-! ### How long an mbuf waits -/

/-- The passes an lcore may yet begin before the buffer is emptied. -/
def passes_left (m : Machine (System Arrival)) (site : Site) (k : Nat) : Nat :=
  (if (owner site).2 ∈ (m.loops (owner site).1).calls then 0 else APP_LCORE_IO_FLUSH + 1 - (m.loops (owner site).1).i) +
    if flag m.state.lcore_params site k then 0 else APP_LCORE_IO_FLUSH

/-- Each pass of the lcore is one of those that were left, as long as the mbuf waits. -/
theorem turn_waits {app : Params} {plan : Plan} (inv : Inv app plan lpm_lookup m.state)
    (paced : ∀ l, Paced m.state.lcore_params l (m.loops l)) {site : Site} {k : Nat}
    (reached : Reached m.state.lcore_params site k) {a : Arrival} (before : a ∈ buffers m.state.lcore_params site k)
    (step : LoopTurns lpm_lookup m t m') (after : a ∈ buffers m'.state.lcore_params site k) :
    passes_left m' site k + (if begins (owner site).1 (m, t, m') then 1 else 0) ≤ passes_left m site k := by
  cases t with
  | int_handler =>
    cases step
    exact Nat.le_refl _
  | pass l =>
    obtain ⟨-, none_left, rfl⟩ := turn_pass step
    by_cases own : (owner site).1 = l
    · subst own
      simp only [passes_left, begins, Function.update_self, decide_true, Bool.true_and]
      cases quit : m.force_quit with
      | true =>
        rw [begin_pass_quit]
        simp
      | false =>
        have small := (paced (owner site).1).small
        rw [none_left, if_neg List.not_mem_nil]
        rcases begin_pass_cases m.state.lcore_params (owner site).1 (m.loops (owner site).1) with
          ⟨disabled, -⟩ | ⟨calls, i, goes, -, ⟨now, one, listed⟩ | ⟨early, next, plain⟩⟩
        · rw [buffers_eq, outputs, disabled] at before
          cases site <;> cases before
        · rw [goes, now]
          simp only [listed site k rfl reached, if_true, Bool.not_false]
          omega
        · have none : (owner site).2 ∉ calls := by
            intro listed
            have plain := plain _ listed
            rw [owner_flushes] at plain
            cases plain
          rw [goes, next]
          simp only [none, if_false, Bool.not_false, if_true]
          omega
    · simp only [passes_left, begins, Function.update_of_ne own, decide_eq_false (Ne.symm own), Bool.false_and,
        Bool.false_eq_true, if_false]
      exact Nat.le_refl _
  | call a' =>
    obtain ⟨calls, s, left, done, rfl⟩ := turn_call step
    obtain ⟨flush, other⟩ := step_waits inv done reached before after
    simp only [passes_left, begins, Bool.false_eq_true, if_false]
    by_cases own : (owner site).1 = (call_of a').1
    · rw [own, Function.update_self, left]
      obtain ⟨-, once, due, -⟩ := paced (call_of a').1
      rw [left] at once due
      by_cases same : (owner site).2 = (call_of a').2
      · obtain ⟨unset, set⟩ := flush (Prod.ext own.symm same.symm)
        have one := due _ List.mem_cons_self (same ▸ owner_flushes site)
        have gone : (owner site).2 ∉ calls := by
          rw [same]
          exact (List.nodup_cons.mp once).1
        have there : (owner site).2 ∈ (call_of a').2 :: calls := by
          rw [same]
          exact List.mem_cons_self
        simp [gone, there, set, unset, one]
      · have kept := other fun all => same (congrArg Prod.snd all).symm
        have mem : (owner site).2 ∈ (call_of a').2 :: calls ↔ (owner site).2 ∈ calls := by simp [same]
        simp only [mem, kept]
        exact Nat.le_refl _
    · have kept := other fun all => own (congrArg Prod.fst all).symm
      rw [Function.update_of_ne own, kept]
      exact Nat.le_refl _

end Paced

/-! ### Where the flushes come -/

private theorem launched_paced {app : Params} {start : System Arrival} {roles : Nat → Role}
    (ready : app_init app roles = .ok start) (l : Nat) : Paced start.lcore_params l ((launched start).loops l) := by
  obtain ⟨-, idle⟩ := app_init_wired ready
  refine ⟨Nat.zero_le _, List.nodup_nil, by rintro _ ⟨⟩, fun _ => ⟨rfl, fun site k own => ?_⟩⟩
  have empty := idle.buffers (owner site).1
  rw [buffers_eq, outputs]
  cases is : start.lcore_params (owner site).1 with
  | disabled => cases site <;> rfl
  | worker lp =>
    rw [is] at empty
    cases site with
    | rx | tx => rfl
    | worker => exact empty k
  | io rx tx =>
    rw [is] at empty
    cases site with
    | rx => exact empty.1 k
    | tx => exact empty.2 k
    | worker => rfl

section Accepted
open Shardb.Bytes (Text)
open Shardb.Config (Eal Opt App app_parse_args)
open Shardb.CommandLine (accepted some_worker)
open Shardb.Startup (role role_io app_init_role port_served rings_served)

variable {eal : Eal} {opts : List (Option (Opt × Text))} {app : App} {lpm_lookup : Nat → Option Nat}
  {start s : System Arrival}

private theorem worker_there (parsed : app_parse_args eal opts = .ok app)
    (ready : app_init app.toParams app.lcore_params = .ok start) : workers start.lcore_params ≠ [] := by
  have left := accepted parsed
  obtain ⟨l, listed⟩ := List.exists_mem_of_ne_nil _ (some_worker parsed)
  have worker := (left.workers l).mpr listed
  have inside : l < APP_MAX_LCORES := left.inside l (by rintro off; rw [off] at worker; cases worker)
  have here := app_init_role ready l
  rw [if_pos inside] at here
  refine List.ne_nil_of_mem (List.mem_filter.mpr ⟨List.mem_range.mpr inside, ?_⟩)
  rw [← here] at worker
  cases kind : start.lcore_params l with
  | worker lp => rfl
  | disabled => rw [kind] at worker; cases worker
  | io rx tx => rw [kind] at worker; cases worker

/-- The port that a packet is sent to is enabled. -/
private theorem chosen_enabled (parsed : app_parse_args eal opts = .ok app)
    (ready : app_init app.toParams app.lcore_params = .ok start)
    (next_hops : ∀ dst hop, lpm_lookup dst = some hop → ∃ rule ∈ app.lpm_rules, rule.if_out = hop) {m : Arrival}
    (queued : ∃ rx tx queue, start.lcore_params m.lcore = .io rx tx ∧ (m.port, queue) ∈ rx.nic_queues) :
    app.nic_tx_port_mask (out_port lpm_lookup m) = true := by
  have left := accepted parsed
  unfold out_port
  cases hop : lpm_lookup (Bytes.readBe32 m.data (Server.ip_offset + 16)) with
  | some port =>
    obtain ⟨rule, member, rfl⟩ := next_hops _ _ hop
    exact left.rules rule member
  | none =>
    obtain ⟨rx, tx, queue, is, listed⟩ := queued
    refine left.back m.port queue ((left.rx.listed (m.port, queue)).mpr ⟨m.lcore, ?_⟩)
    have here := app_init_role ready m.lcore
    rw [is] at here
    split_ifs at here
    · rw [← here]
      exact listed
    · cases here

/-- After an accepted command line the flushes come to every buffer that holds
    something. -/
theorem held_reached (parsed : app_parse_args eal opts = .ok app)
    (ready : app_init app.toParams app.lcore_params = .ok start)
    (next_hops : ∀ dst hop, lpm_lookup dst = some hop → ∃ rule ∈ app.lpm_rules, rule.if_out = hop)
    (going : Going app.toParams lpm_lookup start s) {site : Site} {k : Nat} {m : Arrival}
    (held : m ∈ buffers s.lcore_params site k) : Reached s.lcore_params site k := by
  have inStock : m ∈ (stock s).held (.out site k) := held
  have queued := going.queued m ((going.inv.sound.conserved.whole m).mpr ⟨_, inStock⟩)
  have enabled := chosen_enabled parsed ready next_hops queued
  obtain ⟨l', ⟨rx', tx', io, sends⟩, -⟩ := port_served parsed ready enabled
  obtain ⟨wired, -⟩ := app_init_wired ready
  have onWay := (going.inv.sound.onWay inStock).resolve_right (by rintro ⟨⟩)
  change Place.out site k ∈ way (plan start.lcore_params) m.lcore
    (worker_of (workers start.lcore_params).length app.pos_lb m.data) (out_port lpm_lookup m) at onWay
  have planned : workers s.lcore_params = workers start.lcore_params := congrArg Plan.workers going.inv.wired.planned
  cases site with
  | rx l =>
    obtain ⟨rfl, rfl⟩ : l = m.lcore ∧ k = worker_of (workers start.lcore_params).length app.pos_lb m.data := by
      rcases way_cases (plan start.lcore_params) m.lcore
          (worker_of (workers start.lcore_params).length app.pos_lb m.data) (out_port lpm_lookup m) with
        ⟨-, is⟩ | ⟨w, -, is⟩
      · rw [is] at onWay
        simpa using onWay
      · rw [is] at onWay
        simpa using onWay
    refine ⟨?_, ?_⟩
    · have some := worker_there parsed ready
      have positive := List.length_pos_iff.mpr some
      have below : (m.data.getD app.pos_lb 0).toNat &&& ((workers start.lcore_params).length - 1) ≤
          (workers start.lcore_params).length - 1 := Nat.and_le_right
      rw [planned, Dispatch.worker_of_eq some]
      omega
    · obtain ⟨rx, tx, queue, is, listed⟩ := queued
      have kept := going.fixed m.lcore
      rw [is] at kept
      cases now : s.lcore_params m.lcore with
      | disabled => rw [now] at kept; cases kept
      | worker lp => rw [now] at kept; cases kept
      | io rx₁ tx₁ =>
        rw [now] at kept
        cases kept with
        | io receiving => exact ⟨rx₁, tx₁, rfl, receiving.nic_queues ▸ List.ne_nil_of_mem listed⟩
  | worker w =>
    obtain rfl : k = out_port lpm_lookup m := by
      rcases way_cases (plan start.lcore_params) m.lcore
          (worker_of (workers start.lcore_params).length app.pos_lb m.data) (out_port lpm_lookup m) with
        ⟨-, is⟩ | ⟨w, -, is⟩
      · rw [is] at onWay
        simp at onWay
      · rw [is] at onWay
        simp at onWay
        exact onWay.2
    refine ⟨(accepted parsed).tx_small _ enabled, ?_⟩
    have kept := going.fixed w
    cases now : s.lcore_params w with
    | disabled => simp [buffers, now] at held
    | io rx tx => simp [buffers, now] at held
    | worker lp =>
      rw [now] at kept
      cases was : start.lcore_params w with
      | disabled => rw [was] at kept; cases kept
      | io rx tx => rw [was] at kept; cases kept
      | worker lp₀ =>
        rw [was] at kept
        cases kept with
        | worker working =>
          refine ⟨lp, rfl, ?_⟩
          rw [working.rings_out, (rings_served ready io sends was).1]
          rintro ⟨⟩
  | tx l =>
    obtain ⟨w, worker, rfl, rfl⟩ : ∃ w, (workers start.lcore_params)[worker_of (workers start.lcore_params).length
        app.pos_lb m.data]? = some w ∧ k = out_port lpm_lookup m ∧
        l = (app_get_lcore_for_nic_tx start.lcore_params (out_port lpm_lookup m)).getD 0 := by
      rcases way_cases (plan start.lcore_params) m.lcore
          (worker_of (workers start.lcore_params).length app.pos_lb m.data) (out_port lpm_lookup m) with
        ⟨-, is⟩ | ⟨w, found, is⟩
      · rw [is] at onWay
        simp at onWay
      · rw [is] at onWay
        simp at onWay
        exact ⟨w, found, onWay.2, onWay.1⟩
    obtain ⟨lp, kind⟩ := isWorker_iff.mp (List.mem_filter.mp (List.mem_of_getElem? worker)).2
    obtain ⟨-, -, serves, -⟩ := wired.tx_rings io (rings_served ready io sends kind).2
    have found : app_get_lcore_for_nic_tx start.lcore_params (out_port lpm_lookup m) = some l' := serves
    rw [found, Option.getD_some]
    have kept := going.fixed l'
    rw [io] at kept
    cases now : s.lcore_params l' with
    | disabled => rw [now] at kept; cases kept
    | worker lp => rw [now] at kept; cases kept
    | io rx₁ tx₁ =>
      rw [now] at kept
      cases kept with
      | io receiving sending => exact ⟨rx₁, tx₁, now, sending.nic_ports ▸ sends⟩

/-- An mbuf that a buffer holds is out of it before its lcore has begun more than two
    million passes. -/
theorem waits_two_flushes (parsed : app_parse_args eal opts = .ok app)
    (ready : app_init app.toParams app.lcore_params = .ok start)
    (next_hops : ∀ dst hop, lpm_lookup dst = some hop → ∃ rule ∈ app.lpm_rules, rule.if_out = hop)
    {trail stay : List (Machine (System Arrival) × Turn Act × Machine (System Arrival))}
    {m last : Machine (System Arrival)} (run : Run (LoopTurns lpm_lookup) (launched start) trail m) {site : Site} {k : Nat}
    {a : Arrival} (held : a ∈ buffers m.state.lcore_params site k) (more : Run (LoopTurns lpm_lookup) m stay last)
    (stays : ∀ e ∈ stay, a ∈ buffers e.2.2.state.lcore_params site k) :
    (stay.filter (begins (owner site).1)).length ≤ 2 * APP_LCORE_IO_FLUSH := by
  have sizes := (accepted parsed).sizes
  have paced : ∀ l, Paced m.state.lcore_params l (m.loops l) :=
    run_keeps (fun _ m => ∀ l, Paced m.state.lcore_params l (m.loops l)) (fun _ _ => True)
      (fun _ _ _ _ paced step _ => turn_paced paced step) (launched_paced ready) run fun _ _ => trivial
  have going : Going app.toParams lpm_lookup start m.state :=
    run_keeps (fun _ m => Going app.toParams lpm_lookup start m.state) (fun _ _ => True)
      (fun _ _ _ _ going step _ => going_turn going step) (.first sizes.io_rx_write.1 sizes.worker_write.1 ready) run
      fun _ _ => trivial
  -- the passes left bound those begun, and there are two million at most
  have counted : (a ∈ buffers last.state.lcore_params site k ∧ (∀ l, Paced last.state.lcore_params l (last.loops l)) ∧
      Going app.toParams lpm_lookup start last.state) ∧
      passes_left last site k + (stay.filter (begins (owner site).1)).length ≤ passes_left m site k := by
    induction more with
    | stay => exact ⟨⟨held, paced, going⟩, Nat.le_refl _⟩
    | @next stay m₁ m₂ t more step ih =>
      obtain ⟨⟨before, paced, going⟩, count⟩ := ih fun e member => stays e (List.mem_append_left _ member)
      have after := stays _ (List.mem_append_right _ List.mem_cons_self)
      have once := turn_waits going.inv paced (held_reached parsed ready next_hops going before) before step after
      refine ⟨⟨after, turn_paced paced step, going_turn going step⟩, ?_⟩
      rw [List.filter_append, List.length_append, List.filter_singleton]
      by_cases begun : begins (owner site).1 (m₁, t, m₂) = true
      · simp only [begun, if_true, cond_true, List.length_singleton] at once ⊢
        omega
      · simp only [begun, Bool.false_eq_true, if_false, cond_false, List.length_nil] at once ⊢
        omega
  have begun : (m.loops (owner site).1).i ≠ 0 := by
    intro zero
    rw [((paced _).idle zero).2 site k rfl] at held
    cases held
  have few : passes_left m site k ≤ 2 * APP_LCORE_IO_FLUSH := by
    unfold passes_left
    split_ifs <;> omega
  omega

end Accepted

/-- A packet that lcore 1 has received, and which its next pass leaves in the buffer. -/
theorem one_waits : ∃ app start trail stay m last,
    Config.app_parse_args (Config.Eal.first 4) (CommandLine.one_port (Bytes.ascii "2")) = .ok app ∧
    app_init app.toParams app.lcore_params = .ok start ∧
    Run (LoopTurns Startup.routed.lpm_lookup) (launched start) trail m ∧
    Run (LoopTurns Startup.routed.lpm_lookup) m stay last ∧
    (⟨0, 1, 0, []⟩ : Arrival) ∈ buffers last.state.lcore_params (.rx 1) 0 ∧
    (stay.filter (begins 1)).length ≤ 2 * APP_LCORE_IO_FLUSH := by
  have played : (Config.app_parse_args (Config.Eal.first 4) (CommandLine.one_port (Bytes.ascii "2"))).toOption.any (fun app =>
      app.lpm_rules.any (·.if_out = 0) && (do
        let s ← app_init app.toParams app.lcore_params
        let m₁ ← turn System.lcore_params (act Startup.routed.lpm_lookup) call_of (launched s) (.pass 1)
        let m₂ ← turn System.lcore_params (act Startup.routed.lpm_lookup) call_of m₁ (.call (.io_rx 1 fun _ => [[]]))
        let m₃ ← turn System.lcore_params (act Startup.routed.lpm_lookup) call_of m₂
          (.call (.io_tx 1 fun _ burst => burst.length))
        let m₄ ← turn System.lcore_params (act Startup.routed.lpm_lookup) call_of m₃ (.pass 1)
        return [m₂, m₃, m₄].all fun m => decide ((⟨0, 1, 0, []⟩ : Arrival) ∈ buffers m.state.lcore_params (.rx 1) 0)) =
          .ok true) = true := by
    decide +kernel
  obtain ⟨app, parsed, played⟩ := (Option.any_eq_true ..).mp played
  rw [Options.toOption_some] at parsed
  rw [Bool.and_eq_true, List.any_eq_true] at played
  obtain ⟨⟨rule, listed, zero⟩, played⟩ := played
  obtain ⟨start, ready, played⟩ := bind_eq_ok.mp (of_decide_eq_true played)
  obtain ⟨m₁, one, played⟩ := bind_eq_ok.mp played
  obtain ⟨m₂, two, played⟩ := bind_eq_ok.mp played
  obtain ⟨m₃, three, played⟩ := bind_eq_ok.mp played
  obtain ⟨m₄, four, played⟩ := bind_eq_ok.mp played
  have all := List.all_eq_true.mp (Except.ok.inj played)
  have held : ∀ m ∈ [m₂, m₃, m₄], (⟨0, 1, 0, []⟩ : Arrival) ∈ buffers m.state.lcore_params (.rx 1) 0 := fun m member =>
    of_decide_eq_true (all m member)
  have run : Run (LoopTurns Startup.routed.lpm_lookup) (launched start) _ m₂ := (Run.stay.next one).next two
  have more : Run (LoopTurns Startup.routed.lpm_lookup) m₂ _ m₄ := (Run.stay.next three).next four
  refine ⟨app, start, _, _, m₂, m₄, parsed, ready, run, more, held m₄ (by simp), ?_⟩
  refine waits_two_flushes parsed ready (fun dst hop found => ⟨rule, listed, ?_⟩) run (held m₂ (by simp)) more ?_
  · simp only [Startup.routed] at found
    split_ifs at found
    cases found
    exact of_decide_eq_true zero
  · intro e member
    simp only [List.nil_append, List.cons_append, List.mem_cons, List.not_mem_nil, or_false] at member
    rcases member with rfl | rfl
    · exact held m₃ (by simp)
    · exact held m₄ (by simp)

end Shardb.Flushing
