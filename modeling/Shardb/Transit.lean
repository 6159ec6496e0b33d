import Shardb.Flow
import Shardb.Wiring

/-!
# Packets on their way through the server

An mbuf goes from the I/O lcore that received it over a ring to a worker, from
there over a ring to the I/O lcore of its port, and out, or it is freed on the
way. So the server is a network of queues, and what an lcore does is a number of
moves in it (`Busy`).
-/

namespace Shardb.Transit
open Shardb.Bytes Shardb.Flow Shardb.Loops Shardb.Rings Shardb.Lcores Shardb.Wiring
open Shardb.Server (ip_offset)

/-! ### What comes in -/

/-- An mbuf as `rte_eth_rx_burst` returned it: the how manyth it was, and to which
    lcore; its port and its data. -/
structure Arrival where
  serial : Nat
  lcore : Nat
  port : Nat
  data : List UInt8
  deriving DecidableEq, Inhabited

/-- A burst, when `first` mbufs have been received before. -/
def arrive (lcore port first : Nat) (packets : List (List UInt8)) : List Arrival :=
  packets.mapIdx fun k data => ⟨first + k, lcore, port, data⟩

/-- What a worker computes with when `process_pkt` only answers. -/
def processing (lpm_lookup : Nat → Option Nat) (process_pkt : Arrival → Int) : Processing Arrival Unit :=
  ⟨fun m s => (process_pkt m, s), lpm_lookup, Arrival.data, Arrival.port⟩

/-! ### Places -/

/-- Whose buffers: an I/O lcore has some for receiving and some for sending. -/
inductive Site
  | rx (lcore : Nat)
  | worker (lcore : Nat)
  | tx (lcore : Nat)
  deriving DecidableEq

/-- Where an mbuf can be. `hand` is the array `mbuf_in`, which is empty between
    the steps. -/
inductive Place
  | hand (site : Site)
  | out (site : Site) (i : Nat)
  | ring (id : RingId)
  | transmitted (port : Nat)
  | freed
  deriving DecidableEq

/-- The port an mbuf is sent to, if it is. -/
def out_port (lpm_lookup : Nat → Option Nat) (m : Arrival) : Nat :=
  (lpm_lookup (readBe32 m.data (ip_offset + 16))).getD m.port

/-- From the port back to the lcore that received: for lcore `l`, index `k` of the
    worker and `port`. Where there is no such worker the buffer is the end. -/
def way (plan : Plan) (l k port : Nat) : List Place :=
  match plan.workers[k]? with
  | none => [.out (.rx l) k, .hand (.rx l)]
  | some w =>
    [.transmitted port, .out (.tx ((plan.tx_lcore port).getD 0)) port, .ring (.tx w port), .out (.worker w) port,
      .hand (.worker w), .ring (.rx l w), .out (.rx l) k, .hand (.rx l)]

theorem way_cases (plan : Plan) (l k port : Nat) :
    (plan.workers[k]? = none ∧ way plan l k port = [.out (.rx l) k, .hand (.rx l)]) ∨
    ∃ w, plan.workers[k]? = some w ∧ way plan l k port =
      [.transmitted port, .out (.tx ((plan.tx_lcore port).getD 0)) port, .ring (.tx w port), .out (.worker w) port,
        .hand (.worker w), .ring (.rx l w), .out (.rx l) k, .hand (.rx l)] := by
  cases found : plan.workers[k]? with
  | none => exact .inl ⟨rfl, by rw [way, found]⟩
  | some w => exact .inr ⟨w, rfl, by rw [way, found]⟩

/-- The server as a network of queues. -/
def network (plan : Plan) (lpm_lookup : Nat → Option Nat) (n_workers pos_lb : Nat) :
    Network Place Arrival (Nat × Nat × Nat) where
  kind m := (m.lcore, worker_of n_workers pos_lb m.data, out_port lpm_lookup m)
  way k := way plan k.1 k.2.1 k.2.2
  sink place := place = .freed
  straight k := by
    rcases way_cases plan k.1 k.2.1 k.2.2 with ⟨-, is⟩ | ⟨w, -, is⟩
    · simp [is]
    · simp [is]
  ends k place member := by
    rintro rfl
    rcases way_cases plan k.1 k.2.1 k.2.2 with ⟨-, is⟩ | ⟨w, -, is⟩
    · simp [is] at member
    · simp [is] at member

/-! ### From place to place -/

section Hops
variable {plan : Plan} {l l' k k' w port port' : Nat}

private theorem way_entry : ∃ front, way plan l k port = front ++ [.hand (.rx l)] := by
  rcases way_cases plan l k port with ⟨-, is⟩ | ⟨w, -, is⟩
  · exact ⟨[_], is⟩
  · exact ⟨[_, _, _, _, _, _, _], is⟩

private theorem hop_out_rx (on : Place.hand (.rx l) ∈ way plan l' k port) :
    Next (way plan l' k port) (.out (.rx l) k) (.hand (.rx l)) := by
  rcases way_cases plan l' k port with ⟨-, is⟩ | ⟨w, -, is⟩
  · simp [is] at on
    rw [is, on]
    exact ⟨[], [], rfl⟩
  · simp [is] at on
    rw [is, on]
    exact ⟨[_, _, _, _, _, _], [], rfl⟩

private theorem hop_ring_rx (on : Place.out (.rx l) k ∈ way plan l' k' port) (worker : plan.workers[k]? = some w) :
    Next (way plan l' k' port) (.ring (.rx l w)) (.out (.rx l) k) := by
  rcases way_cases plan l' k' port with ⟨none, is⟩ | ⟨w', found, is⟩
  · simp [is] at on
    rw [← on.2, worker] at none
    cases none
  · simp [is] at on
    obtain ⟨rfl, rfl⟩ := on
    rw [worker] at found
    cases found
    rw [is]
    exact ⟨[_, _, _, _, _], [_], rfl⟩

/-- A ring that is on the way names its lcores. -/
theorem ring_rx_on (on : Place.ring (.rx l w) ∈ way plan l' k port) : l' = l ∧ plan.workers[k]? = some w := by
  rcases way_cases plan l' k port with ⟨-, is⟩ | ⟨w', found, is⟩
  · simp [is] at on
  · simp [is] at on
    obtain ⟨rfl, rfl⟩ := on
    exact ⟨rfl, found⟩

private theorem hop_hand (on : Place.ring (.rx l w) ∈ way plan l' k port) :
    Next (way plan l' k port) (.hand (.worker w)) (.ring (.rx l w)) := by
  obtain ⟨rfl, worker⟩ := ring_rx_on on
  rw [way, worker]
  exact ⟨[_, _, _, _], [_, _], rfl⟩

private theorem hop_out_worker (on : Place.hand (.worker w) ∈ way plan l k port) :
    Next (way plan l k port) (.out (.worker w) port) (.hand (.worker w)) := by
  rcases way_cases plan l k port with ⟨-, is⟩ | ⟨w', -, is⟩
  · simp [is] at on
  · simp [is] at on
    rw [is, on]
    exact ⟨[_, _, _], [_, _, _], rfl⟩

private theorem hop_ring_tx (on : Place.out (.worker w) port' ∈ way plan l k port) :
    Next (way plan l k port) (.ring (.tx w port')) (.out (.worker w) port') := by
  rcases way_cases plan l k port with ⟨-, is⟩ | ⟨w', -, is⟩
  · simp [is] at on
  · simp [is] at on
    obtain ⟨rfl, rfl⟩ := on
    rw [is]
    exact ⟨[_, _], [_, _, _, _], rfl⟩

private theorem hop_out_tx (on : Place.ring (.tx w port') ∈ way plan l k port) (serves : plan.tx_lcore port' = some l') :
    Next (way plan l k port) (.out (.tx l') port') (.ring (.tx w port')) := by
  rcases way_cases plan l k port with ⟨-, is⟩ | ⟨w', -, is⟩
  · simp [is] at on
  · simp [is] at on
    obtain ⟨rfl, rfl⟩ := on
    rw [is, serves]
    exact ⟨[_], [_, _, _, _, _], rfl⟩

/-- A port that is on the way is its end. -/
theorem transmitted_on (on : Place.transmitted port' ∈ way plan l k port) : port = port' := by
  rcases way_cases plan l k port with ⟨-, is⟩ | ⟨w', -, is⟩
  · simp [is] at on
  · simp [is] at on
    exact on.symm

private theorem hop_transmitted (on : Place.out (.tx l') port' ∈ way plan l k port) :
    Next (way plan l k port) (.transmitted port') (.out (.tx l') port') := by
  rcases way_cases plan l k port with ⟨-, is⟩ | ⟨w', -, is⟩
  · simp [is] at on
  · simp [is] at on
    obtain ⟨rfl, rfl⟩ := on
    rw [is]
    exact ⟨[], [_, _, _, _, _, _], rfl⟩

end Hops

/-! ### Moves at one site -/

/-- The stock while a site is at work: what is in its buffers, and in its hand. -/
def during (base : Place → List Arrival) (site : Site) (outs : Nat → List Arrival) (net : Net Arrival)
    (hand : List Arrival) : Stock Place Arrival where
  arrived := net.received
  held
    | .hand site' => if site' = site then hand else base (.hand site')
    | .out site' i => if site' = site then outs i else base (.out site' i)
    | .ring id => (net.rings id).items
    | .transmitted port => net.transmitted port
    | .freed => net.freed

/-- A site changes no buffer but the one it works on. -/
theorem during_out_other {base : Place → List Arrival} {site site' : Site} {outs : Nat → List Arrival}
    {net net' : Net Arrival} {hand hand' : List Arrival} {i j : Nat} {mbufs : List Arrival}
    (other : Place.out site' j ≠ .out site i) :
    (during base site (Function.update outs i mbufs) net' hand').held (.out site' j)
      = (during base site outs net hand).held (.out site' j) := by
  by_cases same : site' = site
  · have apart : j ≠ i := by
      rintro rfl
      exact other (by rw [same])
    simp [during, same, apart]
  · simp [during, same]

/-- What the buffers hold. -/
def items (out : Outputs Arrival) (i : Nat) : List Arrival := (out.mbuf_out i).items

section Site
variable {N : Network Place Arrival (Nat × Nat × Nat)} (sinks : ∀ place, N.sink place ↔ place = .freed)
  {base : Place → List Arrival} {site : Site} {outs : Nat → List Arrival} {net : Net Arrival} {hand : List Arrival}
include sinks

/-- From the hand to a buffer. -/
private theorem take_up {m : Arrival} {i : Nat}
    (into : .hand site ∈ N.way (N.kind m) → Next (N.way (N.kind m)) (.out site i) (.hand site)) :
    Move N (during base site outs net (m :: hand)) (during base site (Function.update outs i (outs i ++ [m])) net hand) := by
  refine .of_shift (.hand site) (.out site i) [m] (by simp) (by simp [sinks]) rfl ?_ ?_ ?_ ?_
  · simp [during]
  · simp [during]
  · intro c source target
    cases c with
    | hand site' => simp_all [during]
    | out site' j => exact during_out_other target
    | ring id => rfl
    | transmitted port => rfl
    | freed => rfl
  · intro m' one on
    obtain rfl := List.mem_singleton.mp one
    exact .inr (into on)

/-- From a buffer to a ring. -/
private theorem hand_on {i : Nat} {id : RingId} {ring : BulkRing Arrival} (put : ring.items = (net.rings id).items ++ outs i)
    (onto : ∀ m, .out site i ∈ N.way (N.kind m) → Next (N.way (N.kind m)) (.ring id) (.out site i)) :
    Move N (during base site outs net hand) (during base site (Function.update outs i []) (net.setRing id ring) hand) := by
  refine .of_shift (.out site i) (.ring id) (outs i) (by simp) (by simp [sinks]) rfl ?_ ?_ ?_ fun m _ on => .inr (onto m on)
  · simp [during]
  · simp [during, Net.setRing, put]
  · intro c source target
    cases c with
    | hand site' => rfl
    | out site' j => exact during_out_other source
    | ring id' => simp_all [during, Net.setRing]
    | transmitted port => rfl
    | freed => rfl

/-- A buffer is freed. -/
private theorem free_out {i : Nat} :
    Move N (during base site outs net hand) (during base site (Function.update outs i []) (net.free (outs i)) hand) := by
  refine .of_shift (.out site i) .freed (outs i) (by simp) (by simp [sinks]) rfl ?_ ?_ ?_
    fun _ _ _ => .inl ((sinks _).mpr rfl)
  · simp [during]
  · simp [during, Net.free]
  · intro c source target
    cases c with
    | hand site' => rfl
    | out site' j => exact during_out_other source
    | ring id => rfl
    | transmitted port => rfl
    | freed => exact absurd rfl target

/-- The next in the hand is freed. -/
private theorem free_hand {m : Arrival} :
    Move N (during base site outs net (m :: hand)) (during base site outs (net.free [m]) hand) := by
  refine .of_shift (.hand site) .freed [m] (by simp) (by simp [sinks]) rfl ?_ ?_ ?_
    fun _ _ _ => .inl ((sinks _).mpr rfl)
  · simp [during]
  · simp [during, Net.free]
  · intro c source target
    cases c with
    | hand site' => simp_all [during]
    | out site' j => rfl
    | ring id => rfl
    | transmitted port => rfl
    | freed => exact absurd rfl target

/-- From a ring to the hand. -/
private theorem take_out {id : RingId} {ring : BulkRing Arrival} {mbufs : List Arrival}
    (taken : (net.rings id).items = mbufs ++ ring.items)
    (into : ∀ m, .ring id ∈ N.way (N.kind m) → Next (N.way (N.kind m)) (.hand site) (.ring id)) :
    Move N (during base site outs net []) (during base site outs (net.setRing id ring) mbufs) := by
  refine .of_shift (.ring id) (.hand site) mbufs (by simp) (by simp [sinks]) rfl ?_ ?_ ?_ fun m _ on => .inr (into m on)
  · simp [during, Net.setRing, taken]
  · simp [during]
  · intro c source target
    cases c with
    | hand site' => simp_all [during]
    | out site' j => rfl
    | ring id' => simp_all [during, Net.setRing]
    | transmitted port => rfl
    | freed => rfl

/-- From a ring to a buffer. -/
private theorem gather {i : Nat} {id : RingId} {ring : BulkRing Arrival} {mbufs : List Arrival}
    (taken : (net.rings id).items = mbufs ++ ring.items)
    (into : ∀ m, .ring id ∈ N.way (N.kind m) → Next (N.way (N.kind m)) (.out site i) (.ring id)) :
    Move N (during base site outs net hand)
      (during base site (Function.update outs i (outs i ++ mbufs)) (net.setRing id ring) hand) := by
  refine .of_shift (.ring id) (.out site i) mbufs (by simp) (by simp [sinks]) rfl ?_ ?_ ?_ fun m _ on => .inr (into m on)
  · simp [during, Net.setRing, taken]
  · simp [during]
  · intro c source target
    cases c with
    | hand site' => rfl
    | out site' j => exact during_out_other target
    | ring id' => simp_all [during, Net.setRing]
    | transmitted port => rfl
    | freed => rfl

/-- From the front of a buffer to a port. -/
private theorem transmit {i port : Nat} {front rest : List Arrival} (split : outs i = front ++ rest)
    (onto : ∀ m, .out site i ∈ N.way (N.kind m) → Next (N.way (N.kind m)) (.transmitted port) (.out site i)) :
    Move N (during base site outs net hand) (during base site (Function.update outs i rest)
      { net with transmitted := Function.update net.transmitted port (net.transmitted port ++ front) } hand) := by
  refine .of_shift (.out site i) (.transmitted port) front (by simp) (by simp [sinks]) rfl ?_ ?_ ?_
    fun m _ on => .inr (onto m on)
  · simp [during, split]
  · simp [during]
  · intro c source target
    cases c with
    | hand site' => rfl
    | out site' j => exact during_out_other source
    | ring id => rfl
    | transmitted port' => simp_all [during]
    | freed => rfl

omit sinks in
/-- A burst is received. -/
private theorem receive {burst : List Arrival} (fresh : (net.received ++ burst).Nodup)
    (entry : ∀ m ∈ burst, ∃ front, N.way (N.kind m) = front ++ [.hand site]) :
    Move N (during base site outs net []) (during base site outs { net with received := net.received ++ burst } burst) := by
  refine .of_arrive (.hand site) burst rfl ?_ ?_ fresh entry
  · simp [during]
  · intro c other
    cases c with
    | hand site' => simp_all [during]
    | out site' j => rfl
    | ring id => rfl
    | transmitted port => rfl
    | freed => rfl

/-! ### What the buffers do -/

/-- A buffer handed to a ring, or freed. -/
private theorem enqueue_moves {i : Nat} {ring : Option RingId} {net' : Net Arrival}
    (onto : ∀ id, ring = some id → ∀ m, .out site i ∈ N.way (N.kind m) →
      Next (N.way (N.kind m)) (.ring id) (.out site i)) (run : net.enqueue ring (outs i) = .ok net') :
    Move N (during base site outs net hand) (during base site (Function.update outs i []) net' hand) ∧
      net'.received = net.received := by
  simp only [Net.enqueue, bind_eq_ok] at run
  obtain ⟨id, found, run⟩ := run
  have known : ring = some id := by
    cases ring with
    | none => cases found
    | some id' => cases found; rfl
  cases put : (net.rings id).enqueueBulk (outs i) with
  | some ring' =>
    simp only [put] at run
    cases run
    exact ⟨hand_on sinks (BulkRing.enqueued put) (onto id known), rfl⟩
  | none =>
    simp only [put] at run
    cases run
    exact ⟨free_out sinks, rfl⟩

end Site

/-- Every buffer is below its burst size. -/
def Short (bsz : Nat) (out : Outputs Arrival) : Prop := ∀ i, (items out i).length < bsz

private theorem items_store (out : Outputs Arrival) (i : Nat) (buffer : app_mbuf_array Arrival) :
    items (out.store i buffer) = Function.update (items out) i buffer.items :=
  Function.comp_update Buffer.items out.mbuf_out i buffer

theorem items_reset (out : Outputs Arrival) (i : Nat) (flush : Bool) :
    items (out.reset i flush) = Function.update (items out) i [] :=
  Function.comp_update Buffer.items out.mbuf_out i .empty

/-- Buffers that were below their burst size still are. -/
def Shorter (bsz : Nat) (out out' : Outputs Arrival) : Prop :=
  ∀ i, (items out i).length < bsz → (items out' i).length < bsz

private theorem Shorter.trans {bsz : Nat} {a b c : Outputs Arrival} (first : Shorter bsz a b) (second : Shorter bsz b c) :
    Shorter bsz a c :=
  fun i short => second i (first i short)

private theorem shorter_update {bsz i : Nat} {out out' : Outputs Arrival} {mbufs : List Arrival}
    (same : items out' = Function.update (items out) i mbufs)
    (few : (items out i).length < bsz → mbufs.length < bsz) : Shorter bsz out out' := by
  intro j short
  rw [same]
  by_cases here : j = i
  · subst here
    rw [Function.update_self]
    exact few short
  · rw [Function.update_of_ne here]
    exact short

section Outputs
variable {N : Network Place Arrival (Nat × Nat × Nat)} (sinks : ∀ place, N.sink place ↔ place = .freed)
  {base : Place → List Arrival} {site : Site} {out out' : Outputs Arrival} {net net' : Net Arrival} {hand : List Arrival}
include sinks

private theorem append_moves {i bsz : Nat} {m : Arrival} {ring : Option RingId} (short : (items out i).length < bsz)
    (into : .hand site ∈ N.way (N.kind m) → Next (N.way (N.kind m)) (.out site i) (.hand site))
    (onto : ∀ id, ring = some id → ∀ m, .out site i ∈ N.way (N.kind m) →
      Next (N.way (N.kind m)) (.ring id) (.out site i))
    (run : out.append i m bsz ring net = .ok (out', net')) :
    Moves N (during base site (items out) net (m :: hand)) (during base site (items out') net' hand) ∧
      Shorter bsz out out' ∧ net'.received = net.received := by
  have first : Move N (during base site (items out) net (m :: hand))
      (during base site (Function.update (items out) i (items out i ++ [m])) net hand) := take_up sinks into
  rw [Outputs.append] at run
  cases pushed : (out.mbuf_out i).push [m] with
  | none => simp only [pushed] at run; cases run
  | some buffer =>
    have grown : buffer.items = items out i ++ [m] := Buffer.pushed pushed
    simp only [pushed] at run
    by_cases few : buffer.items.length < bsz
    · rw [if_pos few] at run
      cases run
      have same := items_store out i buffer
      rw [same, grown]
      exact ⟨.single first, shorter_update same fun _ => few, rfl⟩
    · rw [if_neg few] at run
      simp only [bind_eq_ok] at run
      obtain ⟨net₁, enqueued, run⟩ := run
      cases run
      have exactly : buffer.items.length ≤ bsz := by
        rw [grown, List.length_append]
        exact short
      have same := items_reset out i false
      rw [List.take_of_length_le exactly, grown,
        ← Function.update_self (f := items out) (a := i) (v := items out i ++ [m])] at enqueued
      obtain ⟨second, received⟩ : Move N _ (during base site (Function.update _ i []) net' hand) ∧ _ :=
        enqueue_moves sinks onto enqueued
      rw [Function.update_idem] at second
      rw [same]
      exact ⟨.tail (.single first) second, shorter_update same fun _ => Nat.zero_lt_of_lt short, received⟩

private theorem flush_moves {i : Nat} {ring : Option RingId}
    (onto : ∀ id, ring = some id → ∀ m, .out site i ∈ N.way (N.kind m) →
      Next (N.way (N.kind m)) (.ring id) (.out site i))
    (run : out.flush i ring net = .ok (out', net')) :
    Moves N (during base site (items out) net hand) (during base site (items out') net' hand) ∧
      (∀ bsz, Shorter bsz out out') ∧ net'.received = net.received := by
  rw [Outputs.flush] at run
  by_cases idle : out.mbuf_out_flush i = false ∨ (out.mbuf_out i).items = []
  · rw [if_pos idle] at run
    cases run
    exact ⟨.refl, fun _ _ short => short, rfl⟩
  · rw [if_neg idle] at run
    simp only [bind_eq_ok] at run
    obtain ⟨net₁, enqueued, run⟩ := run
    cases run
    obtain ⟨move, received⟩ : Move N (during base site (items out) net hand)
        (during base site (Function.update (items out) i []) net' hand) ∧ _ := enqueue_moves sinks onto enqueued
    have same := items_reset out i true
    rw [same]
    exact ⟨.single move, fun _ => shorter_update same fun short => Nat.zero_lt_of_lt short, received⟩

end Outputs

/-! ### What the lcores do -/

/-- The mbufs are numbered as they come in. -/
def Numbered (net : Net Arrival) : Prop := net.received.map Arrival.serial = List.range net.received.length

/-- A site at work since `start`. -/
structure Busy (N : Network Place Arrival (Nat × Nat × Nat)) (start : Stock Place Arrival) (base : Place → List Arrival)
    (site : Site) (out : Outputs Arrival) (net : Net Arrival) (hand : List Arrival) : Prop where
  moves : Moves N start (during base site (items out) net hand)
  numbered : Numbered net

theorem Numbered.nodup {net : Net Arrival} (numbered : Numbered net) : net.received.Nodup :=
  .of_map Arrival.serial (by rw [numbered]; exact List.nodup_range)

/-- The serial numbers of a burst go on where the last ended. -/
theorem numbered_burst {net : Net Arrival} (numbered : Numbered net) (l port n : Nat) (packets : List (List UInt8)) :
    Numbered { net with received := net.received ++ (arrive l port net.received.length packets).take n } := by
  have serials : (arrive l port net.received.length packets).map Arrival.serial =
      (List.range packets.length).map (net.received.length + ·) := by
    refine List.ext_getElem (by simp [arrive]) fun k inside inside' => ?_
    simp [arrive]
  show (net.received ++ _).map Arrival.serial = List.range (net.received ++ _).length
  rw [List.map_append, numbered, List.map_take, serials, List.length_append, List.range_add, ← List.map_take, List.take_range,
    List.length_take]
  simp [arrive]

section Lcores
variable {plan : Plan} {lpm_lookup : Nat → Option Nat} {n_workers pos_lb : Nat} {start : Stock Place Arrival}
  {base : Place → List Arrival} {l : Nat}

private theorem sinks (place : Place) : (network plan lpm_lookup n_workers pos_lb).sink place ↔ place = .freed := Iff.rfl

/-- What receiving leaves as it is. -/
structure RxKept (rx rx' : Rx Arrival) : Prop where
  rings : rx'.rings = rx.rings
  nic_queues : rx'.nic_queues = rx.nic_queues

private theorem RxKept.trans {a b c : Rx Arrival} (first : RxKept a b) (second : RxKept b c) : RxKept a c :=
  ⟨second.rings.trans first.rings, second.nic_queues.trans first.nic_queues⟩

section Receiving
variable {rx rx' : Rx Arrival} {net net' : Net Arrival} {bsz : Nat}
  (rings : ∀ {k : Nat} {id}, rx.rings[k]? = some id → ∃ w, plan.workers[k]? = some w ∧ id = RingId.rx l w)
include rings

/-- What leaves a buffer for receiving goes to the worker with its index. -/
private theorem onto_rx (k : Nat) (id : RingId) (found : rx.rings[k]? = some id) (m : Arrival)
    (on : .out (.rx l) k ∈
      (network plan lpm_lookup n_workers pos_lb).way ((network plan lpm_lookup n_workers pos_lb).kind m)) :
    Next ((network plan lpm_lookup n_workers pos_lb).way ((network plan lpm_lookup n_workers pos_lb).kind m)) (.ring id)
      (.out (.rx l) k) := by
  obtain ⟨w, worker, rfl⟩ := rings found
  exact hop_ring_rx on worker

private theorem to_worker_busy {m : Arrival} {hand : List Arrival} (short : Short bsz rx.toOutputs)
    (busy : Busy (network plan lpm_lookup n_workers pos_lb) start base (.rx l) rx.toOutputs net (m :: hand))
    (run : to_worker n_workers bsz pos_lb m.data m (rx, net) = .ok (rx', net')) :
    Busy (network plan lpm_lookup n_workers pos_lb) start base (.rx l) rx'.toOutputs net' hand ∧
      Short bsz rx'.toOutputs ∧ RxKept rx rx' := by
  simp only [to_worker, app_lcore_io_rx_buffer_to_send, bind_eq_ok] at run
  obtain ⟨-, -, ⟨out, net₁⟩, appended, run⟩ := run
  cases run
  obtain ⟨moves, shorter, received⟩ := append_moves sinks (short _) (fun on => hop_out_rx on) (onto_rx rings _) appended
  refine ⟨⟨busy.moves.trans moves, ?_⟩, fun i => shorter i (short i), rfl, rfl⟩
  rw [Numbered, received]
  exact busy.numbered

private theorem send_all_busy {burst : List Arrival} (short : Short bsz rx.toOutputs)
    (busy : Busy (network plan lpm_lookup n_workers pos_lb) start base (.rx l) rx.toOutputs net burst)
    (run : send_all Arrival.data (to_worker n_workers bsz pos_lb) burst (rx, net) = .ok (rx', net')) :
    Busy (network plan lpm_lookup n_workers pos_lb) start base (.rx l) rx'.toOutputs net' [] ∧
      Short bsz rx'.toOutputs ∧ RxKept rx rx' := by
  refine foldlM_ok (fun hand (s : Rx Arrival × Net Arrival) =>
    Busy (network plan lpm_lookup n_workers pos_lb) start base (.rx l) s.1.toOutputs s.2 hand ∧
      Short bsz s.1.toOutputs ∧ RxKept rx s.1) ?_ ⟨busy, short, rfl, rfl⟩ run
  rintro m hand ⟨rx₁, net₁⟩ ⟨rx₂, net₂⟩ ⟨busy, short, kept⟩ once
  obtain ⟨busy', short', kept'⟩ := to_worker_busy (by rw [kept.rings]; exact rings) short busy once
  exact ⟨busy', short', kept.trans kept'⟩

private theorem io_rx_queue_busy {port n : Nat} {packets : List (List UInt8)} (short : Short bsz rx.toOutputs)
    (busy : Busy (network plan lpm_lookup n_workers pos_lb) start base (.rx l) rx.toOutputs net [])
    (run : io_rx_queue Arrival.data n_workers bsz pos_lb ((arrive l port net.received.length packets).take n) (rx, net) =
      .ok (rx', net')) :
    Busy (network plan lpm_lookup n_workers pos_lb) start base (.rx l) rx'.toOutputs net' [] ∧
      Short bsz rx'.toOutputs ∧ RxKept rx rx' := by
  have numbered := numbered_burst busy.numbered l port n packets
  set burst := (arrive l port net.received.length packets).take n with burstIs
  have entry : ∀ m ∈ burst, ∃ front, way plan m.lcore (worker_of n_workers pos_lb m.data) (out_port lpm_lookup m) =
      front ++ [.hand (.rx l)] := by
    intro m member
    have mine : m.lcore = l := by
      have := List.mem_of_mem_take member
      rw [arrive, List.mem_mapIdx] at this
      obtain ⟨k, inside, rfl⟩ := this
      rfl
    rw [mine]
    exact way_entry
  have arrived : Busy (network plan lpm_lookup n_workers pos_lb) start base (.rx l) rx.toOutputs
      { net with received := net.received ++ burst } burst :=
    ⟨busy.moves.tail (receive numbered.nodup entry), numbered⟩
  simp only [io_rx_queue, bind_eq_ok] at run
  obtain ⟨-, -, run⟩ := run
  by_cases none : burst = []
  · rw [if_pos none] at run
    cases run
    rw [none] at arrived
    exact ⟨none ▸ arrived, short, rfl, rfl⟩
  · rw [if_neg none, rx_queue_eq] at run
    obtain ⟨busy', short', kept⟩ := send_all_busy (by exact rings) (by exact short) (by exact arrived) run
    exact ⟨busy', short', kept.rings, kept.nic_queues⟩

theorem io_rx_busy {bsz_rd : Nat} {packets : Nat → List (List UInt8)} (short : Short bsz rx.toOutputs)
    (busy : Busy (network plan lpm_lookup n_workers pos_lb) start base (.rx l) rx.toOutputs net [])
    (run : app_lcore_io_rx (fun port _ i (net : Net Arrival) => arrive l port net.received.length (packets i)) Arrival.data
      n_workers bsz_rd bsz pos_lb rx net = .ok (rx', net')) :
    Busy (network plan lpm_lookup n_workers pos_lb) start base (.rx l) rx'.toOutputs net' [] ∧
      Short bsz rx'.toOutputs ∧ RxKept rx rx' := by
  refine foldlM_ok (fun _ (s : Rx Arrival × Net Arrival) =>
    Busy (network plan lpm_lookup n_workers pos_lb) start base (.rx l) s.1.toOutputs s.2 [] ∧
      Short bsz s.1.toOutputs ∧ RxKept rx s.1) ?_ ⟨busy, short, rfl, rfl⟩ run
  rintro entry - ⟨rx₁, net₁⟩ ⟨rx₂, net₂⟩ ⟨busy, short, kept⟩ once
  obtain ⟨busy', short', kept'⟩ := io_rx_queue_busy (by rw [kept.rings]; exact rings) short busy once
  exact ⟨busy', short', kept.trans kept'⟩

theorem io_rx_flush_busy (short : Short bsz rx.toOutputs)
    (busy : Busy (network plan lpm_lookup n_workers pos_lb) start base (.rx l) rx.toOutputs net [])
    (run : app_lcore_io_rx_flush n_workers rx net = .ok (rx', net')) :
    Busy (network plan lpm_lookup n_workers pos_lb) start base (.rx l) rx'.toOutputs net' [] ∧
      Short bsz rx'.toOutputs ∧ RxKept rx rx' := by
  refine foldlM_ok (fun _ (s : Rx Arrival × Net Arrival) =>
    Busy (network plan lpm_lookup n_workers pos_lb) start base (.rx l) s.1.toOutputs s.2 [] ∧
      Short bsz s.1.toOutputs ∧ RxKept rx s.1) ?_ ⟨busy, short, rfl, rfl⟩ run
  rintro worker - ⟨rx₁, net₁⟩ ⟨rx₂, net₂⟩ ⟨busy, short, kept⟩ once
  simp only [bind_eq_ok] at once
  obtain ⟨-, -, ⟨out, net₃⟩, flushed, once⟩ := once
  cases once
  rw [show rx₁.rings = rx.rings from kept.rings] at flushed
  obtain ⟨moves, shorter, received⟩ := flush_moves sinks (onto_rx rings _) flushed
  refine ⟨⟨busy.moves.trans moves, ?_⟩, fun i => shorter bsz i (short i), kept.rings, kept.nic_queues⟩
  rw [Numbered, received]
  exact busy.numbered

end Receiving

/-! ### Sending -/

section Sending
variable {tx tx' : Tx Arrival} {net net' : Net Arrival} {bsz_rd bsz_wr : Nat} {tx_burst : Nat → List Arrival → Nat}

/-- What sending leaves as it is. -/
structure TxKept (tx tx' : Tx Arrival) : Prop where
  nic_ports : tx'.nic_ports = tx.nic_ports
  rings : tx'.rings = tx.rings

private theorem TxKept.trans {a b c : Tx Arrival} (first : TxKept a b) (second : TxKept b c) : TxKept a c :=
  ⟨second.nic_ports.trans first.nic_ports, second.rings.trans first.rings⟩

/-- A buffer is sent, as far as the port takes it, and the rest is freed. -/
private theorem send_moves {outs : Nat → List Arrival} {port : Nat} :
    Moves (network plan lpm_lookup n_workers pos_lb) (during base (.tx l) outs net [])
      (during base (.tx l) (Function.update outs port []) (net.send tx_burst port (outs port)) []) := by
  set n_pkts := min (tx_burst port ((outs port).take ((outs port).length % 2 ^ 16)))
    ((outs port).take ((outs port).length % 2 ^ 16)).length with n_pktsIs
  set net₁ : Net Arrival :=
    { net with transmitted := Function.update net.transmitted port (net.transmitted port ++ (outs port).take n_pkts) }
  have first : Move (network plan lpm_lookup n_workers pos_lb) (during base (.tx l) outs net [])
      (during base (.tx l) (Function.update outs port ((outs port).drop n_pkts)) net₁ []) :=
    transmit sinks (List.take_append_drop n_pkts (outs port)).symm fun m on => hop_transmitted on
  have second : Move (network plan lpm_lookup n_workers pos_lb)
      (during base (.tx l) (Function.update outs port ((outs port).drop n_pkts)) net₁ [])
      (during base (.tx l) (Function.update (Function.update outs port ((outs port).drop n_pkts)) port [])
        (net₁.free (Function.update outs port ((outs port).drop n_pkts) port)) []) := free_out sinks
  rw [Function.update_idem, Function.update_self] at second
  exact .tail (.single first) second

private theorem io_tx_ring_busy {worker port : Nat}
    (rings : ∀ {port k : Nat} {id}, tx.rings port k = some id →
      ∃ w, plan.workers[k]? = some w ∧ plan.tx_lcore port = some l ∧ id = RingId.tx w port)
    (busy : Busy (network plan lpm_lookup n_workers pos_lb) start base (.tx l) tx.toOutputs net [])
    (run : io_tx_ring tx_burst bsz_rd bsz_wr worker port (tx, net) = .ok (tx', net')) :
    Busy (network plan lpm_lookup n_workers pos_lb) start base (.tx l) tx'.toOutputs net' [] ∧ TxKept tx tx' := by
  simp only [io_tx_ring, bind_eq_ok] at run
  obtain ⟨-, -, -, -, -, -, id, found, run⟩ := run
  have known : tx.rings port worker = some id := by
    cases ring : tx.rings port worker with
    | none => rw [ring] at found; cases found
    | some id' => rw [ring] at found; cases found; rfl
  obtain ⟨w, -, serves, rfl⟩ := rings known
  cases taken : (net.rings (.tx w port)).dequeueBulk bsz_rd with
  | none =>
    simp only [taken] at run
    cases run
    exact ⟨busy, rfl, rfl⟩
  | some pair =>
    obtain ⟨mbufs, ring⟩ := pair
    simp only [taken] at run
    cases pushed : (tx.mbuf_out port).push mbufs with
    | none => simp only [pushed] at run; cases run
    | some buffer =>
      simp only [pushed] at run
      have grown : buffer.items = items tx.toOutputs port ++ mbufs := Buffer.pushed pushed
      have first : Move (network plan lpm_lookup n_workers pos_lb) (during base (.tx l) (items tx.toOutputs) net [])
          (during base (.tx l) (Function.update (items tx.toOutputs) port (items tx.toOutputs port ++ mbufs))
            (net.setRing (.tx w port) ring) []) :=
        gather sinks (BulkRing.dequeued taken) fun m on => hop_out_tx on serves
      by_cases few : buffer.items.length < bsz_wr
      · rw [if_pos few] at run
        cases run
        refine ⟨⟨busy.moves.tail ?_, busy.numbered⟩, rfl, rfl⟩
        rw [← grown, ← items_store] at first
        exact first
      · rw [if_neg few] at run
        cases run
        have second : Moves (network plan lpm_lookup n_workers pos_lb)
            (during base (.tx l) (Function.update (items tx.toOutputs) port buffer.items) (net.setRing (.tx w port) ring) [])
            (during base (.tx l) (Function.update (Function.update (items tx.toOutputs) port buffer.items) port [])
              ((net.setRing (.tx w port) ring).send tx_burst port
                (Function.update (items tx.toOutputs) port buffer.items port)) []) := send_moves
        rw [Function.update_idem, Function.update_self, ← items_reset _ _ false] at second
        rw [← grown] at first
        exact ⟨⟨(busy.moves.tail first).trans second, busy.numbered⟩, rfl, rfl⟩

theorem io_tx_busy
    (rings : ∀ {port k : Nat} {id}, tx.rings port k = some id →
      ∃ w, plan.workers[k]? = some w ∧ plan.tx_lcore port = some l ∧ id = RingId.tx w port)
    (busy : Busy (network plan lpm_lookup n_workers pos_lb) start base (.tx l) tx.toOutputs net [])
    (run : app_lcore_io_tx tx_burst n_workers bsz_rd bsz_wr tx net = .ok (tx', net')) :
    Busy (network plan lpm_lookup n_workers pos_lb) start base (.tx l) tx'.toOutputs net' [] ∧ TxKept tx tx' := by
  refine foldlM_ok (fun _ (s : Tx Arrival × Net Arrival) =>
    Busy (network plan lpm_lookup n_workers pos_lb) start base (.tx l) s.1.toOutputs s.2 [] ∧ TxKept tx s.1) ?_
    ⟨busy, rfl, rfl⟩ run
  rintro worker - s s' outer ports
  refine foldlM_ok (fun _ (s : Tx Arrival × Net Arrival) =>
    Busy (network plan lpm_lookup n_workers pos_lb) start base (.tx l) s.1.toOutputs s.2 [] ∧ TxKept tx s.1) ?_
    outer ports
  rintro port - ⟨tx₁, net₁⟩ ⟨tx₂, net₂⟩ ⟨busy, kept⟩ once
  obtain ⟨busy', kept'⟩ := io_tx_ring_busy (by rw [kept.rings]; exact rings) busy once
  exact ⟨busy', kept.trans kept'⟩

theorem io_tx_flush_busy
    (busy : Busy (network plan lpm_lookup n_workers pos_lb) start base (.tx l) tx.toOutputs net [])
    (run : app_lcore_io_tx_flush tx_burst tx net = .ok (tx', net')) :
    Busy (network plan lpm_lookup n_workers pos_lb) start base (.tx l) tx'.toOutputs net' [] ∧ TxKept tx tx' := by
  refine foldlM_ok (fun _ (s : Tx Arrival × Net Arrival) =>
    Busy (network plan lpm_lookup n_workers pos_lb) start base (.tx l) s.1.toOutputs s.2 [] ∧ TxKept tx s.1) ?_
    ⟨busy, rfl, rfl⟩ run
  rintro port - ⟨tx₁, net₁⟩ ⟨tx₂, net₂⟩ ⟨busy, kept⟩ once
  simp only [io_tx_flush_port, bind_eq_ok] at once
  obtain ⟨-, -, once⟩ := once
  by_cases idle : tx₁.mbuf_out_flush port = false ∨ (tx₁.mbuf_out port).items = []
  · rw [if_pos idle] at once
    cases once
    exact ⟨⟨busy.moves, busy.numbered⟩, kept.nic_ports, kept.rings⟩
  · rw [if_neg idle] at once
    cases once
    refine ⟨⟨busy.moves.trans ?_, busy.numbered⟩, kept.nic_ports, kept.rings⟩
    show Moves _ _ (during base (.tx l) (items (tx₁.reset port true)) _ [])
    rw [items_reset]
    exact send_moves

end Sending

/-! ### Working -/

section Working
variable {lp lp' : Worker Arrival} {net net' : Net Arrival} {bsz_rd bsz_wr : Nat} {process_pkt : Arrival → Int} {w : Nat}

/-- What working leaves as it is. -/
structure WorkerKept (lp lp' : Worker Arrival) : Prop where
  rings_in : lp'.rings_in = lp.rings_in
  rings_out : lp'.rings_out = lp.rings_out
  worker_id : lp'.worker_id = lp.worker_id

private theorem WorkerKept.trans {a b c : Worker Arrival} (first : WorkerKept a b) (second : WorkerKept b c) :
    WorkerKept a c :=
  ⟨second.rings_in.trans first.rings_in, second.rings_out.trans first.rings_out,
    second.worker_id.trans first.worker_id⟩

/-- What leaves a buffer of the worker is sent to its port. -/
private theorem onto_tx (rings_out : ∀ {port id}, lp.rings_out port = some id → id = RingId.tx w port) (port : Nat)
    (id : RingId) (found : lp.rings_out port = some id) (m : Arrival)
    (on : .out (.worker w) port ∈
      (network plan lpm_lookup n_workers pos_lb).way ((network plan lpm_lookup n_workers pos_lb).kind m)) :
    Next ((network plan lpm_lookup n_workers pos_lb).way ((network plan lpm_lookup n_workers pos_lb).kind m)) (.ring id)
      (.out (.worker w) port) := by
  obtain rfl := rings_out found
  exact hop_ring_tx on

/-- The rings that workers empty are as they were. -/
def InKept (net net' : Net Arrival) : Prop := ∀ l w, net'.rings (.rx l w) = net.rings (.rx l w)

/-- What one call of `app_lcore_worker` takes out of the rings. -/
def taken (bsz_rd : Nat) : List RingId → Net Arrival → List Arrival
  | [], _ => []
  | id :: ids, net =>
    match (net.rings id).dequeueBulk bsz_rd with
    | none => taken bsz_rd ids net
    | some (mbufs, ring) => mbufs ++ taken bsz_rd ids (net.setRing id ring)

private theorem taken_congr {ids : List RingId} (names : ∀ id ∈ ids, ∃ l, id = RingId.rx l w) {net net' : Net Arrival}
    (kept : InKept net net') : taken bsz_rd ids net' = taken bsz_rd ids net := by
  induction ids generalizing net net' with
  | nil => rfl
  | cons id ids ih =>
    obtain ⟨⟨l, rfl⟩, others⟩ := List.forall_mem_cons.mp names
    rw [taken, taken, kept]
    cases taking : (net.rings (.rx l w)).dequeueBulk bsz_rd with
    | none => exact ih others kept
    | some pair =>
      obtain ⟨mbufs, ring⟩ := pair
      refine congrArg (mbufs ++ ·) (ih others fun l' w' => ?_)
      show Function.update _ _ _ _ = Function.update _ _ _ _
      by_cases same : RingId.rx l' w' = .rx l w
      · rw [same, Function.update_self, Function.update_self]
      · rw [Function.update_of_ne same, Function.update_of_ne same]
        exact kept l' w'

/-- What a buffer does leaves the other buffers, and the rings but the one it is for. -/
theorem append_frame {out out' : Outputs Arrival} {i bsz : Nat} {m : Arrival} {ring : Option RingId}
    (run : out.append i m bsz ring net = .ok (out', net')) :
    (0 < bsz → (items out' i).length < bsz) ∧ (∀ j, j ≠ i → items out' j = items out j) ∧
      (∀ id, ring ≠ some id → net'.rings id = net.rings id) ∧ net'.received = net.received := by
  rw [Outputs.append] at run
  cases pushed : (out.mbuf_out i).push [m] with
  | none => simp only [pushed] at run; cases run
  | some buffer =>
    simp only [pushed] at run
    by_cases few : buffer.items.length < bsz
    · rw [if_pos few] at run
      cases run
      rw [items_store]
      refine ⟨fun _ => ?_, fun j other => Function.update_of_ne other .., fun _ _ => rfl, rfl⟩
      rw [Function.update_self]
      exact few
    · rw [if_neg few] at run
      simp only [Net.enqueue, bind_eq_ok] at run
      obtain ⟨net₁, ⟨id, found, put⟩, run⟩ := run
      cases run
      have known : ring = some id := by
        cases ring with
        | none => cases found
        | some id' => cases found; rfl
      rw [items_reset]
      refine ⟨fun positive => ?_, fun j other => Function.update_of_ne other .., ?_⟩
      · rw [Function.update_self]
        exact positive
      · cases full : (net.rings id).enqueueBulk (buffer.items.take bsz) with
        | some ring' =>
          simp only [full] at put
          cases put
          exact ⟨fun id' away => Function.update_of_ne (fun same => away (known.trans (congrArg some same.symm))) .., rfl⟩
        | none =>
          simp only [full] at put
          cases put
          exact ⟨fun _ _ => rfl, rfl⟩

/-- What can become of one packet. -/
theorem worker_pkt_cases {m : Arrival} {s s' : Unit}
    (run : worker_pkt (processing lpm_lookup process_pkt) bsz_wr m (lp, net, s) = .ok (lp', net', s')) :
    (process_pkt m < 0 ∧ lp' = lp ∧ net' = net.free [m]) ∨
    ∃ out, 0 ≤ process_pkt m ∧ out_port lpm_lookup m < APP_MAX_NIC_PORTS ∧
      lp.append (out_port lpm_lookup m) m bsz_wr (lp.rings_out (out_port lpm_lookup m)) net = .ok (out, net') ∧
      lp' = { lp with toOutputs := out } := by
  by_cases refused : process_pkt m < 0
  · simp only [worker_pkt, processing, refused, if_true] at run
    cases run
    exact .inl ⟨refused, rfl, rfl⟩
  · simp only [worker_pkt, processing, refused, if_false, bind_eq_ok] at run
    obtain ⟨_, inside, ⟨out, net₁⟩, appended, run⟩ := run
    cases run
    exact .inr ⟨out, Int.not_lt.mp refused, index_eq_ok.mp inside, appended, rfl⟩

/-- What one packet leaves as it is. -/
private theorem worker_pkt_kept (rings_out : ∀ {port id}, lp.rings_out port = some id → id = RingId.tx w port)
    {m : Arrival} {s s' : Unit}
    (run : worker_pkt (processing lpm_lookup process_pkt) bsz_wr m (lp, net, s) = .ok (lp', net', s')) :
    WorkerKept lp lp' ∧ InKept net net' := by
  rcases worker_pkt_cases run with ⟨-, rfl, rfl⟩ | ⟨out, -, -, appended, rfl⟩
  · exact ⟨⟨rfl, rfl, rfl⟩, fun _ _ => rfl⟩
  · obtain ⟨-, -, rings, -⟩ := append_frame appended
    exact ⟨⟨rfl, rfl, rfl⟩, fun l v => rings _ fun found => by cases rings_out found⟩

/-- To prove something of `app_lcore_worker`: it takes packets out of a ring, and
    one packet after another out of its hand. `more` is what it will take yet. -/
theorem worker_rule (P : (hand more : List Arrival) → Worker Arrival → Net Arrival → Prop) {Err : Fault → Prop}
    (rings_in : ∀ {id}, id ∈ lp.rings_in → ∃ l, id = RingId.rx l w)
    (rings_out : ∀ {port id}, lp.rings_out port = some id → id = RingId.tx w port)
    (take : ∀ {l mbufs ring more lp₁ net}, (net.rings (.rx l w)).dequeueBulk bsz_rd = some (mbufs, ring) →
      P [] (mbufs ++ more) lp₁ net → P mbufs more lp₁ (net.setRing (.rx l w) ring))
    (long : APP_MBUF_ARRAY_SIZE < bsz_rd → Err .overflow)
    (pkt : ∀ {m hand more lp₁ net}, WorkerKept lp lp₁ → P (m :: hand) more lp₁ net →
      Yields (fun t : Worker Arrival × Net Arrival × Unit => P hand more t.1 t.2.1) Err
        (worker_pkt (processing lpm_lookup process_pkt) bsz_wr m (lp₁, net, ())))
    (holds : P [] (taken bsz_rd lp.rings_in net) lp net) :
    Yields (fun t : Worker Arrival × Net Arrival × Unit => P [] [] t.1 t.2.1 ∧ WorkerKept lp t.1) Err
      (app_lcore_worker (processing lpm_lookup process_pkt) bsz_rd bsz_wr (lp, net, ())) := by
  refine (foldlM_yields (fun (ids : List RingId) (t : Worker Arrival × Net Arrival × Unit) =>
    (∀ id ∈ ids, ∃ l, id = RingId.rx l w) ∧ P [] (taken bsz_rd ids t.2.1) t.1 t.2.1 ∧ WorkerKept lp t.1) ?_
    ⟨fun _ => rings_in, holds, rfl, rfl, rfl⟩).mono (fun t all => all.2) fun _ err => err
  rintro id ids ⟨lp₁, net₁, s₁⟩ ⟨names, holds, kept⟩
  obtain ⟨⟨l, rfl⟩, others⟩ := List.forall_mem_cons.mp names
  simp only [worker_ring]
  rw [taken] at holds
  cases taking : (net₁.rings (.rx l w)).dequeueBulk bsz_rd with
  | none =>
    rw [taking] at holds
    exact ⟨others, holds, kept⟩
  | some pair =>
    obtain ⟨mbufs, ring⟩ := pair
    rw [taking] at holds
    have few : mbufs.length ≤ bsz_rd := by
      rw [BulkRing.dequeueBulk] at taking
      split at taking
      · cases taking
        exact List.length_take_le ..
      · cases taking
    have checked : Yields (fun _ => True) Err (index mbufs.length (APP_MBUF_ARRAY_SIZE + 1)) := by
      rw [index]
      by_cases inside : mbufs.length < APP_MBUF_ARRAY_SIZE + 1
      · rw [if_pos inside]
        trivial
      · rw [if_neg inside]
        exact long (by omega)
    refine checked.bind fun _ _ => ?_
    have loop : Yields (fun t : Worker Arrival × Net Arrival × Unit =>
        P [] (taken bsz_rd ids (net₁.setRing (.rx l w) ring)) t.1 t.2.1 ∧ WorkerKept lp t.1 ∧
          InKept (net₁.setRing (.rx l w) ring) t.2.1) Err
        (mbufs.foldlM (fun t pkt => worker_pkt (processing lpm_lookup process_pkt) bsz_wr pkt t)
          (lp₁, net₁.setRing (.rx l w) ring, s₁)) := by
      refine foldlM_yields (fun hand (t : Worker Arrival × Net Arrival × Unit) =>
        P hand (taken bsz_rd ids (net₁.setRing (.rx l w) ring)) t.1 t.2.1 ∧ WorkerKept lp t.1 ∧
          InKept (net₁.setRing (.rx l w) ring) t.2.1) ?_ ⟨take taking holds, kept, fun _ _ => rfl⟩
      rintro m hand ⟨lp₂, net₂, s₂⟩ ⟨holds, kept, inKept⟩
      have step := pkt kept holds
      cases once : worker_pkt (processing lpm_lookup process_pkt) bsz_wr m (lp₂, net₂, s₂) with
      | error e =>
        rw [once] at step
        exact step
      | ok t =>
        rw [once] at step
        obtain ⟨kept', inKept'⟩ := worker_pkt_kept (by rw [kept.rings_out]; exact rings_out) once
        exact ⟨step, kept.trans kept', fun l v => (inKept' l v).trans (inKept l v)⟩
    refine loop.mono ?_ fun _ err => err
    rintro ⟨lp₂, net₂, s₂⟩ ⟨holds, kept, inKept⟩
    refine ⟨others, ?_, kept⟩
    rw [taken_congr others inKept]
    exact holds

/-- Out of a ring into the hand. -/
theorem take_moves {outs : Nat → List Arrival} {from_lcore : Nat} {ring : BulkRing Arrival} {mbufs : List Arrival}
    (taking : (net.rings (.rx from_lcore w)).dequeueBulk bsz_rd = some (mbufs, ring)) :
    Move (network plan lpm_lookup n_workers pos_lb) (during base (.worker w) outs net [])
      (during base (.worker w) outs (net.setRing (.rx from_lcore w) ring) mbufs) :=
  take_out sinks (BulkRing.dequeued taking) fun _ on => hop_hand on

/-- One packet that is refused, or finds its buffer below the burst size. -/
theorem worker_pkt_moves (rings_out : ∀ {port id}, lp.rings_out port = some id → id = RingId.tx w port)
    {m : Arrival} {hand : List Arrival} {s s' : Unit}
    (room : 0 ≤ process_pkt m → (items lp.toOutputs (out_port lpm_lookup m)).length < bsz_wr)
    (run : worker_pkt (processing lpm_lookup process_pkt) bsz_wr m (lp, net, s) = .ok (lp', net', s')) :
    Moves (network plan lpm_lookup n_workers pos_lb) (during base (.worker w) (items lp.toOutputs) net (m :: hand))
        (during base (.worker w) (items lp'.toOutputs) net' hand) ∧
      Shorter bsz_wr lp.toOutputs lp'.toOutputs ∧ net'.received = net.received := by
  rcases worker_pkt_cases run with ⟨-, rfl, rfl⟩ | ⟨out, forwarded, -, appended, rfl⟩
  · exact ⟨.single (free_hand sinks), fun _ short => short, rfl⟩
  · exact append_moves sinks (room forwarded) (fun on => hop_out_worker on) (onto_tx rings_out _) appended

/-- The mbufs that are forwarded find their buffers below the burst size. -/
def Room (lpm_lookup : Nat → Option Nat) (process_pkt : Arrival → Int) (bsz : Nat) (out : Outputs Arrival)
    (mbufs : List Arrival) : Prop :=
  ∀ m ∈ mbufs, 0 ≤ process_pkt m → (items out (out_port lpm_lookup m)).length < bsz

theorem worker_busy (rings_in : ∀ {id}, id ∈ lp.rings_in → ∃ l, id = RingId.rx l w)
    (rings_out : ∀ {port id}, lp.rings_out port = some id → id = RingId.tx w port)
    (room : Room lpm_lookup process_pkt bsz_wr lp.toOutputs (taken bsz_rd lp.rings_in net))
    (busy : Busy (network plan lpm_lookup n_workers pos_lb) start base (.worker w) lp.toOutputs net []) {s' : Unit}
    (run : app_lcore_worker (processing lpm_lookup process_pkt) bsz_rd bsz_wr (lp, net, ()) = .ok (lp', net', s')) :
    Busy (network plan lpm_lookup n_workers pos_lb) start base (.worker w) lp'.toOutputs net' [] ∧
      Shorter bsz_wr lp.toOutputs lp'.toOutputs ∧ WorkerKept lp lp' := by
  set P : (hand more : List Arrival) → Worker Arrival → Net Arrival → Prop := fun hand more lp₁ net =>
    Busy (network plan lpm_lookup n_workers pos_lb) start base (.worker w) lp₁.toOutputs net hand ∧
      Shorter bsz_wr lp.toOutputs lp₁.toOutputs ∧ Room lpm_lookup process_pkt bsz_wr lp.toOutputs (hand ++ more)
  have all : Yields (fun t : Worker Arrival × Net Arrival × Unit => P [] [] t.1 t.2.1 ∧ WorkerKept lp t.1) (fun _ => True)
      (app_lcore_worker (processing lpm_lookup process_pkt) bsz_rd bsz_wr (lp, net, ())) := by
    refine worker_rule P rings_in rings_out ?_ (fun _ => trivial) ?_ ⟨busy, fun _ short => short, room⟩
    · rintro l mbufs ring more lp₁ net taking ⟨busy, shorter, room⟩
      exact ⟨⟨busy.moves.tail (take_moves taking), busy.numbered⟩, shorter, room⟩
    · rintro m hand more lp₁ net kept ⟨busy, shorter, room⟩
      cases once : worker_pkt (processing lpm_lookup process_pkt) bsz_wr m (lp₁, net, ()) with
      | error e => trivial
      | ok t =>
        obtain ⟨moves, shorter', received⟩ := worker_pkt_moves (by rw [kept.rings_out]; exact rings_out)
          (fun forwarded => shorter _ (room m List.mem_cons_self forwarded)) once
        refine ⟨⟨busy.moves.trans moves, ?_⟩, shorter.trans shorter', fun m member => room m (List.mem_cons_of_mem _ member)⟩
        rw [Numbered, received]
        exact busy.numbered
  rw [run] at all
  obtain ⟨⟨busy, shorter, -⟩, kept⟩ := all
  exact ⟨busy, shorter, kept⟩

theorem worker_flush_busy (rings_out : ∀ {port id}, lp.rings_out port = some id → id = RingId.tx w port)
    (busy : Busy (network plan lpm_lookup n_workers pos_lb) start base (.worker w) lp.toOutputs net [])
    (run : app_lcore_worker_flush lp net = .ok (lp', net')) :
    Busy (network plan lpm_lookup n_workers pos_lb) start base (.worker w) lp'.toOutputs net' [] ∧
      (∀ bsz, Shorter bsz lp.toOutputs lp'.toOutputs) ∧ WorkerKept lp lp' := by
  refine foldlM_ok (fun _ (t : Worker Arrival × Net Arrival) =>
    Busy (network plan lpm_lookup n_workers pos_lb) start base (.worker w) t.1.toOutputs t.2 [] ∧
      (∀ bsz, Shorter bsz lp.toOutputs t.1.toOutputs) ∧ WorkerKept lp t.1) ?_
    ⟨busy, fun _ _ short => short, rfl, rfl, rfl⟩ run
  rintro port - ⟨lp₁, net₁⟩ ⟨lp₂, net₂⟩ ⟨busy, shorter, kept⟩ once
  simp only [worker_flush_port] at once
  by_cases none : lp₁.rings_out port = none
  · rw [if_pos none] at once
    cases once
    exact ⟨busy, shorter, kept⟩
  · rw [if_neg none] at once
    simp only [bind_eq_ok] at once
    obtain ⟨⟨out, net₃⟩, flushed, once⟩ := once
    cases once
    rw [show lp₁.rings_out = lp.rings_out from kept.rings_out] at flushed
    obtain ⟨moves, shorter', received⟩ := flush_moves sinks (onto_tx rings_out _) flushed
    refine ⟨⟨busy.moves.trans moves, ?_⟩, fun bsz => (shorter bsz).trans (shorter' bsz), kept.rings_in, kept.rings_out,
      kept.worker_id⟩
    rw [Numbered, received]
    exact busy.numbered

end Working
end Lcores

end Shardb.Transit
