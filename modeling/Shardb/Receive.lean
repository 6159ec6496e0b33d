import Shardb.Lcores

/-!
# The receiving loop looks ahead

`app_lcore_io_rx` takes its packets two at a time and has read the next four when
it sends them. What it sends is what a plain loop over the burst sends
(`io_rx_queue_plain`); what it reads goes behind the burst by up to two slots
(`mem_rx_reads`).
-/

namespace Shardb.Receive
open Shardb.Bytes Shardb.Lcores

/-! ### The loop with its reads -/

section Reads
variable {μ σ : Type} {m : Type → Type} [Monad m]
variable (mtod : μ → List UInt8) (read : Nat → m μ) (send : List UInt8 → μ → σ → m σ)

/-- `rx_rest`, `rx_pairs` and `rx_queue` with the reads of `lp->rx.mbuf_in.array` as
    steps. When the loop over the pairs runs there is a second packet, so its data
    is known. -/
def rest_reading : (left : Nat) → Ahead μ → σ → m σ
  | 0, _, s => pure s
  | left + 1, v, s => do
    let mbuf := v.mbuf_1_0
    let v := { v with mbuf_1_0 := v.mbuf_1_1, mbuf_1_1 := v.mbuf_2_0, mbuf_2_0 := v.mbuf_2_1 }
    let s ← send (mtod mbuf) mbuf s
    rest_reading left v s

def pairs_reading : (left j : Nat) → Ahead μ → σ → m σ
  | left + 4, j, v, s => do
    let mbuf_2_0 ← read (j + 4)
    let mbuf_2_1 ← read (j + 5)
    let next : Ahead μ :=
      { mbuf_1_0 := v.mbuf_2_0
        mbuf_1_1 := v.mbuf_2_1
        data_1_0 := mtod v.mbuf_2_0
        data_1_1 := some (mtod v.mbuf_2_1)
        mbuf_2_0 := mbuf_2_0
        mbuf_2_1 := mbuf_2_1 }
    let s ← send v.data_1_0 v.mbuf_1_0 s
    let s ← send (v.data_1_1.getD []) v.mbuf_1_1 s
    pairs_reading (left + 2) (j + 2) next s
  | left, _, v, s => rest_reading mtod send left v s

def queue_reading (n_mbufs : Nat) (s : σ) : m σ := do
  let mbuf_1_0 ← read 0
  let mbuf_1_1 ← read 1
  let mbuf_2_0 ← read 2
  let mbuf_2_1 ← read 3
  let ahead : Ahead μ :=
    { mbuf_1_0 := mbuf_1_0
      mbuf_1_1 := mbuf_1_1
      data_1_0 := mtod mbuf_1_0
      data_1_1 := if 1 < n_mbufs then some (mtod mbuf_1_1) else none
      mbuf_2_0 := mbuf_2_0
      mbuf_2_1 := mbuf_2_1 }
  pairs_reading mtod read send n_mbufs 0 ahead s

end Reads

/-- The slots of `lp->rx.mbuf_in.array` that are read for a burst of `n_mbufs` packets. -/
def rx_reads (n_mbufs : Nat) : List Nat :=
  (queue_reading (m := StateM (List Nat)) (fun _ => []) (fun k reads => ((), reads ++ [k])) (fun _ _ s => pure s)
    n_mbufs () []).2

section Loop
variable {μ σ : Type} {mtod : μ → List UInt8} {array : Nat → μ} {send : List UInt8 → μ → σ → Result σ}

private theorem rest_reading_eq : ∀ {left : Nat} {v : Ahead μ} {s : σ},
    rest_reading mtod send left v s = rx_rest mtod send left v s := by
  intro left
  induction left with
  | zero => intro v s; rfl
  | succ left ih =>
    intro v s
    simp only [rest_reading, rx_rest, ih]

private theorem pairs_reading_eq : ∀ {left j : Nat} {v : Ahead μ} {s : σ}, (4 ≤ left → v.data_1_1.isSome) →
    pairs_reading mtod (fun k => .ok (array k)) send left j v s = rx_pairs mtod array send left j v s := by
  intro left
  induction left using Nat.strongRecOn with
  | ind left ih =>
    intro j v s known
    by_cases more : 4 ≤ left
    · obtain ⟨left, rfl⟩ := Nat.exists_eq_add_of_le' more
      obtain ⟨data_0_1, is⟩ := Option.isSome_iff_exists.mp (known more)
      rw [pairs_reading, rx_pairs, is]
      refine bind_congr (m := Result) (x := send v.data_1_0 v.mbuf_1_0 s) fun s => ?_
      exact bind_congr (m := Result) (x := send data_0_1 v.mbuf_1_1 s) fun s => ih (left + 2) (by omega) (fun _ => rfl)
    · rcases left with _ | _ | _ | _ | left
      · exact rest_reading_eq
      · exact rest_reading_eq
      · exact rest_reading_eq
      · exact rest_reading_eq
      · omega

/-- The loop is the one of the receiving lcore. -/
theorem queue_reading_eq {n_mbufs : Nat} {s : σ} :
    queue_reading mtod (fun k => .ok (array k)) send n_mbufs s = rx_queue mtod array send n_mbufs s := by
  unfold queue_reading rx_queue
  exact pairs_reading_eq fun more => by rw [if_pos (show 1 < n_mbufs by omega)]; rfl

end Loop

private theorem rest_reads : ∀ {left : Nat} {v : Ahead Unit} {s : Unit} {reads : List Nat},
    (rest_reading (m := StateM (List Nat)) (fun _ => []) (fun _ _ s => pure s) left v s reads).2 = reads := by
  intro left
  induction left with
  | zero => intro v s reads; rfl
  | succ left ih => intro v s reads; exact ih

private theorem mem_pairs_reads : ∀ {left j : Nat} {v : Ahead Unit} {s : Unit} {reads : List Nat} {k : Nat},
    k ∈ (pairs_reading (m := StateM (List Nat)) (fun _ => []) (fun k reads => ((), reads ++ [k]))
        (fun _ _ s => pure s) left j v s reads).2 ↔
      k ∈ reads ∨ (j + 4 ≤ k ∧ k < j + left / 2 * 2 + 2) := by
  intro left
  induction left using Nat.strongRecOn with
  | ind left ih =>
    intro j v s reads k
    by_cases more : 4 ≤ left
    · obtain ⟨left, rfl⟩ := Nat.exists_eq_add_of_le' more
      have rest := @ih (left + 2) (by omega) (j + 2) ⟨v.mbuf_2_0, v.mbuf_2_1, (), (), [], some []⟩ s
        (reads ++ [j + 4] ++ [j + 5]) k
      refine Iff.trans rest ?_
      simp only [List.mem_append, List.mem_singleton, or_assoc]
      refine or_congr Iff.rfl ?_
      omega
    · have none : ¬ (j + 4 ≤ k ∧ k < j + left / 2 * 2 + 2) := by omega
      rw [or_iff_left none]
      rcases left with _ | _ | _ | _ | left
      · exact Iff.of_eq (congrArg (k ∈ ·) rest_reads)
      · exact Iff.of_eq (congrArg (k ∈ ·) rest_reads)
      · exact Iff.of_eq (congrArg (k ∈ ·) rest_reads)
      · exact Iff.of_eq (congrArg (k ∈ ·) rest_reads)
      · omega

/-- Four slots are read first, and two more for every pair. -/
theorem mem_rx_reads {n_mbufs k : Nat} : k ∈ rx_reads n_mbufs ↔ k < 4 ∨ k < n_mbufs / 2 * 2 + 2 := by
  have reads : k ∈ rx_reads n_mbufs ↔ k ∈ [0, 1, 2, 3] ∨ (0 + 4 ≤ k ∧ k < 0 + n_mbufs / 2 * 2 + 2) := mem_pairs_reads
  rw [reads]
  simp only [List.mem_cons, List.not_mem_nil, or_false]
  omega

/-- The reads stay in the array up to the last but one burst size. -/
theorem rx_reads_inside {bsz_rd : Nat} (room : bsz_rd ≤ APP_MBUF_ARRAY_SIZE) :
    (∀ n_mbufs, 0 < n_mbufs → n_mbufs ≤ bsz_rd → ∀ k ∈ rx_reads n_mbufs, k < APP_MBUF_ARRAY_SIZE) ↔
      bsz_rd < APP_MBUF_ARRAY_SIZE := by
  have size : APP_MBUF_ARRAY_SIZE = 512 := rfl
  constructor
  · intro inside
    by_contra full
    have behind := inside 512 (by omega) (by omega) 513 (mem_rx_reads.mpr (.inr (by omega)))
    omega
  · intro small n_mbufs _ few k read
    rw [mem_rx_reads] at read
    omega

/-! ### What is sent -/

section Sent
variable {μ : Type}

/-- Every packet of a burst is sent once, in the order of the array, to the worker
    that its own data tells, whatever the other slots hold. -/
theorem io_rx_queue_plain (mtod : μ → List UInt8) (n_workers bsz_wr pos_lb : Nat) {bsz_rd : Nat} {burst : List μ}
    (arrived : burst ≠ []) (few : burst.length ≤ bsz_rd) (room : bsz_rd ≤ APP_MBUF_ARRAY_SIZE) (lp : Rx μ) (net : Net μ) :
    rx_queue mtod (fun k => burst.getD k (lp.mbuf_in k))
        (fun data mbuf calls => .ok (calls ++ [(worker_of n_workers pos_lb data, mbuf)])) burst.length [] =
      .ok (burst.map fun mbuf => (worker_of n_workers pos_lb (mtod mbuf), mbuf)) ∧
    io_rx_queue mtod n_workers bsz_wr pos_lb burst (lp, net) =
      burst.foldlM (fun s mbuf =>
          app_lcore_io_rx_buffer_to_send (worker_of n_workers pos_lb (mtod mbuf)) mbuf bsz_wr s.1 s.2)
        ({ lp with mbuf_in := fun k => burst.getD k (lp.mbuf_in k) }, { net with received := net.received ++ burst }) := by
  constructor
  · rw [rx_queue_eq]
    have calls : ∀ mbufs calls, send_all (σ := List (Nat × μ)) mtod
        (fun data mbuf calls => .ok (calls ++ [(worker_of n_workers pos_lb data, mbuf)])) mbufs calls =
          .ok (calls ++ mbufs.map fun mbuf => (worker_of n_workers pos_lb (mtod mbuf), mbuf)) := by
      intro mbufs
      induction mbufs with
      | nil => intro calls; rw [List.map_nil, List.append_nil]; rfl
      | cons mbuf mbufs ih =>
        intro calls
        refine (ih _).trans ?_
        rw [List.map_cons, List.append_assoc, List.singleton_append]
    exact calls burst []
  · have inside : index burst.length (APP_MBUF_ARRAY_SIZE + 1) = .ok () := index_eq_ok.mpr (by omega)
    unfold io_rx_queue
    rw [inside]
    refine (if_neg arrived).trans ?_
    exact rx_queue_eq burst lp.mbuf_in _

/-- Six packets of one burst, with the mbufs of an earlier burst in the slots behind. -/
theorem six_sent_plain :
    rx_queue (μ := Nat) (fun mbuf => [UInt8.ofNat mbuf]) (fun k => [4, 7, 9, 2, 5, 8].getD k (100 + k))
        (fun data mbuf calls => .ok (calls ++ [(worker_of 2 0 data, mbuf)])) 6 [] =
      .ok [(0, 4), (1, 7), (1, 9), (0, 2), (1, 5), (0, 8)] :=
  (io_rx_queue_plain (fun mbuf => [UInt8.ofNat mbuf]) 2 144 0 (show [4, 7, 9, 2, 5, 8] ≠ [] by simp)
    (show [4, 7, 9, 2, 5, 8].length ≤ 144 by simp) (by simp [APP_MBUF_ARRAY_SIZE])
    ⟨⟨fun _ => .empty, fun _ => false⟩, [], [], fun k => 100 + k⟩ ⟨fun _ => .create 0, [], fun _ => [], []⟩).1

end Sent
end Shardb.Receive
