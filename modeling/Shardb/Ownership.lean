import Mathlib.Data.List.Induction
import Shardb.Overlaps

/-!
# Which shard a key is stored in

The keys below `MAX_NUM_KEYS` are divided into slices, one a shard. A message
for several shards writes only keys of the slice of its shard; a message for one
shard writes what it says. So the slices are kept exactly as far as the messages
for one shard keep them (`course_stored`).
-/

namespace Shardb.Ownership
open Shardb.Bytes (Text ascii)
open Shardb.CStrings Shardb.Journal Shardb.Rocks Shardb.Datastore Shardb.Handlers Shardb.Server Shardb.Tokens
open Shardb.Handling Shardb.Interpreter Shardb.Routing Shardb.Savepoints Shardb.SinglePartition Shardb.MultiPartition
open Shardb.Records Shardb.Runs Shardb.Overlaps
open Shardb.Traffic hiding Handles

/-! ### Stored keys -/

/-- Database `i` holds a value for the key. -/
def Stored (rocks : Env) (i : Nat) (key : Text) : Prop := (contents (rocks.shard i).committed key).isSome

/-- The key is in the slice of shard `i`, of `n`. -/
def Owns (n i : Nat) (key : Text) : Prop :=
  ((i * slice n : Nat) : Int) ≤ atoi key ∧ atoi key < (((i + 1) * slice n : Nat) : Int)

/-- A key is stored in the shard that owns it. -/
def Owned (rocks : Env) : Prop := ∀ i key, Stored rocks i key → Owns rocks.num_workers i key

/-- A key is stored in one shard only. -/
def Unique (rocks : Env) : Prop := ∀ i j key, Stored rocks i key → Stored rocks j key → i = j

/-- A multi-partition read of a stored key looks it up where it is stored. -/
def Found (rocks : Env) : Prop := ∀ i key, Stored rocks i key →
  multi (.read (some key)) rocks = onShardM rocks i (access i (singleCell (.read (some key))))

/-- Slices do not overlap. -/
theorem owns_unique {n i j : Nat} {key : Text} (first : Owns n i key) (second : Owns n j key) : i = j := by
  obtain ⟨low, high⟩ := first
  obtain ⟨low', high'⟩ := second
  have before : ∀ {a b : Nat}, a * slice n < (b + 1) * slice n → a ≤ b := fun less =>
    Nat.lt_succ_iff.mp (Nat.lt_of_mul_lt_mul_right less)
  exact Nat.le_antisymm (before (by omega)) (before (by omega))

theorem owned_unique {rocks : Env} (owned : Owned rocks) : Unique rocks :=
  fun i j key here there => owns_unique (owned i key here) (owned j key there)

/-- What a multi-partition read looks up is in the first slice. -/
theorem owned_found {rocks : Env} (first : ∀ i key, Stored rocks i key → i = 0 ∧ Owns rocks.num_workers i key) :
    Found rocks := by
  intro i key stored
  obtain ⟨rfl, low, high⟩ := first i key stored
  have data : Messages.isData (.read (some key)) := rfl
  have inside : 0 ≤ atoi key ∧ atoi key < slice rocks.num_workers := by
    rw [Nat.zero_mul] at low
    rw [Nat.zero_add, Nat.one_mul] at high
    exact ⟨low, high⟩
  rw [multi_data data]
  simp only [keyOf, need_some, bind_ok, inside, and_self, if_true]

/-- What a database holds was put there. -/
theorem contents_put : ∀ {writes : List Write} {key val : Text}, contents writes key = some val →
    ∃ write ∈ writes, write.key = key ∧ write.val = some val := by
  intro writes
  induction writes using List.reverseRecOn with
  | nil => intro key val holds; cases holds
  | append_singleton earlier last ih =>
    intro key val holds
    rw [contents, replay_append] at holds
    change Function.update (contents earlier) last.key last.val key = some val at holds
    by_cases same : key = last.key
    · refine ⟨last, List.mem_append_right _ List.mem_cons_self, same.symm, ?_⟩
      rw [same, Function.update_self] at holds
      exact holds
    · rw [Function.update_of_ne same] at holds
      obtain ⟨write, member, found⟩ := ih holds
      exact ⟨write, List.mem_append_left _ member, found⟩

/-! ### What messages put -/

/-- A message for the shard of its worker that is carried out and committed. -/
structure Accepted (d : Delivery) (rocks : Env) : Prop where
  type : d.pkt.msgtype = 0
  leader : d.pkt.leader = d.worker_id
  accepted : (interpret (begun (contents (rocks.shard d.worker_id).committed)) (commandsOf d.pkt.message)).isSome

/-- The keys that an accepted message puts on its shard satisfy `P`. -/
def Puts (P : Nat → Text → Prop) (d : Delivery) (rocks : Env) : Prop :=
  Accepted d rocks → ∀ key val, Command.write (some key) (some val) ∈ commandsOf d.pkt.message → P d.worker_id key

/-- What is put on shard `i`, committed or held back, satisfies `P`. -/
def Held (P : Nat → Text → Prop) (rocks : Env) : Prop :=
  ∀ i, Marked (fun write => write.val.isSome → P i write.key) (rocks.shard i)

section Held
variable {P : Nat → Text → Prop}

theorem Held.stored {rocks : Env} (held : Held P rocks) (i : Nat) (key : Text) (stored : Stored rocks i key) : P i key := by
  obtain ⟨val, holds⟩ := Option.isSome_iff_exists.mp stored
  obtain ⟨write, member, rfl, put⟩ := contents_put holds
  exact (held i).committed write member (by rw [put]; rfl)

private theorem put_permits {i message : Nat} {cmd : Command}
    (puts : ∀ key val, cmd = .write (some key) (some val) → P i key) :
    Permits (fun write => write.val.isSome → P i write.key) message cmd :=
  ⟨fun key val same _ => puts key val same, by rintro _ _ ⟨⟩⟩

private theorem Held.put {rocks : Env} (held : Held P rocks) {i : Nat} {c : Cell}
    (here : Marked (fun write => write.val.isSome → P i write.key) c.toShard) : Held P (rocks.put i c) := by
  intro j
  by_cases same : j = i
  · rw [same, put_shard_self]
    exact here
  · rw [put_shard_other rocks i c same]
    exact held j

private theorem Held.left {rocks : Env} (held : Held P rocks) {c : Cell}
    (here : Marked (fun write => write.val.isSome → P 0 write.key) c.toShard) : Held P (leftEnv rocks c) :=
  Held.put (show Held P (entered rocks) from held) here

/-- One message. A message for several shards is executed on a single worker
    only, whose slice are all keys there are. -/
theorem course_stored {d : Delivery} {rocks : Env} {done : Done} (whole : rocks.num_workers = 1 → ∀ key,
      0 ≤ atoi key → atoi key < MAX_NUM_KEYS → P 0 key) (calm : ∀ t c, rocks.lib.faults t c = false)
    (held : Held P rocks) (puts : Puts P d rocks) (course : Course d rocks done) : Held P done.rocks := by
  have received : Held P (Env.received rocks) := held
  have here : Marked (fun write => write.val.isSome → P d.worker_id write.key)
      ((Env.received rocks).cell d.worker_id).toShard := held d.worker_id
  cases course with
  | astray _ _ _ _ left =>
    rw [left]
    exact received
  | crowded _ _ _ _ waited =>
    intro i
    rw [waited.shard]
    exact held i
  | busy _ _ _ _ _ left =>
    rw [left]
    exact received.put (commit_shard_marked here)
  | unbegun _ _ _ _ _ _ _ left =>
    rw [left]
    exact received.put ⟨here.committed, here.held⟩
  | committed type leader opened _ _ ran _ left =>
    rw [left]
    have accepted : Accepted d rocks := by
      refine ⟨type, leader, ?_⟩
      obtain ⟨tx, _, outcome⟩ := runCommands_interpreted (started_serving d.worker_id opened) ran
      obtain ⟨_, result, _⟩ := outcome.resolve_right (by simp)
      have calmly := interpretAt_calm calm (commandsOf d.pkt.message)
        (started d.worker_id ((Env.received rocks).cell d.worker_id)).lib.clock
        (begun (contents (rocks.shard d.worker_id).committed))
      rw [← calmly]
      exact Option.isSome_iff_exists.mpr ⟨_, result⟩
    have begun : Marked (fun write => write.val.isSome → P d.worker_id write.key)
        (started d.worker_id ((Env.received rocks).cell d.worker_id)).toShard := begun_marked here _ _
    refine received.put (commit_shard_marked (single_marked begun (fun cmd member => ?_) ran))
    exact put_permits fun key val same => puts accepted key val (same ▸ member)
  | aborted _ _ opened _ _ ran aborted _ left =>
    -- nothing of the transaction is left
    rw [left]
    obtain ⟨tx, kept, _⟩ := runCommands_interpreted (started_serving d.worker_id opened) ran
    have gone := abort_shard_aborted kept.serving aborted
    refine received.put ⟨fun write member => ?_, fun tx slot => ?_⟩
    · rw [gone.committed, kept.committed] at member
      exact here.committed write member
    · rw [gone.slot] at slot
      cases slot
  | executed executes ran settled _ left =>
    rw [left]
    refine received.left (settled_marked (multi_marked (held 0) (fun cmd _ routed => ?_) ran) settled)
    refine put_permits fun key val same => ?_
    subst same
    obtain ⟨low, high⟩ := routed key rfl
    exact whole executes.alone key low high
  | unheard _ _ _ _ _ settled _ _ left =>
    rw [left]
    exact received.left (settled_marked (c := (Env.received rocks).cell 0) (held 0) settled)

/-! ### Runs -/

theorem run_stored {strcpy : Strcpy} (documented : Documented strcpy) {num_workers : Nat} (staffed : 0 < num_workers)
    (whole : num_workers = 1 → ∀ key, 0 ≤ atoi key → atoi key < MAX_NUM_KEYS → P 0 key)
    {trail : List (Env × (Delivery × Done) × Env)} {last : Env}
    (run : Run (Handles strcpy) (init_database_env num_workers staffed (fun _ => []) (fun _ _ => false)) trail last)
    (copied : ∀ e ∈ trail, Copied strcpy e.2.1.1 e.1) (fine : ∀ e ∈ trail, Puts P e.2.1.1 e.1) :
    Held P last ∧ last.num_workers = num_workers := by
  have start := init_initial staffed (fun _ => []) (fun _ _ => false)
  obtain ⟨held, workers, _⟩ := run_keeps
    (fun _ rocks => Held P rocks ∧ rocks.num_workers = num_workers ∧ rocks.lib.faults = fun _ _ => false)
    (fun rocks handled => Copied strcpy handled.1 rocks ∧ Puts P handled.1 rocks)
    (by
      rintro trail rocks ⟨d, done⟩ rocks' ⟨held, workers, calm⟩ ⟨worker, answer, left⟩ ⟨copied, puts⟩
      have faultless : ∀ t c, rocks.lib.faults t c = false := fun t c => by rw [calm]
      have answer : d.handle rocks = .ok done := (copied_handle documented faultless copied).symm.trans answer
      obtain ⟨same, faults, _⟩ := handled_kept (handled_cases ⟨worker, answer, left⟩)
      have course := course_cases worker answer
      rw [← left]
      exact ⟨course_stored (by rw [workers]; exact whole) faultless held puts course, same.trans workers, faults.trans calm⟩)
    ⟨fun i => init_marked start (by simp) i, rfl, start.faults⟩ run fun e member => ⟨copied e member, fine e member⟩
  exact ⟨held, workers⟩

end Held

/-- On a single worker every key below the bound is its own. -/
private theorem alone_owns {key : Text} (low : 0 ≤ atoi key) (high : atoi key < MAX_NUM_KEYS) : Owns 1 0 key := by
  have all : slice 1 = MAX_NUM_KEYS := rfl
  rw [Owns, all]
  exact ⟨by omega, by omega⟩

/-- In every run from empty databases without errors of the library, whatever `strcpy`
    leaves of text that is copied over itself: as long as no such text is copied and
    accepted messages put keys of their worker's slice, every key is stored in the shard
    that owns it and nowhere else. Where they put keys of the first slice on worker 0
    only, multi-partition reads find them too. -/
theorem owned_run {strcpy : Strcpy} (documented : Documented strcpy) {num_workers : Nat} (staffed : 0 < num_workers)
    {trail : List (Env × (Delivery × Done) × Env)} {last : Env}
    (run : Run (Handles strcpy) (init_database_env num_workers staffed (fun _ => []) (fun _ _ => false)) trail last)
    (copied : ∀ e ∈ trail, Copied strcpy e.2.1.1 e.1) :
    ((∀ e ∈ trail, Puts (Owns num_workers) e.2.1.1 e.1) → Owned last ∧ Unique last) ∧
    ((∀ e ∈ trail, Puts (fun i key => i = 0 ∧ Owns num_workers i key) e.2.1.1 e.1) →
      Owned last ∧ Unique last ∧ Found last) := by
  constructor
  · intro fine
    obtain ⟨held, workers⟩ := run_stored documented staffed
      (by rintro rfl key low high; exact alone_owns low high) run copied fine
    have owned : Owned last := fun i key stored => by rw [workers]; exact held.stored i key stored
    exact ⟨owned, owned_unique owned⟩
  · intro fine
    obtain ⟨held, workers⟩ := run_stored documented staffed
      (by rintro rfl key low high; exact ⟨rfl, alone_owns low high⟩) run copied fine
    have first : ∀ i key, Stored last i key → i = 0 ∧ Owns last.num_workers i key :=
      fun i key stored => by rw [workers]; exact held.stored i key stored
    have owned : Owned last := fun i key stored => (first i key stored).2
    exact ⟨owned, owned_unique owned, owned_found first⟩

/-- With two workers, `w 7 a w 8 b` at worker 0; the second copy is within `val`. -/
theorem first_slice_owned :
    ∃ done, handle wipes (plain 0 (ascii "w 7 a w 8 b"))
        (init_database_env 2 (by decide) (fun _ => []) (fun _ _ => false)) = .ok done ∧
      Owned done.rocks ∧ Unique done.rocks ∧ Found done.rocks := by
  obtain ⟨done, handled, _⟩ := ok_of_map (b := (0 : Int)) (f := Done.ret)
    (a := handle wipes (plain 0 (ascii "w 7 a w 8 b")) (init_database_env 2 (by decide) (fun _ => []) (fun _ _ => false)))
    (by decide +kernel)
  have handles : Handles wipes (init_database_env 2 (by decide) (fun _ => []) (fun _ _ => false))
      (plain 0 (ascii "w 7 a w 8 b"), done) done.rocks := ⟨Nat.two_pos, handled, rfl⟩
  have cmds : commandsOf (plain 0 (ascii "w 7 a w 8 b")).pkt.message =
      [.write (some (ascii "7")) (some (ascii "a")), .write (some (ascii "8")) (some (ascii "b"))] := by
    decide +kernel
  have apart : Apart (plain 0 (ascii "w 7 a w 8 b")).pkt.message := by decide +kernel
  refine ⟨done, handled, (owned_run wipes_documented (by decide) (Run.stay.next handles) fun e member => ?_).2
    fun e member _ key val put => ?_⟩
  · obtain rfl := List.mem_singleton.mp member
    exact .inr ⟨fun _ _ => .inl apart, fun _ _ => apart⟩
  · obtain rfl := List.mem_singleton.mp member
    rw [cmds] at put
    have owned : Owns 2 0 (ascii "7") ∧ Owns 2 0 (ascii "8") := ⟨⟨by decide, by decide⟩, by decide, by decide⟩
    rcases List.mem_pair.mp put with same | same
    · cases same
      exact ⟨rfl, owned.1⟩
    · cases same
      exact ⟨rfl, owned.2⟩

/-- With two workers, `w 2000 x` at worker 0 stores the key in shard 0, though
    shard 1 owns it. -/
theorem second_slice_misplaced :
    2 ∣ MAX_NUM_KEYS ∧ ∀ strcpy, Documented strcpy →
      ∃ trail last, Run (Handles strcpy) (init_database_env 2 (by decide) (fun _ => []) (fun _ _ => false)) trail last ∧
        ¬ Owned last := by
  refine ⟨by decide, fun strcpy documented => ?_⟩
  obtain ⟨done, handled, same⟩ := ok_of_map (b := (2, true))
    (f := fun done : Done => (done.rocks.num_workers, (contents (done.rocks.shard 0).committed (ascii "2000")).isSome))
    (a := (plain 0 (ascii "w 2000 x")).handle (init_database_env 2 (by decide) (fun _ => []) (fun _ _ => false)))
    (by decide +kernel)
  have apart : Apart (plain 0 (ascii "w 2000 x")).pkt.message := by decide +kernel
  have handles : Handles strcpy (init_database_env 2 (by decide) (fun _ => []) (fun _ _ => false))
      (plain 0 (ascii "w 2000 x"), done) done.rocks :=
    ⟨Nat.two_pos, (handle_same documented (apart_sound _ apart)).trans handled, rfl⟩
  obtain ⟨workers, stored⟩ := Prod.mk.inj same
  refine ⟨_, _, Run.stay.next handles, fun owned => ?_⟩
  have high := (owned 0 (ascii "2000") stored).2
  rw [workers] at high
  exact absurd high (by decide)

end Shardb.Ownership
