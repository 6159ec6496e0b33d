import Shardb.Handling
import Shardb.Threads

/-!
# Workers that handle messages at the same time

`handle_db_message` on a single-partition message as the library calls it makes,
one after another (`Calls`), and the workers' calls in any order. Arrays are the
workers' own and so are shards, databases and transactions, but the cursor of
`strtok` is the process's. A worker alone does what `handle_db_message` does
(`handles`), and a worker among others does what it does alone as long as every
`strtok(NULL, ..)` finds the cursor in an array of the worker that calls it.
-/

namespace Shardb.Interleaving
open Shardb.Bytes (Text ascii)
open Shardb.CStrings Shardb.Rocks Shardb.Datastore Shardb.Handlers Shardb.Server Shardb.Handling Shardb.Runs
open Shardb.Threads

/-! ### The process -/

/-- The arrays of `n` workers, with the one cursor of `strtok`, and the shard of
    each with its database, which has a pattern of errors of its own. -/
structure World (n : Nat) where
  mem : Mem (Fin n × Buf)
  cell : Fin n → Cell

/-- Bytes handed to the library: a pointer and a length. -/
structure Span (n : Nat) where
  start : Ptr (Fin n × Buf)
  len : Nat

def Span.text {n : Nat} (mem : Mem (Fin n × Buf)) (bytes : Span n) : Text :=
  ((mem.bytes bytes.start.buf).drop bytes.start.off).take bytes.len

/-- The calls a worker makes. Array arguments are the worker's own `message` and
    `val`; pointers are what `strtok` returned. The source of `strcpy` is the
    message in the packet or a pointer. `keyed` is a call of the datastore with a
    key, `shard` one without arguments and `savepoint_count` a read of the counter. -/
inductive Call (n : Nat)
  | strcpy (dst : Buf) (src : Text ⊕ Ptr (Fin n × Buf))
  | strtok (s : Option Buf) (delim : List UInt8)
  | strncmp (s : Ptr (Fin n × Buf)) (letter : UInt8)
  | strlen (s : Ptr (Fin n × Buf))
  | keyed (f : Text → Cell → Int × Cell) (key : Span n)
  | write (key val : Span n)
  | shard (f : Cell → Int × Cell)
  | savepoint_count

/-- What a call returns: `none` for `strtok` without a cursor, which is
    undefined. The datastore's calls report the strings they were handed too. -/
abbrev Returned {n : Nat} : Call n → Type
  | .strcpy _ _ => Unit
  | .strtok _ _ => Option (Option (Ptr (Fin n × Buf)))
  | .strncmp _ _ => Bool
  | .strlen _ => Nat
  | .keyed _ _ => Text × Int
  | .write _ _ => Text × Text × Int
  | .shard _ => Int
  | .savepoint_count => Int

section Process
variable {n : Nat}

/-- A function of one shard on the shard of worker `i`. -/
def World.onShard (w : World n) (i : Fin n) (f : Cell → Int × Cell) : Int × World n :=
  let (ret, c) := f (w.cell i)
  (ret, { w with cell := Function.update w.cell i c })

/-- Worker `i` makes a call. -/
def perform (i : Fin n) : (call : Call n) → World n → Returned call × World n
  | .strcpy dst src, w => ((), { w with mem := w.mem.strcpy (i, dst) (src.elim id w.mem.str) })
  | .strtok s delim, w =>
    match w.mem.strtok (s.map fun b => ⟨(i, b), 0⟩) delim with
    | none => (none, w)
    | some (token, mem) => (some token, { w with mem := mem })
  | .strncmp s letter, w => (decide ((w.mem.str s).head? = some letter), w)
  | .strlen s, w => ((w.mem.str s).length, w)
  | .keyed f key, w =>
    let (ret, w') := w.onShard i (f (key.text w.mem))
    ((key.text w.mem, ret), w')
  | .write key val, w =>
    let (ret, w') := w.onShard i (write_keyval_pair (key.text w.mem) (val.text w.mem))
    ((key.text w.mem, val.text w.mem, ret), w')
  | .shard f, w => w.onShard i f
  | .savepoint_count, w => ((w.cell i).savepoint_count, w)

end Process

/-! ### What a worker calls -/

/-- A part of the handler as the calls it makes. -/
abbrev Calls (n : Nat) := Prog (Returned (n := n)) Fault

/-- The record of the command loop's passes. -/
abbrev Log := List (Option Command × Option Int)

namespace Calls
variable {n : Nat}

def call (c : Call n) : Calls n (Returned c) := Prog.call c .ret

/-- A pointer that is dereferenced. -/
def need {α : Type} : Option α → Calls n α
  | some a => .ret a
  | none => .fault .null

def strtok (s : Option Buf) (delim : List UInt8) : Calls n (Option (Ptr (Fin n × Buf))) := do
  let token ← call (.strtok s delim)
  need token

/-- `handle_read` and `handle_delete`, on the copy in `val`. -/
def handle_key (command : Option Text → Command) (f : Text → Cell → Int × Cell) :
    Calls n (Option Command × Option Int) := do
  let str ← strtok (some .val) (ascii " ")
  let str ← need str
  let length ← call (.strlen str)
  let (key, ret) ← call (.keyed f ⟨str, length⟩)
  return (some (command (some key)), some ret)

/-- `handle_write`, on the copy in `val`. -/
def handle_write : Calls n (Option Command × Option Int) := do
  let k ← strtok (some .val) (ascii " ")
  let v ← strtok none (ascii " ")
  let k ← need k
  let klength ← call (.strlen k)
  let v ← need v
  let vlength ← call (.strlen v)
  let (key, val, ret) ← call (.write ⟨k, klength⟩ ⟨v, vlength⟩)
  return (some (.write (some key) (some val)), some ret)

/-- `strcpy(val, msg + 1)`. -/
def copy (msg : Ptr (Fin n × Buf)) : Calls n Unit := call (.strcpy .val (.inr ⟨msg.buf, msg.off + 1⟩))

/-- One command: the command carried out and `ret`. -/
def dispatch (msg : Ptr (Fin n × Buf)) (ret : Option Int) : Calls n (Option Command × Option Int) := do
  if (← call (.strncmp msg 114)) then
    copy msg
    handle_key .read read_keyval_pair
  else if (← call (.strncmp msg 119)) then
    copy msg
    handle_write
  else if (← call (.strncmp msg 100)) then
    copy msg
    handle_key .delete delete_keyval_pair
  else if (← call (.strncmp msg 115)) then
    let ret ← call (.shard counted_savepoint)
    return (some .savepoint, some ret)
  else if (← call (.strncmp msg 98)) then
    let ret ← call (.shard counted_rollback)
    return (some .rollback, some ret)
  else return (none, ret)

/-- `while (msg) { .. }`: `tx_failed` and the record of the passes. -/
def command_loop (undef : Int) : Nat → Option (Ptr (Fin n × Buf)) → Option Int → Log → Calls n (Bool × Log)
  | 0, _, _, _ => .fault .unfinished
  | _ + 1, none, _, log => .ret (false, log)
  | fuel + 1, some msg, ret, log => do
    let (command, ret) ← dispatch msg ret
    let next ← strtok none (ascii "@")
    let log := log ++ [(command, ret)]
    if ret.getD undef < 0 then return (true, log)
    else command_loop undef fuel next ret log

/-- `while (savepoint_count[i] > 0)` roll back. -/
def unwind : Nat → Calls n Unit
  | 0 => .fault .unfinished
  | fuel + 1 => do
    let count ← call .savepoint_count
    if (0 : Int) < count then
      let _ ← call (.shard counted_rollback)
      unwind fuel
    else return ()

/-- `handle_db_message` on worker `i` with a message whose type is 0 and whose
    leader is `i`: the return value, the packet and the record of the passes. -/
def handle_db_message (app : App) (fuel : Nat) (undef : Int) (pkt_in : Mbuf) (i : Fin n) : Calls n (Int × Mbuf × Log) := do
  call (.strcpy .message (.inl pkt_in.message))
  let msg ← strtok (some .message) (ascii "@")
  let ret ← call (.shard (begin_transaction i))
  let (tx_failed, log) ←
    if (0 : Int) ≤ ret then do
      let ret ← call (.shard counted_savepoint)
      if (0 : Int) ≤ ret then command_loop undef fuel msg (some ret) []
      else do
        let _ ← call (.shard delete_transaction)
        .ret (false, [])
    else .ret (false, [])
  if tx_failed then
    unwind fuel
    let _ ← call (.shard delete_transaction)
    return (-1, pkt_in, log)
  else
    let _ ← call (.shard commit_shard)
    return (0, reply app pkt_in, log)

end Calls

/-! ### The calls of a worker use its own arrays -/

section Own
variable {n : Nat}

/-- A pointer into an array of worker `i`. -/
def Into (i : Fin n) (p : Ptr (Fin n × Buf)) : Prop := p.buf.1 = i

/-- Worker `i` hands out pointers into its own arrays only. -/
def Good (i : Fin n) : Call n → Prop
  | .strcpy _ src => ∀ p, src = .inr p → Into i p
  | .strtok _ _ => True
  | .strncmp s _ => Into i s
  | .strlen s => Into i s
  | .keyed _ key => Into i key.start
  | .write key val => Into i key.start ∧ Into i val.start
  | .shard _ => True
  | .savepoint_count => True

/-- It is handed a pointer into one of them. -/
def Fit (i : Fin n) : (call : Call n) → Returned call → Prop
  | .strtok _ _, token => ∀ q, token = some (some q) → Into i q
  | _, _ => True

/-- A `strtok(NULL, ..)` finds the cursor in an array of the worker that calls it. -/
def Undisturbed (w : World n) (i : Fin n) : Call n → Prop
  | .strtok none _ => ∃ p, w.mem.cursor = some p ∧ Into i p
  | _ => True

instance (w : World n) (i : Fin n) (c : Call n) : Decidable (Undisturbed w i c) :=
  match c with
  | .strtok none _ =>
    decidable_of_iff (w.mem.cursor.any fun p => decide (p.buf.1 = i))
      (by simp only [Option.any_eq_true, decide_eq_true_eq]; rfl)
  | .strtok (some _) _ => .isTrue trivial
  | .strcpy _ _ => .isTrue trivial
  | .strncmp _ _ => .isTrue trivial
  | .strlen _ => .isTrue trivial
  | .keyed _ _ => .isTrue trivial
  | .write _ _ => .isTrue trivial
  | .shard _ => .isTrue trivial
  | .savepoint_count => .isTrue trivial

/-- Worker `i` finds the same in two states. -/
structure Agree (i : Fin n) (w alone : World n) : Prop where
  bytes : ∀ b, w.mem.bytes (i, b) = alone.mem.bytes (i, b)
  cell : w.cell i = alone.cell i
  cursor : ∀ p, w.mem.cursor = some p → Into i p → alone.mem.cursor = some p

theorem agree_refl (i : Fin n) (w : World n) : Agree i w w := ⟨fun _ => rfl, rfl, fun _ at_p _ => at_p⟩

section Reads
variable {i : Fin n} {w alone : World n} (agree : Agree i w alone)
include agree

theorem agree_bytes {p : Ptr (Fin n × Buf)} (into : Into i p) : w.mem.bytes p.buf = alone.mem.bytes p.buf := by
  obtain ⟨⟨j, b⟩, off⟩ := p
  cases into
  exact agree.bytes b

theorem agree_str {p : Ptr (Fin n × Buf)} (into : Into i p) : w.mem.str p = alone.mem.str p := by
  rw [Mem.str, Mem.str, agree_bytes agree into]

theorem agree_text {bytes : Span n} (into : Into i bytes.start) : bytes.text w.mem = bytes.text alone.mem := by
  rw [Span.text, Span.text, agree_bytes agree into]

theorem agree_onShard (f : Cell → Int × Cell) :
    (w.onShard i f).1 = (alone.onShard i f).1 ∧ Agree i (w.onShard i f).2 (alone.onShard i f).2 := by
  simp only [World.onShard, agree.cell, true_and]
  exact ⟨agree.bytes, by simp only [Function.update_self], agree.cursor⟩

/-- Where `strtok` starts. -/
theorem agree_start {s : Option Buf} {delim : List UInt8} (calm : Undisturbed w i (.strtok s delim)) :
    ∃ p, (s.map fun b => (⟨(i, b), 0⟩ : Ptr (Fin n × Buf))).or w.mem.cursor = some p ∧
      (s.map fun b => (⟨(i, b), 0⟩ : Ptr (Fin n × Buf))).or alone.mem.cursor = some p ∧ Into i p := by
  cases s with
  | some b => exact ⟨⟨(i, b), 0⟩, rfl, rfl, rfl⟩
  | none =>
    obtain ⟨p, at_p, into⟩ := calm
    exact ⟨p, at_p, agree.cursor p at_p into, into⟩

end Reads

/-- The same write keeps arrays the same. -/
theorem update_agree {i : Fin n} {f g : Fin n × Buf → List UInt8} (same : ∀ b, f (i, b) = g (i, b)) (at_b : Fin n × Buf)
    (bytes : List UInt8) (b : Buf) : Function.update f at_b bytes (i, b) = Function.update g at_b bytes (i, b) := by
  by_cases here : (i, b) = at_b
  · rw [here, Function.update_self, Function.update_self]
  · rw [Function.update_of_ne here, Function.update_of_ne here, same b]

/-- A call on a worker's own arrays is answered as it is alone. -/
theorem own_call (i : Fin n) (c : Call n) (w alone : World n) (good : Good i c) (calm : Undisturbed w i c)
    (agree : Agree i w alone) :
    (perform i c w).1 = (perform i c alone).1 ∧ Fit i c (perform i c w).1 ∧
      Agree i (perform i c w).2 (perform i c alone).2 := by
  cases c with
  | strcpy dst src =>
    have text : src.elim id w.mem.str = src.elim id alone.mem.str := by
      cases src with
      | inl text => rfl
      | inr p => exact agree_str agree (good p rfl)
    refine ⟨rfl, trivial, ?_, agree.cell, agree.cursor⟩
    simp only [perform, Mem.strcpy, text, agree.bytes dst]
    exact update_agree agree.bytes _ _
  | strtok s delim =>
    obtain ⟨p, here, there, into⟩ := agree_start agree calm
    have bytes := agree_bytes agree into
    simp only [perform, strtok_cut delim here, strtok_cut delim there, ← bytes]
    refine ⟨trivial, ?_, ?_, agree.cell, ?_⟩
    · intro q found
      simp only [Option.some.injEq, Option.map_eq_some_iff] at found
      obtain ⟨off, _, rfl⟩ := found
      exact into
    · exact update_agree agree.bytes _ _
    · exact fun q at_q _ => at_q
  | strncmp s letter => exact ⟨by simp only [perform, agree_str agree good], trivial, agree⟩
  | strlen s => exact ⟨by simp only [perform, agree_str agree good], trivial, agree⟩
  | keyed f key =>
    obtain ⟨ret, left⟩ := agree_onShard agree (f (key.text w.mem))
    simp only [perform, ← agree_text agree good]
    exact ⟨by rw [ret], trivial, left⟩
  | write key val =>
    obtain ⟨ret, left⟩ := agree_onShard agree (write_keyval_pair (key.text w.mem) (val.text w.mem))
    simp only [perform, ← agree_text agree good.1, ← agree_text agree good.2]
    exact ⟨by rw [ret], trivial, left⟩
  | shard f =>
    obtain ⟨ret, left⟩ := agree_onShard agree f
    exact ⟨ret, trivial, left⟩
  | savepoint_count => exact ⟨by simp only [perform, agree.cell], trivial, agree⟩

/-- Nothing another worker does on its own shard is seen. -/
theorem other_shard {i j : Fin n} {w alone : World n} (other : j ≠ i) (f : Cell → Int × Cell) (agree : Agree i w alone) :
    Agree i (w.onShard j f).2 alone := by
  refine ⟨agree.bytes, ?_, agree.cursor⟩
  simp only [World.onShard, Function.update_of_ne (Ne.symm other)]
  exact agree.cell

/-- Nor what it does in its own arrays. -/
theorem other_call (i j : Fin n) (c : Call n) (w alone : World n) (other : j ≠ i) (_good : Good j c)
    (calm : Undisturbed w j c) (agree : Agree i w alone) : Agree i (perform j c w).2 alone := by
  cases c with
  | strcpy dst src =>
    refine ⟨fun b => ?_, agree.cell, agree.cursor⟩
    have apart : (i, b) ≠ (j, dst) := fun same => other (congrArg Prod.fst same).symm
    simp only [perform, Mem.strcpy, Function.update_of_ne apart]
    exact agree.bytes b
  | strtok s delim =>
    obtain ⟨p, here, _, into⟩ := agree_start (agree_refl j w) calm
    simp only [perform, strtok_cut delim here]
    refine ⟨fun b => ?_, agree.cell, ?_⟩
    · have apart : (i, b) ≠ p.buf := fun same => other (into.symm.trans (congrArg Prod.fst same).symm)
      exact (Function.update_of_ne apart ..).trans (agree.bytes b)
    · -- the cursor is the other worker's now
      intro q at_q mine
      cases at_q
      exact absurd (into.symm.trans mine) other
  | strncmp s letter => exact agree
  | strlen s => exact agree
  | keyed f key => exact other_shard other (f (key.text w.mem)) agree
  | write key val => exact other_shard other (write_keyval_pair (key.text w.mem) (val.text w.mem)) agree
  | shard f => exact other_shard other f agree
  | savepoint_count => exact agree

/-! Each part of the handler makes such calls only. -/

/-- A part of the handler of worker `i`, whose result meets `Post`. -/
abbrev Keeps {α : Type} (i : Fin n) (Post : α → Prop) (p : Calls n α) : Prop := Uses (Good i) (Fit i) Post p

/-- A pointer, if there is one, into the worker's own arrays. -/
def Token (i : Fin n) (token : Option (Ptr (Fin n × Buf))) : Prop := ∀ p ∈ token, Into i p

section Parts
variable {i : Fin n}

theorem keeps_call {c : Call n} (good : Good i c) : Keeps i (Fit i c) (Calls.call c) := ⟨good, fun _ fit => fit⟩

theorem keeps_strtok (s : Option Buf) (delim : List UInt8) : Keeps i (Token i) (Calls.strtok s delim) := by
  refine ⟨trivial, fun token fit => ?_⟩
  cases token with
  | none => trivial
  | some token =>
    intro p member
    exact fit p (congrArg some member)

theorem keeps_need {token : Option (Ptr (Fin n × Buf))} (mine : Token i token) : Keeps i (Into i) (Calls.need token) := by
  cases token with
  | none => trivial
  | some p => exact mine p rfl

theorem keeps_handle_key (command : Option Text → Command) (f : Text → Cell → Int × Cell) :
    Keeps i (fun _ => True) (Calls.handle_key command f) := by
  refine uses_bind (keeps_strtok _ _) fun str mine => uses_bind (keeps_need mine) fun p into => ?_
  exact uses_bind (keeps_call into) fun length _ => uses_bind (keeps_call into) fun _ _ => trivial

theorem keeps_handle_write : Keeps i (fun _ => True) Calls.handle_write := by
  refine uses_bind (keeps_strtok _ _) fun k key => uses_bind (keeps_strtok _ _) fun v val => ?_
  refine uses_bind (keeps_need key) fun p intoKey => uses_bind (keeps_call intoKey) fun klength _ => ?_
  refine uses_bind (keeps_need val) fun q intoVal => uses_bind (keeps_call intoVal) fun vlength _ => ?_
  exact uses_bind (keeps_call ⟨intoKey, intoVal⟩) fun _ _ => trivial

theorem keeps_copy {msg : Ptr (Fin n × Buf)} (mine : Into i msg) : Keeps i (fun _ => True) (Calls.copy msg) := by
  refine ⟨?_, fun _ _ => trivial⟩
  rintro p ⟨⟩
  exact mine

theorem keeps_dispatch {msg : Ptr (Fin n × Buf)} (mine : Into i msg) (ret : Option Int) :
    Keeps i (fun _ => True) (Calls.dispatch msg ret) := by
  have letter : ∀ c (yes no : Calls n (Option Command × Option Int)), Keeps i (fun _ => True) yes →
      Keeps i (fun _ => True) no →
      Keeps i (fun _ => True) (do if (← Calls.call (.strncmp msg c)) then yes else no) := by
    intro c yes no first second
    refine ⟨mine, fun b _ => ?_⟩
    cases b with
    | true => exact first
    | false => exact second
  refine letter _ _ _ (uses_bind (keeps_copy mine) fun _ _ => keeps_handle_key _ _) ?_
  refine letter _ _ _ (uses_bind (keeps_copy mine) fun _ _ => keeps_handle_write) ?_
  refine letter _ _ _ (uses_bind (keeps_copy mine) fun _ _ => keeps_handle_key _ _) ?_
  refine letter _ _ _ ⟨trivial, fun _ _ => trivial⟩ ?_
  exact letter _ _ _ ⟨trivial, fun _ _ => trivial⟩ trivial

theorem keeps_command_loop (undef : Int) : ∀ (fuel : Nat) {msg : Option (Ptr (Fin n × Buf))} (ret : Option Int)
    (log : Log), Token i msg → Keeps i (fun _ => True) (Calls.command_loop undef fuel msg ret log) := by
  intro fuel
  induction fuel with
  | zero => intro msg ret log _; trivial
  | succ fuel ih =>
    intro msg ret log mine
    cases msg with
    | none => trivial
    | some p =>
      refine uses_bind (keeps_dispatch (mine p rfl) ret) fun answer _ => uses_bind (keeps_strtok _ _) fun next into => ?_
      dsimp only
      split_ifs
      · trivial
      · exact ih _ _ into

theorem keeps_unwind : ∀ fuel : Nat, Keeps i (fun _ => True) (Calls.unwind fuel) := by
  intro fuel
  induction fuel with
  | zero => trivial
  | succ fuel ih =>
    refine ⟨trivial, fun count _ => ?_⟩
    change Keeps i _ (if (0 : Int) < count then _ else _)
    split_ifs
    · exact ⟨trivial, fun _ _ => ih⟩
    · trivial

theorem keeps_handler (app : App) (fuel : Nat) (undef : Int) (pkt : Mbuf) :
    Keeps i (fun _ => True) (Calls.handle_db_message app fuel undef pkt i) := by
  have message : Good i (.strcpy .message (.inl pkt.message)) := by rintro p ⟨⟩
  refine uses_bind (keeps_call message) fun _ _ => uses_bind (keeps_strtok _ _) fun msg mine => ?_
  refine uses_bind (keeps_call trivial) fun ret _ => ?_
  have ends : ∀ done : Bool × Log, Keeps i (fun _ => True) (if done.1 then do
      Calls.unwind fuel
      let _ ← Calls.call (.shard delete_transaction)
      return ((-1 : Int), pkt, done.2)
    else do
      let _ ← Calls.call (.shard commit_shard)
      return (0, reply app pkt, done.2)) := by
    intro done
    split_ifs
    · exact uses_bind (keeps_unwind fuel) fun _ _ => uses_bind (keeps_call trivial) fun _ _ => trivial
    · exact uses_bind (keeps_call trivial) fun _ _ => trivial
  dsimp only
  split_ifs
  · refine uses_bind (keeps_call trivial) fun ret' _ => ?_
    split_ifs
    · exact uses_bind (keeps_command_loop undef fuel _ _ mine) fun done _ => ends done
    · exact uses_bind (keeps_call trivial) fun _ _ => ends (false, [])
  · exact ends (false, [])

end Parts

end Own

/-! ### A worker alone -/

section Alone
variable {n : Nat} {i : Fin n}

/-- A pointer into an array of the handler as one into the array of worker `i`. -/
def lift (i : Fin n) (p : Ptr Buf) : Ptr (Fin n × Buf) := ⟨(i, p.buf), p.off⟩

/-- Memory and environment of the handler are those of worker `i`; the other
    shards are those of `base`. -/
structure Mirrors (i : Fin n) (base : Env) (w : World n) (mem : Mem Buf) (rocks : Env) : Prop where
  bytes : ∀ b, w.mem.bytes (i, b) = mem.bytes b
  cursor : w.mem.cursor = mem.cursor.map (lift i)
  rocks : rocks = base.put i (w.cell i)

theorem lift_str {w : World n} {mem : Mem Buf} (bytes : ∀ b, w.mem.bytes (i, b) = mem.bytes b) (p : Ptr Buf) :
    w.mem.str (lift i p) = mem.str p := by
  simp only [Mem.str, lift, bytes]

/-- A string handed over with its length is handed over as it is. -/
theorem lift_text {w : World n} {mem : Mem Buf} (bytes : ∀ b, w.mem.bytes (i, b) = mem.bytes b) (p : Ptr Buf) :
    Span.text w.mem ⟨lift i p, (mem.str p).length⟩ = mem.str p := by
  rw [← lift_str bytes p]
  exact (List.prefix_iff_eq_take.mp (List.takeWhile_prefix _)).symm

theorem update_mirrors {f : Fin n × Buf → List UInt8} {g : Buf → List UInt8} (same : ∀ b, f (i, b) = g b) (dst : Buf)
    (bytes : List UInt8) (b : Buf) : Function.update f (i, dst) bytes (i, b) = Function.update g dst bytes b := by
  by_cases here : b = dst
  · rw [here, Function.update_self, Function.update_self]
  · have apart : (i, b) ≠ (i, dst) := fun same => here (congrArg Prod.snd same)
    rw [Function.update_of_ne here, Function.update_of_ne apart, same b]

theorem strcpy_mirrors {w : World n} {mem : Mem Buf} (bytes : ∀ b, w.mem.bytes (i, b) = mem.bytes b) (dst : Buf)
    (src : Text) (b : Buf) : (w.mem.strcpy (i, dst) src).bytes (i, b) = (mem.strcpy dst src).bytes b := by
  simp only [Mem.strcpy, bytes]
  exact update_mirrors bytes _ _ b

/-- `strtok` on the worker's arrays is `strtok` on the handler's, when both
    start at the same place. -/
theorem strtok_comes {base rocks : Env} {w : World n} {mem : Mem Buf} {s : Option Buf} (delim : List UInt8)
    (bytes : ∀ b, w.mem.bytes (i, b) = mem.bytes b) (left : rocks = base.put i (w.cell i))
    (start : (s.map fun b => (⟨(i, b), 0⟩ : Ptr (Fin n × Buf))).or w.mem.cursor =
      ((s.map fun b => (⟨b, 0⟩ : Ptr Buf)).or mem.cursor).map (lift i)) :
    Comes (fun token w' (b : Option (Ptr Buf) × Mem Buf) => token = b.1.map (lift i) ∧ Mirrors i base w' b.2 rocks)
      ((Calls.strtok s delim).run (perform i) w) (need (mem.strtok (s.map fun b => ⟨b, 0⟩) delim)) := by
  rw [Calls.strtok, Calls.call, run_call]
  cases at_p : (s.map fun b => (⟨b, 0⟩ : Ptr Buf)).or mem.cursor with
  | none =>
    rw [at_p] at start
    simp only [perform, Mem.strtok, start, at_p, Option.map_none]
    rfl
  | some p =>
    rw [at_p, Option.map_some] at start
    simp only [perform, strtok_cut delim start, strtok_cut delim at_p]
    rw [show w.mem.bytes (lift i p).buf = mem.bytes p.buf from bytes p.buf, show (lift i p).off = p.off from rfl]
    exact ⟨(Option.map_map (lift i) (fun off => ⟨p.buf, off⟩) _).symm, update_mirrors bytes _ _, rfl, left⟩

/-- A call that goes on from the cursor. -/
theorem strtok_next_comes {base rocks : Env} {w : World n} {mem : Mem Buf} (delim : List UInt8)
    (mirrors : Mirrors i base w mem rocks) :
    Comes (fun token w' (b : Option (Ptr Buf) × Mem Buf) => token = b.1.map (lift i) ∧ Mirrors i base w' b.2 rocks)
      ((Calls.strtok none delim).run (perform i) w) (need (mem.strtok none delim)) :=
  strtok_comes delim mirrors.bytes mirrors.rocks mirrors.cursor

/-! Each part of the handler, alone, does what the part it stands for does. -/

/-- Worker `i` answers as a handler does. -/
abbrev Answers (i : Fin n) (base : Env) (outcome : Except Fault (Option Command × Option Int) × World n)
    (answer : Result (Answer Env)) : Prop :=
  Comes (fun a w (b : Answer Env) => a = (b.call, b.ret) ∧ Mirrors i base w b.mem b.rocks) outcome answer

section Parts
variable {α : Type} {base : Env} {w : World n} {mem : Mem Buf} {rocks : Env}

theorem need_run {β : Type} (b : β) (next : β → Calls n α) :
    (Calls.need (some b) >>= next).run (perform i) w = (next b).run (perform i) w := rfl

theorem onShard_cell (w : World n) (i : Fin n) (f : Cell → Int × Cell) :
    (w.onShard i f).2.cell i = (f (w.cell i)).2 := by
  simp only [World.onShard, Function.update_self]

/-- A datastore call on the worker's shard. -/
theorem shard_mirrors (mirrors : Mirrors i base w mem rocks) (f : Cell → Int × Cell) :
    Mirrors i base (w.onShard i f).2 mem (base.put i (f (w.cell i)).2) :=
  ⟨mirrors.bytes, mirrors.cursor, by rw [onShard_cell]⟩

theorem strlen_run (mirrors : Mirrors i base w mem rocks) (p : Ptr Buf) (next : Nat → Calls n α) :
    (Calls.call (.strlen (lift i p)) >>= next : Calls n α).run (perform i) w =
      (next (mem.str p).length).run (perform i) w := by
  rw [← lift_str mirrors.bytes p]
  rfl

theorem keyed_run (f : Text → Cell → Int × Cell) (key : Span n) (next : Text × Int → Calls n α) :
    (Calls.call (.keyed f key) >>= next : Calls n α).run (perform i) w =
      (next (key.text w.mem, (w.onShard i (f (key.text w.mem))).1)).run (perform i)
        (w.onShard i (f (key.text w.mem))).2 := rfl

theorem write_run (key val : Span n) (next : Text × Text × Int → Calls n α) :
    (Calls.call (.write key val) >>= next : Calls n α).run (perform i) w =
      (next (key.text w.mem, val.text w.mem,
        (w.onShard i (write_keyval_pair (key.text w.mem) (val.text w.mem))).1)).run (perform i)
          (w.onShard i (write_keyval_pair (key.text w.mem) (val.text w.mem))).2 := rfl

theorem handle_key_comes (mirrors : Mirrors i base w mem rocks) {command : Option Text → Command}
    {f : Text → Cell → Int × Cell} (does : ∀ key c, singleCell (command (some key)) c = .ok (f key c))
    (lacks : ∀ c, singleCell (command none) c = .error .null) :
    Answers i base ((Calls.handle_key command f).run (perform i) w)
      (key_handler command (single i) rocks mem ⟨.val, 0⟩) := by
  refine comes_bind (strtok_comes (s := some .val) (ascii " ") mirrors.bytes mirrors.rocks rfl) ?_
  rintro token w' ⟨str, mem'⟩ ⟨rfl, mirrors'⟩
  rw [mirrors'.rocks]
  cases str with
  | none =>
    simp only [single, put_onShardM, Option.map_none, lacks]
    rfl
  | some p =>
    simp only [single, put_onShardM, Option.map_some, does, need_run]
    rw [strlen_run mirrors', keyed_run, lift_text mirrors'.bytes]
    exact ⟨rfl, shard_mirrors mirrors' (f (mem'.str p))⟩

theorem handle_write_comes (mirrors : Mirrors i base w mem rocks) :
    Answers i base (Calls.handle_write.run (perform i) w) (keyval_handler (single i) rocks mem ⟨.val, 0⟩) := by
  refine comes_bind (strtok_comes (s := some .val) (ascii " ") mirrors.bytes mirrors.rocks rfl) ?_
  rintro _ w' ⟨k, mem'⟩ ⟨rfl, mirrors'⟩
  refine comes_bind (strtok_next_comes (ascii " ") mirrors') ?_
  rintro _ w'' ⟨v, mem''⟩ ⟨rfl, mirrors''⟩
  rw [mirrors''.rocks]
  cases k with
  | none =>
    simp only [single, put_onShardM, Option.map_none, singleCell]
    rfl
  | some p =>
    simp only [single, put_onShardM, Option.map_some, singleCell, need_run]
    rw [strlen_run mirrors'']
    cases v with
    | none => rfl
    | some q =>
      simp only [Option.map_some, need_run]
      rw [strlen_run mirrors'', write_run, lift_text mirrors''.bytes, lift_text mirrors''.bytes]
      exact ⟨rfl, shard_mirrors mirrors'' (write_keyval_pair (mem''.str p) (mem''.str q))⟩

/-- `strncmp(msg, "x", 1) == 0`. -/
theorem letter_run (mirrors : Mirrors i base w mem rocks) (msg : Ptr Buf) (letter : UInt8) (yes no : Calls n α) :
    (do if (← Calls.call (.strncmp (lift i msg) letter)) then yes else no : Calls n α).run (perform i) w =
      if (mem.str msg).head? = some letter then yes.run (perform i) w else no.run (perform i) w := by
  have answer : (perform i (.strncmp (lift i msg) letter) w).1 = decide ((mem.str msg).head? = some letter) := by
    simp only [perform, lift_str mirrors.bytes]
  change (if (perform i (.strncmp (lift i msg) letter) w).1 = true then yes else no).run (perform i) w = _
  rw [answer]
  by_cases fits : (mem.str msg).head? = some letter
  · rw [if_pos (decide_eq_true fits), if_pos fits]
  · rw [if_neg (by simpa using fits), if_neg fits]

theorem copy_run (mirrors : Mirrors i base w mem rocks) (msg : Ptr Buf) (next : Calls n α) :
    ∃ w', (Calls.copy (lift i msg) >>= fun _ => next).run (perform i) w = next.run (perform i) w' ∧
      Mirrors i base w' (mem.strcpy .val (mem.str ⟨msg.buf, msg.off + 1⟩)) rocks := by
  have text := lift_str mirrors.bytes ⟨msg.buf, msg.off + 1⟩
  refine ⟨_, rfl, ?_, mirrors.cursor, mirrors.rocks⟩
  intro b
  simp only [perform, Sum.elim_inr]
  exact (strcpy_mirrors mirrors.bytes .val (w.mem.str (lift i ⟨msg.buf, msg.off + 1⟩)) b).trans (by rw [text])

theorem shard_run (f : Cell → Int × Cell) (next : Int → Calls n α) :
    (Calls.call (.shard f) >>= next : Calls n α).run (perform i) w =
      (next (f (w.cell i)).1).run (perform i) (w.onShard i f).2 := rfl

/-- The commands that take no argument. -/
theorem shard_comes (mirrors : Mirrors i base w mem rocks) {command : Command} {f : Cell → Int × Cell}
    (does : ∀ c, singleCell command c = .ok (f c)) :
    Answers i base ((do let ret ← Calls.call (.shard f); return (some command, some ret) : Calls n _).run (perform i) w)
      (do let (ret, rocks) ← single i command rocks; return ⟨some command, some ret, mem, rocks⟩) := by
  rw [mirrors.rocks]
  simp only [single, put_onShardM, does]
  exact ⟨rfl, shard_mirrors mirrors f⟩

theorem dispatch_comes (mirrors : Mirrors i base w mem rocks) (msg : Ptr Buf) (ret : Option Int) :
    Answers i base ((Calls.dispatch (lift i msg) ret).run (perform i) w)
      (dispatch (singleCallees i) msg ret mem rocks) := by
  rw [Calls.dispatch, dispatch, letter_run mirrors]
  by_cases r : (mem.str msg).head? = some 114
  · rw [if_pos r, if_pos r]
    obtain ⟨w', ran, copied⟩ := copy_run mirrors msg (Calls.handle_key .read read_keyval_pair)
    rw [ran]
    exact handle_key_comes copied (fun _ _ => rfl) fun _ => rfl
  rw [if_neg r, if_neg r, letter_run mirrors]
  by_cases wr : (mem.str msg).head? = some 119
  · rw [if_pos wr, if_pos wr]
    obtain ⟨w', ran, copied⟩ := copy_run mirrors msg Calls.handle_write
    rw [ran]
    exact handle_write_comes copied
  rw [if_neg wr, if_neg wr, letter_run mirrors]
  by_cases d : (mem.str msg).head? = some 100
  · rw [if_pos d, if_pos d]
    obtain ⟨w', ran, copied⟩ := copy_run mirrors msg (Calls.handle_key .delete delete_keyval_pair)
    rw [ran]
    exact handle_key_comes copied (fun _ _ => rfl) fun _ => rfl
  rw [if_neg d, if_neg d, letter_run mirrors]
  by_cases s : (mem.str msg).head? = some 115
  · rw [if_pos s, if_pos s]
    exact shard_comes mirrors fun _ => rfl
  rw [if_neg s, if_neg s, letter_run mirrors]
  by_cases b : (mem.str msg).head? = some 98
  · rw [if_pos b, if_pos b]
    exact shard_comes mirrors fun _ => rfl
  rw [if_neg b, if_neg b]
  exact ⟨rfl, mirrors⟩

/-- One pass of the handler's loop, and what is left of it. -/
theorem loop_pass (h : Callees Env) (undef : Int) (fuel : Nat) (msg : Ptr Buf) (ret : Option Int) (mem : Mem Buf)
    (rocks : Env) (log : Log) :
    Loops.loop .unfinished (command_pass h undef) (fuel + 1) ⟨some msg, ret, mem, rocks, log⟩ =
      (dispatch h msg ret mem rocks >>= fun a => need (a.mem.strtok none (ascii "@")) >>= fun b =>
        if a.ret.getD undef < 0 then .ok ⟨true, b.2, a.rocks, log ++ [(a.call, a.ret)]⟩
        else Loops.loop .unfinished (command_pass h undef) fuel
          ⟨b.1, a.ret, b.2, a.rocks, log ++ [(a.call, a.ret)]⟩) := by
  rw [Loops.loop]
  simp only [command_pass]
  cases dispatch h msg ret mem rocks with
  | error e => rfl
  | ok a =>
    simp only [bind_ok]
    cases need (a.mem.strtok none (ascii "@")) with
    | error e => rfl
    | ok b =>
      simp only [bind_ok]
      split_ifs <;> rfl

theorem command_loop_comes (undef : Int) : ∀ (fuel : Nat) {w : World n} {mem : Mem Buf} {rocks : Env}
    (msg : Option (Ptr Buf)) (ret : Option Int) (log : Log), Mirrors i base w mem rocks →
    Comes (fun a w (e : LoopEnd Env) => a = (e.tx_failed, e.log) ∧ Mirrors i base w e.mem e.rocks)
      ((Calls.command_loop undef fuel (msg.map (lift i)) ret log).run (perform i) w)
      (Loops.loop .unfinished (command_pass (singleCallees i) undef) fuel ⟨msg, ret, mem, rocks, log⟩) := by
  intro fuel
  induction fuel with
  | zero => intro w mem rocks msg ret log _; rfl
  | succ fuel ih =>
    intro w mem rocks msg ret log mirrors
    cases msg with
    | none => exact ⟨rfl, mirrors⟩
    | some msg =>
      rw [loop_pass]
      refine comes_bind (dispatch_comes mirrors msg ret) ?_
      rintro _ w' a ⟨rfl, mirrors'⟩
      refine comes_bind (strtok_next_comes (ascii "@") mirrors') ?_
      rintro _ w'' b ⟨rfl, mirrors''⟩
      dsimp only
      split_ifs
      · exact ⟨rfl, mirrors''⟩
      · exact ih b.1 a.ret _ mirrors''

/-- Rolling back is the same loop on the worker's shard. -/
theorem unwind_comes : ∀ (fuel : Nat) {w : World n} {rocks : Env}, Mirrors i base w mem rocks →
    Comes (fun _ w' c => w'.cell i = c ∧ Mirrors i base w' mem (base.put i c))
      ((Calls.unwind fuel).run (perform i) w) (unwind fuel (w.cell i)) := by
  intro fuel
  induction fuel with
  | zero => intro w rocks _; rfl
  | succ fuel ih =>
    intro w rocks mirrors
    have pass : unwind (fuel + 1) (w.cell i) = if 0 < (w.cell i).savepoint_count
        then unwind fuel (counted_rollback (w.cell i)).2 else .ok (w.cell i) := by
      rw [unwind, Loops.loop]
      split_ifs <;> rfl
    change Comes _ ((if (0 : Int) < (w.cell i).savepoint_count then _ else _ : Calls n Unit).run (perform i) w) _
    rw [pass]
    split_ifs
    · have rolled := ih (shard_mirrors mirrors counted_rollback)
      rw [onShard_cell] at rolled
      rw [shard_run]
      exact rolled
    · exact ⟨rfl, mirrors.rocks ▸ mirrors⟩

/-- What a call of the handler leaves, related to its answer. -/
abbrev Handles (i : Fin n) (base : Env) (outcome : Except Fault (Int × Mbuf × Log) × World n) (done : Result Done) : Prop :=
  Comes (fun a w (done : Done) => a = (done.ret, done.pkt, done.log) ∧ Mirrors i base w done.mem done.rocks) outcome done

/-- The abort and the commit. -/
theorem end_comes (app : App) (fuel : Nat) (pkt : Mbuf) (mirrors : Mirrors i base w mem rocks) (failed : Bool) (log : Log) :
    Handles i base
      ((if failed then do
          Calls.unwind fuel
          let _ ← Calls.call (.shard delete_transaction)
          return (-1, pkt, log)
        else do
          let _ ← Calls.call (.shard commit_shard)
          return (0, reply app pkt, log) : Calls n (Int × Mbuf × Log)).run (perform i) w)
      (if failed then do
          let (_, rocks) ← onShardM rocks i (abort_shard fuel)
          return ⟨-1, rocks, mem, pkt, log⟩
        else
          let (_, rocks) := rocks.onShard i commit_shard
          return ⟨0, rocks, mem, reply app pkt, log⟩) := by
  cases failed with
  | true =>
    have aborts : (onShardM rocks i (abort_shard fuel) >>= fun a => (.ok ⟨-1, a.2, mem, pkt, log⟩ : Result Done)) =
        (unwind fuel (w.cell i) >>= fun c => .ok ⟨-1, base.put i (delete_transaction c).2, mem, pkt, log⟩) := by
      rw [mirrors.rocks, put_onShardM, abort_shard]
      cases unwind fuel (w.cell i) <;> rfl
    simp only [if_true]
    refine Eq.subst (motive := fun done => Handles i base _ done) aborts.symm ?_
    refine comes_bind (unwind_comes fuel mirrors) ?_
    rintro _ w' c ⟨rfl, mirrors'⟩
    exact ⟨rfl, shard_mirrors mirrors' delete_transaction⟩
  | false =>
    simp only [mirrors.rocks, put_onShard]
    exact ⟨rfl, shard_mirrors mirrors commit_shard⟩

/-- Worker `i` alone does what the handler does on its message: the same answer
    and record, and the same shard. -/
theorem handler_comes {app : App} {fuel : Nat} {undef : Int} {pkt : Mbuf} (type : pkt.msgtype = 0)
    (leader : pkt.leader = i) (bytes : ∀ b, w.mem.bytes (i, b) = mem.bytes b)
    (left : Env.received rocks = base.put i (w.cell i)) :
    Handles i base ((Calls.handle_db_message app fuel undef pkt i).run (perform i) w)
      (handle_db_message app fuel undef mem pkt i rocks) := by
  simp only [handle_db_message, type, leader, if_true, left]
  set w₁ := (perform i (.strcpy .message (.inl pkt.message)) w).2 with copied
  have bytes₁ : ∀ b, w₁.mem.bytes (i, b) = (mem.strcpy .message pkt.message).bytes b :=
    strcpy_mirrors bytes .message pkt.message
  have first := strtok_comes (s := some .message) (ascii "@") bytes₁
    (show base.put i (w.cell i) = base.put i (w₁.cell i) from rfl) rfl
  change Comes _ ((Calls.strtok (some .message) (ascii "@") >>= _).run (perform i) w₁) _
  refine comes_bind first ?_
  rintro _ w₂ ⟨msg, mem₂⟩ ⟨rfl, mirrors₂⟩
  rw [shard_run, single_partition]
  have begun := shard_mirrors mirrors₂ (begin_transaction i)
  simp only [mirrors₂.rocks, put_onShard]
  by_cases fine : 0 ≤ (begin_transaction i (w₂.cell i)).1
  · simp only [if_pos fine]
    rw [shard_run, onShard_cell]
    have saved := shard_mirrors begun counted_savepoint
    rw [onShard_cell] at saved
    by_cases set : 0 ≤ (counted_savepoint (begin_transaction i (w₂.cell i)).2).1
    · simp only [if_pos set]
      refine comes_bind (command_loop_comes undef fuel msg _ [] saved) ?_
      rintro _ w₃ done ⟨rfl, mirrors₃⟩
      exact end_comes app fuel pkt mirrors₃ done.tx_failed done.log
    · simp only [if_neg set]
      have deleted := shard_mirrors saved delete_transaction
      rw [onShard_cell, onShard_cell] at deleted
      exact end_comes app fuel pkt deleted false []
  · simp only [if_neg fine]
    exact end_comes app fuel pkt begun false []

end Parts

end Alone

/-! ### Workers side by side -/

section Workers
variable {n : Nat}

/-- What is left of the workers' calls, and the process. -/
abbrev Workers (n : Nat) := Config (Returned (n := n)) Fault (Int × Mbuf × Log) (World n) (Fin n)

/-- Each worker numbers the messages it handles. -/
def World.received (w : World n) : World n :=
  { w with cell := fun i => { w.cell i with lib := { (w.cell i).lib with message := (w.cell i).lib.message + 1 } } }

/-- The arrays of worker `i` in a process where `strtok` has not been called. -/
def World.own (w : World n) (i : Fin n) : Mem Buf := ⟨fun b => w.mem.bytes (i, b), none⟩

/-- Every worker has been handed a message. -/
def World.handed (w : World n) (app : App) (fuel : Nat) (undef : Int) (pkts : Fin n → Mbuf) : Workers n :=
  ⟨fun i => Calls.handle_db_message app fuel undef (pkts i) i, w.received⟩

/-- However the calls of the workers are interleaved: as long as every
    `strtok(NULL, ..)` finds the cursor in an array of the worker that calls it, a
    worker that has ended executed the commands, gave the answer and left the
    shard that `handle_db_message` does on its message alone. -/
theorem undisturbed_isolated (app : App) (fuel : Nat) (undef : Int) (pkts : Fin n → Mbuf)
    (type : ∀ i, (pkts i).msgtype = 0) (leader : ∀ i, (pkts i).leader = i) (w : World n)
    {trail : List (Workers n × Fin n × Workers n)} {last : Workers n}
    (run : Run (Step perform) (w.handed app fuel undef pkts) trail last)
    (fine : ∀ e ∈ trail, NextFine Undisturbed e.1 e.2.1) (i : Fin n) (rocks : Env) :
    (∀ ret pkt log, last.threads i = .ret (ret, pkt, log) →
      ∃ done, handle_db_message app fuel undef (w.own i) (pkts i) i (rocks.put i (w.cell i)) = .ok done ∧
        done.log = log ∧ done.ret = ret ∧ done.pkt = pkt ∧ done.rocks.cell i = last.state.cell i) ∧
    ∀ e, last.threads i = .fault e →
      handle_db_message app fuel undef (w.own i) (pkts i) i (rocks.put i (w.cell i)) = .error e := by
  obtain ⟨alone, reaches, agree⟩ := separate agree_refl own_call other_call
    (fun i => keeps_handler app fuel undef (pkts i)) run fine i
  have does : Handles i rocks ((Calls.handle_db_message app fuel undef (pkts i) i).run (perform i) w.received)
      (handle_db_message app fuel undef (w.own i) (pkts i) i (rocks.put i (w.cell i))) :=
    handler_comes (type i) (leader i) (fun _ => rfl) rfl
  rw [show (Calls.handle_db_message app fuel undef (pkts i) i).run (perform i) w.received =
    (last.threads i).run (perform i) alone from reaches] at does
  constructor
  · intro ret pkt log ended
    rw [ended] at does
    cases handled : handle_db_message app fuel undef (w.own i) (pkts i) i (rocks.put i (w.cell i)) with
    | error e =>
      rw [handled] at does
      exact does.elim
    | ok done =>
      rw [handled] at does
      obtain ⟨same, mirrors⟩ := does
      simp only [Prod.mk.injEq] at same
      refine ⟨done, rfl, same.2.2.symm, same.1.symm, same.2.1.symm, ?_⟩
      rw [mirrors.rocks, put_cell_self, agree.cell]
  · intro e ended
    rw [ended] at does
    cases handled : handle_db_message app fuel undef (w.own i) (pkts i) i (rocks.put i (w.cell i)) with
    | error e' =>
      rw [handled] at does
      exact congrArg Except.error does.symm
    | ok done =>
      rw [handled] at does
      exact does.elim

end Workers

/-- Two workers with an open, empty database each. -/
def twoWorkers : World 2 where
  mem := ⟨fun _ => [], none⟩
  cell _ :=
    { tx_db := true, tx := none, savepoint_count := 0, committed := []
      lib := { faults := fun _ _ => false, clock := 0, next := 0, message := 0, trace := [] } }

/-- A message for each of them, and the two workers about to handle it. -/
def twoMessages (first second : Text) (i : Fin 2) : Mbuf := packet 0 i (if i = 0 then first else second)
def sideBySide (first second : Text) : Workers 2 := twoWorkers.handed default 16 0 (twoMessages first second)

/-- Worker 1 copies its message, worker 0 comes to its commit, worker 1 handles
    the rest of its message, and worker 0 commits. -/
def inBetween : List (Fin 2) := [1] ++ List.replicate 13 0 ++ List.replicate 13 1 ++ [0]

/-- Worker 1 takes its first token while worker 0 is in `handle_write`. -/
def inBetweenTokens : List (Fin 2) := List.replicate 8 0 ++ [1, 1] ++ List.replicate 12 0

/-- In the first order the two workers commit what they commit alone. -/
theorem writes_isolated :
    ∃ trail last, Run (Step perform) (sideBySide (ascii "w 1 a") (ascii "w 2 b")) trail last ∧
      ∀ i : Fin 2, ∃ done, handle_db_message default 16 0 (twoWorkers.own i) (twoMessages (ascii "w 1 a") (ascii "w 2 b") i) i
          ((init_database_env 2 (by decide) (fun _ => []) (fun _ _ => false)).put i (twoWorkers.cell i)) = .ok done ∧
        done.ret = 0 ∧ done.rocks.cell i = last.state.cell i := by
  have types : ∀ i, (twoMessages (ascii "w 1 a") (ascii "w 2 b") i).msgtype = 0 := by decide +kernel
  have leaders : ∀ i, (twoMessages (ascii "w 1 a") (ascii "w 2 b") i).leader = i := by decide +kernel
  obtain ⟨trail, run, fine⟩ := schedule_run perform (sideBySide (ascii "w 1 a") (ascii "w 2 b")) Undisturbed inBetween
    (by decide +kernel)
  have ended : ∀ i, ((inBetween.foldl (turn perform) (sideBySide (ascii "w 1 a") (ascii "w 2 b"))).threads i).result.map
      Prod.fst = some 0 := by decide +kernel
  refine ⟨trail, _, run, fun i => ?_⟩
  obtain ⟨⟨ret, pkt, log⟩, result, rfl⟩ := Option.map_eq_some_iff.mp (ended i)
  obtain ⟨done, handled, _, acked, _, cell⟩ := (undisturbed_isolated default 16 0
    (twoMessages (ascii "w 1 a") (ascii "w 2 b")) types leaders twoWorkers run fine i
    (init_database_env 2 (by decide) (fun _ => []) (fun _ _ => false))).1 _ _ _ (ret_of_result result)
  exact ⟨done, handled, acked, cell⟩

/-- Worker 1 calls `strtok` for its message between the two calls of
    `handle_write` on worker 0, which takes its value out of worker 1's message:
    it commits `w` where it commits `a` alone. -/
theorem value_from_other_message :
    (∀ i, (twoMessages (ascii "w 1 a") (ascii "w 2 b@w 3 c") i).msgtype = 0) ∧
    (∀ i, (twoMessages (ascii "w 1 a") (ascii "w 2 b@w 3 c") i).leader = i) ∧
    ∃ trail last, Run (Step perform) (sideBySide (ascii "w 1 a") (ascii "w 2 b@w 3 c")) trail last ∧
      (∃ pkt log, last.threads 0 = .ret (0, pkt, log)) ∧
      contents (last.state.cell 0).committed (ascii "1") = some (ascii "w") ∧
      ∃ done, handle_db_message default 16 0 (twoWorkers.own 0) (twoMessages (ascii "w 1 a") (ascii "w 2 b@w 3 c") 0) 0
          ((init_database_env 2 (by decide) (fun _ => []) (fun _ _ => false)).put 0 (twoWorkers.cell 0)) = .ok done ∧
        done.ret = 0 ∧ contents (done.rocks.cell 0).committed (ascii "1") = some (ascii "a") := by
  refine ⟨by decide +kernel, by decide +kernel, ?_⟩
  obtain ⟨trail, run, _⟩ := schedule_run perform (sideBySide (ascii "w 1 a") (ascii "w 2 b@w 3 c")) (fun _ _ _ => True)
    inBetweenTokens (by decide +kernel)
  have ended : ((inBetweenTokens.foldl (turn perform) (sideBySide (ascii "w 1 a") (ascii "w 2 b@w 3 c"))).threads 0).result.map
      Prod.fst = some 0 := by decide +kernel
  obtain ⟨⟨ret, pkt, log⟩, result, rfl⟩ := Option.map_eq_some_iff.mp ended
  obtain ⟨done, handled, same⟩ := ok_of_map (b := ((0 : Int), some (ascii "a")))
    (f := fun done : Done => (done.ret, contents (done.rocks.cell 0).committed (ascii "1")))
    (a := handle_db_message default 16 0 (twoWorkers.own 0) (twoMessages (ascii "w 1 a") (ascii "w 2 b@w 3 c") 0) 0
      ((init_database_env 2 (by decide) (fun _ => []) (fun _ _ => false)).put 0 (twoWorkers.cell 0))) (by decide +kernel)
  obtain ⟨acked, value⟩ := Prod.mk.inj same
  have taken : contents ((inBetweenTokens.foldl (turn perform)
      (sideBySide (ascii "w 1 a") (ascii "w 2 b@w 3 c"))).state.cell 0).committed (ascii "1") = some (ascii "w") := by
    decide +kernel
  exact ⟨trail, _, run, ⟨pkt, log, ret_of_result result⟩, taken, done, handled, acked, value⟩

end Shardb.Interleaving
