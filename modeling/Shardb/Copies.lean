import Mathlib.Logic.Relation
import Shardb.Server

/-!
# The copies of a message

`handle_db_message` copies the message into an array of its own, and every command
with arguments into another, from where the tokens are taken then. None of the
copies counts. They stay in their arrays exactly when the message in the packet is
terminated (`copies_inside_iff`): `strtok` never goes past the NUL it has found, and
a copy that fits takes its NUL along.
-/

namespace Shardb.Copies
open Shardb.Bytes (Text ascii offsetOf)
open Shardb.CStrings Shardb.Datastore Shardb.Handlers Shardb.Server
open Shardb.Loops (bind_eq_ok)

/-! ### The arrays of the handler -/

/-- The arrays have their size, and `strtok` goes on in a string that ends. -/
structure Kept (m : Mem Buf) : Prop where
  size : ∀ b, (m.bytes b).length = MAXBUFSIZE
  cursor : ∀ c, m.cursor = some c → Ended (m.bytes c.buf) c.off

/-- A call of `strtok` that can be made. -/
private theorem strtok_kept {m m' : Mem Buf} {s q : Option (Ptr Buf)} {delim : List UInt8}
    (size : ∀ b, (m.bytes b).length = MAXBUFSIZE) (ends : ∀ p, s.or m.cursor = some p → Ended (m.bytes p.buf) p.off)
    (run : need (m.strtok s delim) = .ok (q, m')) : Kept m' ∧ ∀ p, q = some p → Ended (m'.bytes p.buf) p.off := by
  cases at_p : s.or m.cursor with
  | none =>
    simp only [Mem.strtok, at_p] at run
    cases run
  | some p =>
    have ended : Ended (m.bytes p.buf) p.off := ends p at_p
    rw [strtok_cut delim at_p] at run
    cases run
    obtain ⟨same_size, token, rest⟩ := @cut_ended delim _ _ ended
    have here : Function.update m.bytes p.buf (cut delim (m.bytes p.buf) p.off).2.1 p.buf =
        (cut delim (m.bytes p.buf) p.off).2.1 := Function.update_self ..
    refine ⟨⟨fun b => ?_, fun c is => ?_⟩, fun q is => ?_⟩
    · show (Function.update m.bytes p.buf (cut delim (m.bytes p.buf) p.off).2.1 b).length = _
      by_cases same : b = p.buf
      · subst same
        rw [here, same_size]
        exact size p.buf
      · rw [Function.update_of_ne same]
        exact size b
    · cases is
      show Ended (Function.update m.bytes p.buf _ p.buf) _
      rw [here]
      exact rest
    · obtain ⟨start, found, rfl⟩ := Option.map_eq_some_iff.mp is
      show Ended (Function.update m.bytes p.buf _ p.buf) _
      rw [here]
      exact token start found

/-- A copy that is shorter than the array keeps its size and ends there. -/
private theorem strcpy_ended {m : Mem Buf} (dst : Buf) (src : Text) (size : ∀ b, (m.bytes b).length = MAXBUFSIZE)
    (fits : src.length < MAXBUFSIZE) :
    (∀ b, ((m.strcpy dst src).bytes b).length = MAXBUFSIZE) ∧ Ended ((m.strcpy dst src).bytes dst) 0 := by
  have here : (m.strcpy dst src).bytes dst = src ++ 0 :: (m.bytes dst).drop (src.length + 1) := Function.update_self ..
  constructor
  · intro b
    by_cases same : b = dst
    · subst same
      rw [here, List.length_append, List.length_cons, List.length_drop, size b]
      omega
    · rw [show (m.strcpy dst src).bytes b = m.bytes b from Function.update_of_ne same ..]
      exact size b
  · rw [here]
    exact List.mem_append_right _ List.mem_cons_self

section Handlers
variable {σ : Type} {op : Command → σ → Result (Int × σ)} {rocks : σ} {mem : Mem Buf} {a : Answer σ}

private theorem key_handler_kept {command : Option Text → Command} (size : ∀ b, (mem.bytes b).length = MAXBUFSIZE)
    (ended : Ended (mem.bytes .val) 0) (run : key_handler command op rocks mem ⟨.val, 0⟩ = .ok a) : Kept a.mem := by
  obtain ⟨⟨str, mem'⟩, first, run⟩ := bind_eq_ok.mp run
  obtain ⟨⟨ret, rocks'⟩, -, run⟩ := bind_eq_ok.mp run
  cases run
  exact (strtok_kept size (fun p is => by cases is; exact ended) first).1

private theorem keyval_handler_kept (size : ∀ b, (mem.bytes b).length = MAXBUFSIZE) (ended : Ended (mem.bytes .val) 0)
    (run : keyval_handler op rocks mem ⟨.val, 0⟩ = .ok a) : Kept a.mem := by
  obtain ⟨⟨k, mem'⟩, first, run⟩ := bind_eq_ok.mp run
  obtain ⟨⟨v, mem''⟩, second, run⟩ := bind_eq_ok.mp run
  obtain ⟨⟨ret, rocks'⟩, -, run⟩ := bind_eq_ok.mp run
  cases run
  have kept := (strtok_kept size (fun p is => by cases is; exact ended) first).1
  exact (strtok_kept (s := none) kept.size kept.cursor second).1

/-- The argument of a command, which stands behind its letter. -/
private theorem argument_fits (kept : Kept mem) {msg : Ptr Buf} (ended : Ended (mem.bytes msg.buf) msg.off) {c : UInt8}
    (letter : (mem.str msg).head? = some c) :
    Ended (mem.bytes msg.buf) (msg.off + 1) ∧ (mem.str ⟨msg.buf, msg.off + 1⟩).length + 1 ≤ MAXBUFSIZE := by
  have char : (cstring ((mem.bytes msg.buf).drop msg.off)).head? ≠ none := by
    rw [show (cstring ((mem.bytes msg.buf).drop msg.off)).head? = some c from letter]
    simp
  have next := ended.next char
  have short := next.length
  rw [kept.size msg.buf] at short
  refine ⟨next, ?_⟩
  show (cstring ((mem.bytes msg.buf).drop (msg.off + 1))).length + 1 ≤ MAXBUFSIZE
  omega

private theorem dispatch_kept {msg : Ptr Buf} {ret : Option Int} (kept : Kept mem)
    (ended : Ended (mem.bytes msg.buf) msg.off) (run : dispatch (Callees.of op) msg ret mem rocks = .ok a) :
    Kept a.mem := by
  have copied : ∀ c, (mem.str msg).head? = some c →
      (∀ b, ((mem.strcpy .val (mem.str ⟨msg.buf, msg.off + 1⟩)).bytes b).length = MAXBUFSIZE) ∧
      Ended ((mem.strcpy .val (mem.str ⟨msg.buf, msg.off + 1⟩)).bytes .val) 0 :=
    fun c letter => strcpy_ended _ _ kept.size (argument_fits kept ended letter).2
  unfold dispatch at run
  dsimp only at run
  split_ifs at run with r w d s b
  · exact key_handler_kept (copied _ r).1 (copied _ r).2 run
  · exact keyval_handler_kept (copied _ w).1 (copied _ w).2 run
  · exact key_handler_kept (copied _ d).1 (copied _ d).2 run
  · obtain ⟨⟨ret', rocks'⟩, -, run⟩ := bind_eq_ok.mp run
    cases run
    exact kept
  · obtain ⟨⟨ret', rocks'⟩, -, run⟩ := bind_eq_ok.mp run
    cases run
    exact kept
  · cases run
    exact kept

end Handlers

/-! ### The command loop -/

/-- Before each pass the arrays are kept and the token ends. -/
structure PassKept {σ : Type} (s : LoopState σ) : Prop where
  mem : Kept s.mem
  token : ∀ p, s.msg = some p → Ended (s.mem.bytes p.buf) p.off

private theorem command_pass_kept {σ : Type} {op : Command → σ → Result (Int × σ)} {undef : Int} {s t : LoopState σ}
    (kept : PassKept s) (pass : command_pass (Callees.of op) undef s = .ok (.inl t)) : PassKept t := by
  unfold command_pass at pass
  cases at_msg : s.msg with
  | none =>
    simp only [at_msg] at pass
    cases pass
  | some msg =>
    simp only [at_msg] at pass
    obtain ⟨a, dispatched, pass⟩ := bind_eq_ok.mp pass
    obtain ⟨⟨next, mem⟩, cut, pass⟩ := bind_eq_ok.mp pass
    have mem_kept := dispatch_kept kept.mem (kept.token msg at_msg) dispatched
    obtain ⟨rest, token⟩ := strtok_kept (s := none) mem_kept.size mem_kept.cursor cut
    dsimp only at pass
    split_ifs at pass
    · cases pass
    · cases pass
      exact ⟨rest, token⟩

/-- The states before the passes of a command loop. -/
def Passes {σ : Type} (h : Callees σ) (undef : Int) : LoopState σ → LoopState σ → Prop :=
  Relation.ReflTransGen fun s t => command_pass h undef s = .ok (.inl t)

private theorem passes_kept {σ : Type} {op : Command → σ → Result (Int × σ)} {undef : Int} {s t : LoopState σ}
    (kept : PassKept s) (passes : Passes (Callees.of op) undef s t) : PassKept t := by
  induction passes with
  | refl => exact kept
  | tail before pass ih => exact command_pass_kept ih pass

/-! ### Every copy of a message -/

/-- A copy from `off` of an array of `MAXBUFSIZE` into another one: a NUL is found in
    the one, and the string and the NUL have room in the other. -/
structure Inside (bytes : List UInt8) (off : Nat) : Prop where
  read : Ended (bytes.take MAXBUFSIZE) off
  written : (cstring (bytes.drop off)).length + 1 ≤ MAXBUFSIZE

/-- The letters whose branches copy what stands behind them. -/
def Copying (letter : Option UInt8) : Prop := letter = some 114 ∨ letter = some 119 ∨ letter = some 100

/-- The copies that `handle_db_message` makes: of the message, and at each pass of
    either command loop, which may be entered with any `ret` and any datastore. -/
def CopiesInside (mem : Mem Buf) (pkt_in : Mbuf) : Prop :=
  Inside (pkt_in.data.drop (app_offset + offsetOf app_hdr 0)) 0 ∧
  ∀ msg mem', (mem.strcpy .message pkt_in.message).strtok (some ⟨.message, 0⟩) (ascii "@") = some (msg, mem') →
    ∀ h, (h = multiCallees ∨ ∃ worker_id, h = singleCallees worker_id) →
      ∀ undef ret rocks s, Passes h undef ⟨msg, ret, mem', rocks, []⟩ s →
        ∀ p, s.msg = some p → Copying (s.mem.str p).head? → Inside (s.mem.bytes p.buf) (p.off + 1)

/-- Every copy stays in its arrays exactly when the message field of the packet has
    a NUL. -/
theorem copies_inside_iff {mem : Mem Buf} (arrays : ∀ b, (mem.bytes b).length = MAXBUFSIZE) (pkt_in : Mbuf) :
    CopiesInside mem pkt_in ↔ (0 : UInt8) ∈ (pkt_in.data.drop (app_offset + offsetOf app_hdr 0)).take MAXBUFSIZE := by
  set field := pkt_in.data.drop (app_offset + offsetOf app_hdr 0) with fieldIs
  constructor
  · intro inside
    exact inside.1.read
  · intro nul
    have ended : Ended (field.take MAXBUFSIZE) 0 := nul
    have short : (cstring field).length < MAXBUFSIZE := by
      obtain ⟨k, is⟩ := List.mem_iff_getElem?.mp nul
      rw [List.getElem?_take] at is
      split_ifs at is with inside
      exact lt_of_le_of_lt (cstring_before is) inside
    refine ⟨⟨ended, short⟩, ?_⟩
    intro msg mem' cut h loops undef ret rocks s passes p token letter
    obtain ⟨size, copied⟩ := strcpy_ended .message pkt_in.message arrays short
    have start : PassKept (⟨msg, ret, mem', rocks, []⟩ : LoopState Env) := by
      obtain ⟨kept, first⟩ := strtok_kept size (fun p is => by cases is; exact copied) (congrArg need cut)
      exact ⟨kept, first⟩
    have of_op : ∃ op, h = Callees.of op := by
      rcases loops with rfl | ⟨worker_id, rfl⟩
      · exact ⟨multi, rfl⟩
      · exact ⟨single worker_id, rfl⟩
    obtain ⟨op, rfl⟩ := of_op
    obtain ⟨kept, ends⟩ := passes_kept start passes
    obtain ⟨c, letter⟩ : ∃ c, (s.mem.str p).head? = some c := by
      rcases letter with r | w | d
      · exact ⟨_, r⟩
      · exact ⟨_, w⟩
      · exact ⟨_, d⟩
    obtain ⟨read, written⟩ := argument_fits kept (ends p token) letter
    refine ⟨?_, written⟩
    rw [List.take_of_length_le (kept.size p.buf).le]
    exact read

/-- A packet with this message in the application header, and `behind` in the rest
    of the buffer. -/
def received (message : Text) (behind : List UInt8) : Mbuf :=
  ⟨List.replicate app_offset 0 ++ message ++ behind, 1072, 1072, 0, 0, 0, []⟩

/-- The arrays before a message, and two commands. -/
theorem terminated_copies_inside :
    CopiesInside ⟨fun _ => List.replicate MAXBUFSIZE 7, none⟩ (received (ascii "w 1 a@r 1") (List.replicate 1021 0)) := by
  refine (copies_inside_iff (fun _ => List.length_replicate) _).mpr ?_
  decide +kernel

/-- 1024 characters fill the message field, and `strcpy` goes on behind it. -/
theorem full_message_overruns :
    ¬ CopiesInside ⟨fun _ => List.replicate MAXBUFSIZE 7, none⟩
      (received (List.replicate MAXBUFSIZE 114) (List.replicate 6 0)) := by
  intro inside
  have nul := inside.1.read
  revert nul
  unfold Ended
  decide +kernel

end Shardb.Copies
