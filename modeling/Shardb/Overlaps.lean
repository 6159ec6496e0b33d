import Shardb.Traffic

/-!
# Copies within `val`

Behind the first data command the tokens of the command loop stand in `val`, and
`strcpy(val, msg + 1)` copies within it. Where the string is longer than what stands
before it in `val` the copy overlaps, and C does not say what `strcpy` leaves. Elsewhere
the model moves the text, as `memmove` does; here it is left to a `strcpy` of which only
the documented is known. Which copies overlap can be read off the text of a message
(`marked`), and up to the first of them that is reached the handler does what it does
when the text is moved (`apart_same`).
-/

namespace Shardb.Overlaps
open Shardb.Bytes (Text ascii)
open Shardb.CStrings Shardb.Loops Shardb.Rocks Shardb.Datastore Shardb.Handlers Shardb.Server Shardb.Tokens
open Shardb.Interpreter Shardb.SinglePartition Shardb.MultiPartition
open Shardb.Traffic (Delivery)

/-! ### The copy -/

/-- The string at `src` is in `val` and reaches back to where a copy of it to the start
    of `val` ends. -/
def Overlap (mem : Mem Buf) (src : Ptr Buf) : Prop := src.buf = .val ∧ src.off ≤ (mem.str src).length

instance (mem : Mem Buf) (src : Ptr Buf) : Decidable (Overlap mem src) :=
  inferInstanceAs (Decidable (src.buf = .val ∧ src.off ≤ (mem.str src).length))

/-- What `strcpy(val, src)` leaves. -/
abbrev Strcpy := Mem Buf → Ptr Buf → Mem Buf

/-- The text is moved, whether it overlaps or not. -/
def moves : Strcpy := fun mem src => mem.strcpy .val (mem.str src)

/-- What C says of `strcpy`: nothing about copies that overlap. -/
def Documented (strcpy : Strcpy) : Prop := ∀ mem src, ¬ Overlap mem src → strcpy mem src = moves mem src

/-- It may leave nothing of a text that overlaps. -/
def wipes : Strcpy := fun mem src => if Overlap mem src then mem.strcpy .val [] else moves mem src

theorem moves_documented : Documented moves := fun _ _ _ => rfl

theorem wipes_documented : Documented wipes := fun _ _ apart => if_neg apart

/-! ### The handler -/

section Loop
variable {σ : Type} (strcpy : Strcpy) (h : Callees σ)

/-- One command, as `Server.dispatch`. -/
def dispatch (msg : Ptr Buf) (ret : Option Int) (mem : Mem Buf) (rocks : σ) : Result (Answer σ) :=
  let letter := (mem.str msg).head?
  let copied := strcpy mem ⟨msg.buf, msg.off + 1⟩
  if letter = some 114 then h.handle_read rocks copied ⟨.val, 0⟩
  else if letter = some 119 then h.handle_write rocks copied ⟨.val, 0⟩
  else if letter = some 100 then h.handle_delete rocks copied ⟨.val, 0⟩
  else Server.dispatch h msg ret mem rocks

def command_pass (undef : Int) (s : LoopState σ) : Result (LoopState σ ⊕ LoopEnd σ) :=
  match s.msg with
  | none => .ok (.inr ⟨false, s.mem, s.rocks, s.log⟩)
  | some msg => do
    let a ← dispatch strcpy h msg s.ret s.mem s.rocks
    let (next, mem) ← need (a.mem.strtok none (ascii "@"))
    let log := s.log ++ [(a.call, a.ret)]
    if a.ret.getD undef < 0 then return .inr ⟨true, mem, a.rocks, log⟩
    else return .inl ⟨next, a.ret, mem, a.rocks, log⟩

def command_loop (undef : Int) (fuel : Nat) (msg : Option (Ptr Buf)) (mem : Mem Buf) (ret : Option Int) (rocks : σ) :
    Result (LoopEnd σ) :=
  loop .unfinished (command_pass strcpy h undef) fuel ⟨msg, ret, mem, rocks, []⟩

end Loop

/-- `handle_db_message` with a `strcpy` of which only the documented is known. -/
def handle_db_message (strcpy : Strcpy) (app : App) (fuel : Nat) (undef : Int) (mem : Mem Buf) (pkt_in : Mbuf)
    (worker_id : Nat) (rocks : Env) : Result Done := do
  let rocks := Env.received rocks
  let msgtype := pkt_in.msgtype
  let leader := pkt_in.leader
  let mem := mem.strcpy .message pkt_in.message
  let (msg, mem) ← need (mem.strtok (some ⟨.message, 0⟩) (ascii "@"))
  if msgtype = 0 then
    if leader = worker_id then
      single_partition app fuel (command_loop strcpy (singleCallees worker_id) undef fuel msg) worker_id mem pkt_in rocks
    else return ⟨-1, rocks, mem, pkt_in, []⟩
  else if msgtype = 1 then
    match ← await_others leader rocks with
    | .inr rocks => return ⟨-1, rocks, mem, pkt_in, []⟩
    | .inl rocks =>
      multi_partition app fuel (command_loop strcpy multiCallees undef fuel msg) leader worker_id mem pkt_in rocks
  else return ⟨-1, rocks, mem, pkt_in, []⟩

/-- A message with such a `strcpy`. -/
def handle (strcpy : Strcpy) (d : Delivery) (rocks : Env) : Result Done :=
  handle_db_message strcpy d.app d.fuel d.undef d.mem d.pkt d.worker_id rocks

/-! ### Which copies overlap -/

/-- At most `n` tokens from a text on, each with whether its copy overlaps. The text ends
    where a string of `length` bytes in `val` ends, or is in `message` while there is no
    `length`; what ends there with `k` bytes starts at `length - k`. -/
def marked : Nat → Option Nat → Text → List (Text × Bool)
  | 0, _, _ => []
  | n + 1, room, text =>
    match nextToken (ascii "@") text with
    | none => []
    | some (tok, rest) =>
      let from_here := (text.dropWhile (· ∈ ascii "@")).length
      let overlaps := decide (Copies tok ∧ ∃ length ∈ room, length + 2 ≤ from_here + tok.length)
      (tok, overlaps) :: marked n (if Copies tok then some (tok.drop 1).length else room) (after tok rest)

/-- The tokens of a message. -/
def markedOf (room : Option Nat) (text : Text) : List (Text × Bool) := marked text.length room text

/-- No copy of the message overlaps. -/
def Apart (text : Text) : Prop := ∀ tok ∈ markedOf none text, tok.2 = false

instance (text : Text) : Decidable (Apart text) := inferInstanceAs (Decidable (∀ tok ∈ markedOf none text, tok.2 = false))

/-- The tokens in front of the first whose copy overlaps. -/
def front (toks : List (Text × Bool)) : List Text := (toks.takeWhile fun tok => tok.2 = false).map Prod.fst

/-- The commands in front of the first copy that overlaps. -/
def frontOf (text : Text) : List Command := (front (markedOf none text)).filterMap parse

theorem marked_enough : ∀ {n m : Nat} {room : Option Nat} {text : Text}, text.length ≤ n → text.length ≤ m →
    marked n room text = marked m room text := by
  have stop : ∀ n room, marked n room [] = [] := by
    intro n room
    cases n with
    | zero => rfl
    | succ n => simp [marked, nextToken]
  intro n
  induction n with
  | zero =>
    intro m room text small _
    rw [List.length_eq_zero_iff.mp (Nat.le_zero.mp small), stop, stop]
  | succ n ih =>
    intro m room text small large
    cases m with
    | zero => rw [List.length_eq_zero_iff.mp (Nat.le_zero.mp large), stop, stop]
    | succ m =>
      rw [marked, marked]
      cases found : nextToken (ascii "@") text with
      | none => rfl
      | some parts =>
        obtain ⟨tok, rest⟩ := parts
        have shorter := after_length found
        simp only
        rw [ih (m := m) (by omega) (by omega)]

theorem markedOf_none (room : Option Nat) {text : Text} (nothing : nextToken (ascii "@") text = none) :
    markedOf room text = [] := by
  unfold markedOf
  cases text.length with
  | zero => rfl
  | succ n => rw [marked, nothing]

theorem markedOf_some (room : Option Nat) {text tok rest : Text} (found : nextToken (ascii "@") text = some (tok, rest)) :
    markedOf room text =
      (tok, decide (Copies tok ∧ ∃ length ∈ room, length + 2 ≤ (text.dropWhile (· ∈ ascii "@")).length + tok.length)) ::
        markedOf (if Copies tok then some (tok.drop 1).length else room) (after tok rest) := by
  have shorter := after_length found
  obtain ⟨n, enough⟩ : ∃ n, text.length = n + 1 := Nat.exists_eq_add_of_le' (by omega)
  rw [markedOf, enough, marked, found]
  simp only [markedOf]
  rw [marked_enough (n := n) (by omega) (Nat.le_refl _)]

/-- The tokens are those of the text. -/
theorem markedOf_tokens (room : Option Nat) (text : Text) : (markedOf room text).map Prod.fst = tokensOf text := by
  have along : ∀ (n : Nat) (room : Option Nat) (text : Text), (marked n room text).map Prod.fst = tokens n text := by
    intro n
    induction n with
    | zero => intro room text; rfl
    | succ n ih =>
      intro room text
      rw [marked, tokens]
      cases nextToken (ascii "@") text with
      | none => rfl
      | some parts => exact congrArg (parts.1 :: ·) (ih _ _)
  exact along _ _ _

/-! ### Until a copy overlaps -/

section Until
variable {σ : Type} (op : Command → σ → Result (Int × σ)) (undef : Int)

/-- No token whose copy overlaps is come to. -/
def Safe : List (Text × Bool) → Option Int → σ → Prop
  | [], _, _ => True
  | (_, true) :: _, _, _ => False
  | (tok, false) :: toks, ret, rocks =>
    ∀ call ret' rocks', runToken op tok ret rocks = .ok (call, ret', rocks') → 0 ≤ ret'.getD undef → Safe toks ret' rocks'

theorem apart_safe : ∀ {toks : List (Text × Bool)} (ret : Option Int) (rocks : σ), (∀ tok ∈ toks, tok.2 = false) →
    Safe op undef toks ret rocks := by
  intro toks
  induction toks with
  | nil => intros; trivial
  | cons tok toks ih =>
    intro ret rocks apart
    obtain ⟨tok, overlaps⟩ := tok
    obtain ⟨rfl, later⟩ := List.forall_mem_cons.mp apart
    exact fun _ ret' rocks' _ _ => ih ret' rocks' later

/-- Where the front of the tokens does not go through, nothing behind it is come to. -/
theorem front_safe : ∀ {toks : List (Text × Bool)} {ret : Option Int} {rocks : σ}
    (log : List (Option Command × Option Int)),
    (∀ rocks' log', runTokens op undef (front toks) ret rocks log ≠ .ok (false, rocks', log')) →
    Safe op undef toks ret rocks := by
  intro toks
  induction toks with
  | nil => intros; trivial
  | cons tok toks ih =>
    intro ret rocks log stops
    obtain ⟨tok, overlaps⟩ := tok
    cases overlaps with
    | true => exact absurd rfl (stops rocks log)
    | false =>
      intro call ret' rocks' ran going
      refine ih (log ++ [(call, ret')]) fun rocks'' log'' run => stops rocks'' log'' ?_
      have ahead : ¬ ret'.getD undef < 0 := by omega
      rw [← run, front, List.takeWhile_cons_of_pos rfl, List.map_cons]
      simp only [runTokens, ran, bind_ok, ahead, if_false]
      rfl

/-- A token of the front fails exactly when a token fails before a copy overlaps. -/
theorem front_fails_iff : ∀ {toks : List (Text × Bool)} {ret : Option Int} {rocks : σ}
    {log : List (Option Command × Option Int)} {rocks' : σ} {log' : List (Option Command × Option Int)},
    runTokens op undef (front toks) ret rocks log = .ok (true, rocks', log') ↔
      Safe op undef toks ret rocks ∧ runTokens op undef (toks.map Prod.fst) ret rocks log = .ok (true, rocks', log') := by
  intro toks
  induction toks with
  | nil => intro ret rocks log rocks' log'; exact ⟨fun run => ⟨trivial, run⟩, fun run => run.2⟩
  | cons tok toks ih =>
    intro ret rocks log rocks' log'
    obtain ⟨tok, overlaps⟩ := tok
    cases overlaps with
    | true => exact iff_of_false (by rintro ⟨⟩) fun both => both.1
    | false =>
      rw [front, List.takeWhile_cons_of_pos rfl, List.map_cons, List.map_cons, Safe]
      simp only [runTokens]
      cases ran : runToken op tok ret rocks with
      | error e => simp
      | ok answer =>
        obtain ⟨call, ret', next⟩ := answer
        simp only [bind_ok]
        by_cases negative : ret'.getD undef < 0
        · simp only [negative, if_true]
          refine ⟨fun run => ⟨?_, run⟩, fun run => run.2⟩
          intro _ _ _ same going
          cases same
          omega
        · simp only [negative, if_false]
          refine ih.trans (and_congr_left fun _ => ⟨?_, fun safe => safe _ _ _ rfl (by omega)⟩)
          intro safe _ _ _ same _
          cases same
          exact safe

end Until

/-! ### Where the tokens stand -/

/-- What starts at `p` and has `length` bytes ends where `room` says. -/
def Ends : Option Nat → Ptr Buf → Nat → Prop
  | none, p, _ => p.buf = .message
  | some room, p, length => p.buf = .val ∧ p.off + length = room

theorem ends_same {room : Option Nat} {p q : Ptr Buf} {k l : Nat} (ends : Ends room p k) (buf : q.buf = p.buf)
    (off : q.off + l = p.off + k) : Ends room q l := by
  cases room with
  | none => exact buf.trans ends
  | some room => exact ⟨buf.trans ends.1, off.trans ends.2⟩

/-- The copy for a token overlaps as the text says. -/
theorem overlap_iff {room : Option Nat} (mem : Mem Buf) {msg : Ptr Buf} {from_here : Nat} (ends : Ends room msg from_here) :
    Copies (mem.str msg) ∧ Overlap mem ⟨msg.buf, msg.off + 1⟩ ↔
      Copies (mem.str msg) ∧ ∃ length ∈ room, length + 2 ≤ from_here + (mem.str msg).length := by
  refine and_congr_right fun copies => ?_
  have starts : 1 ≤ (mem.str msg).length := by
    refine Nat.one_le_iff_ne_zero.mpr fun empty => ?_
    rw [Copies, List.length_eq_zero_iff.mp empty] at copies
    rcases copies with none | none | none <;> cases none
  have behind := congrArg List.length (str_advance (b := msg.buf) starts)
  rw [List.length_drop] at behind
  rw [Overlap]
  dsimp only
  rw [behind]
  cases room with
  | none =>
    refine iff_of_false (fun overlap => ?_) (by simp)
    rw [show msg.buf = .message from ends] at overlap
    cases overlap.1
  | some length =>
    obtain ⟨inVal, off⟩ := ends
    have same : msg.off + 1 ≤ (mem.str msg).length - 1 ↔ length + 2 ≤ from_here + (mem.str msg).length := by omega
    exact (and_iff_right inVal).trans (same.trans (by simp))

/-- The tokens a loop still has before it. -/
def before (room : Option Nat) (msg : Option (Ptr Buf)) (mem : Mem Buf) : List (Text × Bool) :=
  match msg, mem.cursor with
  | some p, some c =>
    (mem.str p, decide (Copies (mem.str p) ∧ Overlap mem ⟨p.buf, p.off + 1⟩)) ::
      markedOf (if Copies (mem.str p) then some ((mem.str p).drop 1).length else room) (after (mem.str p) (mem.str c))
  | _, _ => []

/-- The cursor of a loop that has a token before it. -/
def Placed (room : Option Nat) (msg : Option (Ptr Buf)) (mem : Mem Buf) : Prop :=
  msg.isSome → ∃ c, mem.cursor = some c ∧ Ends room c (mem.str c).length

/-- A call of the outer tokenizer moves on to the next token. -/
theorem strtok_before (room : Option Nat) {mem mem' : Mem Buf} {s msg : Option (Ptr Buf)} {p : Ptr Buf}
    (at_p : s.or mem.cursor = some p) (ends : Ends room p (mem.str p).length)
    (called : mem.strtok s (ascii "@") = some (msg, mem')) :
    before room msg mem' = markedOf room (mem.str p) ∧ Placed room msg mem' := by
  cases found : nextToken (ascii "@") (mem.str p) with
  | none =>
    obtain ⟨c, called', _, _⟩ := strtok_none at_p found
    rw [called] at called'
    cases called'
    exact ⟨(markedOf_none room found).symm, by rintro ⟨⟩⟩
  | some parts =>
    obtain ⟨tok, rest⟩ := parts
    obtain ⟨q, c, mem₁, called', tokIs, cursor, restIs, _⟩ := strtok_some at_p found
    rw [called] at called'
    cases called'
    obtain ⟨⟨left, left_off⟩, starts⟩ := strtok_places at_p called cursor
    obtain ⟨start, start_off⟩ := starts q rfl
    refine ⟨?_, fun _ => ⟨c, cursor, ends_same ends left left_off⟩⟩
    have overlaps := overlap_iff mem' (ends_same ends start start_off)
    rw [tokIs] at overlaps
    rw [markedOf_some room found]
    simp only [before, cursor, tokIs, restIs, overlaps]

/-! ### The loop with any `strcpy` -/

section Copy
variable {σ : Type} {strcpy : Strcpy}

/-- A token whose copy does not overlap is carried out as the text says. -/
theorem dispatch_same (documented : Documented strcpy) (h : Callees σ) {msg : Ptr Buf} {mem : Mem Buf}
    (apart : ¬ (Copies (mem.str msg) ∧ Overlap mem ⟨msg.buf, msg.off + 1⟩)) (ret : Option Int) (rocks : σ) :
    dispatch strcpy h msg ret mem rocks = Server.dispatch h msg ret mem rocks := by
  have moved (copies : Copies (mem.str msg)) :
      strcpy mem ⟨msg.buf, msg.off + 1⟩ = mem.strcpy .val (mem.str ⟨msg.buf, msg.off + 1⟩) :=
    documented mem _ fun overlap => apart ⟨copies, overlap⟩
  rw [dispatch, Server.dispatch]
  by_cases r : (mem.str msg).head? = some 114
  · simp only [if_pos r, moved (.inl r)]
  by_cases w : (mem.str msg).head? = some 119
  · simp only [if_neg r, if_pos w, moved (.inr (.inl w))]
  by_cases d : (mem.str msg).head? = some 100
  · simp only [if_neg r, if_neg w, if_pos d, moved (.inr (.inr d))]
  · simp only [if_neg r, if_neg w, if_neg d]

variable (op : Command → σ → Result (Int × σ)) (undef : Int)

/-- What a pass makes of the answer to its token. -/
def passed (msg : Option (Ptr Buf)) (mem : Mem Buf) (log : List (Option Command × Option Int))
    (answer : Option Command × Option Int × σ) : LoopState σ ⊕ LoopEnd σ :=
  if answer.2.1.getD undef < 0 then .inr ⟨true, mem, answer.2.2, log ++ [(answer.1, answer.2.1)]⟩
  else .inl ⟨msg, answer.2.1, mem, answer.2.2, log ++ [(answer.1, answer.2.1)]⟩

/-- One pass whose copy does not overlap, and what the loop then has before it. -/
theorem pass_same (documented : Documented strcpy) {room : Option Nat} {p : Ptr Buf} {mem : Mem Buf}
    (placed : Placed room (some p) mem) (apart : ¬ (Copies (mem.str p) ∧ Overlap mem ⟨p.buf, p.off + 1⟩)) :
    ∃ room' msg' mem', before room (some p) mem = (mem.str p, false) :: before room' msg' mem' ∧ Placed room' msg' mem' ∧
      ∀ ret rocks log, Server.command_pass (.of op) undef ⟨some p, ret, mem, rocks, log⟩ =
          (runToken op (mem.str p) ret rocks).map (passed undef msg' mem' log) ∧
        Overlaps.command_pass strcpy (.of op) undef ⟨some p, ret, mem, rocks, log⟩ =
          Server.command_pass (.of op) undef ⟨some p, ret, mem, rocks, log⟩ := by
  obtain ⟨c, at_c, ends⟩ := placed rfl
  obtain ⟨mem₁, carried, goes⟩ := dispatch_eq op (Eq.refl (mem.str p))
  obtain ⟨c₁, cursor₁, rest₁, copied, stayed⟩ := goes c at_c
  have ends₁ : Ends (if Copies (mem.str p) then some ((mem.str p).drop 1).length else room) c₁ (mem₁.str c₁).length := by
    by_cases copies : Copies (mem.str p)
    · rw [if_pos copies]
      exact copied copies
    · obtain ⟨rfl, rfl⟩ := stayed copies
      rw [if_neg copies]
      exact ends
  obtain ⟨msg', mem', called, -, -⟩ := strtok_pending none cursor₁
  obtain ⟨toks, placed'⟩ := strtok_before _ (s := none) cursor₁ ends₁ called
  rw [rest₁] at toks
  refine ⟨_, msg', mem', ?_, placed', fun ret rocks log => ⟨?_, ?_⟩⟩
  · rw [toks]
    simp only [before, at_c, apart, decide_false]
  · simp only [Server.command_pass, carried]
    cases runToken op (mem.str p) ret rocks with
    | error e => rfl
    | ok answer =>
      simp only [Except.map, bind_ok, called, need_some, passed]
      split_ifs <;> rfl
  · simp only [Overlaps.command_pass, Server.command_pass, dispatch_same documented _ apart]

/-- As long as no token is come to whose copy overlaps, it does not matter what `strcpy`
    makes of such copies. -/
theorem loop_same (documented : Documented strcpy) : ∀ {fuel : Nat} {room : Option Nat} {msg : Option (Ptr Buf)} {mem : Mem Buf}
    {ret : Option Int} {rocks : σ} {log : List (Option Command × Option Int)}, Placed room msg mem →
    Safe op undef (before room msg mem) ret rocks →
    loop .unfinished (command_pass strcpy (.of op) undef) fuel ⟨msg, ret, mem, rocks, log⟩ =
      loop .unfinished (Server.command_pass (.of op) undef) fuel ⟨msg, ret, mem, rocks, log⟩ := by
  intro fuel
  induction fuel with
  | zero => intros; rfl
  | succ fuel ih =>
    intro room msg mem ret rocks log placed safe
    cases msg with
    | none => rfl
    | some p =>
      obtain ⟨c, at_c, -⟩ := placed rfl
      have apart : ¬ (Copies (mem.str p) ∧ Overlap mem ⟨p.buf, p.off + 1⟩) := by
        intro overlaps
        simp only [before, at_c, overlaps, and_self, decide_true] at safe
        exact safe
      obtain ⟨room', msg', mem', split, placed', passes⟩ := pass_same op undef documented placed apart
      obtain ⟨once, same⟩ := passes ret rocks log
      rw [split] at safe
      rw [loop, loop, same, once]
      cases ran : runToken op (mem.str p) ret rocks with
      | error e => rfl
      | ok answer =>
        simp only [Except.map, passed]
        by_cases negative : answer.2.1.getD undef < 0
        · simp only [if_pos negative]
        · simp only [if_neg negative]
          exact ih placed' (safe _ _ _ ran (by omega))

/-- A command whose arguments are missing works with `NULL`. -/
def Crashes (op : Command → σ → Result (Int × σ)) : Prop :=
  ∀ rocks, op (.read none) rocks = .error .null ∧ op (.write none none) rocks = .error .null ∧
    op (.delete none) rocks = .error .null

variable {op}

theorem dispatch_wiped (crashes : Crashes op) {msg : Ptr Buf} {mem : Mem Buf} (copies : Copies (mem.str msg))
    (overlap : Overlap mem ⟨msg.buf, msg.off + 1⟩) (ret : Option Int) (rocks : σ) :
    dispatch wipes (.of op) msg ret mem rocks = .error .null := by
  obtain ⟨read, write, delete⟩ := crashes rocks
  have empty : (mem.strcpy .val []).str ⟨.val, 0⟩ = [] := strcpy_str mem .val List.not_mem_nil
  have nothing : word [] = none ∧ behindWord [] = [] := ⟨rfl, rfl⟩
  have wiped : wipes mem ⟨msg.buf, msg.off + 1⟩ = mem.strcpy .val [] := if_pos overlap
  simp only [dispatch, wiped, Callees.of]
  by_cases r : (mem.str msg).head? = some 114
  · obtain ⟨mem', c, called, -⟩ := key_handler_eq op .read (mem.strcpy .val []) ⟨.val, 0⟩
    rw [if_pos r, called, empty, nothing.1, read]
    rfl
  by_cases w : (mem.str msg).head? = some 119
  · obtain ⟨mem', c, called, -⟩ := keyval_handler_eq op (mem.strcpy .val []) ⟨.val, 0⟩
    rw [if_neg r, if_pos w, called, empty, nothing.1, nothing.2, nothing.1, write]
    rfl
  · have d : (mem.str msg).head? = some 100 := (copies.resolve_left r).resolve_left w
    obtain ⟨mem', c, called, -⟩ := key_handler_eq op .delete (mem.strcpy .val []) ⟨.val, 0⟩
    rw [if_neg r, if_neg w, if_pos d, called, empty, nothing.1, delete]
    rfl

/-- A loop that returns though such copies leave nothing has come to none. -/
theorem loop_wiped (crashes : Crashes op) : ∀ {fuel : Nat} {room : Option Nat} {msg : Option (Ptr Buf)} {mem : Mem Buf}
    {ret : Option Int} {rocks : σ} {log : List (Option Command × Option Int)} {e : LoopEnd σ}, Placed room msg mem →
    loop .unfinished (command_pass wipes (.of op) undef) fuel ⟨msg, ret, mem, rocks, log⟩ = .ok e →
    Safe op undef (before room msg mem) ret rocks := by
  intro fuel
  induction fuel with
  | zero =>
    intro room msg mem ret rocks log e _ run
    cases run
  | succ fuel ih =>
    intro room msg mem ret rocks log e placed run
    cases msg with
    | none => exact trivial
    | some p =>
      rw [loop] at run
      by_cases overlaps : Copies (mem.str p) ∧ Overlap mem ⟨p.buf, p.off + 1⟩
      · simp only [Overlaps.command_pass, dispatch_wiped crashes overlaps.1 overlaps.2, bind_error] at run
        cases run
      · obtain ⟨room', msg', mem', split, placed', passes⟩ := pass_same op undef wipes_documented placed overlaps
        obtain ⟨once, same⟩ := passes ret rocks log
        rw [split]
        intro call ret' rocks' ran going
        have ahead : ¬ ret'.getD undef < 0 := by omega
        rw [same, once, ran] at run
        simp only [Except.map, passed, if_neg ahead] at run
        exact ih placed' run

/-! The loop as the handler enters it. -/

variable {undef} {fuel : Nat} {mem mem' : Mem Buf} {msg : Option (Ptr Buf)} {text : Text} {ret : Option Int} {rocks : σ}
  (clean : (0 : UInt8) ∉ text) (called : (mem.strcpy .message text).strtok (some ⟨.message, 0⟩) (ascii "@") = some (msg, mem'))
include clean called

private theorem entered_before : before none msg mem' = markedOf none text ∧ Placed none msg mem' := by
  have enters := strtok_before none (s := some ⟨.message, 0⟩) (p := ⟨.message, 0⟩) rfl rfl called
  rwa [strcpy_str mem .message clean] at enters

theorem command_loop_same (documented : Documented strcpy) (safe : Safe op undef (markedOf none text) ret rocks) :
    command_loop strcpy (.of op) undef fuel msg mem' ret rocks = Server.command_loop (.of op) undef fuel msg mem' ret rocks := by
  obtain ⟨toks, placed⟩ := entered_before clean called
  exact loop_same op undef documented placed (toks ▸ safe)

theorem command_loop_wiped (crashes : Crashes op) {e : LoopEnd σ}
    (run : command_loop wipes (.of op) undef fuel msg mem' ret rocks = .ok e) : Safe op undef (markedOf none text) ret rocks := by
  obtain ⟨toks, placed⟩ := entered_before clean called
  exact toks ▸ loop_wiped undef crashes placed run

end Copy

theorem single_crashes (w : Nat) : Crashes (single w) := fun _ => ⟨rfl, rfl, rfl⟩

theorem multi_crashes : Crashes multi := fun _ => ⟨rfl, rfl, rfl⟩

/-! ### A message with any `strcpy` -/

/-- No copy that a call of the handler comes to overlaps: none on the transaction that a
    message for one shard begins, and none on the only worker. -/
structure Sound (d : Delivery) (rocks : Env) : Prop where
  single : d.pkt.msgtype = 0 → d.pkt.leader = d.worker_id → (rocks.shard d.worker_id).tx_db = true →
    (rocks.shard d.worker_id).tx = none → rocks.lib.fails .begin = false →
    Safe (single d.worker_id) d.undef (markedOf none d.pkt.message) (some 0)
      ((Env.received rocks).put d.worker_id (started d.worker_id ((Env.received rocks).cell d.worker_id)))
  multi : d.pkt.msgtype = 1 → d.pkt.leader = 0 → d.worker_id = 0 → rocks.num_workers = 1 →
    Safe multi d.undef (markedOf none d.pkt.message) none (entered (Env.received rocks))

theorem apart_sound {d : Delivery} (rocks : Env) (apart : Apart d.pkt.message) : Sound d rocks :=
  ⟨fun _ _ _ _ _ => apart_safe _ _ _ _ apart, fun _ _ _ _ => apart_safe _ _ _ _ apart⟩

/-- A message for one shard on which no transaction can be begun: its loop is not entered. -/
theorem single_partition_same {app : App} {fuel w : Nat} {run run' : Mem Buf → Option Int → Env → Result (LoopEnd Env)}
    {mem : Mem Buf} {pkt : Mbuf} {rocks : Env}
    (same : (rocks.cell w).tx_db = true → (rocks.cell w).tx = none → rocks.lib.fails .begin = false →
      run mem (some 0) (rocks.put w (started w (rocks.cell w))) = run' mem (some 0) (rocks.put w (started w (rocks.cell w)))) :
    single_partition app fuel run w mem pkt rocks = single_partition app fuel run' w mem pkt rocks := by
  rcases busy_or_fresh (rocks.cell w) with busy | ⟨opened, empty⟩
  · rw [single_partition_idle _ _ _ _ _ _ _ busy, single_partition_idle _ _ _ _ _ _ _ busy]
  · cases fine : rocks.lib.fails .begin with
    | true =>
      rw [single_partition_unbegun _ _ _ _ _ _ _ opened empty fine, single_partition_unbegun _ _ _ _ _ _ _ opened empty fine]
    | false =>
      rw [single_partition_begun _ _ _ _ _ _ _ opened empty fine, single_partition_begun _ _ _ _ _ _ _ opened empty fine,
        same opened empty fine]

theorem multi_partition_same {app : App} {fuel w : Nat} {run run' : Mem Buf → Option Int → Env → Result (LoopEnd Env)}
    {mem : Mem Buf} {pkt : Mbuf} {rocks : Env} (same : w = 0 → run mem none (entered rocks) = run' mem none (entered rocks)) :
    multi_partition app fuel run 0 w mem pkt rocks = multi_partition app fuel run' 0 w mem pkt rocks := by
  rw [multi_partition, multi_partition]
  by_cases first : 0 = w
  · simp only [if_pos first]
    rw [show Env.setWorker rocks 0 { rocks.workers 0 with transaction_done := 0 } = entered rocks from rfl, same first.symm]
  · simp only [if_neg first]

/-- Only the only worker gets past the others. -/
theorem await_others_alone {leader : Nat} {rocks rocks' : Env} (waited : await_others leader rocks = .ok (.inl rocks')) :
    leader = 0 ∧ rocks.num_workers = 1 ∧ rocks' = rocks := by
  by_cases crowded : leader ≠ 0 ∨ rocks.num_workers ≠ 1
  · obtain ⟨_, same, -⟩ := Handling.await_others_left rocks crowded waited
    cases same
  · obtain ⟨rfl, alone⟩ : leader = 0 ∧ rocks.num_workers = 1 := by omega
    rw [Handling.await_alone alone] at waited
    cases waited
    exact ⟨rfl, alone, rfl⟩

/-- A call of the handler does the same where its loop does, which is entered on a
    transaction just begun or by the only worker. -/
theorem handle_loops {strcpy : Strcpy} {d : Delivery} {rocks : Env}
    (single : ∀ {msg mem'}, (d.mem.strcpy .message d.pkt.message).strtok (some ⟨.message, 0⟩) (ascii "@") = some (msg, mem') →
      d.pkt.msgtype = 0 → d.pkt.leader = d.worker_id → (rocks.shard d.worker_id).tx_db = true →
      (rocks.shard d.worker_id).tx = none → rocks.lib.fails .begin = false →
      command_loop strcpy (singleCallees d.worker_id) d.undef d.fuel msg mem' (some 0)
          ((Env.received rocks).put d.worker_id (started d.worker_id ((Env.received rocks).cell d.worker_id))) =
        Server.command_loop (singleCallees d.worker_id) d.undef d.fuel msg mem' (some 0)
          ((Env.received rocks).put d.worker_id (started d.worker_id ((Env.received rocks).cell d.worker_id))))
    (multi : ∀ {msg mem'}, (d.mem.strcpy .message d.pkt.message).strtok (some ⟨.message, 0⟩) (ascii "@") = some (msg, mem') →
      d.pkt.msgtype = 1 → d.pkt.leader = 0 → d.worker_id = 0 → rocks.num_workers = 1 →
      command_loop strcpy multiCallees d.undef d.fuel msg mem' none (entered (Env.received rocks)) =
        Server.command_loop multiCallees d.undef d.fuel msg mem' none (entered (Env.received rocks))) :
    handle strcpy d rocks = d.handle rocks := by
  obtain ⟨msg, mem', called⟩ := first_token d.mem d.pkt.message
  simp only [handle, Delivery.handle, Overlaps.handle_db_message, Server.handle_db_message, called, need_some, bind_ok]
  by_cases type : d.pkt.msgtype = 0
  · by_cases leader : d.pkt.leader = d.worker_id
    · simp only [if_pos type, if_pos leader]
      exact single_partition_same fun opened empty fine => single called type leader opened empty fine
    · simp only [if_pos type, if_neg leader]
  · by_cases several : d.pkt.msgtype = 1
    · simp only [if_neg type, if_pos several]
      cases waited : await_others d.pkt.leader (Env.received rocks) with
      | error e => rfl
      | ok left =>
        cases left with
        | inr rocks' => rfl
        | inl rocks' =>
          obtain ⟨leader, alone, rfl⟩ := await_others_alone waited
          simp only [bind_ok, leader]
          exact multi_partition_same fun first => multi called several leader first alone
    · simp only [if_neg type, if_neg several]

/-- What `strcpy` makes of copies that overlap does not matter to a call that comes to
    none. -/
theorem handle_same {strcpy : Strcpy} (documented : Documented strcpy) {d : Delivery} {rocks : Env} (sound : Sound d rocks) :
    handle strcpy d rocks = d.handle rocks := by
  have clean := Handling.message_clean d.pkt
  refine handle_loops (fun called type leader opened empty fine => ?_) fun called type leader first alone => ?_
  · exact command_loop_same clean called documented (sound.single type leader opened empty fine)
  · exact command_loop_same clean called documented (sound.multi type leader first alone)

/-- Text that is moved is copied as the model copies it. -/
theorem handle_moves (d : Delivery) (rocks : Env) : handle moves d rocks = d.handle rocks := by
  have dispatches {σ : Type} (h : Callees σ) : dispatch moves h = Server.dispatch h := by
    funext msg ret mem rocks
    rw [dispatch, Server.dispatch]
    split_ifs <;> rfl
  have passes {σ : Type} (h : Callees σ) (undef : Int) : command_pass moves h undef = Server.command_pass h undef := by
    funext s
    obtain ⟨msg, ret, mem, rocks, log⟩ := s
    cases msg with
    | none => rfl
    | some msg => simp only [Overlaps.command_pass, Server.command_pass, dispatches]
  have loops {σ : Type} (h : Callees σ) : command_loop moves h = Server.command_loop h := by
    funext undef fuel msg mem ret rocks
    rw [command_loop, Server.command_loop, passes]
  exact handle_loops (fun _ _ _ _ _ _ => by rw [loops]) fun _ _ _ _ _ => by rw [loops]

/-- A call that returns though such copies leave nothing has come to none. -/
theorem handle_wiped {d : Delivery} {rocks : Env} {done : Done} (answer : handle wipes d rocks = .ok done) : Sound d rocks := by
  obtain ⟨msg, mem', called⟩ := first_token d.mem d.pkt.message
  have clean := Handling.message_clean d.pkt
  simp only [handle, Overlaps.handle_db_message, called, need_some, bind_ok] at answer
  constructor
  · intro type leader opened empty fine
    rw [if_pos type, if_pos leader, single_partition_begun _ _ _ _ _ _ (Env.received rocks) opened empty fine] at answer
    obtain ⟨e, ran, -⟩ := bind_eq_ok.mp answer
    exact command_loop_wiped clean called (single_crashes _) ran
  · intro type leader first alone
    have passed : await_others 0 (Env.received rocks) = .ok (.inl (Env.received rocks)) := Handling.await_alone alone
    simp only [type, leader, first, Nat.one_ne_zero, if_false, if_true, passed, bind_ok] at answer
    obtain ⟨e, ran, -⟩ := multi_settles (Env.received rocks) alone answer
    exact command_loop_wiped clean called multi_crashes ran

/-! ### Which messages are sound -/

section Front
variable {σ : Type} (op : Command → σ → Result (Int × σ)) {undef : Int}

/-- A first token that is a command assigns `ret`. -/
theorem runTokens_head {toks : List Text} (begins : ∀ tok ∈ toks.head?, (parse tok).isSome) (rocks : σ) :
    runTokens op undef toks none rocks [] = runTokens op undef toks (some 0) rocks [] := by
  cases toks with
  | nil => rfl
  | cons tok toks =>
    obtain ⟨command, letter⟩ := Option.isSome_iff_exists.mp (begins tok rfl)
    simp only [runTokens, runToken, letter]

/-- Tokens end as the commands do that they are carried out as. -/
theorem tokens_end_iff (undef : Int) {toks : List Text} (failed : Bool) (rocks : σ) :
    (∃ rocks' log', runTokens op undef toks (some 0) rocks [] = .ok (failed, rocks', log')) ↔
      ∃ rocks' calls, runCommands op (toks.filterMap parse) rocks = .ok (failed, rocks', calls) := by
  have same := runTokens_eq op undef toks (some 0) rocks [] (Int.le_refl 0)
  constructor
  · rintro ⟨rocks', log', run⟩
    rw [run] at same
    obtain ⟨⟨failed', left, calls⟩, ran, ends⟩ := ok_of_map same.symm
    obtain ⟨rfl, -⟩ := Prod.mk.inj ends
    exact ⟨left, calls, ran⟩
  · rintro ⟨rocks', calls, run⟩
    rw [run] at same
    obtain ⟨⟨failed', left, log'⟩, ran, ends⟩ := ok_of_map same
    obtain ⟨rfl, -⟩ := Prod.mk.inj ends
    exact ⟨left, log', ran⟩

/-- One of the commands in front of the first copy that overlaps fails exactly when a
    command of the text fails and no such copy is come to before. -/
theorem frontOf_fails_iff {text : Text} {ret : Option Int}
    (assigned : ret = some 0 ∨ ret = none ∧ ∀ tok ∈ (tokensOf text).head?, (parse tok).isSome) (rocks : σ) :
    (∃ rocks' calls, runCommands op (frontOf text) rocks = .ok (true, rocks', calls)) ↔
      Safe op undef (markedOf none text) ret rocks ∧
        ∃ rocks' calls, runCommands op (commandsOf text) rocks = .ok (true, rocks', calls) := by
  have heads : ∀ tok ∈ (front (markedOf none text)).head?, tok ∈ (tokensOf text).head? := by
    intro tok first
    rw [front, List.head?_map, List.head?_takeWhile] at first
    obtain ⟨marked, head, rfl⟩ := Option.map_eq_some_iff.mp first
    rw [← markedOf_tokens none text, List.head?_map]
    exact congrArg (Option.map Prod.fst) (Option.filter_eq_some_iff.mp head).1
  have enters {toks : List Text} (begins : ∀ tok ∈ toks.head?, tok ∈ (tokensOf text).head?) :
      runTokens op undef toks ret rocks [] = runTokens op undef toks (some 0) rocks [] := by
    rcases assigned with rfl | ⟨rfl, parsed⟩
    · rfl
    · exact runTokens_head op (fun tok first => parsed tok (begins tok first)) rocks
  have whole := markedOf_tokens none text
  rw [frontOf, commandsOf, ← tokens_end_iff op undef, ← tokens_end_iff op undef, ← enters heads,
    ← enters fun _ first => first, ← whole]
  simp only [front_fails_iff]
  constructor
  · rintro ⟨rocks', log', safe, run⟩
    exact ⟨safe, rocks', log', run⟩
  · rintro ⟨safe, rocks', log', run⟩
    exact ⟨rocks', log', safe, run⟩

end Front

/-- A message that is carried out copies no text over itself: no copy of it overlaps, or,
    of a message for one shard, a command in front of the first such copy fails. -/
structure Clear (d : Delivery) (rocks : Env) : Prop where
  single : d.pkt.msgtype = 0 → d.pkt.leader = d.worker_id → Apart d.pkt.message ∨
    interpret (begun (contents (rocks.shard d.worker_id).committed)) (frontOf d.pkt.message) = none
  multi : d.pkt.msgtype = 1 → rocks.num_workers = 1 → Apart d.pkt.message

theorem clear_sound {d : Delivery} {rocks : Env} (calm : ∀ t c, rocks.lib.faults t c = false) (clear : Clear d rocks) :
    Sound d rocks := by
  refine ⟨fun type leader opened _ _ => ?_, fun type _ _ alone => apart_safe _ _ _ _ (clear.multi type alone)⟩
  rcases clear.single type leader with apart | fails
  · exact apart_safe _ _ _ _ apart
  · refine front_safe _ _ [] fun rocks' log' run => ?_
    -- the front would be accepted
    obtain ⟨left, calls, ran⟩ := (tokens_end_iff _ _ false _).mp ⟨rocks', log', run⟩
    rw [runCommands_single] at ran
    obtain ⟨⟨failed, c, calls⟩, onCell, ends⟩ := ok_of_map ran
    obtain ⟨rfl, -⟩ := Prod.mk.inj ends
    obtain ⟨tx, _, outcome⟩ := runCommands_interpreted (started_serving d.worker_id opened) onCell
    obtain ⟨_, result, _⟩ := outcome.resolve_right (by simp)
    have calmly := interpretAt_calm calm (frontOf d.pkt.message)
      (started d.worker_id ((Env.received rocks).cell d.worker_id)).lib.clock
      (begun (contents (rocks.shard d.worker_id).committed))
    rw [fails] at calmly
    cases calmly.symm.trans result

/-- A message is handled by one of the workers, with such a `strcpy`. -/
structure Handles (strcpy : Strcpy) (rocks : Env) (handled : Delivery × Done) (rocks' : Env) : Prop where
  worker : handled.1.worker_id < rocks.num_workers
  answer : handle strcpy handled.1 rocks = .ok handled.2
  left : handled.2.rocks = rocks'

/-- The message copies no text over itself, or such text is moved. -/
def Copied (strcpy : Strcpy) (d : Delivery) (rocks : Env) : Prop := strcpy = moves ∨ Clear d rocks

theorem copied_handle {strcpy : Strcpy} (documented : Documented strcpy) {d : Delivery} {rocks : Env}
    (calm : ∀ t c, rocks.lib.faults t c = false) (copied : Copied strcpy d rocks) : handle strcpy d rocks = d.handle rocks := by
  rcases copied with rfl | clear
  · exact handle_moves d rocks
  · exact handle_same documented (clear_sound calm clear)

end Shardb.Overlaps
