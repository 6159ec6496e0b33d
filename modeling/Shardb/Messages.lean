import Shardb.Tokens

/-!
# Messages as clients write them

A message is written as a list of commands with `'@'` between them. The loop
hears of them up to the first data command: what stands behind it was in the
hands of the cursor that the handler's own `strtok` moved away.
-/

namespace Shardb.Messages
open Shardb.Bytes Shardb.CStrings Shardb.Loops Shardb.Datastore Shardb.Handlers Shardb.Server Shardb.Tokens

/-! ### Texts -/

/-- What can stand for a key or a value. -/
def Argument (text : Text) : Prop := text ≠ [] ∧ ∀ c ∈ text, c ≠ 0 ∧ c ≠ 32 ∧ c ≠ 64

/-- A command with all its arguments. -/
def WellFormed : Command → Prop
  | .read key => ∃ k, key = some k ∧ Argument k
  | .write key val => ∃ k v, key = some k ∧ val = some v ∧ Argument k ∧ Argument v
  | .delete key => ∃ k, key = some k ∧ Argument k
  | .savepoint => True
  | .rollback => True

/-- A command as it is written: `r K`, `w K V`, `d K`, `s`, `b`. -/
def spell : Command → Text
  | .read key => ascii "r " ++ key.getD []
  | .write key val => ascii "w " ++ key.getD [] ++ ascii " " ++ val.getD []
  | .delete key => ascii "d " ++ key.getD []
  | .savepoint => ascii "s"
  | .rollback => ascii "b"

/-- Commands with the number of blanks behind each, separated by `'@'`, which
    may also lead the message. -/
def messageText (leading : Bool) (cmds : List (Command × Nat)) : Text :=
  (if leading then ascii "@" else []) ++
    List.intercalate (ascii "@") (cmds.map (fun c => spell c.1 ++ List.replicate c.2 32))

def isData : Command → Bool
  | .read _ | .write _ _ | .delete _ => true
  | .savepoint | .rollback => false

/-- The commands up to the first data command, that one included. -/
def upToData : List Command → List Command
  | [] => []
  | c :: cs => if isData c then [c] else c :: upToData cs

/-! ### Tokens of a written text -/

section Fields
variable {delim : List UInt8} {field : Text}

theorem nextToken_skip {c : UInt8} {text : Text} (inside : c ∈ delim) :
    nextToken delim (c :: text) = nextToken delim text := by
  rw [nextToken, nextToken, List.dropWhile_cons_of_pos (by simpa using inside)]

/-- A field up to a delimiter, or up to the end, is a token. -/
theorem nextToken_field {rest : Text} (nonempty : field ≠ []) (outside : ∀ c ∈ field, c ∉ delim)
    (stops : ∀ c ∈ rest.head?, c ∈ delim) : nextToken delim (field ++ rest) = some (field, rest.drop 1) := by
  obtain ⟨c, r, rfl⟩ := List.exists_cons_of_ne_nil nonempty
  have start : (c :: r ++ rest).dropWhile (· ∈ delim) = c :: r ++ rest :=
    List.dropWhile_cons_of_neg (by simpa using outside c List.mem_cons_self)
  have keep : ∀ b ∈ c :: r, decide (b ∉ delim) = true := fun b member => by simpa using outside b member
  have stop : rest.takeWhile (· ∉ delim) = [] ∧ rest.dropWhile (· ∉ delim) = rest := by
    cases rest with
    | nil => exact ⟨rfl, rfl⟩
    | cons b t =>
      have := stops b rfl
      exact ⟨List.takeWhile_cons_of_neg (by simpa using this), List.dropWhile_cons_of_neg (by simpa using this)⟩
  rw [nextToken, start, List.cons_append]
  simp only [Option.some.injEq, Prod.mk.injEq]
  rw [← List.cons_append, List.takeWhile_append_of_pos keep, List.dropWhile_append_of_pos keep, stop.1, stop.2,
    List.append_nil]
  exact ⟨rfl, rfl⟩

end Fields

/-- An argument up to a blank, or up to the end, is a word. -/
private theorem word_field {v rest : Text} (argument : Argument v) (stops : ∀ c ∈ rest.head?, c = 32) :
    word (v ++ rest) = some v ∧ behindWord (v ++ rest) = rest.drop 1 := by
  have blank : ascii " " = [32] := by decide
  have found : nextToken (ascii " ") (v ++ rest) = some (v, rest.drop 1) := by
    rw [blank, nextToken_field argument.1]
    · intro c member inside
      exact (argument.2 c member).2.1 (by simpa using inside)
    · intro c first
      simpa using stops c first
  exact ⟨by rw [word, found]; rfl, by rw [behindWord, found]; rfl⟩

/-- The same with the blank that stands behind a command's letter. -/
private theorem word_blank {k : Text} (rest : Text) (argument : Argument k) (stops : ∀ c ∈ rest.head?, c = 32) :
    word (32 :: (k ++ rest)) = some k ∧ behindWord (32 :: (k ++ rest)) = rest.drop 1 := by
  have blank : ascii " " = [32] := by decide
  have skip : nextToken (ascii " ") (32 :: (k ++ rest)) = nextToken (ascii " ") (k ++ rest) := by
    rw [blank, nextToken_skip (by simp)]
  rw [word, behindWord, skip]
  exact word_field argument stops

private theorem blanks_head (n : Nat) : ∀ c ∈ (List.replicate n (32 : UInt8)).head?, c = 32 := by
  intro c first
  exact List.eq_of_mem_replicate (List.mem_of_mem_head? first)

/-- A written command is carried out as what it says, and a data command takes
    the cursor to the blanks behind it. -/
theorem parse_spell {c : Command} (written : WellFormed c) (n : Nat) (rest : Text) :
    parse (spell c ++ List.replicate n 32) = some c ∧
      after (spell c ++ List.replicate n 32) rest = if isData c then List.replicate (n - 1) 32 else rest := by
  have dropped : (List.replicate n (32 : UInt8)).drop 1 = List.replicate (n - 1) 32 := List.drop_replicate
  have r : ascii "r " = [114, 32] := by decide
  have w : ascii "w " = [119, 32] := by decide
  have d : ascii "d " = [100, 32] := by decide
  have s : ascii "s" = [115] := by decide
  have b : ascii "b" = [98] := by decide
  have blank : ascii " " = [32] := by decide
  cases c with
  | read key =>
    obtain ⟨k, rfl, argument⟩ := written
    obtain ⟨key, behind⟩ := word_blank _ argument (blanks_head n)
    constructor
    · simp [parse, spell, r, key]
    · simp [after, spell, r, behind, isData]
  | write key val =>
    obtain ⟨k, v, rfl, rfl, keyArgument, valArgument⟩ := written
    obtain ⟨key, behindKey⟩ := word_blank (32 :: (v ++ List.replicate n 32)) keyArgument (by simp)
    obtain ⟨val, behindVal⟩ := word_field valArgument (blanks_head n)
    simp only [List.drop_one, List.tail_cons] at key behindKey
    constructor
    · simp [parse, spell, w, blank, key, behindKey, val]
    · simp [after, spell, w, blank, behindKey, behindVal, isData]
  | delete key =>
    obtain ⟨k, rfl, argument⟩ := written
    obtain ⟨key, behind⟩ := word_blank _ argument (blanks_head n)
    constructor
    · simp [parse, spell, d, key]
    · simp [after, spell, d, behind, isData]
  | savepoint => constructor <;> simp [parse, after, spell, s, isData]
  | rollback => constructor <;> simp [parse, after, spell, b, isData]

/-- A written command holds no NUL and no `'@'`. -/
theorem spell_separate {c : Command} (written : WellFormed c) (n : Nat) :
    spell c ++ List.replicate n 32 ≠ [] ∧ ∀ b ∈ spell c ++ List.replicate n 32, b ≠ 0 ∧ b ≠ 64 := by
  have argument : ∀ {k : Text}, Argument k → ∀ b ∈ k, b ≠ 0 ∧ b ≠ 64 :=
    fun argument b member => ⟨(argument.2 b member).1, (argument.2 b member).2.2⟩
  have blanks : ∀ b ∈ List.replicate n (32 : UInt8), b ≠ 0 ∧ b ≠ 64 := by
    intro b member
    rw [List.eq_of_mem_replicate member]
    decide
  suffices spelled : ∀ b ∈ spell c, b ≠ 0 ∧ b ≠ 64 by
    refine ⟨?_, List.forall_mem_append.mpr ⟨spelled, blanks⟩⟩
    have start : spell c ≠ [] := by cases c <;> simp [spell, ascii]
    exact fun empty => start (List.append_eq_nil_iff.mp empty).1
  cases c with
  | read key =>
    obtain ⟨k, rfl, key⟩ := written
    exact List.forall_mem_append.mpr ⟨by decide +kernel, argument key⟩
  | write key val =>
    obtain ⟨k, v, rfl, rfl, key, val⟩ := written
    simp only [spell, List.forall_mem_append]
    exact ⟨⟨⟨by decide +kernel, argument key⟩, by decide +kernel⟩, argument val⟩
  | delete key =>
    obtain ⟨k, rfl, key⟩ := written
    exact List.forall_mem_append.mpr ⟨by decide +kernel, argument key⟩
  | savepoint => decide +kernel
  | rollback => decide +kernel

/-- Blanks alone hold no command. -/
private theorem commandsOf_blanks (n : Nat) : commandsOf (List.replicate n 32) = [] := by
  have at_sign : ascii "@" = [64] := by decide
  cases n with
  | zero => decide
  | succ n =>
    have found : nextToken (ascii "@") (List.replicate (n + 1) 32) = some (List.replicate (n + 1) 32, []) := by
      have outside : ∀ c ∈ List.replicate (n + 1) (32 : UInt8), c ∉ ascii "@" := by
        rw [at_sign]
        intro c member
        simp [List.eq_of_mem_replicate member]
      have field : nextToken (ascii "@") (List.replicate (n + 1) 32 ++ []) = some (_, [].drop 1) :=
        nextToken_field (by simp) outside (by simp)
      simpa using field
    rw [commandsOf_some found]
    simp [parse, after, List.replicate_succ]
    decide

/-- The first field of a list of fields, and what stands behind it. -/
private theorem intercalate_cons (field : Text) (fields : List Text) :
    ∃ rest, List.intercalate (ascii "@") (field :: fields) = field ++ rest ∧
      rest.drop 1 = List.intercalate (ascii "@") fields ∧ ∀ c ∈ rest.head?, c ∈ ascii "@" := by
  have at_sign : ascii "@" = [64] := by decide
  cases fields with
  | nil => exact ⟨[], by simp [List.intercalate], rfl, by simp⟩
  | cons next fields =>
    refine ⟨ascii "@" ++ List.intercalate (ascii "@") (next :: fields), ?_, ?_, ?_⟩
    · rw [List.intercalate_cons_cons, List.append_assoc]
    · rw [at_sign]
      rfl
    · rw [at_sign]
      simp

private theorem nextToken_messageText (leading : Bool) {c : Command} (written : WellFormed c) (n : Nat)
    (cs : List (Command × Nat)) : nextToken (ascii "@") (messageText leading ((c, n) :: cs)) =
      some (spell c ++ List.replicate n 32, messageText false cs) := by
  have at_sign : ascii "@" = [64] := by decide
  obtain ⟨nonempty, separate⟩ := spell_separate written n
  obtain ⟨rest, split, behind, stops⟩ := intercalate_cons (spell c ++ List.replicate n 32)
    (cs.map (fun c => spell c.1 ++ List.replicate c.2 32))
  have field : nextToken (ascii "@") (messageText false ((c, n) :: cs)) =
      some (spell c ++ List.replicate n 32, messageText false cs) := by
    rw [messageText, List.map_cons, split, if_neg Bool.false_ne_true, List.nil_append, nextToken_field nonempty _ stops,
      behind]
    · rfl
    · intro b member
      rw [at_sign]
      simpa using (separate b member).2
  cases leading with
  | false => exact field
  | true =>
    rw [← field, messageText, if_pos rfl, at_sign, List.singleton_append, nextToken_skip (by simp)]
    rfl

/-- The loop carries out the written commands up to the first data command. -/
theorem commandsOf_messageText : ∀ (leading : Bool) {cmds : List (Command × Nat)}, (∀ c ∈ cmds, WellFormed c.1) →
    commandsOf (messageText leading cmds) = upToData (cmds.map Prod.fst) := by
  intro leading cmds
  induction cmds generalizing leading with
  | nil => intro _; cases leading <;> decide
  | cons c cs ih =>
    intro written
    have here := written c List.mem_cons_self
    obtain ⟨parsed, moved⟩ := parse_spell here c.2 (messageText false cs)
    rw [commandsOf_some (nextToken_messageText leading here c.2 cs), parsed, moved, List.map_cons, upToData]
    by_cases data : isData c.1
    · rw [if_pos data, if_pos data, commandsOf_blanks]
      rfl
    · rw [if_neg data, if_neg data, ih false (fun c' member => written c' (List.mem_cons_of_mem _ member))]
      rfl

/-- A written message starts with a command. -/
theorem messageText_assigned (leading : Bool) {cmds : List (Command × Nat)} (written : ∀ c ∈ cmds, WellFormed c.1)
    (undef : Int) : Assigned undef (messageText leading cmds) := by
  intro tok first unparsed
  cases cmds with
  | nil =>
    have empty : tokensOf (messageText leading []) = [] := by cases leading <;> decide
    rw [empty] at first
    cases first
  | cons c cs =>
    have here := written c List.mem_cons_self
    rw [tokensOf_some (nextToken_messageText leading here c.2 cs)] at first
    cases first
    rw [(parse_spell here c.2 []).1] at unparsed
    cases unparsed

/-! ### The commands that are heard -/

/-- The two command loops of `handle_db_message`. -/
inductive Executor
  | single (db_id : Nat)
  | multi
  deriving DecidableEq

def Executor.callees : Executor → Callees Env
  | .single db_id => singleCallees db_id
  | .multi => multiCallees

/-- What a command does on the executor's shards. -/
def Executor.carries : Executor → Command → Env → Result (Int × Env)
  | .single db_id => Handlers.single db_id
  | .multi => Handlers.multi

theorem Executor.callees_eq (x : Executor) : x.callees = .of x.carries := by cases x <;> rfl

/-- The calls are the listed commands in order, cut short only behind the first
    one that returns a negative value. -/
def Follows : List Command → List (Command × Int) → Prop
  | [], calls => calls = []
  | _ :: _, [] => False
  | c :: cs, (call, ret) :: calls => call = c ∧ if ret < 0 then calls = [] else Follows cs calls

/-- All commands return a value that is not negative. -/
def Succeed {σ : Type} (op : Command → σ → Result (Int × σ)) : List Command → σ → Prop
  | [], _ => True
  | c :: cs, rocks =>
    match op c rocks with
    | .ok (ret, rocks) => 0 ≤ ret ∧ Succeed op cs rocks
    | .error _ => False

/-- Commands that run follow any list they are the beginning of, when they are
    all of it or one of them fails; otherwise the rest is missing. -/
theorem runCommands_follows {σ : Type} {op : Command → σ → Result (Int × σ)} {failed : Bool} {rocks' : σ} :
    ∀ {front : List Command} (rest : List Command) {rocks : σ} {calls : List (Command × Int)},
      runCommands op front rocks = .ok (failed, rocks', calls) →
      (Follows (front ++ rest) calls ↔ rest = [] ∨ ¬ Succeed op front rocks) := by
  intro front
  induction front with
  | nil =>
    intro rest rocks calls run
    cases run
    cases rest <;> simp [Follows, Succeed]
  | cons c cs ih =>
    intro rest rocks calls run
    obtain ⟨ret, next, ran, ⟨negative, _, _, rfl⟩ | ⟨zero, later, run', rfl⟩⟩ := runCommands_cons op run
    · simp only [List.cons_append, Follows, negative, if_true, true_and, Succeed, ran, true_iff]
      exact .inr fun succeeds => absurd succeeds.1 (by omega)
    · have going : ¬ ret < 0 := by omega
      simp only [List.cons_append, Follows, going, if_false, true_and, Succeed, ran, zero]
      exact ih rest run'

/-! ### Handlers that return -/

private theorem access_returns {i : Nat} {op : Cell → Result (Int × Cell)} (returns : ∀ c, ∃ a, op c = .ok a)
    (c : Cell) : ∃ a, access i op c = .ok a := by
  simp only [access]
  split_ifs
  · exact ⟨_, rfl⟩
  · exact returns _
  · exact ⟨_, rfl⟩
  · exact returns _

private theorem multidb_loop_returns {op : Cell → Result (Int × Cell)} (returns : ∀ c, ∃ a, op c = .ok a) (k : Int)
    (rocks : Env) : ∃ a, multidb_loop op k rocks = .ok a := by
  apply bind_returns
  · apply forLoop_returns
    intro i lower_bound
    split_ifs
    · obtain ⟨a, ran⟩ := access_returns (i := i) returns (rocks.cell i)
      exact ⟨_, by rw [onShardM, ran]; rfl⟩
    · exact ⟨_, rfl⟩
  · intro outcome
    cases outcome <;> exact ⟨_, rfl⟩

theorem every_shard_returns (f : Cell → Int × Cell) (rocks : Env) : ∃ a, every_shard f rocks = .ok a := by
  apply bind_returns
  · apply forLoop_returns
    intro i rocks
    simp only
    split_ifs <;> exact ⟨_, rfl⟩
  · intro outcome
    cases outcome <;> exact ⟨_, rfl⟩

theorem singleCell_returns {c : Command} (written : WellFormed c) (cell : Cell) : ∃ a, singleCell c cell = .ok a := by
  cases c with
  | read key => obtain ⟨k, rfl, _⟩ := written; exact ⟨_, rfl⟩
  | write key val => obtain ⟨k, v, rfl, rfl, _⟩ := written; exact ⟨_, rfl⟩
  | delete key => obtain ⟨k, rfl, _⟩ := written; exact ⟨_, rfl⟩
  | savepoint => exact ⟨_, rfl⟩
  | rollback => exact ⟨_, rfl⟩

/-- A command with all its arguments gets an answer. -/
theorem carries_returns (x : Executor) {c : Command} (written : WellFormed c) (rocks : Env) :
    ∃ a, x.carries c rocks = .ok a := by
  cases x with
  | single db_id =>
    obtain ⟨a, ran⟩ := singleCell_returns written (rocks.cell db_id)
    exact ⟨_, by simp only [Executor.carries, Handlers.single, onShardM, ran]; rfl⟩
  | multi =>
    cases c with
    | read key => obtain ⟨k, rfl, _⟩ := written; exact multidb_loop_returns (fun _ => ⟨_, rfl⟩) _ _
    | write key val => obtain ⟨k, v, rfl, rfl, _⟩ := written; exact multidb_loop_returns (fun _ => ⟨_, rfl⟩) _ _
    | delete key => obtain ⟨k, rfl, _⟩ := written; exact multidb_loop_returns (fun _ => ⟨_, rfl⟩) _ _
    | savepoint => exact every_shard_returns setsavepoint_shard rocks
    | rollback => exact every_shard_returns rollback_shard rocks

theorem runCommands_returns {σ : Type} {op : Command → σ → Result (Int × σ)} :
    ∀ {cmds : List Command}, (∀ c ∈ cmds, ∀ rocks, ∃ a, op c rocks = .ok a) → ∀ rocks,
      ∃ e, runCommands op cmds rocks = .ok e := by
  intro cmds
  induction cmds with
  | nil => intro _ rocks; exact ⟨_, rfl⟩
  | cons c cs ih =>
    intro returns rocks
    apply bind_returns (returns c List.mem_cons_self rocks)
    rintro ⟨ret, next⟩
    dsimp only
    split_ifs
    · exact ⟨_, rfl⟩
    · exact bind_returns (ih (fun c' member => returns c' (List.mem_cons_of_mem _ member)) next) fun _ => ⟨_, rfl⟩

/-- Commands that all succeed run to their end. -/
theorem runCommands_succeed {σ : Type} {op : Command → σ → Result (Int × σ)} :
    ∀ {cmds : List Command} {rocks : σ}, Succeed op cmds rocks →
      ∃ rocks' calls, runCommands op cmds rocks = .ok (false, rocks', calls) := by
  intro cmds
  induction cmds with
  | nil => intro rocks _; exact ⟨_, _, rfl⟩
  | cons c cs ih =>
    intro rocks succeeds
    rw [Succeed] at succeeds
    cases ran : op c rocks with
    | error e => simp [ran] at succeeds
    | ok answer =>
      obtain ⟨ret, next⟩ := answer
      simp only [ran] at succeeds
      obtain ⟨rocks', calls, rest⟩ := ih succeeds.2
      have going : ¬ ret < 0 := by omega
      exact ⟨rocks', (c, ret) :: calls, by simp [runCommands, ran, rest, going]⟩

theorem succeed_of_run {σ : Type} {op : Command → σ → Result (Int × σ)} :
    ∀ {cmds : List Command} {rocks rocks' : σ} {calls : List (Command × Int)},
      runCommands op cmds rocks = .ok (false, rocks', calls) → Succeed op cmds rocks := by
  intro cmds
  induction cmds with
  | nil => intro rocks rocks' calls _; trivial
  | cons c cs ih =>
    intro rocks rocks' calls run
    obtain ⟨ret, next, ran, ⟨_, bad, _⟩ | ⟨zero, later, rest, _⟩⟩ := runCommands_cons op run
    · cases bad
    · rw [Succeed, ran]
      exact ⟨zero, ih rest⟩

private theorem upToData_front : ∀ cmds : List Command, upToData cmds <+: cmds := by
  intro cmds
  induction cmds with
  | nil => exact List.prefix_rfl
  | cons c cs ih =>
    rw [upToData]
    split_ifs
    · exact ⟨cs, rfl⟩
    · exact (List.prefix_cons_inj c).mpr ih

private theorem messageText_clean (leading : Bool) : ∀ {cmds : List (Command × Nat)}, (∀ c ∈ cmds, WellFormed c.1) →
    (0 : UInt8) ∉ messageText leading cmds := by
  have at_sign : ascii "@" = [64] := by decide
  have fields : ∀ {cmds : List (Command × Nat)}, (∀ c ∈ cmds, WellFormed c.1) →
      (0 : UInt8) ∉ List.intercalate (ascii "@") (cmds.map (fun c => spell c.1 ++ List.replicate c.2 32)) := by
    intro cmds
    induction cmds with
    | nil => simp [List.intercalate]
    | cons c cs ih =>
      intro written
      obtain ⟨rest, split, behind, stops⟩ := intercalate_cons (spell c.1 ++ List.replicate c.2 32)
        (cs.map (fun c => spell c.1 ++ List.replicate c.2 32))
      have later := ih (fun c' member => written c' (List.mem_cons_of_mem _ member))
      rw [← behind] at later
      rw [List.map_cons, split, List.mem_append]
      rintro (here | there)
      · exact ((spell_separate (written c List.mem_cons_self) c.2).2 0 here).1 rfl
      · cases rest with
        | nil => cases there
        | cons b rest =>
          have sign := stops b rfl
          rw [at_sign, List.mem_singleton] at sign
          rcases List.mem_cons.mp there with zero | inside
          · rw [sign] at zero
            cases zero
          · exact later inside
  intro cmds written
  rw [messageText, List.mem_append]
  rintro (sign | inside)
  · cases leading <;> simp [at_sign] at sign
  · exact fields written inside

/-- The commands of a written message are carried out as listed exactly when
    nothing is listed behind the first data command or one of the commands up
    to it fails. -/
theorem commands_heard_iff (x : Executor) (undef : Int) (mem : Mem Buf) (ret : Option Int) (rocks : Env) (leading : Bool)
    {cmds : List (Command × Nat)} {fuel : Nat} (written : ∀ c ∈ cmds, WellFormed c.1)
    (fits : (messageText leading cmds).length < MAXBUFSIZE) (enough : MAXBUFSIZE ≤ fuel) :
    ∃ msg mem' e,
      (mem.strcpy .message (messageText leading cmds)).strtok (some ⟨.message, 0⟩) (ascii "@") = some (msg, mem') ∧
      command_loop x.callees undef fuel msg mem' ret rocks = .ok e ∧
      (Follows (cmds.map Prod.fst) (callsOf e.log) ↔
        upToData (cmds.map Prod.fst) = cmds.map Prod.fst ∨ ¬ Succeed x.carries (upToData (cmds.map Prod.fst)) rocks) := by
  obtain ⟨msg, mem', called, _, loops⟩ := message_loop x.carries undef fuel mem (messageText_clean leading written) ret
    (messageText_assigned leading written (ret.getD undef))
  have answers : ∀ c ∈ cmds.map Prod.fst, ∀ rocks, ∃ a, x.carries c rocks = .ok a := by
    intro c member rocks
    obtain ⟨c', inside, rfl⟩ := List.mem_map.mp member
    exact carries_returns x (written c' inside) rocks
  obtain ⟨⟨failed, rocks', calls⟩, ran⟩ := runCommands_returns (fun c member =>
    answers c ((upToData_front _).subset member)) rocks
  have heard := loops (by omega) rocks
  rw [commandsOf_messageText leading written, ran] at heard
  cases run : command_loop (.of x.carries) undef fuel msg mem' ret rocks with
  | error e => rw [run] at heard; cases heard
  | ok e =>
    rw [run] at heard
    simp only [Except.map, Except.ok.injEq, Prod.mk.injEq] at heard
    obtain ⟨rest, whole⟩ := upToData_front (cmds.map Prod.fst)
    refine ⟨msg, mem', e, called, x.callees_eq ▸ run, ?_⟩
    have follows := runCommands_follows rest ran
    rw [whole, ← heard.2.2] at follows
    rw [follows]
    constructor
    · rintro (rfl | fails)
      · exact .inl (by rw [List.append_nil] at whole; exact whole)
      · exact .inr fails
    · rintro (all | fails)
      · left
        have := congrArg List.length whole
        rw [List.length_append, all] at this
        exact List.length_eq_zero_iff.mp (by omega)
      · exact .inr fails

/-- `@s@w 1 a ` is heard to its end. -/
theorem savepoint_then_write_heard :
    ∃ msg mem' e,
      (Mem.strcpy ⟨fun _ => [], none⟩ .message (messageText true
        [(.savepoint, 0), (.write (some (ascii "1")) (some (ascii "a")), 1)])).strtok (some ⟨.message, 0⟩) (ascii "@") =
        some (msg, mem') ∧
      command_loop (singleCallees 0) 0 MAXBUFSIZE msg mem' (some 0)
        (init_database_env 1 (by decide) (fun _ => []) (fun _ _ => false)) = .ok e ∧
      Follows [.savepoint, .write (some (ascii "1")) (some (ascii "a"))] (callsOf e.log) := by
  have argument : ∀ text ∈ [ascii "1", ascii "a"], Argument text := by
    unfold Argument
    decide +kernel
  have written : ∀ c ∈ [((.savepoint : Command), 0), (.write (some (ascii "1")) (some (ascii "a")), 1)],
      WellFormed c.1 := by
    intro c member
    simp only [List.mem_cons, List.not_mem_nil, or_false] at member
    rcases member with rfl | rfl
    · trivial
    · exact ⟨_, _, rfl, rfl, argument _ (by simp), argument _ (by simp)⟩
  obtain ⟨msg, mem', e, called, run, heard⟩ := commands_heard_iff (.single 0) 0 ⟨fun _ => [], none⟩ (some 0)
    (init_database_env 1 (by decide) (fun _ => []) (fun _ _ => false)) true written (by decide) (Nat.le_refl _)
  exact ⟨msg, mem', e, called, run, heard.mpr (.inl rfl)⟩

/-- `w 1 a@w 2 b`: the second write is never carried out. -/
theorem second_write_unheard :
    ∃ cmds : List (Command × Nat), (∀ c ∈ cmds, WellFormed c.1) ∧ messageText false cmds = ascii "w 1 a@w 2 b" ∧
    ∃ msg mem' e,
      (Mem.strcpy ⟨fun _ => [], none⟩ .message (messageText false cmds)).strtok (some ⟨.message, 0⟩) (ascii "@") =
        some (msg, mem') ∧
      command_loop multiCallees 0 MAXBUFSIZE msg mem' none
        (init_database_env 1 (by decide) (fun _ => []) (fun _ _ => false)) = .ok e ∧
      ¬ Follows (cmds.map Prod.fst) (callsOf e.log) := by
  refine ⟨[(.write (some (ascii "1")) (some (ascii "a")), 0), (.write (some (ascii "2")) (some (ascii "b")), 0)], ?_,
    by decide, some ⟨.message, 0⟩, _, _, rfl, rfl, ?_⟩
  · have argument : ∀ text ∈ [ascii "1", ascii "2", ascii "a", ascii "b"], Argument text := by
      unfold Argument
      decide +kernel
    intro c member
    simp only [List.mem_cons, List.not_mem_nil, or_false] at member
    rcases member with rfl | rfl
    · exact ⟨_, _, rfl, rfl, argument _ (by simp), argument _ (by simp)⟩
    · exact ⟨_, _, rfl, rfl, argument _ (by simp), argument _ (by simp)⟩
  · intro follows
    have missing : False := follows.2
    exact missing

end Shardb.Messages
