import Shardb.Server

/-!
# What the command loop makes of a message

The outer `strtok` on `'@'` and the handlers' `strtok` on `' '` share one cursor,
so a data command (`r`, `w`, `d`) leaves the outer loop inside `val`, behind the
arguments its handler took. `tokensOf` is the list of tokens the loop gets to
see, as a function of the text; `command_loop_eq` proves that the loop carries
out exactly the commands of these tokens, whatever the handlers do.
-/

namespace Shardb.Tokens
open Shardb.Bytes Shardb.CStrings Shardb.Loops Shardb.Handlers Shardb.Server

/-! ### Tokens of a text -/

/-- The first word of a text, `none` when there is none. -/
def word (text : Text) : Option Text := (nextToken (ascii " ") text).map Prod.fst
/-- What the first word leaves behind it. -/
def behindWord (text : Text) : Text := ((nextToken (ascii " ") text).map Prod.snd).getD []

/-- The command a token is carried out as; `none` when no letter fits. -/
def parse (tok : Text) : Option Command :=
  let letter := tok.head?
  let argument := tok.drop 1
  if letter = some 114 then some (.read (word argument))
  else if letter = some 119 then some (.write (word argument) (word (behindWord argument)))
  else if letter = some 100 then some (.delete (word argument))
  else if letter = some 115 then some .savepoint
  else if letter = some 98 then some .rollback
  else none

/-- Where the cursor stands once token `tok` is carried out, when the tokenizer
    of the outer loop left it at `rest`. -/
def after (tok rest : Text) : Text :=
  let letter := tok.head?
  let argument := tok.drop 1
  if letter = some 114 then behindWord argument
  else if letter = some 119 then behindWord (behindWord argument)
  else if letter = some 100 then behindWord argument
  else rest

/-- At most `n` tokens from a text on. -/
def tokens : Nat → Text → List Text
  | 0, _ => []
  | n + 1, text =>
    match nextToken (ascii "@") text with
    | none => []
    | some (tok, rest) => tok :: tokens n (after tok rest)

/-- The tokens the command loop gets to see. -/
def tokensOf (text : Text) : List Text := tokens text.length text

/-- The commands the loop carries out, as long as none of them fails. -/
def commandsOf (text : Text) : List Command := (tokensOf text).filterMap parse

theorem behindWord_length (text : Text) : (behindWord text).length ≤ text.length := by
  unfold behindWord
  cases found : nextToken (ascii " ") text with
  | none => simp
  | some parts =>
    obtain ⟨tok, rest⟩ := parts
    have := nextToken_length found
    simp only [Option.map_some, Option.getD_some]
    omega

/-- Every token consumes some of the text. -/
theorem after_length {text tok rest : Text} (found : nextToken (ascii "@") text = some (tok, rest)) :
    (after tok rest).length < text.length := by
  obtain ⟨nonempty, bound⟩ := nextToken_length found
  have argument : (tok.drop 1).length < tok.length := by rw [List.length_drop]; omega
  have key := behindWord_length (tok.drop 1)
  have value := behindWord_length (behindWord (tok.drop 1))
  simp only [after]
  split_ifs <;> omega

theorem tokens_enough : ∀ {n m : Nat} {text : Text}, text.length ≤ n → text.length ≤ m → tokens n text = tokens m text := by
  have stop : ∀ n, tokens n [] = [] := by
    intro n
    cases n with
    | zero => rfl
    | succ n => simp [tokens, nextToken]
  intro n
  induction n with
  | zero =>
    intro m text small _
    rw [List.length_eq_zero_iff.mp (Nat.le_zero.mp small), stop, stop]
  | succ n ih =>
    intro m text small large
    cases m with
    | zero => rw [List.length_eq_zero_iff.mp (Nat.le_zero.mp large), stop, stop]
    | succ m =>
      rw [tokens, tokens]
      cases found : nextToken (ascii "@") text with
      | none => rfl
      | some parts =>
        obtain ⟨tok, rest⟩ := parts
        have shorter := after_length found
        simp only
        rw [ih (m := m) (by omega) (by omega)]

theorem tokensOf_length (text : Text) : (tokensOf text).length ≤ text.length := by
  have bounded : ∀ (n : Nat) (text : Text), (tokens n text).length ≤ n := by
    intro n
    induction n with
    | zero => intro text; simp [tokens]
    | succ n ih =>
      intro text
      rw [tokens]
      split
      · simp
      · exact Nat.succ_le_succ (ih _)
  exact bounded _ _

theorem tokensOf_none {text : Text} (nothing : nextToken (ascii "@") text = none) : tokensOf text = [] := by
  unfold tokensOf
  cases text.length with
  | zero => rfl
  | succ n => rw [tokens, nothing]

theorem tokensOf_some {text tok rest : Text} (found : nextToken (ascii "@") text = some (tok, rest)) :
    tokensOf text = tok :: tokensOf (after tok rest) := by
  have shorter := after_length found
  rw [tokensOf, tokens_enough (Nat.le_refl _) (m := (after tok rest).length + 1 + text.length) (by omega)]
  rw [show (after tok rest).length + 1 + text.length = ((after tok rest).length + text.length) + 1 by omega]
  rw [tokens, found]
  simp only
  rw [tokensOf, tokens_enough (Nat.le_refl _) (m := (after tok rest).length + text.length) (by omega)]

theorem commandsOf_some {text tok rest : Text} (found : nextToken (ascii "@") text = some (tok, rest)) :
    commandsOf text = (parse tok).toList ++ commandsOf (after tok rest) := by
  rw [commandsOf, tokensOf_some found, commandsOf]
  cases letter : parse tok with
  | none => rw [List.filterMap_cons_none letter]; rfl
  | some command => rw [List.filterMap_cons_some letter]; rfl

/-! ### Running tokens and commands -/

section Run
variable {σ : Type} (op : Command → σ → Result (Int × σ))

/-- One token: the command it is carried out as and the new value of `ret`. -/
def runToken (tok : Text) (ret : Option Int) (rocks : σ) : Result (Option Command × Option Int × σ) :=
  match parse tok with
  | none => .ok (none, ret, rocks)
  | some command => do
    let (r, rocks) ← op command rocks
    return (some command, some r, rocks)

/-- Tokens one after another, until `ret` is negative: whether that happened,
    the state and the record of the passes. -/
def runTokens (undef : Int) :
    List Text → Option Int → σ → List (Option Command × Option Int) →
      Result (Bool × σ × List (Option Command × Option Int))
  | [], _, rocks, log => .ok (false, rocks, log)
  | tok :: toks, ret, rocks, log => do
    let (call, ret, rocks) ← runToken op tok ret rocks
    if ret.getD undef < 0 then return (true, rocks, log ++ [(call, ret)])
    else runTokens undef toks ret rocks (log ++ [(call, ret)])

/-- Commands one after another, until one fails. -/
def runCommands : List Command → σ → Result (Bool × σ × List (Command × Int))
  | [], rocks => .ok (false, rocks, [])
  | command :: rest, rocks => do
    let (ret, rocks) ← op command rocks
    if ret < 0 then return (true, rocks, [(command, ret)])
    else
      let (failed, rocks, calls) ← runCommands rest rocks
      return (failed, rocks, (command, ret) :: calls)

/-- What the first of several commands leads to. -/
theorem runCommands_cons {c : Command} {cs : List Command} {rocks rocks' : σ} {failed : Bool}
    {calls : List (Command × Int)} (run : runCommands op (c :: cs) rocks = .ok (failed, rocks', calls)) :
    ∃ ret next, op c rocks = .ok (ret, next) ∧
      ((ret < 0 ∧ failed = true ∧ rocks' = next ∧ calls = [(c, ret)]) ∨
        (0 ≤ ret ∧ ∃ later, runCommands op cs next = .ok (failed, rocks', later) ∧ calls = (c, ret) :: later)) := by
  obtain ⟨⟨ret, next⟩, ran, run⟩ := bind_eq_ok.mp run
  refine ⟨ret, next, ran, ?_⟩
  by_cases negative : ret < 0
  · simp only [negative, if_true, pure_ok, Except.ok.injEq, Prod.mk.injEq] at run
    exact .inl ⟨negative, run.1.symm, run.2.1.symm, run.2.2.symm⟩
  · simp only [negative, if_false] at run
    obtain ⟨⟨failed', rocks'', later⟩, rest, done⟩ := bind_eq_ok.mp run
    cases done
    exact .inr ⟨by omega, later, rest, rfl⟩

/-- What each of the commands keeps is kept by all of them. -/
theorem runCommands_keeps_each (Inv : σ → Prop) : ∀ {cmds : List Command} {rocks rocks' : σ} {failed : Bool}
    {calls : List (Command × Int)},
    (∀ c ∈ cmds, ∀ rocks ret next, Inv rocks → op c rocks = .ok (ret, next) → Inv next) → Inv rocks →
      runCommands op cmds rocks = .ok (failed, rocks', calls) → Inv rocks' := by
  intro cmds
  induction cmds with
  | nil => intro rocks rocks' failed calls _ inv run; cases run; exact inv
  | cons c cs ih =>
    intro rocks rocks' failed calls keeps inv run
    obtain ⟨here, behind⟩ := List.forall_mem_cons.mp keeps
    obtain ⟨ret, next, ran, ⟨_, _, rfl, _⟩ | ⟨_, later, rest, _⟩⟩ := runCommands_cons op run
    · exact here rocks ret _ inv ran
    · exact ih behind (here rocks ret next inv ran) rest

/-- What every command keeps is kept by any of them. -/
theorem runCommands_keeps (Inv : σ → Prop)
    (keeps : ∀ c rocks ret next, Inv rocks → op c rocks = .ok (ret, next) → Inv next) {cmds : List Command}
    {rocks rocks' : σ} {failed : Bool} {calls : List (Command × Int)} (inv : Inv rocks)
    (run : runCommands op cmds rocks = .ok (failed, rocks', calls)) : Inv rocks' :=
  runCommands_keeps_each op Inv (fun c _ => keeps c) inv run

/-- The record of commands that ran: all of them when none failed, and a
    negative value at its end otherwise. -/
theorem runCommands_calls : ∀ {cmds : List Command} {rocks rocks' : σ} {failed : Bool} {calls : List (Command × Int)},
    runCommands op cmds rocks = .ok (failed, rocks', calls) →
      (failed = false → calls.map Prod.fst = cmds ∧ ∀ call ∈ calls, 0 ≤ call.2) ∧
      (failed = true → ∃ call ∈ calls, call.2 < 0) := by
  intro cmds
  induction cmds with
  | nil => intro rocks rocks' failed calls run; cases run; simp
  | cons c cs ih =>
    intro rocks rocks' failed calls run
    obtain ⟨ret, next, ran, ⟨negative, rfl, _, rfl⟩ | ⟨zero, later, rest, rfl⟩⟩ := runCommands_cons op run
    · simp [negative]
    · obtain ⟨all, some⟩ := ih rest
      constructor
      · intro fine
        obtain ⟨same, nonneg⟩ := all fine
        exact ⟨by rw [List.map_cons, same], List.forall_mem_cons.mpr ⟨zero, nonneg⟩⟩
      · intro fails
        obtain ⟨call, member, negative⟩ := some fails
        exact ⟨call, List.mem_cons_of_mem _ member, negative⟩

/-- Commands come to an end unless one of them does not. -/
theorem runCommands_error {e : Fault} : ∀ {cmds : List Command} {rocks : σ}, runCommands op cmds rocks = .error e →
    ∃ c ∈ cmds, ∃ rocks, op c rocks = .error e := by
  intro cmds
  induction cmds with
  | nil => intro rocks run; cases run
  | cons c cs ih =>
    intro rocks run
    cases ran : op c rocks with
    | error e' =>
      simp only [runCommands, ran, bind_error, Except.error.injEq] at run
      exact ⟨c, List.mem_cons_self, rocks, run ▸ ran⟩
    | ok answer =>
      obtain ⟨ret, next⟩ := answer
      simp only [runCommands, ran, bind_ok] at run
      split_ifs at run
      · cases run
      · cases rest : runCommands op cs next with
        | ok _ => rw [rest] at run; cases run
        | error e' =>
          rw [rest] at run
          cases run
          obtain ⟨c', member, crashes⟩ := ih rest
          exact ⟨c', List.mem_cons_of_mem _ member, crashes⟩

/-- Commands that all succeed can be run in two parts. -/
theorem runCommands_append : ∀ {front rest : List Command} {rocks rocks' : σ} {calls : List (Command × Int)},
    runCommands op (front ++ rest) rocks = .ok (false, rocks', calls) →
      ∃ middle earlier later, runCommands op front rocks = .ok (false, middle, earlier) ∧
        runCommands op rest middle = .ok (false, rocks', later) := by
  intro front
  induction front with
  | nil => intro rest rocks rocks' calls run; exact ⟨rocks, [], calls, rfl, run⟩
  | cons c cs ih =>
    intro rest rocks rocks' calls run
    obtain ⟨ret, next, ran, ⟨_, bad, _⟩ | ⟨zero, behind, run', _⟩⟩ := runCommands_cons op run
    · cases bad
    · obtain ⟨middle, earlier, later, first, second⟩ := ih run'
      have going : ¬ ret < 0 := by omega
      exact ⟨middle, (c, ret) :: earlier, later, by simp [runCommands, ran, going, first], second⟩

/-- Commands that work on a part of the state, run on the part. -/
theorem runCommands_map {τ : Type} {op' : Command → τ → Result (Int × τ)} {f : τ → σ}
    (same : ∀ c t, op c (f t) = (op' c t).map (fun a => (a.1, f a.2))) : ∀ (cmds : List Command) (t : τ),
    runCommands op cmds (f t) = (runCommands op' cmds t).map (fun e => (e.1, f e.2.1, e.2.2)) := by
  intro cmds
  induction cmds with
  | nil => intro t; rfl
  | cons c cs ih =>
    intro t
    simp only [runCommands, same]
    cases op' c t with
    | error e => rfl
    | ok answer =>
      obtain ⟨ret, next⟩ := answer
      simp only [Except.map, bind_ok, ih]
      split_ifs
      · rfl
      · cases runCommands op' cs next <;> rfl

theorem callsOf_append (log log' : List (Option Command × Option Int)) :
    callsOf (log ++ log') = callsOf log ++ callsOf log' := List.filterMap_append

/-- Once `ret` is not negative, tokens run as the commands they are carried out as. -/
theorem runTokens_eq (undef : Int) : ∀ (toks : List Text) (ret : Option Int) (rocks : σ)
    (log : List (Option Command × Option Int)), 0 ≤ ret.getD undef →
    (runTokens op undef toks ret rocks log).map (fun e => (e.1, e.2.1, callsOf e.2.2)) =
      (runCommands op (toks.filterMap parse) rocks).map (fun e => (e.1, e.2.1, callsOf log ++ e.2.2)) := by
  intro toks
  induction toks with
  | nil => intro ret rocks log _; simp [runTokens, runCommands, Except.map]
  | cons tok toks ih =>
    intro ret rocks log fine
    cases letter : parse tok with
    | none =>
      have going : ¬ ret.getD undef < 0 := by omega
      simp only [runTokens, runToken, letter, bind_ok, going, if_false]
      rw [ih ret rocks _ fine, List.filterMap_cons_none letter, callsOf_append]
      simp [callsOf]
    | some command =>
      rw [List.filterMap_cons_some letter]
      simp only [runTokens, runToken, letter, runCommands]
      cases ran : op command rocks with
      | error e => rfl
      | ok answer =>
        obtain ⟨r, rocks'⟩ := answer
        simp only [bind_ok, pure, Except.pure, Option.getD_some]
        by_cases failed : r < 0
        · simp only [failed, if_true, Except.map, callsOf_append]
          simp [callsOf]
        · simp only [failed, if_false]
          rw [ih (some r) rocks' _ (by change 0 ≤ r; omega)]
          cases runCommands op (toks.filterMap parse) rocks' with
          | error e => rfl
          | ok e =>
            simp only [bind_ok, Except.map, callsOf_append]
            simp [callsOf]

/-- The record of the passes: `ret` is assigned from the first one on when it was
    assigned before or the first token is a command, and else it is not. -/
theorem runTokens_log {undef : Int} : ∀ {toks : List Text} {ret : Option Int} {rocks rocks' : σ} {failed : Bool}
    {log log' : List (Option Command × Option Int)}, runTokens op undef toks ret rocks log = .ok (failed, rocks', log') →
    ∃ passes, log' = log ++ passes ∧
      ((ret.isSome ∨ ∀ tok ∈ toks.head?, (parse tok).isSome) → ∀ pass ∈ passes, pass.2.isSome) ∧
      (ret = none → ∀ tok ∈ toks.head?, parse tok = none → ∃ pass ∈ passes, pass.2 = none) := by
  intro toks
  induction toks with
  | nil => intro ret rocks rocks' failed log log' run; cases run; exact ⟨[], by simp, by simp, by simp⟩
  | cons tok toks ih =>
    intro ret rocks rocks' failed log log' run
    obtain ⟨⟨call, ret', next⟩, ran, run⟩ := bind_eq_ok.mp run
    -- what the pass tests is what the token leaves in `ret`
    have assigns : ((ret.isSome ∨ (parse tok).isSome) → ret'.isSome) ∧ (parse tok = none → ret' = ret) := by
      rw [runToken] at ran
      cases letter : parse tok with
      | none =>
        rw [letter] at ran
        cases ran
        exact ⟨by simp, fun _ => rfl⟩
      | some command =>
        rw [letter] at ran
        obtain ⟨a, _, left⟩ := bind_eq_ok.mp ran
        cases left
        exact ⟨by simp, by simp⟩
    have head : (tok :: toks).head? = some tok := rfl
    by_cases negative : ret'.getD undef < 0
    · simp only [negative, if_true, pure_ok, Except.ok.injEq, Prod.mk.injEq] at run
      refine ⟨[(call, ret')], run.2.2.symm, fun assigned pass member => ?_, fun unassigned tok' first unparsed => ?_⟩
      · rw [List.mem_singleton.mp member]
        exact assigns.1 (assigned.imp_right fun parsed => parsed tok head)
      · cases first
        exact ⟨_, List.mem_cons_self, (assigns.2 unparsed).trans unassigned⟩
    · simp only [negative, if_false] at run
      obtain ⟨passes, rfl, later, _⟩ := ih run
      refine ⟨(call, ret') :: passes, by simp, fun assigned => ?_, fun unassigned tok' first unparsed => ?_⟩
      · have now := assigns.1 (assigned.imp_right fun parsed => parsed tok head)
        exact List.forall_mem_cons.mpr ⟨now, later (.inl now)⟩
      · cases first
        exact ⟨_, List.mem_cons_self, (assigns.2 unparsed).trans unassigned⟩

/-- The first token is a command, or the unassigned `ret` happens not to be negative. -/
def Assigned (undef : Int) (text : Text) : Prop := ∀ tok ∈ (tokensOf text).head?, parse tok = none → 0 ≤ undef

/-- The commands of a text, entered with `ret` unassigned or not negative. -/
theorem runTokens_commandsOf {undef : Int} {text : Text} {ret : Option Int} (assigned : Assigned (ret.getD undef) text)
    (rocks : σ) :
    (runTokens op undef (tokensOf text) ret rocks []).map (fun e => (e.1, e.2.1, callsOf e.2.2)) =
      runCommands op (commandsOf text) rocks := by
  have settled : ∀ ret : Option Int, 0 ≤ ret.getD undef →
      (runTokens op undef (tokensOf text) ret rocks []).map (fun e => (e.1, e.2.1, callsOf e.2.2)) =
        runCommands op (commandsOf text) rocks := by
    intro ret fine
    rw [runTokens_eq op undef _ _ _ _ fine, commandsOf]
    cases runCommands op ((tokensOf text).filterMap parse) rocks <;> rfl
  rw [Assigned] at assigned
  cases first : tokensOf text with
  | nil =>
    rw [commandsOf, first]
    rfl
  | cons tok toks =>
    rw [first] at assigned settled
    cases letter : parse tok with
    | none => exact settled ret (assigned tok rfl letter)
    | some command =>
      -- a command assigns `ret` whatever it held
      rw [← settled (some 0) (by simp)]
      simp only [runTokens, runToken, letter]

/-- The loop gives up behind a first token that is no command when the
    unassigned `ret` happens to be negative. -/
theorem runTokens_unassigned {undef : Int} {text : Text} (unassigned : ¬ Assigned undef text) (rocks : σ) :
    runTokens op undef (tokensOf text) none rocks [] = .ok (true, rocks, [(none, none)]) := by
  simp only [Assigned, Classical.not_forall] at unassigned
  obtain ⟨tok, first, unparsed, negative⟩ := unassigned
  obtain ⟨toks, tokens⟩ : ∃ toks, tokensOf text = tok :: toks := by
    cases split : tokensOf text with
    | nil => rw [split] at first; cases first
    | cons t toks => rw [split] at first; cases first; exact ⟨toks, rfl⟩
  have below : undef < 0 := by omega
  simp [tokens, runTokens, runToken, unparsed, below]

/-! ### The handlers and the loop -/

/-- A call with the blank as delimiter, in terms of words. The string at the
    returned pointer stays what it is when the next call goes on. -/
private theorem strtok_word {mem : Mem Buf} (s : Option (Ptr Buf)) {p : Ptr Buf} (at_p : s.or mem.cursor = some p) :
    ∃ q mem' c, mem.strtok s (ascii " ") = some (q, mem') ∧ q.map mem'.str = word (mem.str p) ∧
      mem'.cursor = some c ∧ mem'.str c = behindWord (mem.str p) ∧
      (∀ r : Ptr Buf, r.off + (mem.str r).length < p.off ∨ mem.str p = [] → mem'.str r = mem.str r) ∧
      ∀ r ∈ q, r.off + (mem'.str r).length < c.off ∨ mem'.str c = [] := by
  cases found : nextToken (ascii " ") (mem.str p) with
  | none =>
    obtain ⟨c, called, _, empty⟩ := strtok_none at_p found
    refine ⟨none, _, c, called, ?_, rfl, ?_, fun _ _ => rfl, ?_⟩
    · simp [word, found]
    · simp only [behindWord, found, Option.map_none, Option.getD_none]
      exact empty
    · simp
  | some parts =>
    obtain ⟨tok, rest⟩ := parts
    obtain ⟨q, c, mem', called, tokIs, cursor, restIs, _, _, _, apart, keeps⟩ := strtok_some at_p found
    refine ⟨some q, mem', c, called, ?_, cursor, ?_, ?_, ?_⟩
    · simp [word, found, tokIs]
    · simp [behindWord, found, restIs]
    · intro r before
      rcases before with before | empty
      · exact keeps r before
      · have := (nextToken_length found)
        rw [empty, List.length_nil] at this
        omega
    · intro r member
      cases member
      rw [tokIs, restIs]
      exact apart.symm

/-- What a handler with one argument makes of the text at `key`. -/
theorem key_handler_eq (command : Option Text → Command) (mem : Mem Buf) (key : Ptr Buf) :
    ∃ mem' c, (∀ rocks, key_handler command op rocks mem key =
        (op (command (word (mem.str key))) rocks).map
          (fun a => ⟨some (command (word (mem.str key))), some a.1, mem', a.2⟩)) ∧
      mem'.cursor = some c ∧ mem'.str c = behindWord (mem.str key) ∧
      c.buf = key.buf ∧ c.off + (mem'.str c).length = key.off + (mem.str key).length := by
  have given : (some key).or mem.cursor = some key := rfl
  obtain ⟨q, mem', c, called, wordIs, cursor, rest, _, _⟩ := strtok_word (some key) given
  refine ⟨mem', c, fun rocks => ?_, cursor, rest, (strtok_places given called cursor).1⟩
  rw [key_handler, called, need_some, bind_ok]
  simp only [wordIs]
  cases op (command (word (mem.str key))) rocks <;> rfl

/-- What a handler with two arguments makes of the text at `key`. -/
theorem keyval_handler_eq (mem : Mem Buf) (key : Ptr Buf) :
    ∃ mem' c, (∀ rocks, keyval_handler op rocks mem key =
        (op (.write (word (mem.str key)) (word (behindWord (mem.str key)))) rocks).map
          (fun a => ⟨some (.write (word (mem.str key)) (word (behindWord (mem.str key)))), some a.1, mem', a.2⟩)) ∧
      mem'.cursor = some c ∧ mem'.str c = behindWord (behindWord (mem.str key)) ∧
      c.buf = key.buf ∧ c.off + (mem'.str c).length = key.off + (mem.str key).length := by
  have given : (some key).or mem.cursor = some key := rfl
  obtain ⟨k, mem₁, c₁, called₁, keyIs, cursor₁, rest₁, _, apart⟩ := strtok_word (some key) given
  obtain ⟨v, mem₂, c₂, called₂, valIs, cursor₂, rest₂, keeps, _⟩ :=
    strtok_word none cursor₁
  rw [rest₁] at valIs rest₂
  have keyStays : k.map mem₂.str = word (mem.str key) := by
    rw [← keyIs]
    cases k with
    | none => rfl
    | some r => exact congrArg some (keeps r (apart r rfl))
  obtain ⟨first, start⟩ := (strtok_places given called₁ cursor₁).1
  obtain ⟨second, behind⟩ := (strtok_places (s := none) cursor₁ called₂ cursor₂).1
  refine ⟨mem₂, c₂, fun rocks => ?_, cursor₂, rest₂, second.trans first, behind.trans start⟩
  rw [keyval_handler, called₁, need_some, bind_ok]
  simp only [called₂, need_some, bind_ok, keyStays, valIs]
  cases op (.write (word (mem.str key)) (word (behindWord (mem.str key)))) rocks <;> rfl

/-- The letters whose commands copy the text behind them. -/
def Copies (tok : Text) : Prop := tok.head? = some 114 ∨ tok.head? = some 119 ∨ tok.head? = some 100

instance (tok : Text) : Decidable (Copies tok) :=
  inferInstanceAs (Decidable (tok.head? = some 114 ∨ tok.head? = some 119 ∨ tok.head? = some 100))

/-- Where the cursor is behind token `tok`: behind its arguments in `val`, or where it
    was. -/
def Behind (tok : Text) (mem mem' : Mem Buf) (c c' : Ptr Buf) : Prop :=
  (Copies tok → c'.buf = .val ∧ c'.off + (mem'.str c').length = (tok.drop 1).length) ∧
    (¬ Copies tok → mem' = mem ∧ c' = c)

/-- One pass carries out the token at `msg` and leaves the cursor behind it. -/
theorem dispatch_eq {msg : Ptr Buf} {mem : Mem Buf} {tok : Text} (reads : mem.str msg = tok) :
    ∃ mem', (∀ ret rocks, dispatch (.of op) msg ret mem rocks =
        (runToken op tok ret rocks).map (fun a => ⟨a.1, a.2.1, mem', a.2.2⟩)) ∧
      ∀ c, mem.cursor = some c → ∃ c', mem'.cursor = some c' ∧ mem'.str c' = after tok (mem.str c) ∧
        Behind tok mem mem' c c' := by
  have argument : tok.head?.isSome → mem.str ⟨msg.buf, msg.off + 1⟩ = tok.drop 1 := by
    intro nonempty
    rw [str_advance, ← reads]
    rw [reads]
    cases tok with
    | nil => simp at nonempty
    | cons a t => simp
  have copied : (mem.strcpy .val (tok.drop 1)).str ⟨.val, 0⟩ = tok.drop 1 :=
    strcpy_str mem .val (fun member => str_no_nul mem msg (reads ▸ List.mem_of_mem_drop member))
  have leaves {mem' : Mem Buf} {c c' : Ptr Buf} (copies : Copies tok)
      (place : c'.buf = .val ∧ c'.off + (mem'.str c').length = 0 + (tok.drop 1).length) : Behind tok mem mem' c c' :=
    ⟨fun _ => ⟨place.1, place.2.trans (Nat.zero_add _)⟩, fun other => absurd copies other⟩
  by_cases r : tok.head? = some 114
  · obtain ⟨mem', c', called, cursor, rest, place⟩ := key_handler_eq op .read (mem.strcpy .val (tok.drop 1)) ⟨.val, 0⟩
    rw [copied] at called rest place
    refine ⟨mem', fun ret rocks => ?_, fun c _ => ⟨c', cursor, ?_, leaves (.inl r) place⟩⟩
    · simp only [dispatch, reads, argument (by rw [r]; rfl), runToken, parse]
      rw [if_pos r, if_pos r]
      simp only [Callees.of, called]
      cases op (.read (word (tok.drop 1))) rocks <;> rfl
    · rw [rest, after]
      exact (if_pos r).symm
  · by_cases w : tok.head? = some 119
    · obtain ⟨mem', c', called, cursor, rest, place⟩ := keyval_handler_eq op (mem.strcpy .val (tok.drop 1)) ⟨.val, 0⟩
      rw [copied] at called rest place
      refine ⟨mem', fun ret rocks => ?_, fun c _ => ⟨c', cursor, ?_, leaves (.inr (.inl w)) place⟩⟩
      · simp only [dispatch, reads, argument (by rw [w]; rfl), runToken, parse]
        rw [if_neg r, if_neg r, if_pos w, if_pos w]
        simp only [Callees.of, called]
        cases op (.write (word (tok.drop 1)) (word (behindWord (tok.drop 1)))) rocks <;> rfl
      · rw [rest, after]
        exact ((if_neg r).trans (if_pos w)).symm
    · by_cases d : tok.head? = some 100
      · obtain ⟨mem', c', called, cursor, rest, place⟩ := key_handler_eq op .delete (mem.strcpy .val (tok.drop 1)) ⟨.val, 0⟩
        rw [copied] at called rest place
        refine ⟨mem', fun ret rocks => ?_, fun c _ => ⟨c', cursor, ?_, leaves (.inr (.inr d)) place⟩⟩
        · simp only [dispatch, reads, argument (by rw [d]; rfl), runToken, parse]
          rw [if_neg r, if_neg r, if_neg w, if_neg w, if_pos d, if_pos d]
          simp only [Callees.of, called]
          cases op (.delete (word (tok.drop 1))) rocks <;> rfl
        · rw [rest, after]
          exact ((if_neg r).trans ((if_neg w).trans (if_pos d))).symm
      · -- the other letters leave the arrays and the cursor alone
        have stays {c : Ptr Buf} : Behind tok mem mem c c :=
          ⟨fun copies => absurd copies (by rintro (here | here | here) <;> contradiction), fun _ => ⟨rfl, rfl⟩⟩
        refine ⟨mem, fun ret rocks => ?_, fun c at_c => ⟨c, at_c, ?_, stays⟩⟩
        · simp only [dispatch, reads, runToken, parse]
          rw [if_neg r, if_neg r, if_neg w, if_neg w, if_neg d, if_neg d]
          by_cases s : tok.head? = some 115
          · rw [if_pos s, if_pos s]
            simp only [Callees.of]
            cases op .savepoint rocks <;> rfl
          · rw [if_neg s, if_neg s]
            by_cases b : tok.head? = some 98
            · rw [if_pos b, if_pos b]
              simp only [Callees.of]
              cases op .rollback rocks <;> rfl
            · rw [if_neg b, if_neg b]
              rfl
        · rw [after]
          exact ((if_neg r).trans ((if_neg w).trans (if_neg d))).symm

/-- The tokens a loop still has before it. -/
def pending (msg : Option (Ptr Buf)) (mem : Mem Buf) : List Text :=
  match msg, mem.cursor with
  | some p, some c => mem.str p :: tokensOf (after (mem.str p) (mem.str c))
  | _, _ => []

/-- A call of the outer tokenizer moves on to the next token. -/
theorem strtok_pending {mem : Mem Buf} (s : Option (Ptr Buf)) {p : Ptr Buf} (at_p : s.or mem.cursor = some p) :
    ∃ msg mem', mem.strtok s (ascii "@") = some (msg, mem') ∧ pending msg mem' = tokensOf (mem.str p) ∧
      (msg.isSome → mem'.cursor.isSome) := by
  cases found : nextToken (ascii "@") (mem.str p) with
  | none =>
    obtain ⟨c, called, _, _⟩ := strtok_none at_p found
    exact ⟨none, _, called, by rw [tokensOf_none found]; rfl, by simp⟩
  | some parts =>
    obtain ⟨tok, rest⟩ := parts
    obtain ⟨q, c, mem', called, tokIs, cursor, restIs, _⟩ := strtok_some at_p found
    refine ⟨some q, mem', called, ?_, by simp [cursor]⟩
    rw [tokensOf_some found]
    simp only [pending, cursor, tokIs, restIs]

/-- The first call of the outer tokenizer, on the copied message. -/
theorem first_token (mem : Mem Buf) (text : Text) :
    ∃ msg mem', (mem.strcpy .message text).strtok (some ⟨.message, 0⟩) (ascii "@") = some (msg, mem') := by
  obtain ⟨msg, mem', called, _⟩ := strtok_pending (some ⟨.message, 0⟩) (p := ⟨.message, 0⟩)
    (show (some ⟨.message, 0⟩ : Option (Ptr Buf)).or (mem.strcpy .message text).cursor = _ from rfl)
  exact ⟨msg, mem', called⟩

/-- The loop carries out the tokens it has before it, one after another. -/
theorem command_loop_run (undef : Int) : ∀ {fuel : Nat} {msg : Option (Ptr Buf)} {mem : Mem Buf} {ret : Option Int}
    {rocks : σ} {log : List (Option Command × Option Int)}, (msg.isSome → mem.cursor.isSome) →
    (pending msg mem).length < fuel →
    (loop .unfinished (command_pass (.of op) undef) fuel ⟨msg, ret, mem, rocks, log⟩).map
        (fun e => (e.tx_failed, e.rocks, e.log)) =
      runTokens op undef (pending msg mem) ret rocks log := by
  intro fuel
  induction fuel with
  | zero => intro msg mem ret rocks log _ bound; omega
  | succ fuel ih =>
    intro msg mem ret rocks log placed bound
    cases msg with
    | none => simp [loop, command_pass, pending, runTokens, Except.map]
    | some p =>
      obtain ⟨c, at_c⟩ := Option.isSome_iff_exists.mp (placed rfl)
      obtain ⟨mem₁, carried, moves⟩ := dispatch_eq op (Eq.refl (mem.str p))
      obtain ⟨c₁, cursor₁, rest₁, -⟩ := moves c at_c
      obtain ⟨next, mem₂, called, left, placed'⟩ :=
        strtok_pending none cursor₁
      rw [rest₁] at left
      have before : pending (some p) mem = mem.str p :: pending next mem₂ := by rw [left]; simp only [pending, at_c]
      rw [before] at bound ⊢
      rw [loop, runTokens]
      simp only [command_pass, carried]
      cases ran : runToken op (mem.str p) ret rocks with
      | error e => rfl
      | ok answer =>
        obtain ⟨call, ret', rocks'⟩ := answer
        simp only [Except.map, bind_ok, called, need_some]
        by_cases failed : ret'.getD undef < 0
        · simp [failed, pure, Except.pure]
        · simp only [failed, if_false, pure, Except.pure]
          exact ih placed' (by simpa using bound)

/-- The command loop on a text taken apart by the first call: with enough passes
    it runs the tokens of the text. -/
theorem command_loop_eq (undef : Int) (fuel : Nat) {s : Option (Ptr Buf)} {p : Ptr Buf} {msg : Option (Ptr Buf)}
    {mem mem' : Mem Buf} (ret : Option Int) (rocks : σ) (at_p : s.or mem.cursor = some p)
    (called : mem.strtok s (ascii "@") = some (msg, mem')) (enough : (mem.str p).length < fuel) :
    (command_loop (.of op) undef fuel msg mem' ret rocks).map (fun e => (e.tx_failed, e.rocks, e.log)) =
      runTokens op undef (tokensOf (mem.str p)) ret rocks [] := by
  obtain ⟨msg₁, mem₁, called₁, left, placed⟩ := strtok_pending s at_p
  obtain ⟨rfl, rfl⟩ : msg₁ = msg ∧ mem₁ = mem' := by
    rw [called] at called₁
    simp only [Option.some.injEq, Prod.mk.injEq] at called₁
    exact ⟨called₁.1.symm, called₁.2.symm⟩
  have few := tokensOf_length (mem.str p)
  rw [← left] at few ⊢
  exact command_loop_run op undef placed (by omega)

/-- Whatever the bound, a command loop that returns ran the tokens of the text. -/
theorem command_loop_ok (undef : Int) {fuel : Nat} {s : Option (Ptr Buf)} {p : Ptr Buf} {msg : Option (Ptr Buf)}
    {mem mem' : Mem Buf} {ret : Option Int} {rocks : σ} {e : LoopEnd σ} (at_p : s.or mem.cursor = some p)
    (called : mem.strtok s (ascii "@") = some (msg, mem'))
    (run : command_loop (.of op) undef fuel msg mem' ret rocks = .ok e) :
    runTokens op undef (tokensOf (mem.str p)) ret rocks [] = .ok (e.tx_failed, e.rocks, e.log) := by
  have more := loop_more (Nat.le_add_right fuel ((mem.str p).length + 1)) run
  rw [← command_loop_eq op undef (fuel + ((mem.str p).length + 1)) ret rocks at_p called (by omega), command_loop, more]
  rfl

/-- The loop as `handle_db_message` enters it with the text of a message: it
    carries out the commands of the text, and returns when it has passes enough. -/
theorem message_loop (undef : Int) (fuel : Nat) (mem : Mem Buf) {text : Text} (clean : (0 : UInt8) ∉ text)
    (ret : Option Int) (assigned : Assigned (ret.getD undef) text) :
    ∃ msg mem', (mem.strcpy .message text).strtok (some ⟨.message, 0⟩) (ascii "@") = some (msg, mem') ∧
      (∀ rocks e, command_loop (.of op) undef fuel msg mem' ret rocks = .ok e →
        runCommands op (commandsOf text) rocks = .ok (e.tx_failed, e.rocks, callsOf e.log)) ∧
      (text.length < fuel → ∀ rocks,
        (command_loop (.of op) undef fuel msg mem' ret rocks).map (fun e => (e.tx_failed, e.rocks, callsOf e.log)) =
          runCommands op (commandsOf text) rocks) := by
  have reads := strcpy_str mem .message clean
  obtain ⟨msg, mem', called⟩ := first_token mem text
  refine ⟨msg, mem', called, ?_, ?_⟩
  · intro rocks e run
    have ran := command_loop_ok op undef (s := some ⟨.message, 0⟩) (p := ⟨.message, 0⟩) rfl called run
    rw [reads] at ran
    rw [← runTokens_commandsOf op assigned rocks, ran]
    rfl
  · intro enough rocks
    have ran := command_loop_eq op undef fuel ret rocks (s := some ⟨.message, 0⟩) (p := ⟨.message, 0⟩) rfl called
      (by rw [reads]; exact enough)
    rw [reads] at ran
    rw [← runTokens_commandsOf op assigned rocks, ← ran]
    cases command_loop (.of op) undef fuel msg mem' ret rocks <;> rfl

/-- The loop entered with an unassigned `ret` that happens to be negative, on a
    text that starts with no command, gives up behind its first token. -/
theorem message_loop_unassigned (undef : Int) (fuel : Nat) (mem : Mem Buf) {text : Text} (clean : (0 : UInt8) ∉ text)
    (unassigned : ¬ Assigned undef text) :
    ∃ msg mem', (mem.strcpy .message text).strtok (some ⟨.message, 0⟩) (ascii "@") = some (msg, mem') ∧
      ∀ rocks e, command_loop (.of op) undef fuel msg mem' none rocks = .ok e →
        e.tx_failed = true ∧ e.rocks = rocks ∧ callsOf e.log = [] := by
  have reads := strcpy_str mem .message clean
  obtain ⟨msg, mem', called⟩ := first_token mem text
  refine ⟨msg, mem', called, fun rocks e run => ?_⟩
  have ran := command_loop_ok op undef (s := some ⟨.message, 0⟩) (p := ⟨.message, 0⟩) rfl called run
  rw [reads, runTokens_unassigned op unassigned rocks] at ran
  simp only [Except.ok.injEq, Prod.mk.injEq] at ran
  exact ⟨ran.1.symm, ran.2.1.symm, by rw [← ran.2.2]; rfl⟩

/-- With passes enough it comes to that. -/
theorem message_loop_gives_up (undef : Int) {fuel : Nat} (mem : Mem Buf) {text : Text} (clean : (0 : UInt8) ∉ text)
    (unassigned : ¬ Assigned undef text) {msg : Option (Ptr Buf)} {mem' : Mem Buf}
    (called : (mem.strcpy .message text).strtok (some ⟨.message, 0⟩) (ascii "@") = some (msg, mem'))
    (enough : text.length < fuel) (rocks : σ) :
    ∃ e, command_loop (.of op) undef fuel msg mem' none rocks = .ok e := by
  have reads := strcpy_str mem .message clean
  have ran := command_loop_eq op undef fuel none rocks (s := some ⟨.message, 0⟩) (p := ⟨.message, 0⟩) rfl called
    (by rw [reads]; exact enough)
  rw [reads, runTokens_unassigned op unassigned rocks] at ran
  obtain ⟨e, run, _⟩ := ok_of_map ran
  exact ⟨e, run⟩

end Run

end Shardb.Tokens
