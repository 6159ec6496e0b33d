import Mathlib.Logic.Relation
import Shardb.Numerals
import Shardb.Options

/-!
# Tuples of numbers

`str_to_unsigned_vals` cuts a text into tokens, reads a number from each and copies
the numbers to where its arguments point. The run is modelled here access by access
(`vals_run`) and is the function that the parsers call (`str_to_unsigned_vals_eq`).
It reports a malformed tuple only as long as every token passes for a number and no
empty field takes the place of one (`tuples_clean_iff`): otherwise the answer -1
becomes the bound of the copying loop, or the tuple is accepted.
-/

namespace Shardb.Tuples
open Shardb.Bytes (Text ascii)
open Shardb.Loops Shardb.Config Shardb.Options Shardb.Numerals
open Shardb.Lcores (Fault Result)

/-! ### Tokens and fields -/

/-- What `rte_strsplit` does. Its lengths are of type `int`, and so are those of the
    arrays on the stack that it works on. -/
def Splits (eal : Eal) : Prop :=
  ∀ string maxtokens delim, eal.rte_strsplit string maxtokens delim = strsplit delim maxtokens string

/-- There is no token for an empty field at the end. -/
def trimmed (fields : List Text) : List Text := if fields.getLast? = some [] then fields.dropLast else fields

private theorem trimmed_cons {field : Text} {fields : List Text} (some : fields ≠ []) :
    trimmed (field :: fields) = field :: trimmed fields := by
  obtain ⟨first, rest, rfl⟩ := List.exists_cons_of_ne_nil some
  unfold trimmed
  rw [List.getLast?_cons_cons, List.dropLast_cons_cons]
  split_ifs <;> rfl

private theorem passes {delim : UInt8} {field : Text} (free : delim ∉ field) : ∀ c ∈ field, (c != delim) = true := by
  intro c member
  simp only [bne_iff_ne, ne_eq]
  rintro rfl
  exact free member

private theorem strsplit_free {delim : UInt8} {string : Text} (n : Nat) (free : delim ∉ string) (some : string ≠ []) :
    strsplit delim (n + 1) string = [string] := by
  have whole : string.takeWhile (· != delim) = string := List.takeWhile_eq_self_iff.mpr (passes free)
  have nothing : string.dropWhile (· != delim) = [] := List.dropWhile_eq_nil_iff.mpr (passes free)
  have end_of : strsplit delim n [] = [] := by cases n <;> rfl
  rw [strsplit, if_neg some, whole, nothing, List.drop_nil, end_of, ite_self]

private theorem strsplit_cut {delim : UInt8} {field rest : Text} (n : Nat) (free : delim ∉ field) :
    strsplit delim (n + 1) (field ++ delim :: rest) =
      if n = 0 ∧ field ≠ [] then [field ++ delim :: rest] else field :: strsplit delim n rest := by
  have before : (field ++ delim :: rest).takeWhile (· != delim) = field := by
    rw [List.takeWhile_append_of_pos (passes free)]
    simp
  have behind : (field ++ delim :: rest).dropWhile (· != delim) = delim :: rest := by
    rw [List.dropWhile_append_of_pos (passes free)]
    simp
  have first : (field ++ delim :: rest).head? ≠ some delim ↔ field ≠ [] := by
    cases field with
    | nil => simp
    | cons c field =>
      simp only [List.cons_append, List.head?_cons, ne_eq, Option.some.injEq, reduceCtorEq, not_false_eq_true, iff_true]
      rintro rfl
      exact free List.mem_cons_self
  rw [strsplit, if_neg (by simp), before, behind]
  simp only [first, List.drop_succ_cons, List.drop_zero]

/-- A string with no more fields than there is room for is cut into them. -/
theorem strsplit_fields {delim : UInt8} : ∀ {maxtokens : Nat} {string : Text},
    (string.splitOn delim).length ≤ maxtokens → strsplit delim maxtokens string = trimmed (string.splitOn delim) := by
  intro maxtokens
  induction maxtokens with
  | zero =>
    intro string few
    exact absurd (List.length_eq_zero_iff.mp (Nat.le_zero.mp few)) (List.splitOn_ne_nil _ _)
  | succ n ih =>
    intro string few
    by_cases cut : delim ∈ string
    · obtain ⟨field, rest, rfl, free⟩ := List.eq_append_cons_of_mem cut
      rw [List.splitOn_append_cons_self_of_not_mem free] at few ⊢
      have room : (rest.splitOn delim).length ≤ n := by simpa using few
      have more : 0 < n := lt_of_lt_of_le (List.length_pos_iff.mpr (List.splitOn_ne_nil _ _)) room
      rw [strsplit_cut n free, if_neg (by omega), ih room, trimmed_cons (List.splitOn_ne_nil _ _)]
    · rw [List.splitOn_eq_singleton cut]
      by_cases some : string = []
      · subst some
        rfl
      · rw [strsplit_free n cut some]
        simp [trimmed, some]

/-- With more fields than that, all the room is used. -/
theorem strsplit_full {delim : UInt8} : ∀ {maxtokens : Nat} {string : Text},
    maxtokens < (string.splitOn delim).length → (strsplit delim maxtokens string).length = maxtokens := by
  intro maxtokens
  induction maxtokens with
  | zero =>
    intro string _
    rfl
  | succ n ih =>
    intro string many
    by_cases cut : delim ∈ string
    · obtain ⟨field, rest, rfl, free⟩ := List.eq_append_cons_of_mem cut
      rw [List.splitOn_append_cons_self_of_not_mem free, List.length_cons] at many
      rw [strsplit_cut n free]
      split_ifs with last
      · simp [last.1]
      · rw [List.length_cons, ih (by omega)]
    · rw [List.splitOn_eq_singleton cut, List.length_singleton] at many
      omega

theorem strsplit_length {delim : UInt8} {maxtokens : Nat} {string : Text} :
    (strsplit delim maxtokens string).length ≤ maxtokens := by
  rcases Nat.lt_or_ge maxtokens (string.splitOn delim).length with many | few
  · rw [strsplit_full many]
  · rw [strsplit_fields few]
    refine le_trans ?_ few
    unfold trimmed
    split_ifs
    · simp
    · rfl

/-! ### The two functions, access by access -/

/-- A call of `str_to_unsigned_vals`, but for its pointers. -/
structure Call where
  s : Text
  sbuflen : Nat
  separator : UInt8
  num_vals : Nat

/-- The loop over `splits` once `vals` has been filled so far: the answer, and `vals`. -/
def array_loop (num_vals : Nat) : List Text → List Nat → Result (Int × List Nat)
  | [], vals => .ok (vals.length, vals)
  | split :: splits, vals =>
    if num_vals ≤ vals.length then .error .overflow
    else
      let x := strtoul split 0
      let vals := vals ++ [x.value % 2 ^ 32]
      if x.errno = true ∨ x.endptr ≠ [] then .ok (-1, vals) else array_loop num_vals splits vals

/-- The passes of the copying loop that are left once `outputs` has been written. A
    pass reads an element of `vals` and writes through a pointer; there are `num_vals`
    of each, and what was never stored may be anything, such as 0. -/
def copy_loop (num_vals : Nat) (vals : List Nat) : (left : Nat) → (outputs : List Nat) → Result (List Nat)
  | 0, outputs => .ok outputs
  | left + 1, outputs =>
    if outputs.length < num_vals then copy_loop num_vals vals left (outputs ++ [vals.getD outputs.length 0])
    else .error .overflow

/-- The number returned, and what the pointers point to then. The arrays `str`,
    `splits` and `vals` must not be empty: `sbuflen + 1` wraps around in a `size_t`. -/
def vals_run (eal : Eal) (c : Call) : Result (Nat × List Nat) := do
  if c.num_vals = 0 ∨ 2 ^ 64 ≤ c.sbuflen + 1 then .error .overflow
  else do
    let (answer, vals) ← array_loop c.num_vals (eal.rte_strsplit (c.s.take c.sbuflen) c.num_vals c.separator) []
    -- the answer is stored in an `unsigned`
    let num_vals := (answer % 2 ^ 32).toNat
    let outputs ← copy_loop c.num_vals vals num_vals []
    return (num_vals, outputs)

/-- The number that is stored for a token. -/
def stored (split : Text) : Nat := (strtoul split 0).value % 2 ^ 32

private theorem array_loop_taken {num_vals : Nat} : ∀ {splits : List Text} {vals : List Nat},
    vals.length + splits.length ≤ num_vals → (∀ split ∈ splits, Taken split) →
      array_loop num_vals splits vals = .ok ((vals.length + splits.length : Nat), vals ++ splits.map stored) := by
  intro splits
  induction splits with
  | nil => intro vals _ _; simp [array_loop]
  | cons split splits ih =>
    intro vals room taken
    rw [List.length_cons] at room
    obtain ⟨first, rest⟩ := List.forall_mem_cons.mp taken
    have passes : ¬ ((strtoul split 0).errno = true ∨ (strtoul split 0).endptr ≠ []) := by
      simp [first.1, first.2]
    rw [array_loop, if_neg (by omega)]
    simp only [if_neg passes]
    rw [ih (by simp; omega) rest]
    have counted : (vals ++ [(strtoul split 0).value % 2 ^ 32]).length + splits.length = vals.length + (splits.length + 1) := by
      simp
      omega
    rw [counted, List.map_cons, List.append_assoc, List.length_cons]
    rfl

private theorem array_loop_refused {num_vals : Nat} : ∀ {splits : List Text} {vals : List Nat},
    vals.length + splits.length ≤ num_vals → ¬ (∀ split ∈ splits, Taken split) →
      ∃ vals', array_loop num_vals splits vals = .ok (-1, vals') := by
  intro splits
  induction splits with
  | nil => intro vals _ bad; exact absurd (fun _ member => absurd member List.not_mem_nil) bad
  | cons split splits ih =>
    intro vals room bad
    rw [List.length_cons] at room
    rw [array_loop, if_neg (by omega)]
    by_cases passes : (strtoul split 0).errno = true ∨ (strtoul split 0).endptr ≠ []
    · exact ⟨_, if_pos passes⟩
    · simp only [if_neg passes]
      refine ih (by simp; omega) fun rest => bad (List.forall_mem_cons.mpr ⟨?_, rest⟩)
      simpa [Taken] using passes

private theorem copy_loop_inside {num_vals : Nat} {vals : List Nat} (room : vals.length ≤ num_vals) :
    ∀ {left : Nat} {outputs : List Nat}, outputs.length + left = vals.length → outputs = vals.take outputs.length →
      copy_loop num_vals vals left outputs = .ok vals := by
  intro left
  induction left with
  | zero =>
    intro outputs all same
    rw [copy_loop, same, List.take_of_length_le (by omega)]
  | succ left ih =>
    intro outputs more same
    have inside : outputs.length < vals.length := by omega
    rw [copy_loop, if_pos (by omega)]
    refine ih (by simp; omega) ?_
    rw [List.length_append, List.length_singleton, List.take_add_one, ← same, List.getElem?_eq_getElem inside]
    simp [List.getD_eq_getElem?_getD, inside]

private theorem copy_loop_overruns {num_vals : Nat} {vals : List Nat} : ∀ {left : Nat} {outputs : List Nat},
    outputs.length ≤ num_vals → num_vals < outputs.length + left →
      copy_loop num_vals vals left outputs = .error .overflow := by
  intro left
  induction left with
  | zero => intro outputs _ bound; omega
  | succ left ih =>
    intro outputs inside bound
    rw [copy_loop]
    split_ifs with room
    · exact ih (by simp; omega) (by simp; omega)
    · rfl

section Run
variable {eal : Eal} {c : Call}

/-- The tokens that are read. -/
def tokens (c : Call) : List Text := strsplit c.separator c.num_vals (c.s.take c.sbuflen)

/-- Both functions return when every token passes for a number. -/
theorem vals_run_taken (splits : Splits eal) (some : 0 < c.num_vals) (size : c.sbuflen + 1 < 2 ^ 64)
    (bits : c.num_vals < 2 ^ 31) (taken : ∀ split ∈ tokens c, Taken split) :
    vals_run eal c = .ok ((tokens c).length, (tokens c).map stored) := by
  have few : (tokens c).length ≤ c.num_vals := strsplit_length
  have filled := @array_loop_taken c.num_vals (tokens c) [] (by simpa using few) taken
  have bound : (((tokens c).length : Int) % 2 ^ 32).toNat = (tokens c).length := by omega
  have copied := @copy_loop_inside c.num_vals ((tokens c).map stored) (by simpa using few) (tokens c).length []
    (by simp) rfl
  rw [vals_run, if_neg (by omega), splits]
  simp only [List.length_nil, Nat.zero_add, List.nil_append] at filled
  rw [show strsplit c.separator c.num_vals (c.s.take c.sbuflen) = tokens c from rfl, filled]
  simp only [bound, copied, bind, Except.bind, pure, Except.pure]

/-- Otherwise the copying loop runs behind `vals` and the arguments. -/
theorem vals_run_refused (splits : Splits eal) (bits : c.num_vals < 2 ^ 31) (bad : ¬ (∀ split ∈ tokens c, Taken split)) :
    vals_run eal c = .error .overflow := by
  have few : (tokens c).length ≤ c.num_vals := strsplit_length
  obtain ⟨vals, filled⟩ := @array_loop_refused c.num_vals (tokens c) [] (by simpa using few) bad
  have bound : ((-1 : Int) % 2 ^ 32).toNat = 2 ^ 32 - 1 := by decide
  have copied := @copy_loop_overruns c.num_vals vals (2 ^ 32 - 1) [] (by simp) (by simp; omega)
  rw [vals_run]
  split_ifs
  · rfl
  · rw [splits, show strsplit c.separator c.num_vals (c.s.take c.sbuflen) = tokens c from rfl, filled]
    simp only [bound, copied, bind, Except.bind]

private theorem mapM_stored (splits : List Text) :
    (splits.mapM fun split =>
      let x := strtoul split 0
      if x.errno = true ∨ x.endptr ≠ [] then none else some (x.value % 2 ^ 32)) =
    if ∀ split ∈ splits, Taken split then some (splits.map stored) else none := by
  induction splits with
  | nil => simp
  | cons split splits ih =>
    rw [List.mapM_cons, ih]
    by_cases first : Taken split
    · have passes : ¬ ((strtoul split 0).errno = true ∨ (strtoul split 0).endptr ≠ []) := by
        simp [first.1, first.2]
      by_cases rest : ∀ split ∈ splits, Taken split
      · rw [if_pos rest, if_pos (List.forall_mem_cons.mpr ⟨first, rest⟩)]
        simp only [if_neg passes]
        rfl
      · rw [if_neg rest, if_neg fun all => rest (List.forall_mem_cons.mp all).2]
        simp only [if_neg passes]
        rfl
    · have stops : (strtoul split 0).errno = true ∨ (strtoul split 0).endptr ≠ [] := by
        by_contra passes
        exact first (by simpa [Taken] using passes)
      rw [if_neg fun all => first (List.forall_mem_cons.mp all).1]
      simp only [if_pos stops]
      rfl

/-- What the parsers go on with. -/
theorem str_to_unsigned_vals_tokens (splits : Splits eal) :
    str_to_unsigned_vals eal c.s c.sbuflen c.separator c.num_vals =
      if ∀ split ∈ tokens c, Taken split then .ok ((tokens c).map stored) else .error (.fault .overflow) := by
  have tokens_are : eal.rte_strsplit (c.s.take c.sbuflen) c.num_vals c.separator = tokens c := splits ..
  unfold str_to_unsigned_vals str_to_unsigned_array
  rw [tokens_are, mapM_stored]
  by_cases taken : ∀ split ∈ tokens c, Taken split
  · rw [if_pos taken, if_pos taken]
  · rw [if_neg taken, if_neg taken]

/-- It is what the run leaves where the pointers point to. -/
theorem str_to_unsigned_vals_eq (splits : Splits eal) (some : 0 < c.num_vals) (size : c.sbuflen + 1 < 2 ^ 64)
    (bits : c.num_vals < 2 ^ 31) :
    str_to_unsigned_vals eal c.s c.sbuflen c.separator c.num_vals =
      match vals_run eal c with
      | .ok (_, outputs) => .ok outputs
      | .error f => .error (.fault f) := by
  rw [str_to_unsigned_vals_tokens splits]
  by_cases taken : ∀ split ∈ tokens c, Taken split
  · rw [if_pos taken, vals_run_taken splits some size bits taken]
  · rw [if_neg taken, vals_run_refused splits bits taken]

end Run

/-! ### The fields of a text -/

/-- What the separators keep apart in the part of the text that is copied. -/
def fieldsOf (c : Call) : List Text := (c.s.take c.sbuflen).splitOn c.separator

private theorem splitOn_free {delim : UInt8} {string : Text} : ∀ field ∈ string.splitOn delim, delim ∉ field := by
  induction string with
  | nil => simp
  | cons c string ih =>
    obtain ⟨first, rest, parts⟩ := List.exists_cons_of_ne_nil (List.splitOn_ne_nil delim string)
    rw [parts, List.forall_mem_cons] at ih
    rw [List.splitOn_cons_eq_if_modifyHead, parts]
    by_cases cut : c = delim
    · simpa [cut] using ih
    · simpa [cut, Ne.symm cut] using ih

/-! ### The calls of the parsers -/

/-- A pass over the tuples of `--rx` and of `--tx`. -/
def rx_pass (eal : Eal) : Scan → Parsed (Scan ⊕ Scan) :=
  tuple_pass eal 3 APP_ARG_RX_MAX_TUPLES fun vals => rx_tuple eal (vals.getD 0 0) (vals.getD 1 0) (vals.getD 2 0)

def tx_pass (eal : Eal) : Scan → Parsed (Scan ⊕ Scan) :=
  tuple_pass eal 2 APP_ARG_TX_MAX_TUPLES fun vals => tx_tuple eal (vals.getD 0 0) (vals.getD 1 0)

/-- A parser comes to a call, with the code that it answers when the result is not
    the number of values. -/
inductive Meets (eal : Eal) (arg : Text) (app : App) : Opt → Call → Int → Prop
  | rx {s : Scan} {p p0 : Text} (short : arg.length ≤ APP_ARG_RX_MAX_CHARS)
      (reached : Reaches (rx_pass eal) ⟨arg, 0, app⟩ s) (opens : strchr s.p 40 = some p)
      (closes : strchr p 41 = some p0) :
      Meets eal arg app .rx ⟨p.drop 1, (p.drop 1).length - p0.length, 44, 3⟩ (-2)
  | tx {s : Scan} {p p0 : Text} (short : arg.length ≤ APP_ARG_TX_MAX_CHARS)
      (reached : Reaches (tx_pass eal) ⟨arg, 0, app⟩ s) (opens : strchr s.p 40 = some p)
      (closes : strchr p 41 = some p0) :
      Meets eal arg app .tx ⟨p.drop 1, (p.drop 1).length - p0.length, 44, 2⟩ (-2)
  | lpm {s : LpmScan} {p0 : Text} (short : arg.length ≤ APP_ARG_LPM_MAX_CHARS)
      (reached : Reaches (lpm_pass eal) ⟨arg, app⟩ s) (left : s.p ≠ []) (slash : strchr s.p 47 = some p0) :
      Meets eal arg app .lpm ⟨s.p, s.p.length - p0.length, 46, 4⟩ (-2)
  | rsz (short : arg.length ≤ APP_ARG_RSZ_CHARS) : Meets eal arg app .rsz ⟨arg, APP_ARG_RSZ_CHARS, 44, 4⟩ (-2)
  | io_rx {p0 : Text} (short : arg.length ≤ APP_ARG_BSZ_CHARS) (closes : strchr arg 41 = some p0)
      (order : p0.length ≤ (arg.drop 1).length) :
      Meets eal arg app .bsz ⟨arg.drop 1, (arg.drop 1).length - p0.length, 44, 2⟩ (-2)
  -- the argument begins with `)`, and `p0 - p` is -1
  | behind {p0 : Text} (short : arg.length ≤ APP_ARG_BSZ_CHARS) (closes : strchr arg 41 = some p0)
      (order : (arg.drop 1).length < p0.length) : Meets eal arg app .bsz ⟨arg.drop 1, 2 ^ 64 - 1, 44, 2⟩ (-2)
  | worker {p0 p p0' : Text} {io_rx : Nat × Nat} (short : arg.length ≤ APP_ARG_BSZ_CHARS)
      (closes : strchr arg 41 = some p0) (first : burst_pair eal (arg.drop 1) p0 (-2) = .ok io_rx)
      (opens : strchr p0 40 = some p) (closes' : strchr p 41 = some p0') :
      Meets eal arg app .bsz ⟨p.drop 1, (p.drop 1).length - p0'.length, 44, 2⟩ (-4)
  | io_tx {p0 p p0' p' p0'' : Text} {io_rx worker : Nat × Nat} (short : arg.length ≤ APP_ARG_BSZ_CHARS)
      (closes : strchr arg 41 = some p0) (first : burst_pair eal (arg.drop 1) p0 (-2) = .ok io_rx)
      (opens : strchr p0 40 = some p) (closes' : strchr p 41 = some p0')
      (second : burst_pair eal (p.drop 1) p0' (-4) = .ok worker) (opens' : strchr p0' 40 = some p')
      (closes'' : strchr p' 41 = some p0'') :
      Meets eal arg app .bsz ⟨p'.drop 1, (p'.drop 1).length - p0''.length, 44, 2⟩ (-6)

section Answers
variable {eal : Eal} {arg : Text} {app : App}

private theorem refuse_bind {α : Type} {bad : Prop} [Decidable bad] {ret : Int} {f : Unit → Parsed α} (fine : ¬ bad) :
    (refuse bad ret >>= f) = f () := by
  rw [refuse, if_neg fine]
  rfl

private theorem refused_bind {α : Type} {bad : Prop} [Decidable bad] {ret : Int} {f : Unit → Parsed α} (is : bad) :
    (refuse bad ret >>= f) = .error (.code ret) := by
  rw [refuse, if_pos is]
  rfl

private theorem expect_bind {α β : Type} {ret : Int} {o : Option α} {a : α} {f : α → Parsed β} (is : o = some a) :
    (expect ret o >>= f) = f a := by
  rw [is]
  rfl

/-- The call of a loop over tuples. -/
private theorem parse_tuples_answers {num max_chars max_tuples : Nat} {body : List Nat → App → Parsed App} {s : Scan}
    {p p0 : Text} {vals : List Nat} (short : arg.length ≤ max_chars)
    (reached : Reaches (tuple_pass eal num max_tuples body) ⟨arg, 0, app⟩ s) (opens : strchr s.p 40 = some p)
    (closes : strchr p 41 = some p0)
    (read : str_to_unsigned_vals eal (p.drop 1) ((p.drop 1).length - p0.length) 44 num = .ok vals)
    (wrong : vals.length ≠ num) : parse_tuples eal num max_chars max_tuples body arg app = .error (.code (-2)) := by
  have fails : tuple_pass eal num max_tuples body s = .error (.code (-2)) := by
    unfold tuple_pass
    simp only [opens, closes, expect]
    show (str_to_unsigned_vals eal (p.drop 1) ((p.drop 1).length - p0.length) 44 num >>= _) = _
    rw [read]
    exact refused_bind wrong
  unfold parse_tuples
  rw [refuse_bind (by omega), loop_reached (fun s => s.p.length) tuple_pass_lowers reached fails (Nat.lt_succ_self _)]
  rfl

private theorem burst_pair_answers {p p0 : Text} {ret : Int} {vals : List Nat} (order : p0.length ≤ p.length)
    (read : str_to_unsigned_vals eal p (p.length - p0.length) 44 2 = .ok vals) (wrong : vals.length ≠ 2) :
    burst_pair eal p p0 ret = .error (.code ret) := by
  unfold burst_pair
  rw [if_neg (by omega), read]
  exact refused_bind wrong

/-- A result other than the number of values makes the parser answer its code. -/
theorem meets_answers {opt : Opt} {c : Call} {ret : Int} (meets : Meets eal arg app opt c ret)
    (size : c.sbuflen + 1 < 2 ^ 64) {vals : List Nat}
    (read : str_to_unsigned_vals eal c.s c.sbuflen c.separator c.num_vals = .ok vals)
    (wrong : vals.length ≠ c.num_vals) : parse_arg eal opt arg app = .error (.code ret) := by
  cases meets with
  | rx short reached opens closes => exact parse_tuples_answers short reached opens closes read wrong
  | tx short reached opens closes => exact parse_tuples_answers short reached opens closes read wrong
  | @lpm s p0 short reached left slash =>
    have fails : lpm_pass eal s = .error (.code (-2)) := by
      unfold lpm_pass
      rw [if_neg left, slash]
      show (str_to_unsigned_vals eal s.p (s.p.length - p0.length) 46 4 >>= _) = _
      rw [read]
      exact refused_bind wrong
    show parse_arg_lpm eal arg app = _
    unfold parse_arg_lpm
    rw [refuse_bind (by omega), loop_reached (fun s => s.p.length) lpm_pass_lowers reached fails (Nat.lt_succ_self _)]
    rfl
  | rsz short =>
    show parse_arg_rsz eal arg app = _
    unfold parse_arg_rsz
    rw [refuse_bind (by omega), read]
    exact refused_bind wrong
  | io_rx short closes order =>
    show parse_arg_bsz eal arg app = _
    unfold parse_arg_bsz
    rw [refuse_bind (by omega), expect_bind closes, burst_pair_answers order read wrong]
    rfl
  | behind short closes order => simp at size
  | @worker p0 p p0' io_rx short closes first opens closes' =>
    have order := closes_behind opens closes'
    show parse_arg_bsz eal arg app = _
    unfold parse_arg_bsz
    rw [refuse_bind (by omega), expect_bind closes, first]
    show (expect (-3) (strchr p0 40) >>= _) = _
    rw [expect_bind opens, expect_bind closes', burst_pair_answers (by simp; omega) read wrong]
    rfl
  | @io_tx p0 p p0' p' p0'' io_rx worker short closes first opens closes' second opens' closes'' =>
    have order := closes_behind opens' closes''
    show parse_arg_bsz eal arg app = _
    unfold parse_arg_bsz
    rw [refuse_bind (by omega), expect_bind closes, first]
    show (expect (-3) (strchr p0 40) >>= _) = _
    rw [expect_bind opens, expect_bind closes', second]
    show (expect (-5) (strchr p0' 40) >>= _) = _
    rw [expect_bind opens', expect_bind closes'', burst_pair_answers (by simp; omega) read wrong]
    rfl

end Answers

/-! ### When malformed tuples are rejected -/

section Claim
variable (Unsigned : Text → Nat → Prop)

/-- The text consists of `num_vals` unsigned numbers, and their values are these. -/
def Consists (c : Call) (vals : List Nat) : Prop :=
  ∃ fields : List Text, fields.length = c.num_vals ∧ c.s.take c.sbuflen = [c.separator].intercalate fields ∧
    (∀ field ∈ fields, c.separator ∉ field) ∧ List.Forall₂ Unsigned fields vals

/-- A tuple is taken for what it is: no access is behind an array or the arguments,
    the numbers of a well-formed one are stored, and a malformed one is answered
    with another number, so that every parser that comes to it answers its code. -/
structure Clean (eal : Eal) (c : Call) : Prop where
  inside : ∃ r, vals_run eal c = .ok r
  numbers : ∀ vals, Consists Unsigned c vals → vals_run eal c = .ok (c.num_vals, vals)
  malformed : (¬ ∃ vals, Consists Unsigned c vals) → ∀ r, vals_run eal c = .ok r → r.1 ≠ c.num_vals
  answered : (¬ ∃ vals, Consists Unsigned c vals) → ∀ opt arg app ret, Meets eal arg app opt c ret →
    parse_arg eal opt arg app = .error (.code ret)

/-- Arrays that are not empty, no more fields than there is room for, and only
    numerals and empty fields among them; when all the room is used, no empty field
    counts as a number, unless the last one is empty and so no token. -/
structure Legible (c : Call) : Prop where
  some : 0 < c.num_vals
  size : c.sbuflen + 1 < 2 ^ 64
  few : (fieldsOf c).length ≤ c.num_vals
  read : ∀ field ∈ fieldsOf c, field = [] ∨ ∃ n, Numeral field n
  full : (fieldsOf c).length = c.num_vals →
    (fieldsOf c).getLast? = Option.some [] ∨ ∀ field ∈ fieldsOf c, ∃ v, Unsigned field v

variable {Unsigned}

theorem consists_iff {c : Call} (some : 0 < c.num_vals) {vals : List Nat} :
    Consists Unsigned c vals ↔ (fieldsOf c).length = c.num_vals ∧ List.Forall₂ Unsigned (fieldsOf c) vals := by
  constructor
  · rintro ⟨fields, count, text, free, numbers⟩
    have same : fieldsOf c = fields := by
      unfold fieldsOf
      rw [text]
      exact List.splitOn_intercalate _ free (List.length_pos_iff.mp (by omega))
    rw [same]
    exact ⟨count, numbers⟩
  · rintro ⟨count, numbers⟩
    exact ⟨fieldsOf c, count, (List.intercalate_splitOn _).symm, splitOn_free, numbers⟩

private theorem trimmed_subset {fields : List Text} : ∀ field ∈ trimmed fields, field ∈ fields := by
  unfold trimmed
  split_ifs
  · exact fun field member => (List.dropLast_sublist fields).subset member
  · exact fun field member => member

private theorem mem_trimmed {fields : List Text} {field : Text} (member : field ∈ fields) :
    field = [] ∨ field ∈ trimmed fields := by
  unfold trimmed
  split_ifs with last
  · obtain ⟨front, rfl⟩ := List.getLast?_eq_some_iff.mp last
    rw [List.dropLast_concat]
    simpa [or_comm] using member
  · exact .inr member

/-- The tokens of a legible text pass for numbers. -/
theorem Legible.taken {c : Call} (legible : Legible Unsigned c) : ∀ split ∈ tokens c, Taken split := by
  have tokens_are : tokens c = trimmed (fieldsOf c) := strsplit_fields legible.few
  exact fun split token => taken_iff.mpr (legible.read split (trimmed_subset split (tokens_are ▸ token)))

variable (only : ∀ field v, Unsigned field v → ∃ n, Numeral field n ∧ v = n % 2 ^ 32)
include only

private theorem stored_of_unsigned {field : Text} {v : Nat} (number : Unsigned field v) : field ≠ [] ∧ v = stored field := by
  obtain ⟨n, numeral, rfl⟩ := only field v number
  obtain ⟨some, -, -, rfl⟩ := numeral_iff.mp numeral
  exact ⟨some, rfl⟩

private theorem all_unsigned_iff {fields : List Text} {vals : List Nat} :
    List.Forall₂ Unsigned fields vals ↔ vals = fields.map stored ∧ ∀ field ∈ fields, ∃ v, Unsigned field v := by
  constructor
  · intro numbers
    induction numbers with
    | nil => simp
    | cons number _ ih =>
      obtain ⟨rfl, others⟩ := ih
      refine ⟨?_, List.forall_mem_cons.mpr ⟨⟨_, number⟩, others⟩⟩
      rw [List.map_cons, (stored_of_unsigned only number).2]
  · rintro ⟨rfl, each⟩
    rw [List.forall₂_map_right_iff, List.forall₂_same]
    intro field member
    obtain ⟨v, number⟩ := each field member
    obtain ⟨-, rfl⟩ := stored_of_unsigned only number
    exact number

variable {eal : Eal} {c : Call} (splits : Splits eal) (bits : c.num_vals < 2 ^ 31)
include splits bits

omit only in
/-- A run that comes to an end has read all tokens. -/
private theorem tokens_taken (inside : ∃ r, vals_run eal c = .ok r) :
    (0 < c.num_vals ∧ c.sbuflen + 1 < 2 ^ 64) ∧ ∀ split ∈ tokens c, Taken split := by
  obtain ⟨r, run⟩ := inside
  constructor
  · by_contra arrays
    rw [vals_run, if_pos (by omega)] at run
    cases run
  · by_contra bad
    rw [vals_run_refused splits bits bad] at run
    cases run

private theorem legible_of_clean (clean : Clean Unsigned eal c) : Legible Unsigned c := by
  obtain ⟨⟨some, size⟩, taken⟩ := tokens_taken splits bits clean.inside
  have run := vals_run_taken splits some size bits taken
  have few : (fieldsOf c).length ≤ c.num_vals := by
    by_contra many
    have count : (tokens c).length = c.num_vals := strsplit_full (Nat.lt_of_not_le many)
    refine clean.malformed ?_ _ run count
    rintro ⟨vals, consists⟩
    exact many ((consists_iff some).mp consists).1.le
  have tokens_are : tokens c = trimmed (fieldsOf c) := strsplit_fields few
  refine ⟨some, size, few, fun field member => ?_, fun count => ?_⟩
  · rcases mem_trimmed member with empty | token
    · exact .inl empty
    · exact taken_iff.mp (taken field (tokens_are ▸ token))
  · by_cases last : (fieldsOf c).getLast? = Option.some []
    · exact .inl last
    · right
      have all : tokens c = fieldsOf c := by rw [tokens_are, trimmed, if_neg last]
      by_contra other
      refine clean.malformed ?_ _ run (by rw [all, count])
      rintro ⟨vals, consists⟩
      exact other ((all_unsigned_iff only).mp ((consists_iff some).mp consists).2).2

private theorem clean_of_legible (legible : Legible Unsigned c) : Clean Unsigned eal c := by
  have run := vals_run_taken splits legible.some legible.size bits legible.taken
  obtain ⟨some, size, few, read, full⟩ := legible
  have tokens_are : tokens c = trimmed (fieldsOf c) := strsplit_fields few
  -- an answer of `num_vals` means that the fields are all there and all tokens
  have malformed : (tokens c).length = c.num_vals → ∃ vals, Consists Unsigned c vals := by
    intro count
    rw [tokens_are] at count
    by_cases last : (fieldsOf c).getLast? = Option.some []
    · rw [trimmed, if_pos last, List.length_dropLast] at count
      omega
    · rw [trimmed, if_neg last] at count
      exact ⟨_, (consists_iff some).mpr ⟨count, (all_unsigned_iff only).mpr ⟨rfl, (full count).resolve_left last⟩⟩⟩
  refine ⟨⟨_, run⟩, fun vals consists => ?_, fun none r is count => ?_, fun none opt arg app ret meets => ?_⟩
  · obtain ⟨count, numbers⟩ := (consists_iff some).mp consists
    obtain ⟨rfl, each⟩ := (all_unsigned_iff only).mp numbers
    have last : (fieldsOf c).getLast? ≠ Option.some [] := by
      intro last
      obtain ⟨v, number⟩ := each [] (List.mem_of_getLast? last)
      exact (stored_of_unsigned only number).1 rfl
    rw [run, tokens_are, trimmed, if_neg last, count]
  · rw [run] at is
    cases is
    exact none (malformed count)
  · have vals := str_to_unsigned_vals_eq splits some size bits
    rw [run] at vals
    refine meets_answers meets size vals ?_
    rw [List.length_map]
    exact fun count => none (malformed count)

/-- Malformed tuples are rejected cleanly, and well-formed ones read, exactly when
    the text is legible. Which of the numerals that `strtoul` reads count as unsigned
    numbers, with a sign or without, of 32 bits or of more, is left open. -/
theorem tuples_clean_iff : Clean Unsigned eal c ↔ Legible Unsigned c :=
  ⟨legible_of_clean only splits bits, clean_of_legible only splits bits⟩

end Claim

/-- Every numeral that `strtoul` reads counts, for its lower 32 bits. -/
def AnyNumeral (field : Text) (v : Nat) : Prop := ∃ n, Numeral field n ∧ v = n % 2 ^ 32

private theorem first_splits : Splits (Eal.first 4) := fun _ _ _ => rfl

private theorem three_bits {s : Text} {sbuflen : Nat} : (⟨s, sbuflen, 44, 3⟩ : Call).num_vals < 2 ^ 31 := by simp

/-- A port, a queue and an lcore, with blanks between them. -/
theorem queue_tuple_clean : Clean AnyNumeral (Eal.first 4) ⟨ascii "0, 0x1, 2", 9, 44, 3⟩ := by
  refine (tuples_clean_iff (fun _ _ number => number) first_splits three_bits).mpr ?_
  have port : Numeral (ascii "0") 0 := numeral_iff.mpr ⟨List.cons_ne_nil _ _, rfl, rfl, rfl⟩
  have queue : Numeral (ascii " 0x1") 1 := numeral_iff.mpr ⟨List.cons_ne_nil _ _, rfl, rfl, rfl⟩
  have lcore : Numeral (ascii " 2") 2 := numeral_iff.mpr ⟨List.cons_ne_nil _ _, rfl, rfl, rfl⟩
  have fields : fieldsOf ⟨ascii "0, 0x1, 2", 9, 44, 3⟩ = [ascii "0", ascii " 0x1", ascii " 2"] := rfl
  refine ⟨by simp, by simp, by rw [fields]; rfl, ?_, fun _ => .inr ?_⟩
  · rw [fields]
    simp only [List.forall_mem_cons]
    exact ⟨.inr ⟨_, port⟩, .inr ⟨_, queue⟩, .inr ⟨_, lcore⟩, by simp⟩
  · rw [fields]
    simp only [List.forall_mem_cons]
    exact ⟨⟨_, _, port, rfl⟩, ⟨_, _, queue, rfl⟩, ⟨_, _, lcore, rfl⟩, by simp⟩

/-- A letter in place of a number ends the program, and an empty field is a queue 0. -/
theorem letter_overruns_empty_accepted :
    ¬ Clean AnyNumeral (Eal.first 4) ⟨ascii "x,1,2", 5, 44, 3⟩ ∧
    parse_arg_rx (Eal.first 4) (ascii "(x,1,2)") zeroed = .error (.fault .overflow) ∧
    ¬ Clean AnyNumeral (Eal.first 4) ⟨ascii "0,,2", 4, 44, 3⟩ ∧
    ∃ app, parse_arg_rx (Eal.first 4) (ascii "(0,,2)") zeroed = .ok app ∧ app.nic_rx_queue_mask 0 0 = true := by
  refine ⟨fun clean => ?_, rfl, fun clean => ?_, _, rfl, rfl⟩
  · obtain ⟨-, taken⟩ := tokens_taken first_splits three_bits clean.inside
    exact absurd (taken (ascii "x") (by decide)) (by decide)
  · have run : vals_run (Eal.first 4) ⟨ascii "0,,2", 4, 44, 3⟩ = .ok (3, [0, 0, 2]) := rfl
    refine clean.malformed ?_ _ run rfl
    rintro ⟨vals, consists⟩
    have numbers := ((consists_iff (by simp)).mp consists).2
    obtain ⟨-, each⟩ := (all_unsigned_iff fun _ _ number => number).mp numbers
    obtain ⟨v, n, empty, -⟩ := each [] (by decide)
    exact (numeral_iff.mp empty).1 rfl

end Shardb.Tuples
