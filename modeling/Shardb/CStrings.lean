import Shardb.Bytes
import Mathlib.Data.List.TakeWhile
import Mathlib.Logic.Function.Basic

/-!
# C strings and `strtok`

Character arrays named by `β`, pointers into them, the NUL-terminated string a
pointer stands for, and `strtok` with its one hidden cursor: the function the C
library documents, which overwrites the delimiter behind a token and remembers
where to go on. `nextToken` is what a call means for the texts (`strtok_none`,
`strtok_some`), whichever array the cursor points into.
-/

namespace Shardb.CStrings
open Shardb.Bytes (Text)

variable {β : Type}

/-- A `char *` into an array. -/
structure Ptr (β : Type) where
  buf : β
  off : Nat
  deriving DecidableEq

/-- The character arrays and the static cursor of `strtok`. -/
structure Mem (β : Type) where
  bytes : β → List UInt8
  cursor : Option (Ptr β)

/-- The C string that starts a run of bytes: what stands before the first NUL. -/
def cstring (bytes : List UInt8) : Text := bytes.takeWhile (· != 0)

/-- The C string a pointer stands for. -/
def Mem.str (m : Mem β) (p : Ptr β) : Text := cstring ((m.bytes p.buf).drop p.off)

section Arrays
variable [DecidableEq β]

/-- `strcpy` to the start of an array. The source is read before the array is
    written, so copies within one array move the text. C says nothing of those that
    overlap (`Overlaps`). -/
def Mem.strcpy (m : Mem β) (dst : β) (src : Text) : Mem β :=
  { m with bytes := Function.update m.bytes dst (src ++ 0 :: (m.bytes dst).drop (src.length + 1)) }

/-- `strtok(s, delim)`; `s = none` is the call with `NULL`, which goes on from
    the cursor. Undefined (`none`) when there is no cursor to go on from. -/
def Mem.strtok (m : Mem β) (s : Option (Ptr β)) (delim : List UInt8) : Option (Option (Ptr β) × Mem β) :=
  match s.or m.cursor with
  | none => none
  | some p =>
    let text := m.str p
    let start := p.off + (text.takeWhile (· ∈ delim)).length
    let rest := text.dropWhile (· ∈ delim)
    if rest = [] then some (none, { m with cursor := some ⟨p.buf, start⟩ })
    else
      let stop := start + (rest.takeWhile (· ∉ delim)).length
      if (rest.takeWhile (· ∉ delim)).length = rest.length then
        some (some ⟨p.buf, start⟩, { m with cursor := some ⟨p.buf, stop⟩ })
      else
        some (some ⟨p.buf, start⟩,
          { bytes := Function.update m.bytes p.buf ((m.bytes p.buf).set stop 0), cursor := some ⟨p.buf, stop + 1⟩ })

end Arrays

/-- The first token of a text and what is left behind the delimiter that ends
    it; `none` when only delimiters are left. -/
def nextToken (delim : List UInt8) (text : Text) : Option (Text × Text) :=
  match text.dropWhile (· ∈ delim) with
  | [] => none
  | c :: r => some ((c :: r).takeWhile (· ∉ delim), ((c :: r).dropWhile (· ∉ delim)).drop 1)

/-! ### Prefixes up to a byte -/

section Prefixes
variable {α : Type} {p : α → Bool}

theorem takeWhile_drop {l : List α} {n : Nat} (inside : n ≤ (l.takeWhile p).length) :
    (l.drop n).takeWhile p = (l.takeWhile p).drop n := by
  induction l generalizing n with
  | nil => simp
  | cons a l ih =>
    cases n with
    | zero => rfl
    | succ n =>
      by_cases keep : p a
      · rw [List.takeWhile_cons_of_pos keep] at inside ⊢
        exact ih (by simpa using inside)
      · rw [List.takeWhile_cons_of_neg keep] at inside
        simp at inside

theorem takeWhile_set {l : List α} {n : Nat} {a : α} (stops : p a = false)
    (inside : n < (l.takeWhile p).length) : (l.set n a).takeWhile p = (l.takeWhile p).take n := by
  induction l generalizing n with
  | nil => simp at inside
  | cons b l ih =>
    by_cases keep : p b
    · rw [List.takeWhile_cons_of_pos keep] at inside ⊢
      cases n with
      | zero => simp [stops]
      | succ n =>
        rw [List.set_cons_succ, List.takeWhile_cons_of_pos keep, ih (by simpa using inside), List.take_succ_cons]
    · rw [List.takeWhile_cons_of_neg keep] at inside
      simp at inside

theorem takeWhile_set_behind {l : List α} {n : Nat} {a : α} (behind : (l.takeWhile p).length < n) :
    (l.set n a).takeWhile p = l.takeWhile p := by
  induction l generalizing n with
  | nil => simp
  | cons b l ih =>
    cases n with
    | zero => simp at behind
    | succ n =>
      by_cases keep : p b
      · rw [List.takeWhile_cons_of_pos keep] at behind ⊢
        rw [List.set_cons_succ, List.takeWhile_cons_of_pos keep, ih (by simpa using behind)]
      · rw [List.set_cons_succ, List.takeWhile_cons_of_neg keep, List.takeWhile_cons_of_neg keep]

end Prefixes

/-! ### Strings in memory -/

/-- A text read from memory holds no NUL. -/
theorem str_no_nul (m : Mem β) (p : Ptr β) : (0 : UInt8) ∉ m.str p := by
  intro member
  have := List.mem_takeWhile_imp member
  simp at this

theorem str_advance {m : Mem β} {b : β} {off n : Nat} (inside : n ≤ (m.str ⟨b, off⟩).length) :
    m.str ⟨b, off + n⟩ = (m.str ⟨b, off⟩).drop n := by
  simp only [Mem.str, cstring] at inside ⊢
  rw [← List.drop_drop, takeWhile_drop inside]

variable [DecidableEq β]


theorem strcpy_str (m : Mem β) (dst : β) {src : Text} (clean : (0 : UInt8) ∉ src) :
    (m.strcpy dst src).str ⟨dst, 0⟩ = src := by
  have keep : ∀ b ∈ src, (b != 0) = true := by
    intro b member
    have nonzero : b ≠ 0 := by
      rintro rfl
      exact clean member
    simpa using nonzero
  simp only [Mem.str, Mem.strcpy, cstring, Function.update_self, List.drop_zero]
  rw [List.takeWhile_append_of_pos keep]
  simp

/-! ### What `strtok` means for the texts -/

theorem nextToken_none_iff {delim : List UInt8} {text : Text} :
    nextToken delim text = none ↔ text.dropWhile (· ∈ delim) = [] := by
  unfold nextToken
  split
  · simp [*]
  · simp [*]

/-- A call that finds only delimiters leaves the cursor at the end. -/
theorem strtok_none {m : Mem β} {s : Option (Ptr β)} {p : Ptr β} {delim : List UInt8} (at_p : s.or m.cursor = some p)
    (nothing : nextToken delim (m.str p) = none) :
    ∃ c, m.strtok s delim = some (none, { m with cursor := some c }) ∧ c.buf = p.buf ∧ m.str c = [] := by
  have empty := nextToken_none_iff.mp nothing
  refine ⟨⟨p.buf, p.off + ((m.str p).takeWhile (· ∈ delim)).length⟩, ?_, rfl, ?_⟩
  · simp only [Mem.strtok, at_p, empty, if_true]
  · have all : (m.str p).takeWhile (· ∈ delim) = m.str p := by
      have split := List.takeWhile_append_dropWhile (p := (· ∈ delim)) (l := m.str p)
      rw [empty, List.append_nil] at split
      exact split
    rw [all, str_advance (Nat.le_refl _)]
    exact List.drop_length

/-- A call that finds a token: the token stands at the returned pointer, what
    is left at the cursor, and nothing else changed. The token ends before the
    cursor, unless nothing is left. -/
theorem strtok_some {m : Mem β} {s : Option (Ptr β)} {p : Ptr β} {delim : List UInt8} {tok rest : Text}
    (at_p : s.or m.cursor = some p) (found : nextToken delim (m.str p) = some (tok, rest)) :
    ∃ q c m', m.strtok s delim = some (some q, m') ∧ m'.str q = tok ∧ m'.cursor = some c ∧ m'.str c = rest ∧
      q.buf = p.buf ∧ c.buf = p.buf ∧ (∀ b, b ≠ p.buf → m'.bytes b = m.bytes b) ∧
      (rest = [] ∨ q.off + tok.length < c.off) ∧
      ∀ r : Ptr β, r.off + (m.str r).length < p.off → m'.str r = m.str r := by
  set text := m.str p with textIs
  set start := p.off + (text.takeWhile (· ∈ delim)).length with startIs
  obtain ⟨nonempty, tokIs, restIs⟩ : text.dropWhile (· ∈ delim) ≠ [] ∧
      tok = (text.dropWhile (· ∈ delim)).takeWhile (· ∉ delim) ∧
      rest = ((text.dropWhile (· ∈ delim)).dropWhile (· ∉ delim)).drop 1 := by
    unfold nextToken at found
    split at found
    · cases found
    · rename_i c r same
      simp only [Option.some.injEq, Prod.mk.injEq] at found
      rw [same]
      exact ⟨by simp, found.1.symm, found.2.symm⟩
  have atStart : m.str ⟨p.buf, start⟩ = text.dropWhile (· ∈ delim) := by
    have whole := List.takeWhile_append_dropWhile (p := (· ∈ delim)) (l := text)
    rw [startIs, str_advance (by rw [← textIs]; exact (List.takeWhile_sublist _).length_le), ← textIs]
    have behind := congrArg (List.drop (text.takeWhile (· ∈ delim)).length) whole
    rw [List.drop_left] at behind
    exact behind.symm
  have parts := List.takeWhile_append_dropWhile (p := (· ∉ delim)) (l := text.dropWhile (· ∈ delim))
  rw [← tokIs] at parts
  have bound : tok.length ≤ (text.dropWhile (· ∈ delim)).length := by
    rw [tokIs]; exact (List.takeWhile_sublist _).length_le
  by_cases ends : tok.length = (text.dropWhile (· ∈ delim)).length
  · -- the token ends the string
    have last : (text.dropWhile (· ∈ delim)).dropWhile (· ∉ delim) = [] := by
      have := congrArg List.length parts
      rw [List.length_append] at this
      exact List.length_eq_zero_iff.mp (by omega)
    have tokAll : tok = text.dropWhile (· ∈ delim) := by rw [last, List.append_nil] at parts; exact parts
    have restNil : rest = [] := by rw [restIs, last]; rfl
    refine ⟨⟨p.buf, start⟩, ⟨p.buf, start + tok.length⟩, { m with cursor := some ⟨p.buf, start + tok.length⟩ }, ?_, ?_,
      rfl, ?_, rfl, rfl, fun _ _ => rfl, .inl restNil, fun _ _ => rfl⟩
    · simp only [Mem.strtok, at_p, ← textIs, nonempty, if_false, ← tokIs, ends, if_true, ← startIs]
    · exact atStart.trans tokAll.symm
    · change m.str ⟨p.buf, start + tok.length⟩ = rest
      rw [str_advance (by rw [atStart]; exact bound), atStart, ← tokAll, restNil]
      simp
  · -- the delimiter behind the token becomes a NUL
    have inside : tok.length < (m.str ⟨p.buf, start⟩).length := by rw [atStart]; omega
    refine ⟨⟨p.buf, start⟩, ⟨p.buf, start + tok.length + 1⟩,
      { bytes := Function.update m.bytes p.buf ((m.bytes p.buf).set (start + tok.length) 0),
        cursor := some ⟨p.buf, start + tok.length + 1⟩ }, ?_, ?_, rfl, ?_, rfl, rfl, ?_, ?_, ?_⟩
    · simp only [Mem.strtok, at_p, ← textIs, nonempty, if_false, ← tokIs, ends, ← startIs]
    · simp only [Mem.str, cstring, Function.update_self] at inside ⊢
      rw [List.drop_set, if_neg (by omega), Nat.add_sub_cancel_left, takeWhile_set (by simp) inside]
      change (m.str ⟨p.buf, start⟩).take tok.length = tok
      rw [atStart, ← parts, List.take_left]
    · simp only [Mem.str, cstring, Function.update_self]
      rw [List.drop_set, if_pos (by omega)]
      change m.str ⟨p.buf, start + (tok.length + 1)⟩ = rest
      rw [str_advance (n := tok.length + 1) inside, atStart, ← parts, ← List.drop_drop, List.drop_left, restIs]
    · intro b other
      simp only [Function.update_of_ne other]
    · right
      change start + tok.length < start + tok.length + 1
      omega
    · intro r before
      by_cases same : r.buf = p.buf
      · simp only [Mem.str, cstring, same, Function.update_self] at before ⊢
        rw [List.drop_set, if_neg (by omega), takeWhile_set_behind (by omega)]
      · simp only [Mem.str, Function.update_of_ne same]

/-- What `strtok` makes of the bytes of the array it works on, from an offset
    on: where the token starts, the bytes it leaves and where it goes on. -/
def cut (delim bytes : List UInt8) (off : Nat) : Option Nat × List UInt8 × Nat :=
  let text := cstring (bytes.drop off)
  let start := off + (text.takeWhile (· ∈ delim)).length
  let rest := text.dropWhile (· ∈ delim)
  let stop := start + (rest.takeWhile (· ∉ delim)).length
  if rest = [] then (none, bytes, start)
  else if (rest.takeWhile (· ∉ delim)).length = rest.length then (some start, bytes, stop)
  else (some start, bytes.set stop 0, stop + 1)

/-- `strtok` reads and writes the array it works on, and no other. -/
theorem strtok_cut {m : Mem β} {s : Option (Ptr β)} {p : Ptr β} (delim : List UInt8) (at_p : s.or m.cursor = some p) :
    m.strtok s delim = some ((cut delim (m.bytes p.buf) p.off).1.map (⟨p.buf, ·⟩),
      { bytes := Function.update m.bytes p.buf (cut delim (m.bytes p.buf) p.off).2.1
        cursor := some ⟨p.buf, (cut delim (m.bytes p.buf) p.off).2.2⟩ }) := by
  by_cases empty : (m.str p).dropWhile (· ∈ delim) = []
  · have empty' : (cstring ((m.bytes p.buf).drop p.off)).dropWhile (· ∈ delim) = [] := empty
    simp only [Mem.strtok, at_p, cut, empty, empty', if_true, Option.map_none, Function.update_eq_self]
    rfl
  · have empty' : (cstring ((m.bytes p.buf).drop p.off)).dropWhile (· ∈ delim) ≠ [] := empty
    by_cases ends : (((m.str p).dropWhile (· ∈ delim)).takeWhile (· ∉ delim)).length =
        ((m.str p).dropWhile (· ∈ delim)).length
    · have ends' : (((cstring ((m.bytes p.buf).drop p.off)).dropWhile (· ∈ delim)).takeWhile (· ∉ delim)).length =
          ((cstring ((m.bytes p.buf).drop p.off)).dropWhile (· ∈ delim)).length := ends
      simp only [Mem.strtok, at_p, cut, empty, empty', ends, ends', if_false, if_true, Option.map_some,
        Function.update_eq_self]
      rfl
    · have ends' : (((cstring ((m.bytes p.buf).drop p.off)).dropWhile (· ∈ delim)).takeWhile (· ∉ delim)).length ≠
          ((cstring ((m.bytes p.buf).drop p.off)).dropWhile (· ∈ delim)).length := ends
      simp only [Mem.strtok, at_p, cut, empty, empty', ends, ends', if_false]
      rfl

theorem cstring_drop (bytes : List UInt8) (off : Nat) {n : Nat} (inside : n ≤ (cstring (bytes.drop off)).length) :
    off + n + (cstring (bytes.drop (off + n))).length = off + (cstring (bytes.drop off)).length := by
  have behind : cstring (bytes.drop (off + n)) = (cstring (bytes.drop off)).drop n := by
    rw [← List.drop_drop]
    exact takeWhile_drop inside
  rw [behind, List.length_drop]
  omega

/-- What is left and what the token starts end where the string did. -/
theorem cut_places (delim bytes : List UInt8) (off : Nat) :
    (cut delim bytes off).2.2 + (cstring ((cut delim bytes off).2.1.drop (cut delim bytes off).2.2)).length =
      off + (cstring (bytes.drop off)).length ∧
    ∀ start, (cut delim bytes off).1 = some start →
      start + ((cstring (bytes.drop off)).dropWhile (· ∈ delim)).length = off + (cstring (bytes.drop off)).length := by
  have whole := congrArg List.length
    (List.takeWhile_append_dropWhile (p := (· ∈ delim)) (l := cstring (bytes.drop off)))
  have token := congrArg List.length (List.takeWhile_append_dropWhile (p := (· ∉ delim))
    (l := (cstring (bytes.drop off)).dropWhile (· ∈ delim)))
  rw [List.length_append] at whole token
  have ends_there {k n : Nat} (at_n : k = off + n) (inside : n ≤ (cstring (bytes.drop off)).length) :
      k + (cstring (bytes.drop k)).length = off + (cstring (bytes.drop off)).length := by
    rw [at_n]
    exact cstring_drop bytes off inside
  unfold cut
  dsimp only
  split_ifs with empty ends
  · exact ⟨ends_there rfl (by omega), by simp⟩
  · refine ⟨?_, fun start is => ?_⟩
    · exact ends_there (Nat.add_assoc ..) (by omega)
    · cases is
      omega
  · refine ⟨?_, fun start is => ?_⟩
    · dsimp only
      rw [List.drop_set, if_pos (Nat.lt_succ_self _)]
      exact ends_there ((congrArg (· + 1) (Nat.add_assoc ..)).trans (Nat.add_assoc ..)) (by omega)
    · cases is
      omega

/-- A call stays in its array, and what it leaves and what it finds end where the string
    did. -/
theorem strtok_places {m m' : Mem β} {s : Option (Ptr β)} {p c : Ptr β} {q : Option (Ptr β)} {delim : List UInt8}
    (at_p : s.or m.cursor = some p) (called : m.strtok s delim = some (q, m')) (cursor : m'.cursor = some c) :
    (c.buf = p.buf ∧ c.off + (m'.str c).length = p.off + (m.str p).length) ∧
      ∀ r ∈ q, r.buf = p.buf ∧ r.off + ((m.str p).dropWhile (· ∈ delim)).length = p.off + (m.str p).length := by
  obtain ⟨left, found⟩ := cut_places delim (m.bytes p.buf) p.off
  rw [strtok_cut delim at_p, Option.some.injEq, Prod.mk.injEq] at called
  obtain ⟨rfl, rfl⟩ := called
  cases cursor
  refine ⟨⟨rfl, ?_⟩, fun r member => ?_⟩
  · simp only [Mem.str, Function.update_self]
    exact left
  · obtain ⟨start, is, rfl⟩ := Option.map_eq_some_iff.mp member
    exact ⟨rfl, found start is⟩

/-- A token and what is left behind it are shorter than the text. -/
theorem nextToken_length {delim : List UInt8} {text tok rest : Text} (found : nextToken delim text = some (tok, rest)) :
    0 < tok.length ∧ tok.length + rest.length ≤ text.length := by
  unfold nextToken at found
  split at found
  · cases found
  · rename_i c r same
    simp only [Option.some.injEq, Prod.mk.injEq] at found
    obtain ⟨rfl, rfl⟩ := found
    have outside : c ∉ delim := by
      have := List.head_dropWhile_not (p := (· ∈ delim)) (l := text) (by rw [same]; simp)
      simpa [same] using this
    constructor
    · rw [List.takeWhile_cons_of_pos (by simpa using outside)]
      simp
    · have whole := congrArg List.length (List.takeWhile_append_dropWhile (p := (· ∉ delim)) (l := c :: r))
      have shorter := (List.dropWhile_suffix (l := text) (· ∈ delim)).length_le
      rw [same] at shorter
      rw [List.length_append] at whole
      rw [List.length_drop]
      omega

/-! ### Strings that end in their array -/

/-- A string starts here and its NUL is in the array. -/
def Ended (bytes : List UInt8) (off : Nat) : Prop := (0 : UInt8) ∈ bytes.drop off

theorem cstring_end {l : List UInt8} (ends : (0 : UInt8) ∈ l) : l[(cstring l).length]? = some 0 := by
  induction l with
  | nil => cases ends
  | cons b l ih =>
    unfold cstring
    by_cases zero : b = 0
    · subst zero
      rfl
    · rw [List.takeWhile_cons_of_pos (by simpa using zero), List.length_cons, List.getElem?_cons_succ]
      exact ih (by simpa [Ne.symm zero] using ends)

theorem cstring_before {l : List UInt8} {k : Nat} (nul : l[k]? = some 0) : (cstring l).length ≤ k := by
  induction l generalizing k with
  | nil => simp at nul
  | cons b l ih =>
    unfold cstring
    by_cases zero : b = 0
    · subst zero
      exact Nat.zero_le _
    · rw [List.takeWhile_cons_of_pos (by simpa using zero), List.length_cons]
      cases k with
      | zero => exact absurd (Option.some.inj nul) zero
      | succ k => exact Nat.succ_le_succ (ih nul)

theorem ended_at {bytes : List UInt8} {off : Nat} (ended : Ended bytes off) :
    bytes[off + (cstring (bytes.drop off)).length]? = some 0 := by
  rw [← List.getElem?_drop]
  exact cstring_end ended

theorem ended_of {bytes : List UInt8} {off k : Nat} (nul : bytes[k]? = some 0) (behind : off ≤ k) : Ended bytes off := by
  obtain ⟨n, rfl⟩ := Nat.exists_eq_add_of_le behind
  rw [← List.getElem?_drop] at nul
  exact List.mem_of_getElem? nul

/-- It is shorter than what is left of the array. -/
theorem Ended.length {bytes : List UInt8} {off : Nat} (ended : Ended bytes off) :
    off + (cstring (bytes.drop off)).length < bytes.length := by
  by_contra outside
  have nul := ended_at ended
  rw [List.getElem?_eq_none (by omega)] at nul
  cases nul

/-- Behind a character the string ends, too. -/
theorem Ended.next {bytes : List UInt8} {off : Nat} (ended : Ended bytes off)
    (char : (cstring (bytes.drop off)).head? ≠ none) : Ended bytes (off + 1) := by
  refine ended_of (ended_at ended) ?_
  have : (cstring (bytes.drop off)).length ≠ 0 := by
    intro empty
    rw [List.length_eq_zero_iff.mp empty] at char
    exact char rfl
  omega

/-- `strtok` finds its token, and its place to go on, before the NUL. -/
theorem cut_ended {delim bytes : List UInt8} {off : Nat} (ended : Ended bytes off) :
    (cut delim bytes off).2.1.length = bytes.length ∧
    (∀ start, (cut delim bytes off).1 = some start → Ended (cut delim bytes off).2.1 start) ∧
    Ended (cut delim bytes off).2.1 (cut delim bytes off).2.2 := by
  have nul := ended_at ended
  have whole := congrArg List.length
    (List.takeWhile_append_dropWhile (p := (· ∈ delim)) (l := cstring (bytes.drop off)))
  have token := congrArg List.length (List.takeWhile_append_dropWhile (p := (· ∉ delim))
    (l := (cstring (bytes.drop off)).dropWhile (· ∈ delim)))
  rw [List.length_append] at whole token
  unfold cut
  dsimp only
  split_ifs with empty ends
  · exact ⟨rfl, by simp, ended_of nul (by dsimp only; omega)⟩
  · refine ⟨rfl, fun start is => ?_, ended_of nul (by dsimp only; omega)⟩
    cases is
    exact ended_of nul (by omega)
  · set stop := off + ((cstring (bytes.drop off)).takeWhile (· ∈ delim)).length +
      (((cstring (bytes.drop off)).dropWhile (· ∈ delim)).takeWhile (· ∉ delim)).length
    have kept : (bytes.set stop 0)[off + (cstring (bytes.drop off)).length]? = some 0 := by
      rw [List.getElem?_set_ne (by omega)]
      exact nul
    refine ⟨List.length_set, fun start is => ?_, ended_of kept (by dsimp only; omega)⟩
    cases is
    exact ended_of kept (by omega)

end Shardb.CStrings
