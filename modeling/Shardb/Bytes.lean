import Mathlib.Algebra.Group.Nat.Defs
import Mathlib.Data.List.Basic
import Mathlib.Data.List.GetD

/-!
# Bytes in memory

Buffers as lists of bytes, stores into them, numbers in network byte order and
the layout that natural alignment gives a C struct.
-/

namespace Shardb.Bytes

/-- A run of bytes, such as the characters of a C string without its NUL. -/
abbrev Text := List UInt8

/-- The bytes of an ASCII string. -/
def ascii (s : String) : Text := s.toList.map (fun c => UInt8.ofNat c.toNat)

/-- `buffer` once `bytes` are written at `off`. -/
def store (buffer : List UInt8) (off : Nat) (bytes : List UInt8) : List UInt8 :=
  buffer.take off ++ bytes ++ buffer.drop (off + bytes.length)

@[simp] theorem length_store {buffer bytes : List UInt8} {off : Nat}
    (inside : off + bytes.length ≤ buffer.length) : (store buffer off bytes).length = buffer.length := by
  simp only [store, List.length_append, List.length_take, List.length_drop]
  omega

theorem getElem?_store {buffer bytes : List UInt8} {off : Nat} (inside : off + bytes.length ≤ buffer.length)
    (i : Nat) :
    (store buffer off bytes)[i]? =
      if off ≤ i ∧ i < off + bytes.length then bytes[i - off]? else buffer[i]? := by
  have front : (buffer.take off).length = off := by rw [List.length_take]; omega
  rw [store, List.append_assoc]
  rcases Nat.lt_or_ge i off with before | after
  · rw [List.getElem?_append_left (by omega), List.getElem?_take_of_lt before, if_neg (by omega)]
  · rw [List.getElem?_append_right (by omega), front]
    rcases Nat.lt_or_ge i (off + bytes.length) with within | beyond
    · rw [List.getElem?_append_left (by omega), if_pos ⟨after, within⟩]
    · rw [List.getElem?_append_right (by omega), List.getElem?_drop, if_neg (by omega)]
      congr 1
      omega

/-- A store leaves what lies behind it. -/
theorem drop_store {buffer bytes : List UInt8} {off n : Nat} (behind : off + bytes.length ≤ n)
    (inside : off + bytes.length ≤ buffer.length) : (store buffer off bytes).drop n = buffer.drop n := by
  apply List.ext_getElem?
  intro i
  rw [List.getElem?_drop, List.getElem?_drop, getElem?_store inside, if_neg (by omega)]

/-- The stored bytes are read back. -/
theorem drop_store_self {buffer bytes : List UInt8} {off : Nat} (inside : off ≤ buffer.length) :
    (store buffer off bytes).drop off = bytes ++ buffer.drop (off + bytes.length) := by
  rw [store, List.append_assoc, List.drop_append_of_le_length (by rw [List.length_take]; omega),
    List.drop_take_self, List.nil_append]

/-- A store leaves what lies apart from it. -/
theorem part_store {buffer bytes : List UInt8} {pos off n : Nat} (apart : off + n ≤ pos ∨ pos + bytes.length ≤ off)
    (inside : pos + bytes.length ≤ buffer.length) :
    ((store buffer pos bytes).drop off).take n = (buffer.drop off).take n := by
  apply List.ext_getElem?
  intro i
  rw [List.getElem?_take, List.getElem?_take]
  split_ifs with within
  · rw [List.getElem?_drop, List.getElem?_drop, getElem?_store inside, if_neg (by omega)]
  · rfl

theorem part_store_self {buffer bytes : List UInt8} {pos : Nat} (inside : pos ≤ buffer.length) :
    ((store buffer pos bytes).drop pos).take bytes.length = bytes := by
  rw [drop_store_self inside, List.take_left]

/-- Stores one after another, each with its offset. -/
def fill (buffer : List UInt8) (fields : List (Nat × List UInt8)) : List UInt8 :=
  fields.foldl (fun buffer field => store buffer field.1 field.2) buffer

/-- Stores before `n` leave what lies behind. -/
theorem fill_before {n : Nat} (fields : List (Nat × List UInt8)) : ∀ buffer : List UInt8,
    (∀ field ∈ fields, field.1 + field.2.length ≤ n) → n ≤ buffer.length →
    (fill buffer fields).length = buffer.length ∧ (fill buffer fields).drop n = buffer.drop n := by
  induction fields with
  | nil => intro buffer _ _; exact ⟨rfl, rfl⟩
  | cons field fields ih =>
    intro buffer before room
    obtain ⟨here, behind⟩ := List.forall_mem_cons.mp before
    have inside : field.1 + field.2.length ≤ buffer.length := by omega
    have same := length_store inside
    obtain ⟨length, rest⟩ := ih (store buffer field.1 field.2) behind (by omega)
    exact ⟨length.trans same, rest.trans (drop_store here inside)⟩

/-! ### Network byte order -/

/-- The two bytes of a 16-bit number, most significant first. -/
def be16 (n : Nat) : List UInt8 := [UInt8.ofNat (n / 256), UInt8.ofNat n]

/-- The 16-bit number whose two bytes stand at `off`, most significant first. -/
def readBe16 (buffer : List UInt8) (off : Nat) : Nat :=
  (buffer.getD off 0).toNat * 256 + (buffer.getD (off + 1) 0).toNat

/-- The 32-bit number whose four bytes stand at `off`. -/
def readBe32 (buffer : List UInt8) (off : Nat) : Nat := readBe16 buffer off * 2 ^ 16 + readBe16 buffer (off + 2)

@[simp] theorem length_be16 (n : Nat) : (be16 n).length = 2 := rfl

theorem readBe16_eq_iff {buffer : List UInt8} {off n : Nat} (small : n < 2 ^ 16)
    (inside : off + 2 ≤ buffer.length) : readBe16 buffer off = n ↔ (buffer.drop off).take 2 = be16 n := by
  have first : buffer[off]? = some buffer[off] := List.getElem?_eq_getElem (by omega)
  have second : buffer[off + 1]? = some buffer[off + 1] := List.getElem?_eq_getElem (by omega)
  have two : (buffer.drop off).take 2 = [buffer[off], buffer[off + 1]] := by
    rw [List.drop_eq_getElem_cons (by omega), List.drop_eq_getElem_cons (by omega)]
    rfl
  rw [two, readBe16, List.getD_eq_getElem?_getD, List.getD_eq_getElem?_getD, first, second, be16]
  simp only [Option.getD_some, List.cons.injEq, and_true]
  have hi := buffer[off].toNat_lt
  have lo := buffer[off + 1].toNat_lt
  constructor
  · intro same
    constructor
    · apply UInt8.toNat_inj.mp
      rw [UInt8.toNat_ofNat']
      omega
    · apply UInt8.toNat_inj.mp
      rw [UInt8.toNat_ofNat']
      omega
  · rintro ⟨first, second⟩
    rw [first, second, UInt8.toNat_ofNat', UInt8.toNat_ofNat']
    omega

/-- A 16-bit number is its two bytes, a 32-bit number its four. -/
theorem readBe16_part {a b : List UInt8} {i j : Nat} (same : (a.drop i).take 2 = (b.drop j).take 2) :
    readBe16 a i = readBe16 b j := by
  have byte : ∀ k, k < 2 → a.getD (i + k) 0 = b.getD (j + k) 0 := by
    intro k small
    have at_k := congrArg (fun part => part[k]?) same
    simp only [List.getElem?_take, if_pos small, List.getElem?_drop] at at_k
    rw [List.getD_eq_getElem?_getD, List.getD_eq_getElem?_getD, at_k]
  rw [readBe16, readBe16, byte 1 (by decide), show a.getD i 0 = b.getD j 0 from byte 0 (by decide)]

theorem readBe32_part {a b : List UInt8} {i j : Nat} (same : (a.drop i).take 4 = (b.drop j).take 4) :
    readBe32 a i = readBe32 b j := by
  have first : (a.drop i).take 2 = (b.drop j).take 2 := by
    have front := congrArg (List.take 2) same
    rwa [List.take_take, List.take_take] at front
  have second : (a.drop (i + 2)).take 2 = (b.drop (j + 2)).take 2 := by
    have back := congrArg (List.drop 2) same
    rwa [List.drop_take, List.drop_take, List.drop_drop, List.drop_drop] at back
  rw [readBe32, readBe32, readBe16_part first, readBe16_part second]

/-- What is stored in two bytes is read back. -/
theorem readBe16_store {buffer : List UInt8} {pos n : Nat} (small : n < 2 ^ 16) (inside : pos + 2 ≤ buffer.length) :
    readBe16 (store buffer pos (be16 n)) pos = n := by
  have stored : ((store buffer pos (be16 n)).drop pos).take (be16 n).length = be16 n := part_store_self (by omega)
  rw [readBe16_eq_iff small (by rw [length_store inside]; exact inside)]
  exact stored

/-! ### Struct layout -/

/-- A member of a struct: the bytes it takes and the multiple it is placed at. -/
structure Field where
  size : Nat
  align : Nat

/-- The first offset from `off` on that is a multiple of `align`. -/
def roundUp (off align : Nat) : Nat := (off + align - 1) / align * align

/-- The offsets of the members, the first placed at or after `off`, and the
    offset behind the last one. -/
def place : Nat → List Field → List Nat × Nat
  | off, [] => ([], off)
  | off, f :: fs =>
    let start := roundUp off f.align
    let (starts, stop) := place (start + f.size) fs
    (start :: starts, stop)

/-- The offset of member `i`. -/
def offsetOf (fs : List Field) (i : Nat) : Nat := ((place 0 fs).1).getD i 0

/-- The size of the struct: padded so that an array of them stays aligned. -/
def structSize (fs : List Field) : Nat := roundUp (place 0 fs).2 ((fs.map Field.align).foldl max 1)

end Shardb.Bytes
