/-
What is encoded can be decoded.

A character takes one byte to four, and the first says how many: its highest bits mark the length,
and what is left of its bits goes in front of six bits from each byte after it. The second byte is
checked more strictly than the others, so that nothing is encoded in more bytes than it needs and no
surrogate is encoded at all. A character is never that, so each is read back from its bytes, whatever
follows, and so is a text. Line ends are another matter: to unify them is to lose carriage returns.
-/
import Mathlib
import ContractScript.Text.Lines
import ContractScript.Text.Utf8

set_option autoImplicit false

namespace ContractScript.Text

namespace Utf8

/-! ## Bytes as lists -/

theorem toList_loop_eq (bytes : ByteArray) (i : Nat) (before : List UInt8) :
    ByteArray.toList.loop bytes i before = before.reverse ++ bytes.data.toList.drop i := by
  fun_induction ByteArray.toList.loop bytes i before with
  | case1 i before inside ih =>
    have there : i < bytes.data.toList.length := inside
    have byte : bytes.get! i = bytes.data.toList[i] := by
      simp [ByteArray.get!, inside]
    rw [ih, List.drop_eq_getElem_cons there, byte, List.reverse_cons, List.append_assoc]
    rfl
  | case2 i before outside =>
    have past : bytes.data.toList.length ≤ i := Nat.le_of_not_lt outside
    rw [List.drop_eq_nil_of_le past, List.append_nil]

theorem toList_encode (text : String) :
    (encode text).toList = text.toList.flatMap String.utf8EncodeChar := by
  have whole : (encode text).data.toList = text.toList.flatMap String.utf8EncodeChar := by
    unfold encode
    rw [← List.toList_data_toByteArray (l := text.toList.flatMap String.utf8EncodeChar)]
    exact congrArg (·.data.toList) (String.utf8Encode_toList (b := text)).symm
  unfold ByteArray.toList
  rw [toList_loop_eq, List.drop_zero, whole]
  rfl

/-! ## One character -/

/-- What may follow a start byte, by its place among those of its length. -/
theorem sequence?_two : ∀ n < 32, 2 ≤ n →
    sequence? (.ofNat (n + 0xC0)) = some (0x80, 0xBF, 0) := by
  decide

theorem sequence?_three : ∀ n < 16,
    sequence? (.ofNat (n + 0xE0))
      = some (if n = 0 then 0xA0 else 0x80, if n = 13 then 0x9F else 0xBF, 1) := by
  decide

theorem sequence?_four : ∀ n < 5,
    sequence? (.ofNat (n + 0xF0))
      = some (if n = 0 then 0x90 else 0x80, if n = 4 then 0x8F else 0xBF, 2) := by
  decide

theorem toNat_marked (n mark : Nat) (small : n + mark < 256) :
    (UInt8.ofNat (n + mark)).toNat = n + mark := by
  rw [UInt8.toNat_ofNat', Nat.mod_eq_of_lt small]

/-- A continuation byte. -/
def continuation (n : Nat) : UInt8 := .ofNat (n % 64 + 0x80)

theorem toNat_continuation (n : Nat) : (continuation n).toNat = n % 64 + 0x80 :=
  toNat_marked _ _ (by omega)

theorem isContinuation (n : Nat) :
    (decide (0x80 ≤ continuation n) && decide (continuation n ≤ 0xBF)) = true := by
  have value := toNat_continuation n
  simp only [UInt8.le_iff_toNat_le, Bool.and_eq_true, decide_eq_true_eq]
  constructor <;> simp <;> omega

theorem nextChar_one {n : Nat} (small : n ≤ 0x7F) (rest : List UInt8) :
    nextChar (.ofNat n) rest = .ok (Char.ofNat n, 0) := by
  have value : (UInt8.ofNat n).toNat = n := by
    rw [UInt8.toNat_ofNat', Nat.mod_eq_of_lt]
    omega
  have low : UInt8.ofNat n < 0x80 := by
    rw [UInt8.lt_iff_toNat_lt, value]
    exact Nat.lt_succ_of_le small
  unfold nextChar
  rw [if_pos low, value]

/-- A start byte whose sequence is complete: its bits, and then those of the bytes after it. -/
theorem nextChar_eq {b b₁ low high : UInt8} {more : List UInt8} {c : Char} (long : ¬b < 0x80)
    (starts : sequence? b = some (low, high, more.length)) (within : low ≤ b₁ ∧ b₁ ≤ high)
    (plain : ∀ c ∈ more, (decide (0x80 ≤ c) && decide (c ≤ 0xBF)) = true)
    (bits : (b₁ :: more).foldl (fun n c => n * 64 + c.toNat % 64) (startBits b (more.length + 1))
      = c.toNat) (rest : List UInt8) :
    nextChar b (b₁ :: more ++ rest) = .ok (c, more.length + 1) := by
  have inside : (decide (b₁ < low) || decide (high < b₁)) = false := by
    simpa using within
  have tail : (more ++ rest).take more.length = more := List.take_left
  have whole : more.takeWhile (fun c => decide (0x80 ≤ c) && decide (c ≤ 0xBF)) = more :=
    List.takeWhile_eq_self_iff.mpr plain
  unfold nextChar
  rw [if_neg long, starts]
  simp only [List.cons_append, inside, tail, whole, beq_self_eq_true, if_true,
    Bool.false_eq_true, if_false, bits, Char.ofNat_toNat]

theorem not_ascii (n mark : Nat) (small : n + mark < 256) (marked : 0x80 ≤ mark) :
    ¬UInt8.ofNat (n + mark) < 0x80 := by
  rw [UInt8.lt_iff_toNat_lt, toNat_marked n mark small]
  show ¬n + mark < 128
  omega

/-- A character is read back from its bytes, whatever follows. -/
theorem nextChar_encodeChar (c : Char) : ∃ b more, String.utf8EncodeChar c = b :: more ∧
    ∀ rest, nextChar b (more ++ rest) = .ok (c, more.length) := by
  obtain ⟨v, code⟩ : ∃ v, v = c.toNat := ⟨_, rfl⟩
  -- no code point is a surrogate, and none is beyond the range of four bytes
  have valid : v < 0xD800 ∨ 0xDFFF < v ∧ v < 0x110000 := code ▸ c.valid
  have encoded : String.utf8EncodeChar c =
      if v ≤ 0x7F then [.ofNat v]
      else if v ≤ 0x7FF then [.ofNat (v / 64 % 32 + 0xC0), continuation v]
      else if v ≤ 0xFFFF then
        [.ofNat (v / 4096 % 16 + 0xE0), continuation (v / 64), continuation v]
      else [.ofNat (v / 262144 % 8 + 0xF0), continuation (v / 4096), continuation (v / 64),
        continuation v] := by
    rw [code]
    rfl
  rw [encoded]
  split
  · rename_i one
    refine ⟨_, [], rfl, fun rest => ?_⟩
    rw [nextChar_one one, code, Char.ofNat_toNat]
    rfl
  split
  · rename_i one two
    refine ⟨_, [continuation v], rfl, nextChar_eq
      (not_ascii (v / 64 % 32) 0xC0 (by omega) (by decide))
      (sequence?_two (v / 64 % 32) (by omega) (by omega)) ?_ (by simp) ?_⟩
    · simpa using isContinuation v
    · simp only [List.foldl_cons, List.foldl_nil, startBits, toNat_continuation]
      rw [toNat_marked _ _ (by omega), ← code]
      simp
      omega
  split
  · rename_i one two three
    refine ⟨_, [continuation (v / 64), continuation v], rfl, nextChar_eq
      (not_ascii (v / 4096 % 16) 0xE0 (by omega) (by decide))
      (sequence?_three (v / 4096 % 16) (by omega)) ?_
      (List.forall_mem_singleton.mpr (isContinuation v)) ?_⟩
    -- the first of three bytes restricts the second: no longer form than needed, and no surrogate
    · rw [UInt8.le_iff_toNat_le, UInt8.le_iff_toNat_le, toNat_continuation]
      constructor <;> split <;> simp <;> omega
    · simp only [List.foldl_cons, List.foldl_nil, startBits, toNat_continuation]
      rw [toNat_marked _ _ (by omega), ← code]
      simp
      omega
  · rename_i one two three
    refine ⟨_, [continuation (v / 4096), continuation (v / 64), continuation v], rfl,
      nextChar_eq
      (not_ascii (v / 262144 % 8) 0xF0 (by omega) (by decide))
      (sequence?_four (v / 262144 % 8) (by omega)) ?_ ?_ ?_⟩
    · rw [UInt8.le_iff_toNat_le, UInt8.le_iff_toNat_le, toNat_continuation]
      constructor <;> split <;> simp <;> omega
    · rw [List.forall_mem_cons, List.forall_mem_singleton]
      exact ⟨isContinuation (v / 64), isContinuation v⟩
    · simp only [List.foldl_cons, List.foldl_nil, startBits, toNat_continuation]
      rw [toNat_marked _ _ (by omega), ← code]
      simp
      omega

/-! ## A text -/

theorem decodeFrom_encode (cs : List Char) (position : Nat) :
    decodeFrom position (cs.flatMap String.utf8EncodeChar) = .ok cs := by
  induction cs generalizing position with
  | nil => simp [decodeFrom]
  | cons c cs ih =>
    obtain ⟨b, more, encoded, read⟩ := nextChar_encodeChar c
    rw [List.flatMap_cons, encoded, List.cons_append, decodeFrom, read]
    dsimp only
    rw [List.drop_left, ih]

/-- A text is read back from its bytes. -/
theorem decode_encode (text : String) : decode (encode text) = .ok text.toList := by
  unfold decode
  rw [toList_encode]
  exact decodeFrom_encode text.toList 0

end Utf8

/-! ## Line ends -/

theorem notMem_unifyNewlines (cs : List Char) : '\r' ∉ unifyNewlines cs := by
  fun_induction unifyNewlines cs with
  | case1 => exact List.not_mem_nil
  | case2 rest ih | case3 rest _ ih => simpa using ih
  | case4 c rest _ other ih =>
    rw [List.mem_cons, not_or]
    exact ⟨fun same => other same.symm, ih⟩

theorem unifyNewlines_of_notMem {cs : List Char} (plain : '\r' ∉ cs) : unifyNewlines cs = cs := by
  fun_induction unifyNewlines cs with
  | case1 => rfl
  | case2 rest ih | case3 rest _ ih => simp at plain
  | case4 c rest _ _ ih =>
    rw [List.mem_cons, not_or] at plain
    rw [ih plain.2]

/-- A text comes out as it went in exactly if it has no carriage returns. -/
theorem ofList_unifyNewlines_iff (text : String) :
    String.ofList (unifyNewlines text.toList) = text ↔ '\r' ∉ text.toList := by
  constructor
  · intro same
    rw [← same, String.toList_ofList]
    exact notMem_unifyNewlines text.toList
  · intro plain
    rw [unifyNewlines_of_notMem plain, String.ofList_toList]

end ContractScript.Text
