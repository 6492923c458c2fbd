import Mathlib.Algebra.Order.Ring.Int
import Mathlib.Data.List.Basic

/-!
# Query strings

The fields of a query string are separated by `&`, and each is a key and a value with the first `=` between them. In both a byte may stand
for itself or be written as a percent sign and two hexadecimal digits (`PercentCode`); a `+` stands for a space. What is read of a text
that was written so is the text (`percentDecode_flatten`), and a number that was printed in decimal is read back from its digits, but not
from fewer of them (`readInt_take_iff`).
-/

namespace GwBot.Lib

/-! ## Cutting a text in two -/

section Cut

variable {α : Type} [DecidableEq α] {sep : α} {a b : List α}

/-- A text cut at the first `sep`, which goes. -/
def cut (sep : α) (text : List α) : List α × List α := (text.takeWhile (· ≠ sep), (text.dropWhile (· ≠ sep)).drop 1)

theorem all_ne (h : sep ∉ a) : ∀ x ∈ a, decide (x ≠ sep) = true :=
  fun _ hx => decide_eq_true (fun heq => h (heq ▸ hx))

/-- A list is cut at the separator that joins two. -/
theorem cut_append (h : sep ∉ a) : cut sep (a ++ sep :: b) = (a, b) := by
  have hall := all_ne h
  rw [cut, List.takeWhile_append_of_pos hall, List.dropWhile_append_of_pos hall, List.takeWhile_cons_of_neg (by simp),
    List.dropWhile_cons_of_neg (by simp), List.append_nil]
  rfl

/-- Without a separator there is nothing after it. -/
theorem cut_of_notMem (h : sep ∉ a) : cut sep a = (a, []) := by
  have hall := all_ne h
  have htake : (a ++ []).takeWhile (fun x => decide (x ≠ sep)) = a ++ [] := List.takeWhile_append_of_pos hall
  have hdrop : (a ++ []).dropWhile (fun x => decide (x ≠ sep)) = [] := List.dropWhile_append_of_pos hall
  rw [List.append_nil] at htake hdrop
  rw [cut, htake, hdrop]
  rfl

end Cut

/-! ## Percent codes -/

/-- The value of a hexadecimal digit. -/
def hexValue (c : UInt8) : Option UInt8 :=
  if 48 ≤ c ∧ c ≤ 57 then some (c - 48)
  else if 65 ≤ c ∧ c ≤ 70 then some (c - 55)
  else if 97 ≤ c ∧ c ≤ 102 then some (c - 87)
  else none

/-- How a byte may be written: as it is, when it is one of those to keep, or with its two digits behind a percent sign. -/
inductive PercentCode (keep : UInt8 → Bool) (c : UInt8) : List UInt8 → Prop where
  | plain : keep c = true → PercentCode keep c [c]
  | escape {h l hi lo : UInt8} : hexValue h = some hi → hexValue l = some lo → c = 16 * hi + lo → PercentCode keep c [37, h, l]

/-- A byte that is not the start of a percent code. -/
def plainByte (c : UInt8) : UInt8 := if c = 43 then 32 else c

/-- What is read of a text; a percent sign without two digits is read as it is. -/
def percentDecode : List UInt8 → List UInt8
  | [] => []
  | [c] => [plainByte c]
  | [c, d] => [plainByte c, plainByte d]
  | c :: h :: l :: rest =>
    if c = 37 then
      match hexValue h, hexValue l with
      | some hi, some lo => (16 * hi + lo) :: percentDecode rest
      | _, _ => c :: percentDecode (h :: l :: rest)
    else plainByte c :: percentDecode (h :: l :: rest)

/-- A byte that starts no code stands for itself, and a plus for a blank. -/
theorem percentDecode_cons {c : UInt8} (h : c ≠ 37) (rest : List UInt8) :
    percentDecode (c :: rest) = plainByte c :: percentDecode rest := by
  rcases rest with _ | ⟨d, _ | ⟨l, rest⟩⟩
  · rfl
  · rfl
  · rw [percentDecode, if_neg h]

/-- A code stands for its byte. -/
theorem percentDecode_escape {h l hi lo : UInt8} (hh : hexValue h = some hi) (hl : hexValue l = some lo) (rest : List UInt8) :
    percentDecode (37 :: h :: l :: rest) = (16 * hi + lo) :: percentDecode rest := by
  rw [percentDecode, if_pos rfl, hh, hl]

/-- A text without percent signs and plus signs is read as it is. -/
theorem percentDecode_plain {text : List UInt8} (h : ∀ c ∈ text, c ≠ 37 ∧ c ≠ 43) : percentDecode text = text := by
  induction text with
  | nil => rfl
  | cons c rest ih =>
    obtain ⟨hpercent, hplus⟩ := h c List.mem_cons_self
    rw [percentDecode_cons hpercent, plainByte, if_neg hplus, ih (fun d hd => h d (List.mem_cons_of_mem c hd))]

/-- Whether a text has no codes can be computed. -/
theorem plain_of_all {text : List UInt8} (h : text.all (fun c => c != 37 && c != 43) = true) : ∀ c ∈ text, c ≠ 37 ∧ c ≠ 43 := by
  intro c hc
  have hboth := List.all_eq_true.1 h c hc
  rw [Bool.and_eq_true, bne_iff_ne, bne_iff_ne] at hboth
  exact hboth

/-- A text is read back from the codes of its bytes. -/
theorem percentDecode_flatten {keep : UInt8 → Bool} (hpercent : keep 37 = false) (hplus : keep 43 = false) {text : List UInt8}
    {codes : List (List UInt8)} (h : List.Forall₂ (PercentCode keep) text codes) : percentDecode codes.flatten = text := by
  induction h with
  | nil => rfl
  | @cons c code text codes hcode _ ih =>
    rw [List.flatten_cons]
    cases hcode with
    | plain hkeep =>
      have h37 : c ≠ 37 := fun heq => by simp [heq, hpercent] at hkeep
      have h43 : c ≠ 43 := fun heq => by simp [heq, hplus] at hkeep
      show percentDecode (c :: codes.flatten) = c :: text
      rw [percentDecode_cons h37, plainByte, if_neg h43, ih]
    | @escape h l hi lo hh hl heq =>
      show percentDecode (37 :: h :: l :: codes.flatten) = c :: text
      rw [percentDecode_escape hh hl, ih, heq]

/-- What stands in no code: a byte that is not kept and is neither a percent sign nor a digit. -/
theorem notMem_flatten {keep : UInt8 → Bool} {sep : UInt8} (hkeep : keep sep = false) (hpercent : sep ≠ 37) (hhex : hexValue sep = none)
    {text : List UInt8} {codes : List (List UInt8)} (h : List.Forall₂ (PercentCode keep) text codes) : sep ∉ codes.flatten := by
  induction h with
  | nil => exact List.not_mem_nil
  | @cons c code text codes hcode _ ih =>
    rw [List.flatten_cons, List.mem_append]
    rintro (hmem | hmem)
    · cases hcode with
      | plain hc =>
        rw [List.mem_singleton] at hmem
        simp [← hmem, hkeep] at hc
      | @escape h l hi lo hh hl _ =>
        simp only [List.mem_cons, List.not_mem_nil, or_false] at hmem
        rcases hmem with rfl | rfl | rfl
        · exact hpercent rfl
        · simp [hhex] at hh
        · simp [hhex] at hl
    · exact ih hmem

/-! ## Fields -/

/-- A field of a query string: its key and its value. -/
def readField (field : List UInt8) : List UInt8 × List UInt8 := (percentDecode (cut 61 field).1, percentDecode (cut 61 field).2)

/-- The fields of a query string. -/
def readQuery (query : List UInt8) : List (List UInt8 × List UInt8) := (query.splitOn 38).map readField

/-- A separator that is in neither part of a field is not in the field. -/
theorem notMem_field {sep : UInt8} (hsep : sep ≠ 61) {key value : List UInt8} (hkey : sep ∉ key) (hvalue : sep ∉ value) :
    sep ∉ key ++ 61 :: value := by
  rw [List.mem_append, List.mem_cons]
  rintro (hmem | rfl | hmem)
  · exact hkey hmem
  · exact hsep rfl
  · exact hvalue hmem

/-- Fields that are joined by ampersands are read one by one. -/
theorem readQuery_intercalate {fields : List (List UInt8)} (hne : fields ≠ []) (h : ∀ field ∈ fields, 38 ∉ field) :
    readQuery ([38].intercalate fields) = fields.map readField := by
  rw [readQuery, List.splitOn_intercalate 38 h hne]

/-- A field has a key and, after the equals sign, a value. -/
theorem readField_append {key value : List UInt8} (hkey : ∀ c ∈ key, c ≠ 37 ∧ c ≠ 43) (hsep : 61 ∉ key) :
    readField (key ++ 61 :: value) = (key, percentDecode value) := by
  rw [readField, cut_append hsep]
  exact congrArg (·, percentDecode value) (percentDecode_plain hkey)

/-- Without an equals sign it has no value. -/
theorem readField_of_notMem {field : List UInt8} (hfield : ∀ c ∈ field, c ≠ 37 ∧ c ≠ 43) (hsep : 61 ∉ field) :
    readField field = (field, []) := by
  rw [readField, cut_of_notMem hsep]
  exact congrArg (·, percentDecode []) (percentDecode_plain hfield)

/-- A field of which the end is missing: its key is cut off, or its value. -/
theorem readField_take {key value : List UInt8} (hkey : ∀ c ∈ key, c ≠ 37 ∧ c ≠ 43) (hsep : 61 ∉ key)
    (hvalue : ∀ c ∈ value, c ≠ 37 ∧ c ≠ 43) (j : Nat) :
    readField ((key ++ 61 :: value).take j) = (key.take j, value.take (j - key.length - 1)) := by
  rw [List.take_append]
  rcases Nat.lt_or_ge key.length j with hlt | hge
  · obtain ⟨m, hm⟩ : ∃ m, j - key.length = m + 1 := ⟨j - key.length - 1, by omega⟩
    rw [hm, List.take_succ_cons, List.take_of_length_le (Nat.le_of_lt hlt), readField_append hkey hsep,
      percentDecode_plain (fun c hc => hvalue c (List.mem_of_mem_take hc)), Nat.add_sub_cancel]
  · have hzero : j - key.length = 0 := Nat.sub_eq_zero_of_le hge
    rw [hzero, List.take_zero, List.append_nil, readField_of_notMem (fun c hc => hkey c (List.mem_of_mem_take hc))
      (fun hmem => hsep (List.mem_of_mem_take hmem)), Nat.zero_sub, List.take_zero]

/-! ## Decimal numbers -/

/-- A number in decimal. -/
def intDigits (n : Int) : List UInt8 := (if n < 0 then ['-'.toUInt8] else []) ++ (Nat.toDigits 10 n.natAbs).map Char.toUInt8

/-- The byte is a decimal digit. -/
def isDigit (c : UInt8) : Bool := 48 ≤ c && c ≤ 57

/-- The number that digits stand for. -/
def digitsValue (digits : List UInt8) : Nat := digits.foldl (fun n c => 10 * n + (c.toNat - 48)) 0

/-- A number read from its digits, of which there must be one. -/
def readNat (digits : List UInt8) : Option Nat := if digits ≠ [] ∧ digits.all isDigit = true then some (digitsValue digits) else none

/-- A number read from its digits, with a minus sign before them when it is negative. -/
def readInt : List UInt8 → Option Int
  | [] => none
  | c :: rest => if c = 45 then (readNat rest).map (fun n : Nat => -(n : Int)) else (readNat (c :: rest)).map (fun n : Nat => (n : Int))

theorem isDigit_iff (c : UInt8) : isDigit c = true ↔ 48 ≤ c.toNat ∧ c.toNat ≤ 57 := by
  rw [isDigit, Bool.and_eq_true, decide_eq_true_iff, decide_eq_true_iff, UInt8.le_iff_toNat_le, UInt8.le_iff_toNat_le]
  rfl

theorem toNat_toUInt8 {c : Char} (h : c.isDigit = true) : c.toUInt8.toNat = c.toNat ∧ 48 ≤ c.toNat ∧ c.toNat ≤ 57 := by
  unfold Char.isDigit at h
  rw [Bool.and_eq_true, decide_eq_true_iff, decide_eq_true_iff, ge_iff_le, UInt32.le_iff_toNat_le, UInt32.le_iff_toNat_le] at h
  have hlow : 48 ≤ c.toNat := h.1
  have hhigh : c.toNat ≤ 57 := h.2
  refine ⟨(UInt32.toNat_toUInt8 c.val).trans (Nat.mod_eq_of_lt ?_), hlow, hhigh⟩
  exact Nat.lt_of_le_of_lt hhigh (by decide)

section Digits

variable (n : Nat)

/-- The digits of a number, as they are printed. -/
abbrev digitsOf : List UInt8 := (Nat.toDigits 10 n).map Char.toUInt8

/-- There is always a digit. -/
theorem digitsOf_ne_nil : digitsOf n ≠ [] := fun h => Nat.toDigits_ne_nil (List.map_eq_nil_iff.1 h)

theorem isDigit_of_mem {c : UInt8} (h : c ∈ digitsOf n) : isDigit c = true := by
  obtain ⟨d, hd, rfl⟩ := List.mem_map.1 h
  obtain ⟨heq, hlow, hhigh⟩ := toNat_toUInt8 (Nat.isDigit_of_mem_toDigits (by decide) (by decide) hd)
  rw [isDigit_iff, heq]
  exact ⟨hlow, hhigh⟩

/-- Digits that are written have the value of the number. -/
theorem digitsValue_digitsOf : digitsValue (digitsOf n) = n := by
  have hval : digitsValue (digitsOf n) = Nat.ofDigitChars 10 (Nat.toDigits 10 n) 0 := by
    rw [digitsValue, Nat.ofDigitChars_eq_foldl, List.foldl_map]
    refine List.foldl_ext _ _ 0 (fun m c hc => ?_)
    rw [(toNat_toUInt8 (Nat.isDigit_of_mem_toDigits (by decide) (by decide) hc)).1]
    rfl
  rw [hval, Nat.ofDigitChars_ten_toDigits]

/-- Digits that go on stand for at least ten times the number. -/
theorem le_digitsValue_append (digits : List UInt8) {more : List UInt8} (hne : more ≠ []) :
    10 * digitsValue digits ≤ digitsValue (digits ++ more) := by
  have hle : ∀ (l : List UInt8) (m : Nat), m ≤ l.foldl (fun n c => 10 * n + (c.toNat - 48)) m := by
    intro l
    induction l with
    | nil => exact fun m => Nat.le_refl m
    | cons c l ih =>
      intro m
      have := ih (10 * m + (c.toNat - 48))
      rw [List.foldl_cons]
      omega
  obtain ⟨c, l, rfl⟩ := List.exists_cons_of_ne_nil hne
  rw [digitsValue, digitsValue, List.foldl_append, List.foldl_cons]
  have := hle l (10 * digitsValue digits + (c.toNat - 48))
  rw [digitsValue] at this
  omega

/-- What is read as a number has digits, of its value. -/
theorem readNat_eq_some {digits : List UInt8} {n : Nat} (h : readNat digits = some n) : digits ≠ [] ∧ digitsValue digits = n := by
  unfold readNat at h
  split at h
  · rename_i hdigits
    exact ⟨hdigits.1, Option.some.inj h⟩
  · cases h

/-- A number is read back from its digits, but not from fewer of them. -/
theorem readNat_take_iff (j : Nat) : readNat ((digitsOf n).take j) = some n ↔ (digitsOf n).length ≤ j := by
  constructor
  · intro h
    obtain ⟨hne, hval⟩ := readNat_eq_some h
    by_contra hlt
    have hmore : (digitsOf n).drop j ≠ [] := fun hnil => hlt (List.drop_eq_nil_iff.1 hnil)
    have hle := le_digitsValue_append ((digitsOf n).take j) hmore
    rw [List.take_append_drop, digitsValue_digitsOf, hval] at hle
    obtain rfl : n = 0 := by omega
    have hone : (digitsOf 0).length = 1 := rfl
    obtain rfl : j = 0 := by omega
    exact hne rfl
  · intro hle
    rw [List.take_of_length_le hle, readNat, if_pos, digitsValue_digitsOf]
    exact ⟨digitsOf_ne_nil n, List.all_eq_true.2 (fun c hc => isDigit_of_mem n hc)⟩

end Digits

/-- Digits alone are read as a natural number. -/
theorem readInt_of_digits {digits : List UInt8} (h : ∀ c ∈ digits, isDigit c = true) :
    readInt digits = (readNat digits).map (fun n : Nat => (n : Int)) := by
  cases digits with
  | nil => rfl
  | cons c rest =>
    have hne : c ≠ 45 := fun heq => by simp [heq, isDigit] at h
    rw [readInt, if_neg hne]

theorem map_eq_some_iff {f : Nat → Int} {n : Int} {k : Nat} (hf : ∀ m, f m = n ↔ m = k) (o : Option Nat) :
    o.map f = some n ↔ o = some k := by
  rw [Option.map_eq_some_iff]
  constructor
  · rintro ⟨m, rfl, hm⟩
    rw [(hf m).1 hm]
  · rintro rfl
    exact ⟨k, rfl, (hf k).2 rfl⟩

/-- A number with its sign is read back from what was printed, but not when the end of it is missing. -/
theorem readInt_take_iff (n : Int) (j : Nat) : readInt ((intDigits n).take j) = some n ↔ (intDigits n).length ≤ j := by
  by_cases hneg : n < 0
  · have hdigits : intDigits n = 45 :: digitsOf n.natAbs := by
      rw [intDigits, if_pos hneg]
      rfl
    rw [hdigits]
    cases j with
    | zero => simp [readInt]
    | succ j =>
      have habs : ∀ m : Nat, -(m : Int) = n ↔ m = n.natAbs := fun m => by omega
      rw [List.take_succ_cons, readInt, if_pos rfl, List.length_cons, Nat.add_le_add_iff_right, map_eq_some_iff habs]
      exact readNat_take_iff n.natAbs j
  · have hdigits : intDigits n = digitsOf n.natAbs := by
      rw [intDigits, if_neg hneg]
      rfl
    have habs : ∀ m : Nat, (m : Int) = n ↔ m = n.natAbs := fun m => by omega
    rw [hdigits, readInt_of_digits (fun c hc => isDigit_of_mem n.natAbs (List.mem_of_mem_take hc)), map_eq_some_iff habs]
    exact readNat_take_iff n.natAbs j

/-- Every integer that is written is read back. -/
theorem readInt_intDigits (n : Int) : readInt (intDigits n) = some n := by
  have h := (readInt_take_iff n (intDigits n).length).2 (Nat.le_refl _)
  rwa [List.take_length] at h

/-- What stands in no number: a byte that is neither a digit nor the minus sign. -/
theorem notMem_intDigits {sep : UInt8} (hdigit : isDigit sep = false) (hminus : sep ≠ 45) (n : Int) : sep ∉ intDigits n := by
  rw [intDigits, List.mem_append]
  rintro (hmem | hmem)
  · split at hmem
    · exact hminus (List.mem_singleton.1 hmem)
    · cases hmem
  · have hd := isDigit_of_mem n.natAbs hmem
    rw [hdigit] at hd
    cases hd

end GwBot.Lib
