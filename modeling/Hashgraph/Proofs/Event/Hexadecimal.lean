import Mathlib.Data.List.Basic
import Hashgraph.Event.Draft

/-! Hexadecimal text of hashes. Reading looks at the bytes of a text in UTF-8, and there a byte is a
digit only where it is a character of its own, so that a text is a hash exactly when its characters
are 64 digits. Printing folds the case of the digits that were read. -/

namespace Hashgraph

def IsHexDigit (char : Char) : Prop :=
  '0' ≤ char ∧ char ≤ '9' ∨ 'a' ≤ char ∧ char ≤ 'f' ∨ 'A' ≤ char ∧ char ≤ 'F'

instance (char : Char) : Decidable (IsHexDigit char) := inferInstanceAs (Decidable (_ ∨ _))

namespace Bytes

def latin (byte : UInt8) : Char := Char.ofNat byte.toNat

section Digits

variable {byte : UInt8}

theorem forall_byte {motive : UInt8 → Prop} (all : ∀ number < 256, motive (UInt8.ofNat number))
    (byte : UInt8) : motive byte := by
  have here := all byte.toNat byte.toNat_lt
  rwa [UInt8.ofNat_toNat] at here

theorem hexValue?_eq_none : hexValue? byte = none ↔ ¬ IsHexDigit (latin byte) :=
  forall_byte (motive := fun byte => hexValue? byte = none ↔ ¬ IsHexDigit (latin byte))
    (by decide +kernel) byte

theorem digitChar_of_hexValue? :
    ∀ value ∈ hexValue? byte, value < 16 ∧ Nat.digitChar value = (latin byte).toLower :=
  forall_byte (motive := fun byte => ∀ value ∈ hexValue? byte,
    value < 16 ∧ Nat.digitChar value = (latin byte).toLower) (by decide +kernel) byte

theorem exists_hexValue (digit : IsHexDigit (latin byte)) (position : Nat) :
    ∃ value < 16, hexValue byte position = .ok value ∧
      Nat.digitChar value = (latin byte).toLower := by
  cases found : hexValue? byte with
  | none => exact (hexValue?_eq_none.mp found digit).elim
  | some value =>
    obtain ⟨small, printed⟩ := digitChar_of_hexValue? value found
    exact ⟨value, small, by rw [hexValue, found], printed⟩

theorem hexValue_of_not_digit (other : ¬ IsHexDigit (latin byte)) (position : Nat) :
    hexValue byte position = .error (.invalidCharacter (latin byte) position) := by
  rw [hexValue, hexValue?_eq_none.mpr other]
  rfl

theorem hexPair_ofNat {high low : Nat} (highSmall : high < 16) (lowSmall : low < 16) :
    hexPair (UInt8.ofNat (16 * high + low)) = [Nat.digitChar high, Nat.digitChar low] := by
  have whole : (UInt8.ofNat (16 * high + low)).toNat = 16 * high + low :=
    UInt8.toNat_ofNat_of_lt' (by rw [UInt8.size]; omega)
  have upper : (16 * high + low) / 16 = high := by omega
  have lower : (16 * high + low) % 16 = low := by omega
  rw [hexPair, whole, upper, lower]

end Digits

section Pairs

variable {text : Bytes}

/-- Digits are read in pairs, and what they make prints as they stand, in lower case. -/
theorem ofHexPairs_of_digits (position : Nat) (even : text.length % 2 = 0)
    (digits : ∀ byte ∈ text, IsHexDigit (latin byte)) :
    ∃ bytes, ofHexPairs position text = .ok bytes ∧ text.length = 2 * bytes.length ∧
      hexDigits bytes = text.map fun byte => (latin byte).toLower := by
  fun_induction ofHexPairs position text with
  | case1 position high low rest ih =>
    simp only [List.length_cons] at even
    obtain ⟨tail, tailRead, size, printed⟩ :=
      ih (by omega) fun byte mem => digits byte (List.mem_cons_of_mem _ (List.mem_cons_of_mem _ mem))
    obtain ⟨upper, upperSmall, upperRead, upperPrinted⟩ :=
      exists_hexValue (digits high List.mem_cons_self) position
    obtain ⟨lower, lowerSmall, lowerRead, lowerPrinted⟩ :=
      exists_hexValue (digits low (List.mem_cons_of_mem _ List.mem_cons_self)) (position + 1)
    refine ⟨UInt8.ofNat (16 * upper + lower) :: tail, ?_, ?_, ?_⟩
    · rw [upperRead, lowerRead, tailRead]
      rfl
    · simp only [List.length_cons]
      omega
    · rw [hexDigits, List.flatMap_cons, hexPair_ofNat upperSmall lowerSmall, ← hexDigits, printed,
        upperPrinted, lowerPrinted]
      rfl
  | case2 text position short =>
    match text with
    | [] => exact ⟨[], rfl, rfl, rfl⟩
    | [_] => simp at even
    | _ :: _ :: _ => exact (short _ _ _ rfl).elim

theorem ofHexPairs_of_invalid (position : Nat) {before after : Bytes} {byte : UInt8}
    (split : text = before ++ byte :: after) (even : text.length % 2 = 0)
    (digits : ∀ earlier ∈ before, IsHexDigit (latin earlier)) (other : ¬ IsHexDigit (latin byte)) :
    ofHexPairs position text =
      .error (.invalidCharacter (latin byte) (position + before.length)) := by
  fun_induction ofHexPairs position text generalizing before with
  | case1 position high low rest ih =>
    match before with
    | [] =>
      obtain ⟨rfl, -⟩ := List.cons.inj split
      rw [hexValue_of_not_digit other]
      rfl
    | [first] =>
      obtain ⟨rfl, same⟩ := List.cons.inj split
      obtain ⟨rfl, -⟩ := List.cons.inj same
      obtain ⟨upper, -, upperRead, -⟩ := exists_hexValue (digits high List.mem_cons_self) position
      rw [upperRead, hexValue_of_not_digit other]
      rfl
    | first :: second :: before =>
      obtain ⟨rfl, same⟩ := List.cons.inj split
      obtain ⟨rfl, rest_eq⟩ := List.cons.inj same
      obtain ⟨upper, -, upperRead, -⟩ := exists_hexValue (digits high List.mem_cons_self) position
      obtain ⟨lower, -, lowerRead, -⟩ :=
        exists_hexValue (digits low (List.mem_cons_of_mem _ List.mem_cons_self)) (position + 1)
      simp only [List.length_cons] at even
      have tailRead := ih rest_eq (by omega) fun earlier mem =>
        digits earlier (List.mem_cons_of_mem _ (List.mem_cons_of_mem _ mem))
      have place : position + 2 + before.length = position + (before.length + 1 + 1) := by omega
      rw [upperRead, lowerRead, tailRead, List.length_cons, List.length_cons, place]
      rfl
  | case2 text position short =>
    match text with
    | [] => exact (List.append_ne_nil_of_right_ne_nil _ (List.cons_ne_nil _ _) split.symm).elim
    | [_] => simp at even
    | _ :: _ :: _ => exact (short _ _ _ rfl).elim

def ofLatin (char : Char) : UInt8 := UInt8.ofNat char.toNat

theorem hexValue_digitChar :
    ∀ value < 16, ∀ position, hexValue (ofLatin (Nat.digitChar value)) position = .ok value := by
  intro value small position
  have found : ∀ value < 16, hexValue? (ofLatin (Nat.digitChar value)) = some value := by decide
  rw [hexValue, found value small]

theorem ofHexPairs_hexDigits (position : Nat) (bytes : Bytes) :
    ofHexPairs position ((hexDigits bytes).map ofLatin) = .ok bytes := by
  induction bytes generalizing position with
  | nil => rfl
  | cons byte rest ih =>
    have size := byte.toNat_lt
    have whole : 16 * (byte.toNat / 16) + byte.toNat % 16 = byte.toNat := by omega
    have pair : (hexDigits (byte :: rest)).map ofLatin =
        ofLatin (Nat.digitChar (byte.toNat / 16)) :: ofLatin (Nat.digitChar (byte.toNat % 16)) ::
          (hexDigits rest).map ofLatin := rfl
    rw [pair, ofHexPairs, hexValue_digitChar _ (by omega), hexValue_digitChar _ (by omega), ih]
    change Except.ok (UInt8.ofNat (16 * (byte.toNat / 16) + byte.toNat % 16) :: rest) = _
    rw [whole, UInt8.ofNat_toNat]

end Pairs

section Text

variable {char : Char}

theorem ofText_eq_flatMap (text : String) :
    ofText text = text.toList.flatMap String.utf8EncodeChar := by
  rw [ofText, String.toUTF8_eq_toByteArray, ← String.utf8Encode_toList, List.utf8Encode,
    List.toList_data_toByteArray]

theorem latin_ofLatin (small : char.toNat < 256) : latin (ofLatin char) = char := by
  rw [latin, ofLatin, UInt8.toNat_ofNat_of_lt' small, Char.ofNat_toNat]

theorem toNat_lt_of_isHexDigit (digit : IsHexDigit char) : char.toNat < 128 := by
  have bound {top : Char} (le : char ≤ top) : char.toNat ≤ top.toNat :=
    UInt32.le_iff_toNat_le.mp le
  rcases digit with ⟨-, le⟩ | ⟨-, le⟩ | ⟨-, le⟩
  · exact Nat.lt_of_le_of_lt (bound le) (by decide)
  · exact Nat.lt_of_le_of_lt (bound le) (by decide)
  · exact Nat.lt_of_le_of_lt (bound le) (by decide)

theorem encodeChar_of_small (small : char.toNat < 128) :
    String.utf8EncodeChar char = [ofLatin char] := by
  have single : char.val.toNat ≤ 127 := Nat.le_of_lt_succ small
  rw [String.utf8EncodeChar, if_pos single]
  rfl

theorem toNat_lt_of_isHexDigit_latin {byte : UInt8} (digit : IsHexDigit (latin byte)) :
    byte.toNat < 128 :=
  forall_byte (motive := fun byte => IsHexDigit (latin byte) → byte.toNat < 128)
    (by decide +kernel) byte digit

theorem exists_large_byte (wide : ¬ char.toNat < 128) :
    ∃ byte ∈ String.utf8EncodeChar char, 128 ≤ byte.toNat := by
  have fits : char.val.toNat % 64 + 128 < UInt8.size := by
    have rest := Nat.mod_lt char.val.toNat (show 64 > 0 by decide)
    rw [UInt8.size]
    omega
  refine ⟨UInt8.ofNat (char.val.toNat % 64 + 128), ?_, ?_⟩
  · fun_cases String.utf8EncodeChar char with
    | case1 code single => exact (wide (Nat.lt_succ_of_le single)).elim
    | case2 => exact .tail _ (.head _)
    | case3 => exact .tail _ (.tail _ (.head _))
    | case4 => exact .tail _ (.tail _ (.tail _ (.head _)))
  · rw [UInt8.toNat_ofNat_of_lt' fits]
    omega

theorem forall_encodeChar_iff :
    (∀ byte ∈ String.utf8EncodeChar char, IsHexDigit (latin byte)) ↔ IsHexDigit char := by
  by_cases small : char.toNat < 128
  · rw [encodeChar_of_small small, List.forall_mem_singleton, latin_ofLatin (by omega)]
  · refine iff_of_false ?_ fun digit => small (toNat_lt_of_isHexDigit digit)
    intro digits
    obtain ⟨byte, mem, large⟩ := exists_large_byte small
    have := toNat_lt_of_isHexDigit_latin (digits byte mem)
    omega

/-- The bytes of a text are digits exactly when its characters are. -/
theorem forall_ofText_iff (text : String) :
    (∀ byte ∈ ofText text, IsHexDigit (latin byte)) ↔ ∀ char ∈ text.toList, IsHexDigit char := by
  simp only [ofText_eq_flatMap, List.forall_mem_flatMap, forall_encodeChar_iff]

/-- Of a text of ASCII characters the bytes can be read one by one. -/
theorem ofText_of_small {text : String} (small : ∀ char ∈ text.toList, char.toNat < 128) :
    ofText text = text.toList.map ofLatin := by
  rw [ofText_eq_flatMap, List.map_eq_flatMap]
  exact List.flatMap_congr fun char mem => encodeChar_of_small (small char mem)

theorem map_latin_ofText {text : String} (digits : ∀ char ∈ text.toList, IsHexDigit char) :
    (ofText text).map latin = text.toList := by
  rw [ofText_of_small fun char mem => toNat_lt_of_isHexDigit (digits char mem), List.map_map]
  refine (List.map_congr_left fun char mem => ?_).trans (List.map_id _)
  have small := toNat_lt_of_isHexDigit (digits char mem)
  exact latin_ofLatin (by omega)

theorem digits_ofText_iff (text : String) :
    ((ofText text).length = 64 ∧ ∀ byte ∈ ofText text, IsHexDigit (latin byte)) ↔
      text.length = 64 ∧ ∀ char ∈ text.toList, IsHexDigit char := by
  rw [forall_ofText_iff]
  refine and_congr_left fun digits => ?_
  rw [← String.length_toList, ← map_latin_ofText digits, List.length_map]

theorem length_hexDigits (bytes : Bytes) : (hexDigits bytes).length = 2 * bytes.length := by
  induction bytes with
  | nil => rfl
  | cons byte rest ih =>
    rw [hexDigits, List.flatMap_cons, List.length_append, ← hexDigits, ih, List.length_cons]
    change 2 + _ = _
    omega

theorem ofText_toHex (bytes : Bytes) : ofText bytes.toHex = bytes.hexDigits.map ofLatin := by
  have digit : ∀ value < 16, (Nat.digitChar value).toNat < 128 := by decide
  rw [ofText_of_small, toHex, String.toList_ofList]
  rw [toHex, String.toList_ofList, hexDigits, List.forall_mem_flatMap]
  intro byte _
  have size := byte.toNat_lt
  rw [hexPair, List.forall_mem_cons, List.forall_mem_singleton]
  exact ⟨digit _ (by omega), digit _ (by omega)⟩

end Text

end Bytes

namespace EventHash

/-- What keeps the bytes of a text from being a hash. An odd length comes first, then the first byte
that is no digit, and last a wrong number of digits. -/
inductive Unreadable (text : Bytes) : EventError → Prop
  | odd (odd : text.length % 2 = 1) : Unreadable text (.hex .oddLength)
  | invalid {before after : Bytes} {byte : UInt8} (even : text.length % 2 = 0)
    (split : text = before ++ byte :: after)
    (digits : ∀ earlier ∈ before, IsHexDigit (Bytes.latin earlier))
    (other : ¬ IsHexDigit (Bytes.latin byte)) :
    Unreadable text (.hex (.invalidCharacter (Bytes.latin byte) before.length))
  | length (even : text.length % 2 = 0)
    (digits : ∀ byte ∈ text, IsHexDigit (Bytes.latin byte)) (other : text.length ≠ 64) :
    Unreadable text (.hashLength (text.length / 2))

variable {text : Bytes}

theorem ofHex_of_unreadable {error : EventError} (unreadable : Unreadable text error) :
    ofHex text = .error error := by
  cases unreadable with
  | odd odd => rw [ofHex, Bytes.ofHex, if_pos odd]
  | @invalid before after byte even split digits other =>
    have notOdd : ¬ text.length % 2 = 1 := by omega
    rw [ofHex, Bytes.ofHex, if_neg notOdd, Bytes.ofHexPairs_of_invalid 0 split even digits other,
      Nat.zero_add]
  | length even digits other =>
    have notOdd : ¬ text.length % 2 = 1 := by omega
    obtain ⟨bytes, read, size, -⟩ := Bytes.ofHexPairs_of_digits 0 even digits
    have half : text.length / 2 = bytes.length := by omega
    have unsized : ¬ bytes.length = 32 := by omega
    rw [ofHex, Bytes.ofHex, if_neg notOdd, read, half]
    exact dif_neg unsized

theorem ofHex_of_digits (size : text.length = 64)
    (digits : ∀ byte ∈ text, IsHexDigit (Bytes.latin byte)) :
    ∃ hash, ofHex text = .ok hash ∧
      hash.toBytes.hexDigits = text.map fun byte => (Bytes.latin byte).toLower := by
  have notOdd : ¬ text.length % 2 = 1 := by omega
  obtain ⟨bytes, read, double, printed⟩ := Bytes.ofHexPairs_of_digits 0 (by omega) digits
  have sized : bytes.length = 32 := by omega
  refine ⟨⟨⟨bytes.toArray, sized⟩⟩, ?_, printed⟩
  rw [ofHex, Bytes.ofHex, if_neg notOdd, read]
  exact dif_pos sized

/-- A text is 64 digits, or there is something that keeps it from being a hash. -/
theorem digits_or_unreadable (text : Bytes) :
    (text.length = 64 ∧ ∀ byte ∈ text, IsHexDigit (Bytes.latin byte)) ∨
      ∃ error, Unreadable text error := by
  by_cases odd : text.length % 2 = 1
  · exact .inr ⟨_, .odd odd⟩
  · have even : text.length % 2 = 0 := by omega
    cases found : text.find? fun byte => ¬ IsHexDigit (Bytes.latin byte) with
    | none =>
      have digits : ∀ byte ∈ text, IsHexDigit (Bytes.latin byte) := by simpa using found
      by_cases size : text.length = 64
      · exact .inl ⟨size, digits⟩
      · exact .inr ⟨_, .length even digits size⟩
    | some byte =>
      obtain ⟨other, before, after, split, earlier⟩ := List.find?_eq_some_iff_append.mp found
      exact .inr ⟨_, .invalid even split (by simpa using earlier) (by simpa using other)⟩

theorem ofHex_eq_error_iff {error : EventError} :
    ofHex text = .error error ↔ Unreadable text error := by
  refine ⟨fun refused => ?_, ofHex_of_unreadable⟩
  rcases digits_or_unreadable text with ⟨size, digits⟩ | ⟨other, unreadable⟩
  · obtain ⟨hash, read, -⟩ := ofHex_of_digits size digits
    rw [read] at refused
    contradiction
  · rw [ofHex_of_unreadable unreadable] at refused
    exact Except.error.inj refused ▸ unreadable

theorem digits_of_ofHex {hash : EventHash} (read : ofHex text = .ok hash) :
    text.length = 64 ∧ ∀ byte ∈ text, IsHexDigit (Bytes.latin byte) := by
  rcases digits_or_unreadable text with digits | ⟨error, unreadable⟩
  · exact digits
  · rw [ofHex_of_unreadable unreadable] at read
    contradiction

theorem toHex_of_ofHex {text : String} {hash : EventHash} (read : ofHex (.ofText text) = .ok hash) :
    hash.toHex = text.toLower := by
  obtain ⟨size, digits⟩ := digits_of_ofHex read
  obtain ⟨same, again, printed⟩ := ofHex_of_digits size digits
  obtain rfl := Except.ok.inj (read.symm.trans again)
  have chars : (Bytes.ofText text).map Bytes.latin = text.toList :=
    Bytes.map_latin_ofText ((Bytes.forall_ofText_iff text).mp digits)
  calc hash.toHex
    _ = String.ofList ((Bytes.ofText text).map fun byte => (Bytes.latin byte).toLower) :=
      congrArg String.ofList printed
    _ = String.ofList (text.toList.map Char.toLower) := by rw [← chars, List.map_map]; rfl
    _ = text.toLower := by rw [← String.toList_map, String.ofList_toList]; rfl

theorem ofHex_toHex (hash : EventHash) : ofHex (.ofText hash.toHex) = .ok hash := by
  have size : hash.toBytes.length = 32 := hash.bytes.length_toList
  have text : Bytes.ofText hash.toHex = hash.toBytes.hexDigits.map Bytes.ofLatin :=
    Bytes.ofText_toHex hash.toBytes
  have even : ¬ (hash.toBytes.hexDigits.map Bytes.ofLatin).length % 2 = 1 := by
    rw [List.length_map, Bytes.length_hexDigits]
    omega
  rw [text, ofHex, Bytes.ofHex, if_neg even, Bytes.ofHexPairs_hexDigits]
  exact dif_pos size

/-- A text is read as a hash exactly when it is 64 digits, in either case; it is printed in lower
case, and what is printed is read again. Of every other text the first fault is told. -/
theorem ofHex_exact :
    (∀ text : String,
      ((∃ hash, ofHex (.ofText text) = .ok hash) ↔
        text.length = 64 ∧ ∀ char ∈ text.toList, IsHexDigit char) ∧
      (∀ hash, ofHex (.ofText text) = .ok hash → hash.toHex = text.toLower) ∧
      ∀ error, ofHex (.ofText text) = .error error ↔ Unreadable (.ofText text) error) ∧
    ∀ hash : EventHash, ofHex (.ofText hash.toHex) = .ok hash := by
  refine ⟨fun text => ⟨?_, fun hash => toHex_of_ofHex, fun error => ofHex_eq_error_iff⟩, ofHex_toHex⟩
  rw [← Bytes.digits_ofText_iff]
  constructor
  · rintro ⟨hash, read⟩
    exact digits_of_ofHex read
  · rintro ⟨size, digits⟩
    obtain ⟨hash, read, -⟩ := ofHex_of_digits size digits
    exact ⟨hash, read⟩

end EventHash
end Hashgraph
