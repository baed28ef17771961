import Mathlib.Data.String.Basic
import RowGraph.Proofs.Versionstamp.Text
/-!
Which texts are stamps. A text is read through its bytes; as digits are plain characters, the bytes
are digits exactly when the characters are. Main statement: a stamp is written with two digits for
each of its ten bytes and read back, nothing but twenty digits is read, and every other text is
turned down for the first thing that is wrong with it.
-/

namespace RowGraph

def utf8 (s : String) : List UInt8 := s.toUTF8.data.toList

theorem utf8_eq (s : String) : utf8 s = s.toList.flatMap String.utf8EncodeChar := by
  unfold utf8
  rw [String.toUTF8_eq_toByteArray, ← String.ofList_toList (s := s), String.toByteArray_ofList,
    List.utf8Encode, List.data_toByteArray, List.toList_toArray, String.toList_ofList]

-- A plain character is one byte, and any other has a byte that is no plain one.
theorem utf8EncodeChar_plain {c : Char} (plain : c.toNat < 128) :
    String.utf8EncodeChar c = [UInt8.ofNat c.toNat] := by
  simp [String.utf8EncodeChar, Nat.le_of_lt_succ plain]

theorem plain_of_utf8 {c : Char} (plain : ∀ b ∈ String.utf8EncodeChar c, b.toNat < 128) :
    c.toNat < 128 := by
  unfold String.utf8EncodeChar at plain
  dsimp only at plain
  split at plain
  · exact Nat.lt_succ_of_le ‹_›
  · have last : (UInt8.ofNat (c.toNat % 64 + 128)).toNat < 128 := by
      apply plain
      repeat' split
      all_goals simp
    rw [UInt8.toNat_ofNat'] at last
    omega

namespace Hex

-- The digits, in either case.
def IsDigit (c : Char) : Prop := c ∈ "0123456789abcdefABCDEF".toList

instance : DecidablePred IsDigit := fun c => List.instDecidableMemOfLawfulBEq c _

def char (b : UInt8) : Char := Char.ofNat b.toNat

theorem toNat_char (b : UInt8) : (char b).toNat = b.toNat := by
  have valid : b.toNat.isValidChar := .inl (Nat.lt_trans b.toNat_lt (by decide))
  rw [char, Char.ofNat, dif_pos valid]
  rfl

-- Through all bytes: those that are read are the digits, and their values are written in small
-- letters.
theorem value?_table (b : UInt8) : (value? b).isSome = decide (IsDigit (char b)) ∧
    ((value? b).all fun n => n < 16 && digit n == (char b).toLower) = true := by
  have table : ∀ i < 256, (value? (UInt8.ofNat i)).isSome = decide (IsDigit (char (UInt8.ofNat i))) ∧
      ((value? (UInt8.ofNat i)).all fun n =>
        n < 16 && digit n == (char (UInt8.ofNat i)).toLower) = true := by
    decide +kernel
  have found := table b.toNat b.toNat_lt
  rwa [UInt8.ofNat_toNat] at found

theorem value?_some {b : UInt8} {n : Nat} (read : value? b = some n) :
    n < 16 ∧ digit n = (char b).toLower := by
  have found := (value?_table b).2
  rw [read] at found
  simpa using found

theorem value?_none_iff {b : UInt8} : value? b = none ↔ ¬ IsDigit (char b) := by
  rw [← Option.not_isSome_iff_eq_none, (value?_table b).1, decide_eq_true_iff]

theorem IsDigit.plain {c : Char} (digit : IsDigit c) : c.toNat < 128 := by
  have table : "0123456789abcdefABCDEF".toList.all (·.toNat < 128) = true := by decide
  exact of_decide_eq_true (List.all_eq_true.mp table c digit)

theorem chars_of_plain {cs : List Char} (plain : ∀ c ∈ cs, c.toNat < 128) :
    (cs.flatMap String.utf8EncodeChar).map char = cs := by
  induction cs with
  | nil => rfl
  | cons c rest ih =>
    obtain ⟨first, later⟩ := List.forall_mem_cons.mp plain
    have back : char (UInt8.ofNat c.toNat) = c := by
      rw [char, UInt8.toNat_ofNat', Nat.mod_eq_of_lt (by omega), Char.ofNat_toNat]
    rw [List.flatMap_cons, List.map_append, utf8EncodeChar_plain first, ih later, List.map_singleton,
      back]
    rfl

-- A text of digits has them as its bytes, and so has a text whose bytes are digits.
theorem chars_of_digits {s : String}
    (digits : (∀ b ∈ utf8 s, IsDigit (char b)) ∨ ∀ c ∈ s.toList, IsDigit c) :
    (utf8 s).map char = s.toList := by
  rw [utf8_eq] at digits ⊢
  refine chars_of_plain fun c member => ?_
  rcases digits with bytes | chars
  · refine plain_of_utf8 fun b inside => ?_
    rw [← toNat_char]
    exact (bytes b (List.mem_flatMap.mpr ⟨c, member, inside⟩)).plain
  · exact (chars c member).plain

theorem digits_iff (s : String) :
    (∀ b ∈ utf8 s, IsDigit (char b)) ↔ ∀ c ∈ s.toList, IsDigit c := by
  constructor
  · intro bytes
    rw [← chars_of_digits (.inl bytes)]
    exact List.forall_mem_map.mpr bytes
  · intro chars
    rw [← chars_of_digits (.inr chars)] at chars
    exact List.forall_mem_map.mp chars

theorem values_digits {bytes : List UInt8} (digits : ∀ b ∈ bytes, IsDigit (char b)) (index : Nat) :
    ∃ ds, values index bytes = .ok ds ∧ ds.length = bytes.length ∧ (∀ d ∈ ds, d < 16) ∧
      ds.map digit = bytes.map fun b => (char b).toLower := by
  induction bytes generalizing index with
  | nil => exact ⟨[], rfl, rfl, List.forall_mem_nil _, rfl⟩
  | cons b rest ih =>
    obtain ⟨first, later⟩ := List.forall_mem_cons.mp digits
    obtain ⟨ds, read, length, small, written⟩ := ih later (index + 1)
    cases found : value? b with
    | none => exact absurd first (value?_none_iff.mp found)
    | some d =>
      obtain ⟨digit, lower⟩ := value?_some found
      refine ⟨d :: ds, ?_, ?_, List.forall_mem_cons.mpr ⟨digit, small⟩, ?_⟩
      · simp only [values, found, read, Except.map]
      · rw [List.length_cons, List.length_cons, length]
      · rw [List.map_cons, List.map_cons, lower, written]

theorem values_foreign {front back : List UInt8} {b : UInt8}
    (digits : ∀ b ∈ front, IsDigit (char b)) (foreign : ¬ IsDigit (char b)) (index : Nat) :
    values index (front ++ b :: back) = .error (.invalidDigit b (index + front.length)) := by
  induction front generalizing index with
  | nil =>
    simp only [List.nil_append, values, value?_none_iff.mpr foreign, List.length_nil, Nat.add_zero]
  | cons d rest ih =>
    obtain ⟨first, later⟩ := List.forall_mem_cons.mp digits
    cases found : value? d with
    | none => exact absurd first (value?_none_iff.mp found)
    | some n =>
      have place : index + 1 + rest.length = index + (rest.length + 1) := by omega
      simp only [List.cons_append, values, found, ih later, Except.map, List.length_cons, place]

-- Bytes that are not all digits have a first one that is none.
theorem first_foreign {bytes : List UInt8} (mixed : ¬ ∀ b ∈ bytes, IsDigit (char b)) :
    ∃ front b back, bytes = front ++ b :: back ∧ (∀ d ∈ front, IsDigit (char d)) ∧
      ¬ IsDigit (char b) := by
  induction bytes with
  | nil => exact absurd (List.forall_mem_nil _) mixed
  | cons b rest ih =>
    by_cases first : IsDigit (char b)
    · obtain ⟨front, c, back, rfl, digits, foreign⟩ :=
        ih fun later => mixed (List.forall_mem_cons.mpr ⟨first, later⟩)
      exact ⟨b :: front, c, back, rfl, List.forall_mem_cons.mpr ⟨first, digits⟩, foreign⟩
    · exact ⟨[], b, rest, rfl, List.forall_mem_nil _, first⟩

end Hex

namespace Versionstamp

variable {s : String}

theorem ofText_odd (odd : (utf8 s).length % 2 = 1) :
    ofText s = .error (.invalidEncoding Hex.DecodeError.oddLength.message) := by
  have decoded : Hex.decode (utf8 s) = .error .oddLength := if_pos odd
  unfold ofText
  rw [← utf8, decoded]

theorem ofText_foreign {front back : List UInt8} {b : UInt8} (even : (utf8 s).length % 2 = 0)
    (bytes : utf8 s = front ++ b :: back) (digits : ∀ b ∈ front, Hex.IsDigit (Hex.char b))
    (foreign : ¬ Hex.IsDigit (Hex.char b)) :
    ofText s = .error (.invalidEncoding (Hex.DecodeError.invalidDigit b front.length).message) := by
  have decoded : Hex.decode (utf8 s) = .error (.invalidDigit b front.length) := by
    rw [Hex.decode, if_neg (by omega), bytes, Hex.values_foreign digits foreign, Nat.zero_add]
  unfold ofText
  rw [← utf8, decoded]

theorem ofText_short (even : (utf8 s).length % 2 = 0)
    (digits : ∀ b ∈ utf8 s, Hex.IsDigit (Hex.char b))
    (short : (utf8 s).length ≠ 20) : ofText s = .error (.invalidLength ((utf8 s).length / 2)) := by
  obtain ⟨ds, read, length, _, _⟩ := Hex.values_digits digits 0
  have decoded : Hex.decode (utf8 s) = .ok ds := by rw [Hex.decode, if_neg (by omega), read]
  unfold ofText
  rw [← utf8, decoded]
  simp only [length, if_neg short]

theorem ofText_digits (digits : ∀ c ∈ s.toList, Hex.IsDigit c) (twenty : s.length = 20) :
    ∃ v, ofText s = .ok v ∧ v.text = s.toLower := by
  have chars := Hex.chars_of_digits (.inr digits)
  obtain ⟨ds, read, length, small, written⟩ := Hex.values_digits ((Hex.digits_iff s).mpr digits) 0
  have count : ds.length = 20 := by
    rw [length, ← List.length_map (f := Hex.char), chars, String.length_toList, twenty]
  have bound : Hex.number ds < 16 ^ 20 := count ▸ Figures.toNat_small small
  have decoded : Hex.decode (utf8 s) = .ok ds := by
    rw [Hex.decode, if_neg (by rw [← length, count]; decide), read]
  refine ⟨ofNat (Hex.number ds), ?_, ?_⟩
  · unfold ofText
    rw [← utf8, decoded]
    simp only [count, if_true]
  · have back : Hex.nibbles 20 (Hex.number ds) = ds := by
      rw [Hex.nibbles_eq, ← count]
      exact Figures.ofNat_toNat small
    have number : (ofNat (Hex.number ds)).toNat = Hex.number ds := Nat.mod_eq_of_lt bound
    have lower : s.toLower = s.map Char.toLower := rfl
    apply String.toList_inj.mp
    rw [text, String.toList_ofList, number, Hex.digits_eq, back, written, lower,
      String.toList_map, ← chars, List.map_map]
    rfl

-- Whatever else a text is, it is turned down in one of the three ways.
theorem digits_of_ofText {v : Versionstamp} (read : ofText s = .ok v) :
    s.length = 20 ∧ ∀ c ∈ s.toList, Hex.IsDigit c := by
  have even : (utf8 s).length % 2 = 0 := by
    by_contra odd
    rw [ofText_odd (by omega)] at read
    cases read
  have digits : ∀ b ∈ utf8 s, Hex.IsDigit (Hex.char b) := by
    by_contra mixed
    obtain ⟨_, _, _, bytes, digits, foreign⟩ := Hex.first_foreign mixed
    rw [ofText_foreign even bytes digits foreign] at read
    cases read
  have twenty : (utf8 s).length = 20 := by
    by_contra short
    rw [ofText_short even digits short] at read
    cases read
  rw [← String.length_toList, ← Hex.chars_of_digits (.inl digits), List.length_map]
  exact ⟨twenty, List.forall_mem_map.mpr digits⟩

end Versionstamp

open Versionstamp in
theorem stamp_text_exact :
    (∀ bs : List UInt8, bs.length = 10 → ∃ v, ofBytes bs = .ok v ∧ v.bytes = bs) ∧
    (∀ v : Versionstamp, v.bytes.length = 10 ∧ ofBytes v.bytes = .ok v ∧
      v.text.toList = v.bytes.flatMap Hex.pair ∧
      ofText v.text = .ok v ∧ ofDatum v.toDatum = .ok v) ∧
    ∀ s : String,
      ((∃ v, ofText s = .ok v) ↔ s.length = 20 ∧ ∀ c ∈ s.toList, Hex.IsDigit c) ∧
      (∀ v, ofText s = .ok v → v.text = s.toLower) ∧
      ((utf8 s).length % 2 = 1 →
        ofText s = .error (.invalidEncoding Hex.DecodeError.oddLength.message)) ∧
      ((utf8 s).length % 2 = 0 →
        (∀ front b back, utf8 s = front ++ b :: back → (∀ d ∈ front, Hex.IsDigit (Hex.char d)) →
          ¬ Hex.IsDigit (Hex.char b) → ofText s =
            .error (.invalidEncoding (Hex.DecodeError.invalidDigit b front.length).message)) ∧
        ((∀ b ∈ utf8 s, Hex.IsDigit (Hex.char b)) → (utf8 s).length ≠ 20 →
          ofText s = .error (.invalidLength ((utf8 s).length / 2)))) := by
  refine ⟨fun bs ten => bytes_ofBytes ten,
    fun v => ⟨v.length_bytes, ofBytes_bytes v, v.text_bytes, ofText_text v, ofDatum_text v⟩,
    fun s => ?_⟩
  refine ⟨⟨fun ⟨v, read⟩ => digits_of_ofText read, fun ⟨twenty, digits⟩ => ?_⟩, fun v read => ?_,
    ofText_odd, fun even => ⟨fun _ _ _ => ofText_foreign even, ofText_short even⟩⟩
  · obtain ⟨v, read, _⟩ := ofText_digits digits twenty
    exact ⟨v, read⟩
  · obtain ⟨twenty, digits⟩ := digits_of_ofText read
    obtain ⟨v', read', written⟩ := ofText_digits digits twenty
    obtain rfl : v' = v := Except.ok.inj (read'.symm.trans read)
    exact written

open Versionstamp in
-- A stamp in capitals, an odd number of digits, a letter of two bytes, and two bytes instead of ten.
theorem texts_told_apart :
    (∃ v, ofBytes [0, 0, 0, 0, 0, 0, 0, 255, 0, 0] = .ok v ∧ ofText v.text = .ok v) ∧
    (∃ v, ofText "00000000000000FF0000" = .ok v ∧ v.text = "00000000000000ff0000") ∧
    ((utf8 "0001f").length % 2 = 1 ∧
      ofText "0001f" = .error (.invalidEncoding Hex.DecodeError.oddLength.message)) ∧
    (utf8 "0é1" = [0x30] ++ 0xc3 :: [0xa9, 0x31] ∧ ¬ Hex.IsDigit (Hex.char 0xc3) ∧
      ofText "0é1" = .error (.invalidEncoding (Hex.DecodeError.invalidDigit 0xc3 1).message)) ∧
    (∀ b ∈ utf8 "0001", Hex.IsDigit (Hex.char b)) ∧ ofText "0001" = .error (.invalidLength 2) := by
  obtain ⟨made, written, read⟩ := stamp_text_exact
  have odd : (utf8 "0001f").length % 2 = 1 := by decide +kernel
  have bytes : utf8 "0é1" = [0x30] ++ 0xc3 :: [0xa9, 0x31] := by decide +kernel
  have foreign : ¬ Hex.IsDigit (Hex.char 0xc3) := by decide +kernel
  have digits : ∀ b ∈ utf8 "0001", Hex.IsDigit (Hex.char b) := by decide +kernel
  refine ⟨?_, ?_, ⟨odd, ?_⟩, ⟨bytes, foreign, ?_⟩, digits, ?_⟩
  · obtain ⟨v, found, _⟩ := made [0, 0, 0, 0, 0, 0, 0, 255, 0, 0] rfl
    exact ⟨v, found, (written v).2.2.2.1⟩
  · obtain ⟨v, found⟩ := (read "00000000000000FF0000").1.mpr ⟨by decide, by simp [Hex.IsDigit]⟩
    have lower : "00000000000000FF0000".toLower = "00000000000000ff0000" := by decide +kernel
    exact ⟨v, found, lower ▸ (read _).2.1 v found⟩
  · exact (read "0001f").2.2.1 odd
  · exact ((read "0é1").2.2.2 (by decide +kernel)).1 [0x30] 0xc3 [0xa9, 0x31] bytes
      (by decide +kernel) foreign
  · exact ((read "0001").2.2.2 (by decide +kernel)).2 digits (by decide +kernel)

end RowGraph
