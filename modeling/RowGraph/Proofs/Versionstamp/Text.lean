import Mathlib.Data.List.Induction
import Mathlib.Tactic.IntervalCases
import RowGraph.Versionstamp.Datum
/-!
Stamps as texts and as bytes: the figures of their numbers in base 16 and in base 256, the most
significant first. Main statements: figures and numbers determine each other, two figures of a base
are one of its square, and numbers have the order of their figures, with whatever rising signs these
are written; the text of a stamp is read as that stamp, stamps and lists of ten bytes are the same,
and the text of a stamp has two digits for each of its bytes.
-/

namespace RowGraph

namespace Figures

variable {base count : Nat}

-- The lowest `count` figures.
def ofNat (base : Nat) : (count : Nat) → Nat → List Nat
  | 0, _ => []
  | count + 1, n => ofNat base count (n / base) ++ [n % base]

def toNat (base : Nat) (ds : List Nat) : Nat := ds.foldl (fun n d => n * base + d) 0

theorem length_ofNat (count n : Nat) : (ofNat base count n).length = count := by
  induction count generalizing n with
  | zero => rfl
  | succ count ih => rw [ofNat, List.length_append, ih, List.length_singleton]

theorem ofNat_small (positive : 0 < base) {n d : Nat} (member : d ∈ ofNat base count n) :
    d < base := by
  induction count generalizing n with
  | zero => cases member
  | succ count ih =>
    rcases List.mem_append.mp member with earlier | last
    · exact ih earlier
    · rw [List.mem_singleton.mp last]
      exact Nat.mod_lt n positive

theorem toNat_snoc (ds : List Nat) (d : Nat) :
    toNat base (ds ++ [d]) = toNat base ds * base + d := by
  rw [toNat, List.foldl_append]
  rfl

theorem toNat_ofNat {n : Nat} (small : n < base ^ count) : toNat base (ofNat base count n) = n := by
  induction count generalizing n with
  | zero =>
    obtain rfl : n = 0 := Nat.lt_one_iff.mp small
    rfl
  | succ count ih =>
    rw [ofNat, toNat_snoc, ih (Nat.div_lt_of_lt_mul (by rwa [← Nat.pow_succ'])), Nat.mul_comm]
    exact Nat.div_add_mod n base

theorem toNat_small {ds : List Nat} (small : ∀ d ∈ ds, d < base) :
    toNat base ds < base ^ ds.length := by
  induction ds using List.reverseRecOn with
  | nil => exact Nat.one_pos
  | append_singleton ds d ih =>
    obtain ⟨earlier, last⟩ := List.forall_mem_append.mp small
    rw [List.forall_mem_singleton] at last
    rw [toNat_snoc, List.length_append, List.length_singleton, Nat.pow_succ]
    calc toNat base ds * base + d < toNat base ds * base + base := Nat.add_lt_add_left last _
      _ = (toNat base ds + 1) * base := (Nat.succ_mul _ _).symm
      _ ≤ base ^ ds.length * base := Nat.mul_le_mul_right base (ih earlier)

theorem ofNat_toNat {ds : List Nat} (small : ∀ d ∈ ds, d < base) :
    ofNat base ds.length (toNat base ds) = ds := by
  induction ds using List.reverseRecOn with
  | nil => rfl
  | append_singleton ds d ih =>
    obtain ⟨earlier, last⟩ := List.forall_mem_append.mp small
    rw [List.forall_mem_singleton] at last
    have start : (base * toNat base ds + d) / base = toNat base ds := by
      rw [Nat.mul_add_div (Nat.zero_lt_of_lt last), Nat.div_eq_of_lt last, Nat.add_zero]
    have rest : (base * toNat base ds + d) % base = d := by
      rw [Nat.mul_add_mod, Nat.mod_eq_of_lt last]
    rw [List.length_append, List.length_singleton, toNat_snoc, ofNat, Nat.mul_comm, start, rest,
      ih earlier]

-- Each figure by its place.
theorem ofNat_range (count n : Nat) :
    ofNat base count n = (List.range count).map fun i => n / base ^ (count - 1 - i) % base := by
  induction count generalizing n with
  | zero => rfl
  | succ count ih =>
    rw [ofNat, ih, List.range_succ, List.map_append]
    congr 1
    · refine List.map_congr_left fun i member => ?_
      have before : count + 1 - 1 - i = count - 1 - i + 1 := by
        have := List.mem_range.mp member
        omega
      rw [before, Nat.pow_succ', Nat.div_div_eq_div_mul]
    · rw [List.map_singleton, Nat.add_sub_cancel, Nat.sub_self, Nat.pow_zero, Nat.div_one]

-- Each figure of the square of a base is two figures of the base.
theorem ofNat_square (count n : Nat) : ofNat base (2 * count) n =
    (ofNat (base * base) count n).flatMap fun d => [d / base, d % base] := by
  induction count generalizing n with
  | zero => rfl
  | succ count ih =>
    have upper : n % (base * base) / base = n / base % base := Nat.mod_mul_right_div_self n base base
    have lower : n % (base * base) % base = n % base := Nat.mod_mul_left_mod n base base
    rw [Nat.mul_succ, ofNat, ofNat, ofNat, List.flatMap_append, ← ih, List.flatMap_singleton, upper,
      lower, Nat.div_div_eq_div_mul, List.append_assoc]
    rfl

section Order

variable {α : Type} [LT α]

theorem snoc_lt_of_lt {as bs : List α} (before : as < bs) (same : as.length = bs.length) (a b : α) :
    as ++ [a] < bs ++ [b] := by
  induction as generalizing bs with
  | nil =>
    obtain rfl := List.length_eq_zero_iff.mp same.symm
    exact absurd before (List.not_lt_nil _)
  | cons x as ih =>
    cases bs with
    | nil => cases same
    | cons y bs =>
      rw [List.cons_append, List.cons_append]
      rcases List.cons_lt_cons_iff.mp before with first | ⟨rfl, later⟩
      · exact List.cons_lt_cons_iff.mpr (.inl first)
      · exact List.cons_lt_cons_iff.mpr (.inr ⟨rfl, ih later (Nat.succ.inj same)⟩)

variable {sign : Nat → α}

theorem written_lt (rises : ∀ x y, x < y → y < base → sign x < sign y) {a b : Nat} (less : a < b)
    (small : b < base ^ count) :
    (ofNat base count a).map sign < (ofNat base count b).map sign := by
  induction count generalizing a b with
  | zero => exact absurd (Nat.lt_one_iff.mp small) (Nat.ne_zero_of_lt less)
  | succ count ih =>
    have start : b / base < base ^ count := Nat.div_lt_of_lt_mul (by rwa [← Nat.pow_succ'])
    have positive : 0 < base := by
      rcases Nat.eq_zero_or_pos base with rfl | positive
      · simp at small
      · exact positive
    rw [ofNat, ofNat, List.map_append, List.map_append]
    rcases Nat.lt_or_eq_of_le (Nat.div_le_div_right (Nat.le_of_lt less)) with earlier | level
    · exact snoc_lt_of_lt (ih earlier start) (by simp only [List.length_map, length_ofNat]) _ _
    · -- All figures but the last are the same.
      have last : a % base < b % base := by
        have left := Nat.div_add_mod a base
        have right := Nat.div_add_mod b base
        rw [level] at left
        omega
      rw [level]
      exact List.append_left_lt (List.cons_lt_cons_iff.mpr
        (.inl (rises _ _ last (Nat.mod_lt b positive))))

theorem written_lt_iff [Std.Asymm (α := α) (· < ·)]
    (rises : ∀ x y, x < y → y < base → sign x < sign y) {a b : Nat} (small : a < base ^ count)
    (small' : b < base ^ count) :
    (ofNat base count a).map sign < (ofNat base count b).map sign ↔ a < b := by
  refine ⟨fun before => ?_, fun less => written_lt rises less small'⟩
  rcases Nat.lt_trichotomy a b with less | rfl | greater
  · exact less
  · exact absurd before (List.lt_irrefl _)
  · exact absurd before (List.lt_asymm (written_lt rises greater small))

end Order

end Figures

namespace Hex

-- A digit is a single byte, and is read back.
def byte (d : Nat) : UInt8 := UInt8.ofNat (digit d).toNat

theorem utf8_digit {d : Nat} (small : d < 16) : String.utf8EncodeChar (digit d) = [byte d] := by
  interval_cases d <;> decide

theorem value?_byte {d : Nat} (small : d < 16) : value? (byte d) = some d := by
  interval_cases d <;> decide

def nibbles : (count : Nat) → Nat → List Nat
  | 0, _ => []
  | count + 1, n => nibbles count (n / 16) ++ [n % 16]

theorem digits_eq (count n : Nat) : digits count n = (nibbles count n).map digit := by
  induction count generalizing n with
  | zero => rfl
  | succ count ih => simp [digits, nibbles, ih]

theorem nibbles_eq (count n : Nat) : nibbles count n = Figures.ofNat 16 count n := by
  induction count generalizing n with
  | zero => rfl
  | succ count ih => rw [nibbles, Figures.ofNat, ih]

theorem nibbles_small {count n d : Nat} (member : d ∈ nibbles count n) : d < 16 :=
  Figures.ofNat_small (by decide) (nibbles_eq count n ▸ member)

theorem length_nibbles (count n : Nat) : (nibbles count n).length = count := by
  rw [nibbles_eq, Figures.length_ofNat]

theorem number_nibbles {count n : Nat} (small : n < 16 ^ count) : number (nibbles count n) = n := by
  rw [nibbles_eq]
  exact Figures.toNat_ofNat small

theorem values_bytes (ds : List Nat) (small : ∀ d ∈ ds, d < 16) (index : Nat) :
    values index (ds.map byte) = .ok ds := by
  induction ds generalizing index with
  | nil => rfl
  | cons d rest ih =>
    have later := ih (fun d member => small d (List.mem_cons_of_mem _ member)) (index + 1)
    rw [List.map_cons, values, value?_byte (small d List.mem_cons_self)]
    simp only [later]
    rfl

theorem utf8_digits (ds : List Nat) (small : ∀ d ∈ ds, d < 16) :
    (ds.map digit).utf8Encode.data.toList = ds.map byte := by
  induction ds with
  | nil => rfl
  | cons d rest ih =>
    have later := ih fun d member => small d (List.mem_cons_of_mem _ member)
    have first := utf8_digit (small d List.mem_cons_self)
    rw [List.map_cons, List.utf8Encode_cons, List.utf8Encode_singleton, first, List.map_cons,
      ← later]
    simp

end Hex

namespace Versionstamp

theorem ofText_text (v : Versionstamp) : ofText v.text = .ok v := by
  have small : ∀ d ∈ Hex.nibbles 20 v.toNat, d < 16 := fun d member => Hex.nibbles_small member
  have bytes : v.text.toUTF8.data.toList = (Hex.nibbles 20 v.toNat).map Hex.byte := by
    rw [text, Hex.digits_eq, String.toUTF8_eq_toByteArray, String.toByteArray_ofList,
      Hex.utf8_digits _ small]
  have length : (Hex.nibbles 20 v.toNat).length = 20 := Hex.length_nibbles 20 v.toNat
  have decoded : Hex.decode ((Hex.nibbles 20 v.toNat).map Hex.byte) =
      .ok (Hex.nibbles 20 v.toNat) := by
    unfold Hex.decode
    rw [List.length_map, length, if_neg (by decide), Hex.values_bytes _ small]
  unfold ofText
  rw [bytes, decoded]
  simp only [length, if_true]
  rw [Hex.number_nibbles v.isLt, ofNat]
  obtain ⟨n, bound⟩ := v
  simp only [Nat.mod_eq_of_lt bound]

theorem ofDatum_text (v : Versionstamp) : ofDatum (.string v.text) = .ok v := by
  rw [ofDatum, ofText_text]
  rfl

end Versionstamp

-- The two digits of a byte.
def Hex.pair (b : UInt8) : List Char := [digit (b.toNat / 16), digit (b.toNat % 16)]

namespace Versionstamp

theorem ext {a b : Versionstamp} (same : a.toNat = b.toNat) : a = b := by
  obtain ⟨n, _⟩ := a
  obtain ⟨m, _⟩ := b
  obtain rfl : n = m := same
  rfl

theorem bytes_eq (v : Versionstamp) : v.bytes = (Figures.ofNat 256 10 v.toNat).map UInt8.ofNat := by
  rw [Figures.ofNat_range, List.map_map, bytes]
  refine List.map_congr_left fun i _ => UInt8.toNat_inj.mp ?_
  have shift : v.toNat >>> (8 * (9 - i)) = v.toNat / 256 ^ (9 - i) := by
    rw [Nat.shiftRight_eq_div_pow, Nat.pow_mul]
  rw [Function.comp_apply, shift, UInt8.toNat_ofNat', UInt8.toNat_ofNat']
  exact (Nat.mod_mod _ 256).symm

theorem length_bytes (v : Versionstamp) : v.bytes.length = 10 := by
  rw [bytes_eq, List.length_map, Figures.length_ofNat]

theorem toNat_bytes (v : Versionstamp) :
    v.bytes.map UInt8.toNat = Figures.ofNat 256 10 v.toNat := by
  have same (d) (member : d ∈ Figures.ofNat 256 10 v.toNat) :
      (UInt8.toNat ∘ UInt8.ofNat) d = d := by
    rw [Function.comp_apply, UInt8.toNat_ofNat',
      Nat.mod_eq_of_lt (Figures.ofNat_small (by decide) member)]
  rw [bytes_eq, List.map_map, List.map_congr_left same, List.map_id']

theorem fold_bytes (bs : List UInt8) :
    bs.foldl (fun n b => n * 256 + b.toNat) 0 = Figures.toNat 256 (bs.map UInt8.toNat) := by
  rw [Figures.toNat, List.foldl_map]

theorem ofBytes_bytes (v : Versionstamp) : ofBytes v.bytes = .ok v := by
  unfold ofBytes
  rw [if_pos v.length_bytes, fold_bytes, toNat_bytes, Figures.toNat_ofNat v.isLt]
  exact congrArg Except.ok (ext (Nat.mod_eq_of_lt v.isLt))

theorem bytes_ofBytes {bs : List UInt8} (ten : bs.length = 10) :
    ∃ v, ofBytes bs = .ok v ∧ v.bytes = bs := by
  have small : ∀ d ∈ bs.map UInt8.toNat, d < 256 := List.forall_mem_map.mpr fun b _ => b.toNat_lt
  have bound := Figures.toNat_small small
  rw [List.length_map, ten] at bound
  have number : (ofNat (Figures.toNat 256 (bs.map UInt8.toNat))).toNat =
      Figures.toNat 256 (bs.map UInt8.toNat) := Nat.mod_eq_of_lt bound
  have figures := Figures.ofNat_toNat small
  rw [List.length_map, ten] at figures
  refine ⟨_, by rw [ofBytes, if_pos ten, fold_bytes], ?_⟩
  rw [bytes_eq, number, figures, List.map_map]
  exact List.map_id'' (fun b => UInt8.ofNat_toNat) bs

theorem text_bytes (v : Versionstamp) : v.text.toList = v.bytes.flatMap Hex.pair := by
  have figures : Hex.nibbles 20 v.toNat =
      (v.bytes.map UInt8.toNat).flatMap fun d => [d / 16, d % 16] := by
    rw [Hex.nibbles_eq, toNat_bytes]
    exact Figures.ofNat_square 10 v.toNat
  rw [text, String.toList_ofList, Hex.digits_eq, figures, List.flatMap_map, List.map_flatMap]
  rfl

end Versionstamp

end RowGraph
