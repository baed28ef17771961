import Mathlib.Data.String.Basic
import Mathlib.Logic.Function.Iterate
import Mathlib.Tactic.ByContra
import RowGraph.Proofs.Versionstamp.Text
/-!
The order of stamps, and stamps as counters. The order is that of their bytes and that of their
texts, and counters have the order of their numbers; a counter stamp gives its number back, and only
the largest counter has no next stamp. Main statement: the stamp after a counter is the next counter
and nothing counted lies between them, so that counting from zero meets all counters in turn.
-/

namespace RowGraph

theorem Hex.digit_rises (x y : Nat) (less : x < y) (small : y < 16) : digit x < digit y := by
  have table : ∀ y < 16, ∀ x < y, digit x < digit y := by decide
  exact table y small x less

namespace Versionstamp

variable {v w : Versionstamp}

def last : Versionstamp := ofCounter 0xffffffffffffffff

theorem toNat_ofCounter (n : UInt64) : (ofCounter n).toNat = n.toNat * 0x10000 := rfl

theorem ofCounter_injective {a b : UInt64} (same : ofCounter a = ofCounter b) : a = b := by
  have values : (ofCounter a).toNat = (ofCounter b).toNat := congrArg toNat same
  simp only [toNat_ofCounter] at values
  exact UInt64.toNat_inj.mp (by omega)

theorem compare_ofCounter (a b : UInt64) :
    compare (ofCounter a) (ofCounter b) = .lt ↔ a.toNat < b.toNat := by
  change compare (a.toNat * 0x10000) (b.toNat * 0x10000) = .lt ↔ _
  rw [Nat.compare_eq_lt]
  omega

theorem counter_ofCounter (n : UInt64) : (ofCounter n).counter = .ok n := by
  have whole : (ofCounter n).toNat % 0x10000 = 0 := by rw [toNat_ofCounter]; omega
  have back : (ofCounter n).toNat / 0x10000 = n.toNat := by rw [toNat_ofCounter]; omega
  unfold counter
  rw [if_pos whole, back, UInt64.ofNat_toNat]

theorem next_ofCounter (n : UInt64) :
    (ofCounter n).next =
      if n.toNat + 1 < 0x10000000000000000 then .ok (ofCounter (n + 1)) else .error .overflow := by
  unfold next
  rw [counter_ofCounter]
  rfl

theorem next_ofCounter_of_ne {n : UInt64} (room : ofCounter n ≠ last) :
    (ofCounter n).next = .ok (ofCounter (n + 1)) ∧ (n + 1).toNat = n.toNat + 1 := by
  have bound := n.toNat_lt
  have small : n.toNat + 1 < 0x10000000000000000 := by
    by_contra full
    apply room
    have top : n = 0xffffffffffffffff := UInt64.toNat_inj.mp (by simp only [UInt64.reduceToNat]; omega)
    rw [top, last]
  refine ⟨by rw [next_ofCounter, if_pos small], ?_⟩
  rw [UInt64.toNat_add, UInt64.toNat_one]
  omega

theorem next_ofCounter_error {n : UInt64} {e : VersionstampError}
    (failed : (ofCounter n).next = .error e) : e = .overflow ∧ ofCounter n = last := by
  by_cases top : ofCounter n = last
  · rw [top, last, next_ofCounter] at failed
    cases failed
    exact ⟨rfl, top⟩
  · rw [(next_ofCounter_of_ne top).1] at failed
    cases failed

theorem counter_iff {n : UInt64} : v.counter = .ok n ↔ v = ofCounter n := by
  constructor
  · intro counted
    unfold counter at counted
    split at counted
    · rename_i whole
      have bound := v.isLt
      obtain rfl := Except.ok.inj counted
      apply ext
      rw [toNat_ofCounter, UInt64.toNat_ofNat']
      omega
    · cases counted
  · rintro rfl
    exact counter_ofCounter n

-- A stamp that is no counter has no next one.
theorem next_uncounted (uncounted : ∀ n, v ≠ ofCounter n) : v.next = .error .overflow := by
  unfold next
  cases counted : v.counter with
  | ok n => exact absurd (counter_iff.mp counted) (uncounted n)
  | error e =>
    unfold counter at counted
    split at counted
    · cases counted
    · rw [← Except.error.inj counted]
      rfl

theorem compare_toNat (a b : Versionstamp) : compare a b = .lt ↔ a.toNat < b.toNat :=
  Nat.compare_eq_lt

theorem compare_bytes (a b : Versionstamp) : compare a b = .lt ↔ a.bytes < b.bytes := by
  have rises (x y : Nat) (less : x < y) (small : y < 256) : UInt8.ofNat x < UInt8.ofNat y := by
    rw [UInt8.lt_iff_toNat_lt, UInt8.toNat_ofNat', UInt8.toNat_ofNat']
    omega
  rw [compare_toNat, bytes_eq, bytes_eq]
  exact (Figures.written_lt_iff rises a.isLt b.isLt).symm

theorem compare_text (a b : Versionstamp) : compare a b = .lt ↔ a.text < b.text := by
  rw [compare_toNat, String.lt_iff_toList_lt, text, text, String.toList_ofList, String.toList_ofList,
    Hex.digits_eq, Hex.digits_eq, Hex.nibbles_eq, Hex.nibbles_eq]
  exact (Figures.written_lt_iff Hex.digit_rises a.isLt b.isLt).symm

theorem trailer_iff : v.toNat % 0x10000 ≠ 0 ↔ ∃ b ∈ v.bytes.drop 8, b ≠ 0 := by
  have trailer : v.bytes.drop 8 =
      [UInt8.ofNat (v.toNat / 256 % 256), UInt8.ofNat (v.toNat % 256)] := by
    have front : (Figures.ofNat 256 8 (v.toNat / 256 / 256)).length = 8 :=
      Figures.length_ofNat _ _
    rw [bytes_eq, Figures.ofNat, Figures.ofNat, List.append_assoc, List.map_append]
    exact List.drop_left' (by rw [List.length_map, front])
  have zero (n : Nat) : UInt8.ofNat (n % 256) = 0 ↔ n % 256 = 0 := by
    rw [← UInt8.toNat_inj, UInt8.toNat_ofNat', Nat.mod_mod]
    rfl
  simp only [trailer, List.mem_cons, List.not_mem_nil, or_false, exists_eq_or_imp, exists_eq_left,
    ne_eq, zero]
  omega

theorem counter_error_iff {e : VersionstampError} :
    v.counter = .error e ↔ e = .overflow ∧ ∃ b ∈ v.bytes.drop 8, b ≠ 0 := by
  rw [← trailer_iff, counter]
  split
  · rename_i whole
    exact ⟨(nomatch ·), fun ⟨_, trailer⟩ => absurd whole trailer⟩
  · rename_i trailer
    exact ⟨fun failed => ⟨(Except.error.inj failed).symm, trailer⟩, fun ⟨same, _⟩ => same ▸ rfl⟩

theorem next_iff : v.next = .ok w ↔
    ∃ n : UInt64, n.toNat < 2 ^ 64 - 1 ∧ v = ofCounter n ∧ w = ofCounter (n + 1) := by
  constructor
  · intro followed
    by_cases counted : ∃ n, v = ofCounter n
    · obtain ⟨n, rfl⟩ := counted
      rw [next_ofCounter] at followed
      split at followed
      · exact ⟨n, by omega, rfl, (Except.ok.inj followed).symm⟩
      · cases followed
    · rw [next_uncounted fun n same => counted ⟨n, same⟩] at followed
      cases followed
  · rintro ⟨n, room, rfl, rfl⟩
    rw [next_ofCounter, if_pos (by omega)]

theorem next_error {e : VersionstampError} (failed : v.next = .error e) : e = .overflow := by
  by_cases counted : ∃ n, v = ofCounter n
  · obtain ⟨n, rfl⟩ := counted
    exact (next_ofCounter_error failed).1
  · rw [next_uncounted fun n same => counted ⟨n, same⟩] at failed
    exact (Except.error.inj failed).symm

-- Neither end is left out: the next stamp is greater, and no counter comes before it.
theorem next_adjacent (followed : v.next = .ok w) : compare v w = .lt ∧
    ∀ n, ¬ (compare v (ofCounter n) = .lt ∧ compare (ofCounter n) w = .lt) := by
  obtain ⟨n, room, rfl, rfl⟩ := next_iff.mp followed
  have next : (n + 1).toNat = n.toNat + 1 := by
    rw [UInt64.toNat_add, UInt64.toNat_one]
    omega
  simp only [compare_ofCounter, next]
  exact ⟨Nat.lt_succ_self _, fun m => by omega⟩

theorem iterate_next (k : Nat) (room : k < 2 ^ 64) :
    Nat.iterate (· >>= next) k (.ok zero) = .ok (ofCounter (UInt64.ofNat k)) := by
  induction k with
  | zero => rfl
  | succ k ih =>
    have number : (UInt64.ofNat k).toNat = k := by
      rw [UInt64.toNat_ofNat']
      omega
    have counts : UInt64.ofNat k + 1 = UInt64.ofNat (k + 1) := (UInt64.ofNat_add k 1).symm
    rw [Function.iterate_succ_apply', ih (by omega)]
    change (ofCounter (UInt64.ofNat k)).next = _
    rw [next_ofCounter, number, if_pos (by omega), counts]

end Versionstamp

open Versionstamp in
theorem stamps_ordered :
    (∀ a b : Versionstamp, (compare a b = .lt ↔ a.bytes < b.bytes) ∧
      (compare a b = .lt ↔ a.text < b.text)) ∧
    (∀ m n : UInt64, m < n → compare (ofCounter m) (ofCounter n) = .lt) ∧
    (∀ (v : Versionstamp) (n : UInt64), v.counter = .ok n ↔ v = ofCounter n) ∧
    (∀ (v : Versionstamp) (e : VersionstampError),
      v.counter = .error e ↔ e = .overflow ∧ ∃ b ∈ v.bytes.drop 8, b ≠ 0) ∧
    (∀ v w : Versionstamp, v.next = .ok w ↔
      ∃ n : UInt64, n.toNat < 2 ^ 64 - 1 ∧ v = ofCounter n ∧ w = ofCounter (n + 1)) ∧
    (∀ (v : Versionstamp) (e : VersionstampError), v.next = .error e → e = .overflow) ∧
    (∀ v w : Versionstamp, v.next = .ok w → compare v w = .lt ∧
      ∀ n, ¬ (compare v (ofCounter n) = .lt ∧ compare (ofCounter n) w = .lt)) ∧
    ∀ k < 2 ^ 64, Nat.iterate (· >>= next) k (.ok zero) = .ok (ofCounter (UInt64.ofNat k)) :=
  ⟨fun a b => ⟨compare_bytes a b, compare_text a b⟩,
    fun m n less => (compare_ofCounter m n).mpr (UInt64.lt_iff_toNat_lt.mp less),
    fun _ _ => counter_iff, fun _ _ => counter_error_iff, fun _ _ => next_iff,
    fun _ _ => next_error, fun _ _ => next_adjacent, iterate_next⟩

open Versionstamp in
theorem counters_ordered :
    ((41 : UInt64) < 42 ∧ compare (ofCounter 41) (ofCounter 42) = .lt) ∧
    ((ofCounter 41).next = .ok (ofCounter 42) ∧
      ∀ n, ¬ (compare (ofCounter 41) (ofCounter n) = .lt ∧
        compare (ofCounter n) (ofCounter 42) = .lt)) ∧
    (∃ e, last.next = .error e ∧ e = .overflow) ∧
    3 < 2 ^ 64 ∧ Nat.iterate (· >>= next) 3 (.ok zero) = .ok (ofCounter (UInt64.ofNat 3)) := by
  obtain ⟨_, rises, _, _, _, stops, adjacent, iterates⟩ := stamps_ordered
  have less : (41 : UInt64) < 42 := by decide
  have follows : (ofCounter 41).next = .ok (ofCounter 42) := by decide
  have ends : last.next = .error .overflow := by decide
  exact ⟨⟨less, rises 41 42 less⟩, ⟨follows, (adjacent _ _ follows).2⟩,
    ⟨_, ends, stops last _ ends⟩, by decide, iterates 3 (by decide)⟩

end RowGraph
