import Mathlib.Data.List.Dedup
import Mathlib.Data.List.TakeWhile
import RowGraph.Proofs.Versionstamp.Codec
import RowGraph.Proofs.Schema.Hooked
/-!
The two levels of a map from types and fields, and what they come to. Texts are in the order of
their bytes, so the entries rise by bytes, of types first; a place has the entry that was made for
it last. A map of hooks is followed through any changes: a place that was never registered takes no
hooks, and one that was has those that were attached to it since, in order. Main statement: both
kinds of map are flat.
-/

namespace RowGraph

-- The bytes of a character: its number in figures of base 64, under marks that tell how many bytes
-- there are.
inductive Encodes : Nat → List UInt8 → Prop where
  | one {a : Nat} : a < 128 → Encodes a [.ofNat a]
  | two {a b : Nat} : a < 32 → b < 64 → 128 ≤ a * 64 + b →
      Encodes (a * 64 + b) [.ofNat (a + 192), .ofNat (b + 128)]
  | three {a b c : Nat} : a < 16 → b < 64 → c < 64 → 2048 ≤ (a * 64 + b) * 64 + c →
      Encodes ((a * 64 + b) * 64 + c) [.ofNat (a + 224), .ofNat (b + 128), .ofNat (c + 128)]
  | four {a b c d : Nat} : a < 8 → b < 64 → c < 64 → d < 64 →
      65536 ≤ ((a * 64 + b) * 64 + c) * 64 + d →
      Encodes (((a * 64 + b) * 64 + c) * 64 + d)
        [.ofNat (a + 240), .ofNat (b + 128), .ofNat (c + 128), .ofNat (d + 128)]

theorem encodes (c : Char) : Encodes c.val.toNat (String.utf8EncodeChar c) := by
  have bound : c.val.toNat < 1114112 := by
    have valid := c.valid
    unfold UInt32.isValidChar Nat.isValidChar at valid
    omega
  unfold String.utf8EncodeChar
  generalize c.val.toNat = n at bound
  dsimp only
  have figures (n : Nat) : n / 64 * 64 + n % 64 = n := Nat.div_add_mod' n 64
  have twice : n / 64 / 64 = n / 4096 := Nat.div_div_eq_div_mul n 64 64
  have thrice : n / 4096 / 64 = n / 262144 := Nat.div_div_eq_div_mul n 4096 64
  split
  · exact .one (by omega)
  · split
    · have two := Encodes.two (a := n / 64) (b := n % 64) (by omega) (by omega) (by omega)
      rw [figures] at two
      rwa [Nat.mod_eq_of_lt (by omega : n / 64 < 32)]
    · split
      · have three := Encodes.three (a := n / 64 / 64) (b := n / 64 % 64) (c := n % 64)
          (by omega) (by omega) (by omega) (by rw [figures, figures]; omega)
        rw [figures, figures, twice] at three
        rwa [Nat.mod_eq_of_lt (by omega : n / 4096 < 16)]
      · have four := Encodes.four (a := n / 64 / 64 / 64) (b := n / 64 / 64 % 64) (c := n / 64 % 64)
          (d := n % 64) (by omega) (by omega) (by omega) (by omega)
          (by rw [figures, figures, figures]; omega)
        rw [figures, figures, figures, twice, thrice] at four
        rwa [Nat.mod_eq_of_lt (by omega : n / 262144 < 8)]

-- A character with fewer bytes has a smaller first byte; those with as many are told apart by their
-- figures.
theorem Encodes.lt {m n : Nat} {as bs : List UInt8} (first : Encodes m as) (second : Encodes n bs)
    (less : m < n) (x y : List UInt8) : as ++ x < bs ++ y := by
  cases first <;> cases second
  all_goals try omega
  all_goals
    simp only [List.cons_append, List.nil_append, List.cons_lt_cons_iff, UInt8.lt_iff_toNat_lt,
      ← UInt8.toNat_inj, UInt8.toNat_ofNat']
    omega

theorem flatMap_utf8_lt {cs ds : List Char} (less : cs < ds) :
    cs.flatMap String.utf8EncodeChar < ds.flatMap String.utf8EncodeChar := by
  induction cs generalizing ds with
  | nil =>
    cases ds with
    | nil => exact absurd less (List.lt_irrefl [])
    | cons d ds =>
      rw [List.flatMap_nil, List.flatMap_cons]
      cases bytes : String.utf8EncodeChar d with
      | nil => exact absurd bytes String.utf8EncodeChar_ne_nil
      | cons b rest => exact List.nil_lt_cons _ _
  | cons c cs ih =>
    cases ds with
    | nil => exact absurd less (List.not_lt_nil _)
    | cons d ds =>
      rw [List.flatMap_cons, List.flatMap_cons]
      rcases List.cons_lt_cons_iff.mp less with first | ⟨rfl, later⟩
      · exact (encodes c).lt (encodes d) first _ _
      · exact List.append_left_lt (ih later)

-- Texts are ordered as their bytes are.
theorem utf8_lt_iff {s t : String} : utf8 s < utf8 t ↔ s < t := by
  have rises {s t : String} (less : s < t) : utf8 s < utf8 t := by
    rw [utf8_eq, utf8_eq]
    exact flatMap_utf8_lt (String.lt_iff_toList_lt.mp less)
  refine ⟨fun less => ?_, rises⟩
  rcases lt_trichotomy s t with before | rfl | after
  · exact before
  · exact absurd less (List.lt_irrefl _)
  · exact absurd (rises after) (List.lt_asymm less)

theorem compare_utf8 {s t : String} : compare s t = .lt ↔ utf8 s < utf8 t := by
  rw [utf8_lt_iff]
  exact compare_lt_iff_lt

theorem last?_eq_some_iff {p : α → Bool} {as : List α} {a : α} : last? p as = some a ↔
    p a = true ∧ ∃ front back, as = front ++ a :: back ∧ ∀ b ∈ back, p b = false := by
  unfold last?
  rw [List.find?_eq_some_iff_append]
  constructor
  · rintro ⟨holds, back, front, reversed, others⟩
    refine ⟨holds, front.reverse, back.reverse, ?_, fun b inside => ?_⟩
    · rw [← List.reverse_reverse as, reversed]
      simp
    · simpa using others b (List.mem_reverse.mp inside)
  · rintro ⟨holds, front, back, rfl, others⟩
    exact ⟨holds, back.reverse, front.reverse, by simp, fun b inside => by
      simpa using others b (List.mem_reverse.mp inside)⟩

namespace FieldMap

-- The type and the field that an entry is for.
def place (e : String × String × α) : String × String := (e.1, e.2.1)

-- The order of places by bytes: of types first, and of fields within a type.
def Before (p q : String × String) : Prop :=
  utf8 p.1 < utf8 q.1 ∨ p.1 = q.1 ∧ utf8 p.2 < utf8 q.2

theorem Before.ne {p q : String × String} (before : Before p q) : p ≠ q := by
  rintro rfl
  rcases before with type | ⟨_, field⟩
  · exact List.lt_irrefl _ type
  · exact List.lt_irrefl _ field

variable {m : FieldMap α} {type field : String}

theorem places_rise (m : FieldMap α) : (m.toList.map place).Pairwise Before := by
  unfold toList
  rw [List.map_flatMap, List.pairwise_flatMap]
  constructor
  · intro entry inside
    rw [List.map_map, List.pairwise_map]
    exact entry.2.sorted.imp fun before => .inr ⟨rfl, compare_utf8.mp before⟩
  · refine m.types.sorted.imp fun before p first q second => ?_
    simp only [List.map_map, List.mem_map] at first second
    obtain ⟨e, _, rfl⟩ := first
    obtain ⟨e', _, rfl⟩ := second
    exact .inl (compare_utf8.mp before)

theorem mem_places : (type, field) ∈ m.toList.map place ↔ m.contains type field = true := by
  rw [contains_iff, List.mem_map]
  constructor
  · rintro ⟨⟨type, field, a⟩, inside, same⟩
    obtain ⟨rfl, rfl⟩ := Prod.mk.inj same
    exact ⟨a, mem_toList.mp inside⟩
  · rintro ⟨a, found⟩
    exact ⟨(type, field, a), mem_toList.mpr found, rfl⟩

variable {entries : List (String × String × α)}

theorem get?_ofList_place (entries : List (String × String × α)) (type field : String) :
    (ofList entries).get? type field =
      (last? (fun e => place e = (type, field)) entries).map (·.2.2) := by
  rw [get?_ofList]
  congr 2
  funext e
  rw [Bool.eq_iff_iff]
  simp [place]

theorem get?_ofList_some {a : α} : (ofList entries).get? type field = some a ↔
    ∃ front back, entries = front ++ (type, field, a) :: back ∧
      ∀ e ∈ back, place e ≠ (type, field) := by
  rw [get?_ofList_place, Option.map_eq_some_iff]
  simp only [last?_eq_some_iff, decide_eq_true_eq, decide_eq_false_iff_not]
  constructor
  · rintro ⟨⟨type', field', a⟩, ⟨here, front, back, split, others⟩, rfl⟩
    obtain ⟨rfl, rfl⟩ := Prod.mk.inj here
    exact ⟨front, back, split, others⟩
  · rintro ⟨front, back, split, others⟩
    exact ⟨(type, field, a), ⟨rfl, front, back, split, others⟩, rfl⟩

theorem get?_ofList_none : (ofList entries).get? type field = none ↔
    (type, field) ∉ entries.map place := by
  rw [get?_ofList_place, Option.map_eq_none_iff, last?, List.find?_eq_none]
  simp

theorem mem_places_ofList {p : String × String} :
    p ∈ (ofList entries).toList.map place ↔ p ∈ entries.map place := by
  obtain ⟨type, field⟩ := p
  rw [mem_places, contains, Option.isSome_iff_ne_none, ne_eq, get?_ofList_none, not_not]

theorem size_eq (m : FieldMap α) : m.size = m.toList.length := by
  have counted (types : List (String × OrderedMap String α)) (count : Nat) :
      types.foldl (fun count t => count + t.2.toList.length) count =
        count + (types.flatMap fun t => t.2.toList.map fun f => (t.1, f.1, f.2)).length := by
    induction types generalizing count with
    | nil => rfl
    | cons t rest ih =>
      rw [List.foldl_cons, ih, List.flatMap_cons, List.length_append, List.length_map, Nat.add_assoc]
  exact (counted m.types.toList 0).trans (Nat.zero_add _)

theorem size_ofList : (ofList entries).size = (entries.map place).dedup.length := by
  have distinct : ((ofList entries).toList.map place).Nodup := (places_rise _).imp Before.ne
  have same : ((ofList entries).toList.map place).Perm (entries.map place).dedup :=
    (List.perm_ext_iff_of_nodup distinct (List.nodup_dedup _)).mpr fun p => by
      rw [mem_places_ofList, List.mem_dedup]
  rw [size_eq, ← same.length_eq, List.length_map]

theorem isEmpty_ofList : (ofList entries).isEmpty = true ↔ entries = [] := by
  rw [isEmpty, decide_eq_true_iff, size_ofList, List.length_eq_zero_iff, List.dedup_eq_nil,
    List.map_eq_nil_iff]

end FieldMap

namespace HookMap

-- What can be done to a map of hooks.
inductive Change where
  | register (type field : String)
  | attach (type field : String) (h : Hook)

namespace Change

def registers (type field : String) : Change → Bool
  | .register type' field' => type' = type && field' = field
  | .attach _ _ _ => false

def hook? (type field : String) : Change → Option Hook
  | .register _ _ => none
  | .attach type' field' h => if type' = type ∧ field' = field then some h else none

end Change

-- A refused hook leaves the map as it is.
def changed (m : HookMap) : Change → HookMap
  | .register type field => m.placeholder type field
  | .attach type field h =>
    match m.attach type field h with
    | .ok m' => m'
    | .error _ => m

def after (changes : List Change) : HookMap := changes.foldl changed FieldMap.empty

-- The hooks that are attached to a field once it is registered.
def attached (type field : String) (changes : List Change) : List Hook :=
  (changes.dropWhile fun c => !c.registers type field).filterMap (Change.hook? type field)

theorem attach_eq (m : HookMap) (type field : String) (h : Hook) : m.attach type field h =
    if FieldMap.contains m type field then
      .ok (FieldMap.insert m type field ((FieldMap.get? m type field).getD [] ++ [h]))
    else .error (.unknownHookField type field) := by
  unfold attach FieldMap.contains
  cases FieldMap.get? m type field <;> rfl

theorem changed_attach (m : HookMap) (type field : String) (h : Hook) :
    m.changed (.attach type field h) =
      if FieldMap.contains m type field then
        FieldMap.insert m type field ((FieldMap.get? m type field).getD [] ++ [h])
      else m := by
  rw [changed, attach_eq]
  cases FieldMap.contains m type field <;> rfl

-- What a change does at one place.
theorem get?_changed (m : HookMap) (c : Change) (type field : String) :
    FieldMap.get? (m.changed c) type field =
      if c.registers type field then some ((FieldMap.get? m type field).getD [])
      else (FieldMap.get? m type field).map (· ++ (c.hook? type field).toList) := by
  cases c with
  | register type' field' =>
    rw [changed, get?_placeholder]
    by_cases here : type' = type ∧ field' = field
    · obtain ⟨rfl, rfl⟩ := here
      simp [Change.registers]
    · rw [if_neg fun same => here ⟨same.1.symm, same.2.symm⟩,
        if_neg (by simpa [Change.registers] using here)]
      simp [Change.hook?]
  | attach type' field' h =>
    rw [changed_attach, Change.registers, if_neg Bool.false_ne_true, Change.hook?]
    by_cases here : type' = type ∧ field' = field
    · obtain ⟨rfl, rfl⟩ := here
      cases found : FieldMap.get? m type' field' with
      | none => simp [FieldMap.contains, found]
      | some hooks => simp [FieldMap.contains, found, FieldMap.get?_insert]
    · rw [if_neg here]
      split
      · rw [FieldMap.get?_insert, if_neg fun same => here ⟨same.1.symm, same.2.symm⟩]
        simp
      · simp

theorem after_snoc (changes : List Change) (c : Change) :
    after (changes ++ [c]) = (after changes).changed c := by
  rw [after, List.foldl_append]
  rfl

-- A hook is attached if the place has been registered before.
theorem attached_snoc (type field : String) (changes : List Change) (c : Change) :
    attached type field (changes ++ [c]) =
      if changes.any (·.registers type field) then
        attached type field changes ++ (c.hook? type field).toList
      else [] := by
  have left : (changes.dropWhile fun c => !c.registers type field).isEmpty =
      !changes.any (·.registers type field) := by
    rw [Bool.eq_iff_iff, List.isEmpty_iff, List.dropWhile_eq_nil_iff]
    simp
  unfold attached
  rw [List.dropWhile_append, left]
  cases changes.any (·.registers type field) with
  | true =>
    rw [Bool.not_true, if_neg Bool.false_ne_true, if_pos rfl, List.filterMap_append]
    cases hook : c.hook? type field <;> simp [hook]
  | false =>
    rw [Bool.not_false, if_pos rfl, if_neg Bool.false_ne_true, List.dropWhile_cons]
    split
    · rfl
    · rename_i registered
      cases c with
      | register type' field' => rfl
      | attach type' field' h => exact absurd rfl registered

theorem get?_after (changes : List Change) (type field : String) :
    FieldMap.get? (after changes) type field =
      if changes.any (·.registers type field) then some (attached type field changes) else none := by
  induction changes using List.reverseRecOn with
  | nil => rfl
  | append_singleton changes c ih =>
    rw [after_snoc, get?_changed, ih, attached_snoc, List.any_append, List.any_cons, List.any_nil,
      Bool.or_false]
    cases changes.any (·.registers type field) with
    | true =>
      cases c with
      | register type' field' => simp [Change.hook?]
      | attach type' field' h => simp [Change.registers]
    | false => cases c.registers type field <;> rfl

theorem full_after (changes : List Change) : FieldMap.Full (after changes) := by
  induction changes using List.reverseRecOn with
  | nil => exact FieldMap.full_empty
  | append_singleton changes c ih =>
    rw [after_snoc]
    cases c with
    | register type field => exact ih.insert type field _
    | attach type field h =>
      rw [changed_attach]
      split
      · exact ih.insert type field _
      · exact ih

theorem any_registers {changes : List Change} {type field : String} :
    changes.any (·.registers type field) = true ↔ .register type field ∈ changes := by
  rw [List.any_eq_true]
  constructor
  · rintro ⟨c, inside, registered⟩
    cases c with
    | register type' field' =>
      obtain ⟨rfl, rfl⟩ : type' = type ∧ field' = field := by
        simpa [Change.registers] using registered
      exact inside
    | attach type' field' h => cases registered
  · intro inside
    exact ⟨_, inside, by simp [Change.registers]⟩

theorem contains_after {changes : List Change} {type field : String} :
    FieldMap.contains (after changes) type field = true ↔ .register type field ∈ changes := by
  rw [← any_registers, FieldMap.contains, get?_after]
  split <;> simp_all

-- A place that is there is left as it is when it is registered again.
theorem placeholder_again {m : HookMap} (full : FieldMap.Full m) {type field : String}
    (there : FieldMap.contains m type field = true) : m.placeholder type field = m := by
  have again : FieldMap.Full (m.placeholder type field) := full.insert type field _
  refine FieldMap.Full.ext again full fun type' field' => ?_
  rw [get?_placeholder]
  split
  · rename_i here
    obtain ⟨rfl, rfl⟩ := here
    obtain ⟨hooks, found⟩ := FieldMap.contains_iff.mp there
    rw [found]
    rfl
  · rfl

end HookMap

-- Maps of resolvers and of hooks are maps from places: what stands at a place depends on what was
-- done there alone.
theorem maps_flat :
    (∀ inserts : List (String × String × Resolver),
      let m : ResolverMap := FieldMap.ofList inserts
      (∀ type field r, FieldMap.get? m type field = some r ↔
        ∃ front back, inserts = front ++ (type, field, r) :: back ∧
          ∀ e ∈ back, FieldMap.place e ≠ (type, field)) ∧
      (∀ type field, FieldMap.get? m type field = none ↔
        (type, field) ∉ inserts.map FieldMap.place) ∧
      (∀ type field r, (type, field, r) ∈ FieldMap.toList m ↔
        FieldMap.get? m type field = some r) ∧
      ((FieldMap.toList m).map FieldMap.place).Pairwise FieldMap.Before ∧
      (∀ p, p ∈ (FieldMap.toList m).map FieldMap.place ↔ p ∈ inserts.map FieldMap.place) ∧
      FieldMap.size m = (inserts.map FieldMap.place).dedup.length ∧
      (FieldMap.isEmpty m = true ↔ inserts = [])) ∧
    ∀ (changes : List HookMap.Change) (type field : String),
      let m := HookMap.after changes
      (∀ h, (∃ m', m.attach type field h = .ok m') ↔ .register type field ∈ changes) ∧
      (.register type field ∈ changes →
        FieldMap.get? m type field = some (HookMap.attached type field changes) ∧
        HookMap.after (changes ++ [.register type field]) = m) ∧
      (.register type field ∉ changes → FieldMap.get? m type field = none ∧
        ∀ h, m.attach type field h = .error (.unknownHookField type field) ∧
          HookMap.after (changes ++ [.attach type field h]) = m) := by
  constructor
  · intro inserts
    exact ⟨fun _ _ _ => FieldMap.get?_ofList_some, fun _ _ => FieldMap.get?_ofList_none,
      fun _ _ _ => FieldMap.mem_toList, FieldMap.places_rise _, fun _ => FieldMap.mem_places_ofList,
      FieldMap.size_ofList, FieldMap.isEmpty_ofList⟩
  · intro changes type field m
    refine ⟨fun h => ?_, fun registered => ?_, fun fresh => ?_⟩
    · rw [HookMap.attach_eq, ← HookMap.contains_after]
      cases FieldMap.contains (HookMap.after changes) type field <;> simp
    · have there := HookMap.contains_after.mpr registered
      refine ⟨?_, ?_⟩
      · rw [HookMap.get?_after, if_pos (HookMap.any_registers.mpr registered)]
      · rw [HookMap.after_snoc]
        exact HookMap.placeholder_again (HookMap.full_after changes) there
    · have absent : ¬ FieldMap.contains m type field = true := mt HookMap.contains_after.mp fresh
      refine ⟨?_, fun h => ⟨?_, ?_⟩⟩
      · rw [HookMap.get?_after, if_neg (mt HookMap.any_registers.mp fresh)]
      · rw [HookMap.attach_eq, if_neg absent]
      · rw [HookMap.after_snoc, HookMap.changed_attach, if_neg absent]

-- The resolver of titles was inserted twice, and the first hook came before the field was registered.
theorem titles_flat :
    let inserts : List (String × String × Resolver) := [("Book", "title", .value),
      ("Author", "name", .column "name"), ("Book", "title", .column "title")]
    let changes : List HookMap.Change := [.attach "Book" "title" (.observe "early"),
      .register "Book" "title", .attach "Book" "title" (.observe "late"), .register "Book" "title"]
    FieldMap.get? (FieldMap.ofList inserts) "Book" "title" = some (.column "title") ∧
      FieldMap.get? (FieldMap.ofList inserts) "Book" "name" = none ∧
      FieldMap.size (FieldMap.ofList inserts) = 2 ∧
      FieldMap.get? (HookMap.after changes) "Book" "title" = some [.observe "late"] ∧
      FieldMap.get? (HookMap.after changes) "Author" "name" = none := by
  intro inserts changes
  obtain ⟨found, missing, _, _, _, size, _⟩ := maps_flat.1 inserts
  have registered : .register "Book" "title" ∈ changes := by simp [changes]
  have fresh : .register "Author" "name" ∉ changes := by simp [changes]
  have last : ∃ front back, inserts = front ++ ("Book", "title", .column "title") :: back ∧
      ∀ e ∈ back, FieldMap.place e ≠ ("Book", "title") := ⟨inserts.take 2, [], rfl, by simp⟩
  refine ⟨(found _ _ _).mpr last, (missing _ _).mpr (by decide), size, ?_, ?_⟩
  · exact ((maps_flat.2 changes "Book" "title").2.1 registered).1
  · exact ((maps_flat.2 changes "Author" "name").2.2 fresh).1

end RowGraph
