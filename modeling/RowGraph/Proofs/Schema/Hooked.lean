import RowGraph.Proofs.Schema.Maps
import RowGraph.Proofs.Schema.Built
/-!
The hooks of a schema. Main statements: on a field that has a resolver there are the hooks that were
attached to it, in the order in which they were attached, and on other fields there are none; other
hooks on fields that had some make a schema that differs in its hooks alone.
-/

namespace RowGraph

-- The hooks that a list of attachments puts on a field.
def Attachment.hooksOf (hooks : List Attachment) (type field : String) : List Hook :=
  (hooks.filter fun a => a.type = type && a.field = field).map Attachment.hook

theorem Attachment.hooksOf_cons (a : Attachment) (rest : List Attachment) (type field : String) :
    hooksOf (a :: rest) type field =
      (if a.type = type ∧ a.field = field then [a.hook] else []) ++ hooksOf rest type field := by
  unfold hooksOf
  rw [List.filter_cons]
  by_cases here : a.type = type ∧ a.field = field
  · simp [here]
  · have other : (decide (a.type = type) && decide (a.field = field)) = false := by
      simpa using here
    simp [here, other]

theorem HookMap.attach_ok {m m' : HookMap} {type field : String} {h : Hook}
    (attached : m.attach type field h = .ok m') :
    FieldMap.contains m type field = true ∧ ∀ type' field', FieldMap.get? m' type' field' =
      (FieldMap.get? m type' field').map
        (· ++ if type = type' ∧ field = field' then [h] else []) := by
  unfold attach at attached
  split at attached
  · rename_i hooks there
    obtain rfl := Except.ok.inj attached
    refine ⟨FieldMap.contains_iff.mpr ⟨hooks, there⟩, fun type' field' => ?_⟩
    rw [FieldMap.get?_insert]
    by_cases here : type' = type ∧ field' = field
    · rw [if_pos here, here.1, here.2, there, if_pos ⟨rfl, rfl⟩]
      rfl
    · rw [if_neg here, if_neg fun same => here ⟨same.1.symm, same.2.symm⟩]
      simp
  · cases attached

-- The same schema with other hooks.
def Schema.rehook (s : Schema) (hooks : HookMap) : Schema := { s with hooks }

namespace Session

theorem attachAll_hooks {b b' : Blueprint} {hooks : List Attachment}
    (attached : attachAll b hooks = .ok b') :
    (∀ a ∈ hooks, FieldMap.contains b.hooks a.type a.field = true) ∧
      ∀ type field, FieldMap.get? b'.hooks type field =
        (FieldMap.get? b.hooks type field).map (· ++ Attachment.hooksOf hooks type field) := by
  induction hooks generalizing b with
  | nil =>
    obtain rfl := Except.ok.inj attached
    refine ⟨by simp, fun type field => ?_⟩
    cases FieldMap.get? b.hooks type field <;> simp [Attachment.hooksOf]
  | cons a rest ih =>
    unfold attachAll at attached
    split at attached
    · rename_i next one
      obtain ⟨places, put, one⟩ := Document.bind_ok one
      obtain rfl := Except.ok.inj one
      obtain ⟨there, first⟩ := HookMap.attach_ok put
      obtain ⟨others, later⟩ := ih attached
      have kept (type field : String) : FieldMap.contains places type field =
          FieldMap.contains b.hooks type field := by
        unfold FieldMap.contains
        rw [first, Option.isSome_map]
      refine ⟨fun c member => ?_, fun type field => ?_⟩
      · rcases List.mem_cons.mp member with rfl | member
        · exact there
        · exact kept _ _ ▸ others c member
      · rw [later, first, Option.map_map, Attachment.hooksOf_cons]
        simp only [Function.comp_def, List.append_assoc]
    · cases attached

-- Hooks can be attached wherever there is a place.
theorem attachAll_total {b : Blueprint} {hooks : List Attachment}
    (places : ∀ a ∈ hooks, FieldMap.contains b.hooks a.type a.field = true) :
    ∃ m, attachAll b hooks = .ok { b with hooks := m } := by
  induction hooks generalizing b with
  | nil => exact ⟨b.hooks, rfl⟩
  | cons a rest ih =>
    obtain ⟨hooks, there⟩ := FieldMap.contains_iff.mp (places a List.mem_cons_self)
    have put : b.hooks.attach a.type a.field a.hook =
        .ok (FieldMap.insert b.hooks a.type a.field (hooks ++ [a.hook])) := by
      unfold HookMap.attach
      rw [there]
    have kept := (HookMap.attach_ok put).2
    obtain ⟨m, attached⟩ := ih (b := { b with hooks := _ }) fun c member => by
      have found := places c (List.mem_cons_of_mem _ member)
      unfold FieldMap.contains at found ⊢
      rw [kept, Option.isSome_map]
      exact found
    refine ⟨m, ?_⟩
    unfold attachAll Blueprint.attach
    rw [put]
    exact attached

theorem build_settings {settings : Settings} {source : String} {hooks : List Attachment} {s : Schema}
    (built : build settings source hooks = .ok s) : s.settings = settings := by
  obtain ⟨_, _, _, _, finished⟩ := build_ok built
  unfold Blueprint.finish at finished
  split at finished
  · cases finished
  · obtain rfl := Except.ok.inj finished
    rfl

theorem build_document {settings : Settings} {source : String} {hooks : List Attachment} {s : Schema}
    (built : build settings source hooks = .ok s) : Document.read source = .ok s.document := by
  obtain ⟨b, b', read, attached, finished⟩ := build_ok built
  obtain ⟨d, parsed, made⟩ := Document.bind_ok read
  obtain ⟨_, _, made⟩ := Document.bind_ok made
  obtain rfl := Except.ok.inj made
  unfold Blueprint.finish at finished
  split at finished
  · cases finished
  · obtain rfl := Except.ok.inj finished
    exact parsed.trans (congrArg Except.ok (attachAll_ok attached).1.symm)

-- Hooks stand on fields that have a resolver, and all that were attached stand there.
theorem build_placed {settings : Settings} {source : String} {hooks : List Attachment} {s : Schema}
    (built : build settings source hooks = .ok s) :
    (∀ a ∈ hooks, FieldMap.contains s.resolvers a.type a.field = true) ∧
      ∀ type field, FieldMap.get? s.hooks type field =
        if FieldMap.contains s.resolvers type field then some (Attachment.hooksOf hooks type field)
        else none := by
  obtain ⟨b, b', read, attached, finished⟩ := build_ok built
  obtain ⟨d, _, made⟩ := Document.bind_ok read
  obtain ⟨derived, _, made⟩ := Document.bind_ok made
  obtain rfl := Except.ok.inj made
  obtain ⟨placed, put⟩ := attachAll_hooks attached
  have resolvers := (attachAll_ok attached).2.1
  unfold Blueprint.finish at finished
  split at finished
  · cases finished
  · obtain rfl := Except.ok.inj finished
    change (∀ a ∈ hooks, FieldMap.contains b'.resolvers a.type a.field = true) ∧
      ∀ type field, FieldMap.get? b'.hooks type field =
        if FieldMap.contains b'.resolvers type field then _ else _
    rw [resolvers]
    refine ⟨fun a member => ?_, fun type field => ?_⟩
    · have place := placed a member
      unfold FieldMap.contains at place
      rw [HookMap.get?_places] at place
      split at place
      · assumption
      · cases place
    · rw [put, HookMap.get?_places]
      split <;> rfl

-- A field has the hooks that were attached to it, in order.
theorem hooks_attached {settings : Settings} {source : String} {hooks : List Attachment} {s : Schema}
    (built : build settings source hooks = .ok s) (type field : String) :
    (FieldMap.get? s.hooks type field).getD [] = Attachment.hooksOf hooks type field := by
  obtain ⟨placed, put⟩ := build_placed built
  rw [put]
  split
  · rfl
  · rename_i unserved
    have none : (hooks.filter fun a => a.type = type && a.field = field) = [] := by
      refine List.filter_eq_nil_iff.mpr fun a member same => unserved ?_
      simp only [Bool.and_eq_true, decide_eq_true_eq] at same
      rw [← same.1, ← same.2]
      exact placed a member
    unfold Attachment.hooksOf
    rw [none]
    rfl

theorem build_rehooked {settings : Settings} {source : String} {hooks hooks' : List Attachment}
    {s : Schema} (built : build settings source hooks = .ok s)
    (places : ∀ a ∈ hooks', ∃ a' ∈ hooks, a'.type = a.type ∧ a'.field = a.field) :
    ∃ m, build settings source hooks' = .ok (s.rehook m) := by
  obtain ⟨b, b', read, attached, finished⟩ := build_ok built
  have there := (attachAll_hooks attached).1
  obtain ⟨document, resolvers, declared⟩ := attachAll_ok attached
  obtain ⟨m, attached'⟩ := attachAll_total (b := b) fun a member => by
    obtain ⟨a', member', type, field⟩ := places a member
    exact type ▸ field ▸ there a' member'
  refine ⟨m, ?_⟩
  unfold build
  rw [read]
  change (attachAll b hooks' >>= fun b => b.finish settings) = _
  rw [attached']
  obtain ⟨d, types, resolving, placed⟩ := b
  obtain ⟨d', types', resolving', placed'⟩ := b'
  obtain rfl : d' = d := document
  obtain rfl : resolving' = resolving := resolvers
  obtain rfl : types' = types := declared
  change Blueprint.finish ⟨d', types', resolving', m⟩ settings = _
  unfold Blueprint.finish at finished ⊢
  split at finished
  · cases finished
  · rename_i sound
    obtain rfl := Except.ok.inj finished
    have sound : Blueprint.problems ⟨d', types', resolving', m⟩ = [] := sound
    rw [sound]
    rfl

end Session

end RowGraph
