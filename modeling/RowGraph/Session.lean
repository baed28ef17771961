import RowGraph.Execution.Request
import RowGraph.Store.Traced
/-!
Sessions: one store, at most one current schema, and steps that work on them one after another. A
step that fails leaves the current schema as it was, and later steps still run.
-/

namespace RowGraph

structure Attachment where
  type : String
  field : String
  hook : Hook

inductive Step where
  -- Replaces the current schema; the hooks are shown in the answer if any were asked for.
  | schema (source : String) (hooks : Option (List Attachment))
  | query (request : Request)
  | get (key : Key)
  | commit (op : Operation)
  | dump
  | fail (faults : Faults)

inductive Reply where
  | done
  | hooks (shown : String)
  | answer (response : Option Response) (reads : List Key) (commits : List Operation)
      (calls : List HookCall)
  | entry (e : Option Entry)
  | committed (op : Operation) (stamp : Option Versionstamp)
  | entries (es : List Entry)
  | schemaFailed (e : GraphError)
  | storeFailed (e : StoreError)
  | noSchema

structure Session where
  settings : Settings
  store : Traced := {}
  current : Option Schema := none

namespace Session

def attachAll (b : Blueprint) : List Attachment → Except GraphError Blueprint
  | [] => .ok b
  | a :: rest =>
    match b.attach a.type a.field a.hook with
    | .ok b => attachAll b rest
    | .error p => .error p.error

def build (settings : Settings) (source : String) (hooks : List Attachment) :
    Except GraphError Schema := do
  let b ← match Blueprint.read source with
    | .ok b => .ok b
    | .error p => .error p.error
  (← attachAll b hooks).finish settings

def query (s : Session) (schema : Schema) (r : Request) : Reply × Session :=
  let a := schema.execute Traced.backend r s.store.fresh
  let reads := a.store.reads.mergeSort fun i j => (compare i j).isLE
  (.answer a.response reads a.store.commits a.calls, { s with store := a.store })

def step (s : Session) : Step → Reply × Session
  | .schema source hooks =>
    match build s.settings source (hooks.getD []) with
    | .error e => (.schemaFailed e, s)
    | .ok schema =>
      (if hooks.isSome then .hooks (HookMap.shown schema.hooks) else .done,
        { s with current := some schema })
  | .query r =>
    match s.current with
    | some schema => s.query schema r
    | none => (.noSchema, s)
  | .get key =>
    match s.store.get key with
    | (.ok e, store) => (.entry e, { s with store })
    | (.error e, store) => (.storeFailed e, { s with store })
  | .commit op =>
    match s.store.commit op with
    | (.ok stamp, store) => (.committed op stamp, { s with store })
    | (.error e, store) => (.storeFailed e, { s with store })
  | .dump =>
    match s.store.entries with
    | (.ok es, store) => (.entries es, { s with store })
    | (.error e, store) => (.storeFailed e, { s with store })
  | .fail faults => (.done, { s with store := { s.store with faults } })

end Session

end RowGraph
