import RubyRuntime.Session.World

/-!
# Steps on values, objects and object spaces
-/
namespace RubyRuntime.Session

def World.withObject (w : World) (name : String) (f : ObjectRef → Reply) : Reply :=
  match w.names.objects.lookup name with
  | some o => f o
  | none => w.panics ("no object " ++ name)

def World.nameObject (name : String) (o : ObjectRef) (w : World) : World :=
  { w with names := { w.names with objects := setNamed name o w.names.objects } }

def ObjectOp.perform (w : World) : ObjectOp → Reply
  | .new name className payload shared =>
    let (o, heap) := w.heap.allocate className payload
    let heap := if shared then heap.share o else heap
    ({ w with heap }.nameObject name o).reply .null
  | .alias name source => w.withObject source fun o => (w.nameObject name o).reply .null
  | .drop name =>
    let existed := (w.names.objects.lookup name).isSome
    let objects := w.names.objects.filter fun entry => entry.1 ≠ name
    { w with names := { w.names with objects } }.reply (.bool existed)
  | .share name => w.withObject name fun o =>
    { w with heap := w.heap.share o }.reply .null
  | .info name => w.withObject name fun o =>
    let id := w.heap.readId o
    w.reply (.record [("class", .text o.className), ("payload", .textOrNull o.payload),
      ("shared", .bool (w.heap.isShared o)), ("id", .text (toString id)),
      ("debug", .text (o.debug id))])
  | .compare a b =>
    let (a, w) := w.evaluate a
    let (b, w) := w.evaluate b
    w.reply (.record [("identical", .bool (a.identical b)), ("eql", .bool (a.eql b)),
      ("eql_back", .bool (b.eql a)), ("same_key", .bool (a.identityKey == b.identityKey))])
  | .inspect v =>
    let (v, w) := w.evaluate v
    w.reply (.record [("inspect", .text v.inspect), ("nil", .bool v.isNil),
      ("collectable", .bool v.isCollectable), ("object", .bool v.asObject?.isSome)])

def decimalText (n : Int) : Report :=
  .text (toString n)

def World.replyId (scope : Scope) (w : World) (i : Nat) (v : Value) : Reply :=
  match (w.space i).idOf? scope.me v w.heap with
  | (some id, heap, space) => ({ w with heap }.setSpace i space).reply (decimalText id)
  | (none, heap, space) => ({ w with heap }.setSpace i space).panics idsExhausted

def World.changeAllocations (w : World) (space : Option String)
    (f : AllocationTable → AllocationTable) : Reply :=
  let i := w.spaceNamed space
  let space := w.space i
  (w.setSpace i { space with allocations := f space.allocations }).reply .null

def SpaceOp.perform (scope : Scope) (w : World) : SpaceOp Body → Reply
  | .create name counter =>
    let i := w.spaces.length
    let space : ObjectSpace Finalizer :=
      { ids := { counter := counter.getD ObjectId.counterStart } }
    { w with
      spaces := w.spaces ++ [space]
      names := { w.names with spaces := setNamed name i w.names.spaces } }.reply .null
  | .nextId space =>
    let i := w.spaceNamed space
    let space := w.space i
    match space.ids.next? with
    | some (id, ids) => (w.setSpace i { space with ids }).reply (decimalText id)
    | none => w.panics idsExhausted
  | .objectId space v =>
    let (v, w) := w.evaluate v
    w.replyId scope (w.spaceNamed space) v
  | .heapId space obj => w.withObject obj fun o =>
    w.replyId scope (w.spaceNamed space) (.object o)
  | .readId _ obj => w.withObject obj fun o => w.reply (decimalText (w.heap.readId o))
  | .idToValue space id =>
    match (w.space (w.spaceNamed space)).ids.toValue (w.isAlive scope.held) id with
    | .ok v => w.reply (w.report v)
    | .error e => w.fail e
  | .traceStart space => w.changeAllocations space (·.start)
  | .traceStop space => w.changeAllocations space (·.stop)
  | .traceClear space => w.changeAllocations space (·.clear)
  | .traceInfo space =>
    let allocations := (w.space (w.spaceNamed space)).allocations
    w.reply (.record [("tracing", .bool allocations.isTracing),
      ("generation", decimalText allocations.generation)])
  | .trace space obj className method file line => w.withObject obj fun o =>
    w.changeAllocations space (·.trace o className method file line)
  | .allocationInfo space obj => w.withObject obj fun o =>
    let allocations := (w.space (w.spaceNamed space)).allocations
    match allocations.info? (w.isAlive scope.held) o with
    | some record =>
      w.reply (.record [("class", .textOrNull record.className),
        ("method", .textOrNull record.method), ("file", .textOrNull record.file),
        ("line", .nat record.line), ("generation", decimalText record.generation)])
    | none => w.reply .null
  | .defineFinalizer space v label body =>
    let (v, w) := w.evaluate v
    match v with
    | .object o =>
      let i := w.spaceNamed space
      let (id, heap, ids) := objectId? scope.me o w.heap (w.space i).ids
      let alive := w.isAlive (o :: scope.held)
      let space := { w.space i with ids }
      match id with
      | some id =>
        let finalizers := space.finalizers.define alive o id ⟨label, body⟩
        ({ w with heap }.setSpace i { space with finalizers }).reply
          (.record [("level", .nat 0), ("same", .bool true),
            ("debug", .text "FinalizerRegistration \x7b level: 0, .. \x7d")])
      | none => ({ w with heap }.setSpace i space).panics idsExhausted
    | v => w.fail (Cause.finalizerOn v.inspect).error
  | .undefineFinalizer space v =>
    let (v, w) := w.evaluate v
    match v with
    | .object o =>
      let i := w.spaceNamed space
      let space := w.space i
      let (count, finalizers) := space.finalizers.undefine (w.isAlive (o :: scope.held)) o
      (w.setSpace i { space with finalizers }).reply (.nat count)
    | _ => w.reply (.nat 0)
  | .finalizerCount space =>
    w.reply (.nat (w.space (w.spaceNamed space)).finalizers.size)

end RubyRuntime.Session
