import RubyRuntime.Session.Snapshot

/-!
# Weak map steps that run no callbacks
-/
namespace RubyRuntime.Session

def weakMapText (pairs : List (Value × Value)) : String :=
  let parts := (", ".intercalate (WeakMap.pairTexts pairs)).splitOn ", "
  WeakMap.inspectOf (parts.mergeSort fun a b => decide (a ≤ b))

/-- Answers a delete: with what was removed, or with what was asked for instead, in which case the
missing key is reported. -/
def World.replyDelete (w : World) (key : Value) (removed : Option Value)
    (otherwise : Option Value) : Reply :=
  match removed, otherwise with
  | removed, none => w.reply (w.reportItem removed)
  | some v, some _ => w.reply (w.report v)
  | none, some v =>
    { world := w
      result := .ok (w.report v)
      events := [.record [("fallback", w.report key)]] }

def World.evaluate? (spec : Option ValueSpec) (w : World) : Option Value × World :=
  match spec with
  | some spec => let (v, w) := w.evaluate spec; (some v, w)
  | none => (none, w)

def WeakOp.perform (scope : Scope) (w : World) : WeakOp → Reply
  | .set wm k v =>
    let (i, w) := w.weakMapNamed wm
    let (k, w) := w.evaluate k
    let (v, w) := w.evaluate v
    let alive := w.isAlive (objectsOf [k, v] ++ scope.held)
    (w.setWeakMap i ((w.weakMap i).set alive k v)).reply .null
  | .get wm k =>
    let (i, w) := w.weakMapNamed wm
    let (k, w) := w.evaluate k
    let alive := w.isAlive (objectsOf [k] ++ scope.held)
    w.reply (w.reportItem ((w.weakMap i).get? alive k))
  | .isKey wm k =>
    let (i, w) := w.weakMapNamed wm
    let (k, w) := w.evaluate k
    let alive := w.isAlive (objectsOf [k] ++ scope.held)
    w.reply (.bool ((w.weakMap i).isKey alive k))
  | .delete wm k otherwise =>
    let (i, w) := w.weakMapNamed wm
    let (k, w) := w.evaluate k
    let (otherwise, w) := w.evaluate? otherwise
    let alive := w.isAlive (objectsOf (k :: otherwise.toList) ++ scope.held)
    let (removed, map) := (w.weakMap i).delete alive k
    (w.setWeakMap i map).replyDelete k removed otherwise
  | .info wm =>
    let (i, w) := w.weakMapNamed wm
    let (pairs, w) := w.weakPairs scope.held i
    w.reply (.record [("size", .nat pairs.length),
      ("keys", Report.sorted (pairs.map fun pair => w.report pair.1)),
      ("values", Report.sorted (pairs.map fun pair => w.report pair.2)),
      ("inspect", .text (weakMapText pairs))])
  | .keySet wk k v =>
    let (i, w) := w.weakKeyMapNamed wk
    let (k, w) := w.evaluate k
    let (v, w) := w.evaluate v
    let outside := w.isHeldOutside i (objectsOf [k, v] ++ scope.held)
    match (w.weakKeyMap i).set outside k v with
    | .ok map => (w.setWeakKeyMap i map).reply .null
    | .error e => w.fail e
  | .keyGet wk k =>
    let (i, w) := w.weakKeyMapNamed wk
    let (k, w) := w.evaluate k
    let outside := w.isHeldOutside i (objectsOf [k] ++ scope.held)
    w.reply (w.reportItem ((w.weakKeyMap i).get? outside k))
  | .keyGetKey wk k =>
    let (i, w) := w.weakKeyMapNamed wk
    let (k, w) := w.evaluate k
    let outside := w.isHeldOutside i (objectsOf [k] ++ scope.held)
    w.reply (w.reportItem ((w.weakKeyMap i).getKey? outside k))
  | .keyIsKey wk k =>
    let (i, w) := w.weakKeyMapNamed wk
    let (k, w) := w.evaluate k
    let outside := w.isHeldOutside i (objectsOf [k] ++ scope.held)
    w.reply (.bool ((w.weakKeyMap i).isKey outside k))
  | .keyDelete wk k otherwise =>
    let (i, w) := w.weakKeyMapNamed wk
    let (k, w) := w.evaluate k
    let (otherwise, w) := w.evaluate? otherwise
    let outside := w.isHeldOutside i (objectsOf (k :: otherwise.toList) ++ scope.held)
    let (removed, map) := (w.weakKeyMap i).delete outside k
    (w.setWeakKeyMap i map).replyDelete k removed otherwise
  | .keyClear wk =>
    let (i, w) := w.weakKeyMapNamed wk
    (w.setWeakKeyMap i WeakKeyMap.clear).reply .null
  | .keyInfo wk =>
    let (i, w) := w.weakKeyMapNamed wk
    let (size, w) := w.weakKeySize scope.held i
    let (again, w) := w.weakKeySize scope.held i
    w.reply (.record [("size", .nat size), ("inspect", .text (WeakKeyMap.inspectOf again))])

end RubyRuntime.Session
