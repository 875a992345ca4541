import Redis.Quicklist.Basic
import Redis.Ziplist.Length

namespace Redis.Quick

open Buffer Outcome

/-!
# Inserting an element

`quicklistInsertBefore` and `quicklistInsertAfter` insert a value next to an entry found by
`quicklistIndex`.  Where the node has no room, the value goes to a neighbour, to a node of
its own, or the node is split at the offset of the entry and the pieces around it are merged
again as far as the fill setting allows.

* `quicklistNodeAllowInsert`, `quicklistNodeAllowMerge` — the limits of a node;
* `quicklistSplitNode`, `quicklistMergeNodes` — splitting and merging;
* `quicklistInsert` — the function (`_quicklistInsert`).
-/

/-! ### The limits of a node -/

def SIZE_SAFETY_LIMIT : Nat := 8192

/-- Optimization levels for size-based filling. -/
def optimizationLevel : List Nat := [4096, 8192, 16384, 32768, 65536]

/-- `_quicklistNodeSizeMeetsOptimizationRequirement`. -/
def meetsOptimization (sz : Nat) (fill : Int) : Bool :=
  if 0 ≤ fill then false
  else match optimizationLevel[(-fill - 1).toNat]? with
    | some level => sz ≤ level
    | none => false

/-- The space an entry of `sz` bytes needs besides them. -/
def ziplistOverhead (sz : Nat) : Nat :=
  (if sz < 254 then 1 else 5) + (if sz < 64 then 1 else if sz < 16384 then 2 else 5)

/-- `_quicklistNodeAllowInsert`; there is no node where `node` is `NULL`. -/
def quicklistNodeAllowInsert (node : Option QuicklistNode) (fill : Int) (sz : Nat) : Bool :=
  match node with
  | none => false
  | some node =>
      -- an `unsigned int`
      let newSz := (node.sz + sz + ziplistOverhead sz) % 4294967296
      if meetsOptimization newSz fill then true
      else if SIZE_SAFETY_LIMIT < newSz then false
      else (node.count : Int) < fill

/-- `_quicklistNodeAllowMerge` of two nodes. -/
def quicklistNodeAllowMerge (a b : QuicklistNode) (fill : Int) : Bool :=
  -- remove one ziplist header/trailer
  let mergeSz := ulong ((a.sz : Int) + b.sz - 11) % 4294967296
  if meetsOptimization mergeSz fill then true
  else if SIZE_SAFETY_LIMIT < mergeSz then false
  else ((a.count + b.count : Nat) : Int) ≤ fill

/-! ### Changes of one node -/

section Insert

variable (junk : Nat → UInt8)

/-- A node with another ziplist; `count` keeps 16 bits. -/
def nodeOf (zl : Bytes) (count : Nat) : Except Fault QuicklistNode := do
  let sz ← zip (ziplistBytes zl)
  return { zl := zl, sz := sz, count := count % 65536 }

/-- `ziplistPush` into the node, one more entry, and the size. -/
def QuicklistNode.push (node : QuicklistNode) (value : Bytes) (place : ZipWhere) :
    Except Fault QuicklistNode := do
  let zl ← zip (ziplistPush junk node.zl value place)
  nodeOf zl (node.count + 1)

/-- `ziplistInsert` into the node, one more entry, and the size. -/
def QuicklistNode.insert (node : QuicklistNode) (p : Nat) (value : Bytes) :
    Except Fault QuicklistNode := do
  let zl ← zip (ziplistInsert junk node.zl p value)
  nodeOf zl (node.count + 1)

/-- Insertion behind the entry at `p`: before the next one, or at the tail. -/
def QuicklistNode.insertBehind (node : QuicklistNode) (p : Nat) (value : Bytes) :
    Except Fault QuicklistNode := do
  match ← zip (ziplistNext node.zl p) with
  | none => node.push junk value .tail
  | some next => node.insert junk next value

/-- A new node (`quicklistCreateNode`) with one value. -/
def createNode (value : Bytes) : Except Fault QuicklistNode :=
  QuicklistNode.push junk { zl := ziplistNew, sz := 0, count := 0 } value .head

/-- The node with the ziplist, counted by `ziplistLen`. -/
def recount (zl : Bytes) : Except Fault QuicklistNode := do
  let (len, zl) ← zip (ziplistLen zl)
  nodeOf zl len

/-- `ziplistDeleteRange` on either half of a split; `-1` deletes until the list ends. -/
def splitHalf (zl : Bytes) (start extent : Int) : Except Fault QuicklistNode := do
  let zl ← zip (ziplistDeleteRange junk zl start (uint32 extent))
  recount zl

/-- `_quicklistSplitNode`: the input node and the new one. -/
def quicklistSplitNode (node : QuicklistNode) (offset : Int) (after : Bool) :
    Except Fault (QuicklistNode × QuicklistNode) := do
  -- copy original ziplist so we can split it
  let copy := node.zl.take node.sz
  let node ← splitHalf junk node.zl (if after then offset + 1 else 0) (if after then -1 else offset)
  let new ← splitHalf junk copy (if after then 0 else offset) (if after then offset + 1 else -1)
  return (node, new)

/-! ### Merging -/

/-- `_quicklistZiplistMerge`: the node that is kept, or nothing when the merge fails. -/
def quicklistZiplistMerge (a b : QuicklistNode) : Except Fault (Option QuicklistNode) := do
  match ← zip (ziplistMerge junk (some a.zl) (some b.zl) false) with
  | none => return none
  | some m =>
      let keep ← recount m.target
      return some keep

/-- The nodes around `center`; those before it are listed backwards. -/
structure Around where
  front : List QuicklistNode
  center : QuicklistNode
  back : List QuicklistNode
  len : Nat

/-- The nodes in the order of the list. -/
def Around.nodes (z : Around) : List QuicklistNode := z.front.reverse ++ z.center :: z.back

/-- "Try to merge prev_prev and prev." -/
def mergePrev (fill : Int) (z : Around) : Except Fault Around :=
  match z.front with
  | prev :: prevPrev :: front =>
      if quicklistNodeAllowMerge prev prevPrev fill then do
        match ← quicklistZiplistMerge junk prevPrev prev with
        | none => return z
        | some keep => return { z with front := keep :: front, len := z.len - 1 }
      else return z
  | _ => return z

/-- "Try to merge next and next_next." -/
def mergeNext (fill : Int) (z : Around) : Except Fault Around :=
  match z.back with
  | next :: nextNext :: back =>
      if quicklistNodeAllowMerge next nextNext fill then do
        match ← quicklistZiplistMerge junk next nextNext with
        | none => return z
        | some keep => return { z with back := keep :: back, len := z.len - 1 }
      else return z
  | _ => return z

/-- "Try to merge center node and previous node."  When the merge fails, `target` is `NULL`
    and is followed. -/
def mergeCenter (fill : Int) (z : Around) : Except Fault Around :=
  match z.front with
  | prev :: front =>
      if quicklistNodeAllowMerge z.center prev fill then do
        match ← quicklistZiplistMerge junk prev z.center with
        | none => .error .nullNode
        | some keep => return { z with front := front, center := keep, len := z.len - 1 }
      else return z
  | [] => return z

/-- "Use result of center merge (or original) to merge with next node." -/
def mergeTarget (fill : Int) (z : Around) : Except Fault Around :=
  match z.back with
  | next :: back =>
      if quicklistNodeAllowMerge z.center next fill then do
        match ← quicklistZiplistMerge junk z.center next with
        | none => return z
        | some keep => return { z with center := keep, back := back, len := z.len - 1 }
      else return z
  | [] => return z

/-- `_quicklistMergeNodes`. -/
def quicklistMergeNodes (fill : Int) (z : Around) : Except Fault Around := do
  let z ← mergePrev junk fill z
  let z ← mergeNext junk fill z
  let z ← mergeCenter junk fill z
  mergeTarget junk fill z

/-! ### The function -/

/-- The branch of `_quicklistInsert` without a reference node: the only node of the list.
    Its size is not updated, and where the list has nodes the new one is not linked. -/
def insertNoNode (ql : Quicklist) (value : Bytes) : Except Fault Quicklist := do
  let zl ← zip (ziplistPush junk ziplistNew value .head)
  return { ql with
    nodes := if ql.nodes = [] then [{ zl := zl, sz := 0, count := 1 }] else ql.nodes
    count := ql.count + 1
    len := ql.len + 1 }

/-- The branch that splits the node: the list and its length. -/
def insertSplit (ql : Quicklist) (front : List QuicklistNode) (node : QuicklistNode)
    (back : List QuicklistNode) (offset : Int) (value : Bytes) (after : Bool) :
    Except Fault Quicklist := do
  let (node, new) ← quicklistSplitNode junk node offset after
  let new ← new.push junk value (if after then .head else .tail)
  -- `__quicklistInsertNode`
  let z : Around := {
    front := if after then front.reverse else new :: front.reverse
    center := node
    back := if after then new :: back else back
    len := ql.len + 1 }
  let z ← quicklistMergeNodes junk ql.fill z
  return { ql with nodes := z.nodes, len := z.len }

/-- The branches without room in the node that use the next node, the previous one, or a new
    one. -/
def insertNext (ql : Quicklist) (front : List QuicklistNode) (node : QuicklistNode)
    (back : List QuicklistNode) (value : Bytes) : Except Fault Quicklist :=
  match back with
  | [] => .error .nullNode
  | next :: back => do
      let next ← next.push junk value .head
      return { ql with nodes := front ++ node :: next :: back }

def insertPrev (ql : Quicklist) (front : List QuicklistNode) (node : QuicklistNode)
    (back : List QuicklistNode) (value : Bytes) : Except Fault Quicklist :=
  match front.getLast? with
  | none => .error .nullNode
  | some prev => do
      let prev ← prev.push junk value .tail
      return { ql with nodes := front.dropLast ++ prev :: node :: back }

def insertAlone (ql : Quicklist) (front : List QuicklistNode) (node : QuicklistNode)
    (back : List QuicklistNode) (value : Bytes) (after : Bool) : Except Fault Quicklist := do
  let new ← createNode junk value
  return { ql with
    nodes := if after then front ++ node :: new :: back else front ++ new :: node :: back
    len := ql.len + 1 }

/-- The branches with room in the node. -/
def insertHere (ql : Quicklist) (front : List QuicklistNode) (node : QuicklistNode)
    (back : List QuicklistNode) (zi : Option Nat) (value : Bytes) (after : Bool) :
    Except Fault Quicklist :=
  match zi with
  | none => .error .nullNode
  | some p => do
      let node ← if after then node.insertBehind junk p value else node.insert junk p value
      return { ql with nodes := front ++ node :: back }

/-- The choice of the place, for an entry of `node`. -/
def insertPlace (ql : Quicklist) (front : List QuicklistNode) (node : QuicklistNode)
    (back : List QuicklistNode) (entry : QuicklistEntry) (value : Bytes) (after : Bool) :
    Except Fault Quicklist :=
  let full : Bool := !quicklistNodeAllowInsert (some node) ql.fill value.length
  let atTail : Bool := after && decide (entry.offset = node.count)
  let fullNext : Bool := atTail && !quicklistNodeAllowInsert back.head? ql.fill value.length
  let atHead : Bool := !after && decide (entry.offset = 0)
  let fullPrev : Bool := atHead && !quicklistNodeAllowInsert front.getLast? ql.fill value.length
  let hasNext : Bool := back.head?.isSome
  let hasPrev : Bool := front.getLast?.isSome
  if !full then insertHere junk ql front node back entry.zi value after
  else if atTail && hasNext && !fullNext && after then insertNext junk ql front node back value
  else if atHead && hasPrev && !fullPrev && !after then insertPrev junk ql front node back value
  else if (atTail && hasNext && fullNext && after) || (atHead && hasPrev && fullPrev && !after) then
    insertAlone junk ql front node back value after
  else insertSplit junk ql front node back entry.offset value after

/-- `_quicklistInsert`, next to an entry or, where there is none, into the empty list. -/
def quicklistInsert (ql : Quicklist) (entry : Option QuicklistEntry) (value : Bytes) (after : Bool) :
    Except Fault Quicklist :=
  match entry with
  | none => insertNoNode junk ql value
  | some entry =>
      match ql.nodes[entry.node]? with
      | none => .error .nullNode
      | some node => do
          let ql ← insertPlace junk ql (ql.nodes.take entry.node) node
            (ql.nodes.drop (entry.node + 1)) entry value after
          return { ql with count := ql.count + 1 }

/-- `quicklistInsertBefore`. -/
def quicklistInsertBefore (ql : Quicklist) (entry : Option QuicklistEntry) (value : Bytes) :
    Except Fault Quicklist := quicklistInsert junk ql entry value false

/-- `quicklistInsertAfter`. -/
def quicklistInsertAfter (ql : Quicklist) (entry : Option QuicklistEntry) (value : Bytes) :
    Except Fault Quicklist := quicklistInsert junk ql entry value true

/-- An insertion next to the entry that `quicklistIndex` finds. -/
def insertAtIndex (ql : Quicklist) (idx : Int) (value : Bytes) (after : Bool) :
    Except Fault Quicklist := do
  let entry ← quicklistIndex ql idx
  if after then quicklistInsertAfter junk ql entry value
  else quicklistInsertBefore junk ql entry value

end Insert

end Redis.Quick
