import RoutingDaemon.ObjectRemoval
import RoutingDaemon.Lib.Memory

/-!
# The object hash table in memory

`hashset.c` once more, with its pointers: `path` and `pair` are cells that are allocated and freed, and a
bucket is the pointer to the first cell of its chain. `malloc` takes any address that is not in use, and
never fails.

* `Heap.LisoHash`: the table, and the memory it points into.
* The operations, under the source's names: `Heap.hashAdd`, `Heap.hashRemoveNode`, `Heap.hashRemoveObject`,
  `Heap.collapse`; the lookups `Heap.containsObject`, `Heap.getPaths`; `Heap.printPairs`.
* `Heap.execCalls`: runs of the interface from `init_hash`.
-/

namespace RoutingDaemon.Heap

/-- `path` -/
structure PathCell where
  nodeId : Int32
  cost : ℤ
  nextPathS : Ptr

/-- `pair` -/
structure PairCell where
  objName : CharBuf maxobjname
  pathS : Ptr
  nextPairS : Ptr

/-- `liso_hash`, and the memory it points into. -/
structure LisoHash where
  hash : ℕ → Ptr
  objNames : ℕ → CharBuf maxobjname
  numObjs : ℕ
  pairs : Memory PairCell
  paths : Memory PathCell

/-- `init_hash` -/
def initHash (h : LisoHash) : LisoHash :=
  { h with hash := fun _ => none, objNames := fun _ => emptyName, numObjs := 0 }

/-- `strcmp(obj_name, c->obj_name) == 0` -/
def isObj (objName : CString) (c : PairCell) : Bool := decide (c.objName.1 = objName)

/-- `link_contains_obj` -/
def linkContainsObj (h : LisoHash) (ptr : Ptr) (objName : CString) : Except MemFault Ptr :=
  seek PairCell.nextPairS (isObj objName) h.pairs (rounds h.pairs) ptr

/-! ### Single cells -/

section Cells

variable (A : Allocator) (h : LisoHash)

/-- `path *newpath = malloc(sizeof(path));` and its three assignments. -/
def newPath (nodeId : Int32) (cost : ℤ) : Except MemFault (Ptr × LisoHash) := do
  let (newpath, paths) := h.paths.malloc A
  let paths ← paths.store (fun _ => ⟨nodeId, cost, none⟩) newpath
  .ok (newpath, { h with paths := paths })

/-- `dom->path_s = newpath;` -/
def setPathS (dom newpath : Ptr) : Except MemFault LisoHash := do
  let pairs ← h.pairs.store (fun c => { c with pathS := newpath }) dom
  .ok { h with pairs := pairs }

/-- `free` of a path -/
def freePath (p : Ptr) : Except MemFault LisoHash := do
  let paths ← h.paths.free p
  .ok { h with paths := paths }

end Cells

/-! ### The operations -/

section Operations

variable (sfh : CString → UInt32)

/-- `contains_object` -/
def containsObject (h : LisoHash) (objName : CString) : Except MemFault Ptr :=
  if h.numObjs = 0 then .ok none
  else if h.hash (hashIndex sfh objName) = none then .ok none
  else linkContainsObj h (h.hash (hashIndex sfh objName)) objName

/-- `get_paths`; its loop is that of `link_contains_obj`. -/
def getPaths (h : LisoHash) (objName : CString) : Except MemFault Ptr :=
  if h.numObjs = 0 then .ok none
  else do
    let curr ← linkContainsObj h (h.hash (hashIndex sfh objName)) objName
    if curr = none then .ok none
    else do
      let c ← h.pairs.load curr
      .ok c.pathS

/-- `hash_add` of a name that is found at `dom`. -/
def addPath (A : Allocator) (h : LisoHash) (dom : Ptr) (nodeId : Int32) (cost : ℤ) :
    Except MemFault LisoHash := do
  let c ← h.pairs.load dom
  if c.pathS = none then do
    let (newpath, h) ← newPath A h nodeId cost
    setPathS h dom newpath
  else do
    let currNearest ← h.paths.load c.pathS
    if currNearest.cost > cost then do
      let (newpath, h) ← newPath A h nodeId cost
      let h ← freePath h c.pathS
      setPathS h dom newpath
    else .ok h

/-- `hash_add` of a name that is not found. -/
def addPair (A : Allocator) (h : LisoHash) (objName : CString) (nodeId : Int32) (cost : ℤ) :
    Except MemFault LisoHash := do
  let (newpath, h) ← newPath A h nodeId cost
  let (new, pairs) := h.pairs.malloc A
  let name ← (strcpy maxobjname objName).mapError fun _ => MemFault.bounds
  let pairs ← pairs.store (fun _ => ⟨name, newpath, none⟩) new
  let dom := h.hash (hashIndex sfh objName)
  let pairs ← if dom = none then .ok pairs else pairs.store (fun c => { c with nextPairS := dom }) new
  if h.numObjs < maxobjnum then
    .ok { h with
      hash := Function.update h.hash (hashIndex sfh objName) new
      objNames := Function.update h.objNames h.numObjs name
      numObjs := h.numObjs + 1
      pairs := pairs }
  else .error .bounds

/-- `hash_add` -/
def hashAdd (A : Allocator) (h : LisoHash) (objName : CString) (nodeId : Int32) (cost : ℤ) :
    Except MemFault LisoHash := do
  let dom ← containsObject sfh h objName
  if dom = none then addPair sfh A h objName nodeId cost else addPath A h dom nodeId cost

/-- The body of the loop of `hash_remove_node`; its walk is that of `link_contains_obj`. -/
def removeNodeFrom (nodeId : Int32) (h : LisoHash) (objName : CString) : Except MemFault LisoHash := do
  let iter ← linkContainsObj h (h.hash (hashIndex sfh objName)) objName
  if iter = none then .ok h
  else do
    let c ← h.pairs.load iter
    if c.pathS = none then .ok h
    else do
      let p ← h.paths.load c.pathS
      if p.nodeId = nodeId then do
        let h ← freePath h c.pathS
        setPathS h iter none
      else .ok h

/-- `hash_remove_node` -/
def hashRemoveNode (h : LisoHash) (nodeId : Int32) : Except MemFault LisoHash :=
  if h.numObjs = 0 then .ok h
  else (List.range h.numObjs).foldlM (fun h i => removeNodeFrom sfh nodeId h (h.objNames i).1) h

/-- `remove_obj_from_objset` -/
def removeObjFromObjset (h : LisoHash) (objName : CString) : LisoHash :=
  { h with
    objNames := fun i =>
      if i < hashsize ∧ (h.objNames i).1 = objName then emptyName else h.objNames i }

/-- `hash_remove_object` of the pair at `iter`, behind the one at `prev`. -/
def removePair (h : LisoHash) (objName : CString) (prev iter : Ptr) : Except MemFault LisoHash := do
  let c ← h.pairs.load iter
  let h ←
    if prev = none then
      .ok { h with hash := Function.update h.hash (hashIndex sfh objName) c.nextPairS }
    else do
      let pairs ← h.pairs.store (fun b => { b with nextPairS := c.nextPairS }) prev
      .ok { h with pairs := pairs }
  let h ← freePath h c.pathS
  let pairs ← h.pairs.free iter
  .ok (removeObjFromObjset { h with pairs := pairs, numObjs := h.numObjs - 1 } objName)

/-- `hash_remove_object`, with its return value. -/
def hashRemoveObject (h : LisoHash) (objName : CString) : Except MemFault (ℤ × LisoHash) :=
  if h.numObjs = 0 then .ok (0, h)
  else if h.hash (hashIndex sfh objName) = none then .ok (0, h)
  else do
    let (prev, iter) ← seekPrev PairCell.nextPairS (isObj objName) h.pairs (rounds h.pairs) none
      (h.hash (hashIndex sfh objName))
    if iter = none then .ok (0, h)
    else do
      let h ← removePair sfh h objName prev iter
      .ok (1, h)

/-- `free_path_link` -/
def freePathLink : ℕ → Ptr → Memory PathCell → Except MemFault (Memory PathCell)
  | _, none, m => .ok m
  | 0, some _, _ => .error .endless
  | n + 1, some a, m => do
    let c ← m.load (some a)
    let m ← m.free (some a)
    freePathLink n c.nextPathS m

/-- `free_header_link` -/
def freeHeaderLink : ℕ → Ptr → LisoHash → Except MemFault LisoHash
  | _, none, h => .ok h
  | 0, some _, _ => .error .endless
  | n + 1, some a, h => do
    let c ← h.pairs.load (some a)
    let paths ← freePathLink (rounds h.paths) c.pathS h.paths
    let pairs ← h.pairs.free (some a)
    freeHeaderLink n c.nextPairS { h with pairs := pairs, paths := paths }

/-- `collapse`, with its return value. -/
def collapse (h : LisoHash) : Except MemFault (ℤ × LisoHash) :=
  if h.numObjs = 0 then .ok (0, h)
  else do
    let h ← (List.range hashsize).foldlM (fun h i => freeHeaderLink (rounds h.pairs) (h.hash i) h) h
    .ok (1, initHash h)

end Operations

/-! ### Printing -/

/-- A line that `printPairs` prints. -/
inductive Line
  | object (name : CString)
  | path (nodeId : Int32) (cost : ℤ)
  | blank
  deriving DecidableEq

/-- The loop of `printPairs` over the paths of one object. -/
def printPaths (m : Memory PathCell) : ℕ → Ptr → Except MemFault (List Line)
  | _, none => .ok []
  | 0, some _ => .error .endless
  | n + 1, some a => do
    let c ← m.load (some a)
    let lines ← printPaths m n c.nextPathS
    .ok (.path c.nodeId c.cost :: lines)

/-- The body of the loop of `printPairs`. -/
def printPair (sfh : CString → UInt32) (h : LisoHash) (i : ℕ) : Except MemFault (List Line) := do
  let ptr ← getPaths sfh h (h.objNames i).1
  let lines ← printPaths h.paths (rounds h.paths) ptr
  .ok (if ptr = none then lines else .object (h.objNames i).1 :: lines)

/-- `printPairs` of a table that is not NULL. -/
def printPairs (sfh : CString → UInt32) (h : LisoHash) : Except MemFault (List Line) :=
  if h.numObjs = 0 then .ok []
  else do
    let lines ← (List.range hashsize).mapM (printPair sfh h)
    .ok (lines.flatten ++ [.blank])

/-! ### Runs -/

section Runs

variable (A : Allocator) (sfh : CString → UInt32)

/-- One call on the table. -/
def applyCall (h : LisoHash) : Call → Except MemFault LisoHash
  | .op (.add objName nodeId cost) => hashAdd sfh A h objName.1 nodeId cost
  | .op (.removeNode nodeId) => hashRemoveNode sfh h nodeId
  | .op .collapse => (collapse h).map Prod.snd
  | .removeObject objName => (hashRemoveObject sfh h objName.1).map Prod.snd

/-- Nothing is allocated for the table yet. -/
def Unused (h : LisoHash) : Prop := h.pairs.live = ∅ ∧ h.paths.live = ∅

/-- A run of calls from `init_hash` of the table `h`. -/
def execCalls (h : LisoHash) (calls : List Call) : Except MemFault LisoHash :=
  calls.foldlM (applyCall A sfh) (initHash h)

end Runs

end RoutingDaemon.Heap
