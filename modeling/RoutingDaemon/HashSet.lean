import RoutingDaemon.Basic
import RoutingDaemon.Lib.Chain

/-!
# The object hash table

`hashset.c`: `initHash`, `containsObject`, `getPaths`, `hashAdd`, `hashRemoveNode`,
`hashRemoveObject`, `collapse`. The operations take the hash function as an argument, so that what is
proved about them holds for any hash values; the daemon passes `superFastHash`. A `path` has no
`next_path_s`: the program only ever stores NULL there.
-/

namespace RoutingDaemon

/-- A stored path to an object. -/
structure Path where
  nodeId : Int32
  cost : ℤ
  deriving DecidableEq

/-- An object in a bucket chain. -/
structure Pair where
  objName : CharBuf maxobjname
  pathS : Option Path
  deriving DecidableEq

/-- The name of a pair, as `strcmp` sees it. -/
def Pair.name (p : Pair) : CString := p.objName.1

/-- The table: bucket chains, and the key list `obj_names[0 .. num_objs)`. -/
structure LisoHash where
  hash : ℕ → List Pair
  objNames : ℕ → CharBuf maxobjname
  numObjs : ℕ

/-! ### The hash function -/

/-- `get16bits` -/
def get16bits (lo hi : UInt8) : UInt32 := hi.toUInt32 <<< 8 + lo.toUInt32

/-- A `char` promoted to `int`, as an unsigned word. -/
def charWord (c : UInt8) : UInt32 := c.toInt8.toInt32.toUInt32

/-- The main loop and the tail switch of `super_fast_hash`. -/
def superFastHashLoop : List UInt8 → UInt32 → UInt32
  | a :: b :: c :: d :: data, hash =>
    let hash := hash + get16bits a b
    let tmp := get16bits c d <<< 11 ^^^ hash
    let hash := hash <<< 16 ^^^ tmp
    superFastHashLoop data (hash + hash >>> 11)
  | [a, b, c], hash =>
    let hash := hash + get16bits a b
    let hash := hash ^^^ hash <<< 16
    let hash := hash ^^^ charWord c <<< 18
    hash + hash >>> 11
  | [a, b], hash =>
    let hash := hash + get16bits a b
    let hash := hash ^^^ hash <<< 11
    hash + hash <<< 17
  | [a], hash =>
    let hash := hash + charWord a
    let hash := hash ^^^ hash <<< 10
    hash + hash >>> 11
  | [], hash => hash

/-- `super_fast_hash` of a string and its length. -/
def superFastHash (s : CString) : UInt32 :=
  if strlen s = 0 then 0
  else
    let hash := superFastHashLoop s.1 (.ofNat (strlen s))
    let hash := hash ^^^ hash <<< 3
    let hash := hash + hash >>> 5
    let hash := hash ^^^ hash <<< 4
    let hash := hash + hash >>> 17
    let hash := hash ^^^ hash <<< 25
    hash + hash >>> 16

/-! ### The operations -/

/-- What `memset` leaves in a slot of `obj_names`. -/
def emptyName : CharBuf maxobjname := ⟨⟨[], by simp⟩, by decide⟩

/-- `init_hash` -/
def initHash : LisoHash := ⟨fun _ => [], fun _ => emptyName, 0⟩

variable (sfh : CString → UInt32)

/-- `hash_index` -/
def hashIndex (s : CString) : ℕ := (sfh s).toNat % hashsize

/-- `contains_object`; the chain walk of `link_contains_obj` is a lookup in one bucket. -/
def containsObject (h : LisoHash) (objName : CString) : Option Pair :=
  if h.numObjs = 0 then none else Chain.lookup Pair.name (hashIndex sfh) h.hash objName

/-- `get_paths` -/
def getPaths (h : LisoHash) (objName : CString) : Option Path :=
  if h.numObjs = 0 then none
  else (Chain.lookup Pair.name (hashIndex sfh) h.hash objName).bind Pair.pathS

/-- Store a path in the pair found by the walk for `objName`. -/
def LisoHash.setPath (h : LisoHash) (objName : CString) (p : Path) : LisoHash :=
  { h with
    hash := Chain.alter Pair.name (hashIndex sfh) h.hash objName fun q => { q with pathS := some p } }

/-- `hash_add` -/
def hashAdd (h : LisoHash) (objName : CString) (nodeId : Int32) (cost : ℤ) :
    Except Fault LisoHash :=
  match containsObject sfh h objName with
  | some dom =>
    match dom.pathS with
    | none => .ok (h.setPath sfh objName ⟨nodeId, cost⟩)
    | some currNearest =>
      if currNearest.cost > cost then .ok (h.setPath sfh objName ⟨nodeId, cost⟩) else .ok h
  | none => do
    let name ← strcpy maxobjname objName
    if h.numObjs < maxobjnum then
      .ok ⟨Chain.push Pair.name (hashIndex sfh) h.hash ⟨name, some ⟨nodeId, cost⟩⟩,
        Function.update h.objNames h.numObjs name, h.numObjs + 1⟩
    else .error .overflow

/-- What `hash_remove_node` does to the pair it finds. -/
def clearNode (nodeId : Int32) (p : Pair) : Pair :=
  if p.pathS.map Path.nodeId = some nodeId then { p with pathS := none } else p

/-- `hash_remove_node`: one walk for every name of the key list. -/
def hashRemoveNode (h : LisoHash) (nodeId : Int32) : LisoHash :=
  if h.numObjs = 0 then h
  else
    { h with
      hash := (List.range h.numObjs).foldl
        (fun t i => Chain.alter Pair.name (hashIndex sfh) t (h.objNames i).1 (clearNode nodeId))
        h.hash }

/-- `remove_obj_from_objset`: every slot that holds the name is zeroed, the others stay in place. -/
def removeObjFromObjset (h : LisoHash) (objName : CString) : LisoHash :=
  { h with
    objNames := fun i =>
      if i < hashsize ∧ (h.objNames i).1 = objName then emptyName else h.objNames i }

/-- `hash_remove_object`, with its return value. -/
def hashRemoveObject (h : LisoHash) (objName : CString) : ℤ × LisoHash :=
  if h.numObjs = 0 then (0, h)
  else
    match Chain.lookup Pair.name (hashIndex sfh) h.hash objName with
    | none => (0, h)
    | some _ =>
      (1, removeObjFromObjset
        { h with
          hash := Chain.unlink Pair.name (hashIndex sfh) h.hash objName
          numObjs := h.numObjs - 1 } objName)

/-- `collapse`, with its return value. -/
def collapse (h : LisoHash) : ℤ × LisoHash := if h.numObjs = 0 then (0, h) else (1, initHash)

end RoutingDaemon
