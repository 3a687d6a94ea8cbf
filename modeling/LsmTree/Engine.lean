import LsmTree.Sst
set_option autoImplicit false

/-!
`LSMEngine` of `src/src/lsm/engine.cpp`: point reads through the memtable and the levels, writes,
flushes, the tiered compaction and the range cursors. The engine's mutex only orders the calls,
so the model runs them one after another. A call the C++ cannot complete returns `none`: it
dereferences an id that is not registered, finds no frozen skiplist to flush, or recurses
forever. Ids are `size_t` counters, kept as `Nat`: wrapping past 2^64 ids is not modelled.
-/

namespace LsmTree

/-- The state of an `LSMEngine`, with its data directory. -/
structure LSMEngine where
  dataDir : String
  dir : List DirEntry
  memtable : MemTable
  ssts : List SST
  levelSstIds : List (List Nat)
  curMaxSstId : Nat
  curMaxLevel : Nat

namespace LSMEngine

variable (cfg : Config)

/-- `ssts[id]`: `none` for an id that is not registered, where the C++ dereferences null. -/
def sst? (s : LSMEngine) (id : Nat) : Option SST := s.ssts.find? (·.sstId = id)

/-- `level_sst_ids[level]`: a level never written reads as empty. -/
def levelIds (s : LSMEngine) (level : Nat) : List Nat := s.levelSstIds.getD level []

def setLevel (levels : List (List Nat)) (level : Nat) (ids : List Nat) : List (List Nat) :=
  (levels ++ List.replicate (level + 1 - levels.length) []).set level ids

def registerSst (ssts : List SST) (t : SST) : List SST := ssts.filter (·.sstId ≠ t.sstId) ++ [t]

/-! ### `get` -/

/-- Step 2 of `get`: the level-0 SSTs in stored order. `some none` when none holds the key. -/
def getLevel0 (s : LSMEngine) (k : String) : List Nat → Option (Option String)
  | [] => some none
  | id :: ids => do
    let t ← s.sst? id
    match t.get k with
    | some v => some (some v)
    | none => getLevel0 s k ids

/-- The binary search of step 3 over the ids of one level. Each pass shrinks `[left, right)`, so
`right - left` passes reach the end of the loop. Finding the key's range in an SST that lacks the
key ends the loop (`break`). -/
def searchLevel (s : LSMEngine) (k : String) (ids : List Nat) :
    Nat → Nat → Nat → Option (Option String)
  | 0, _, _ => some none
  | fuel + 1, left, right =>
    if left < right then do
      let mid := left + (right - left) / 2
      let t ← s.sst? (ids.getD mid 0)
      if t.getFirstKey ≤ k ∧ k ≤ t.getLastKey then some (t.get k)
      else if t.getLastKey < k then searchLevel s k ids fuel (mid + 1) right
      else searchLevel s k ids fuel left mid
    else some none

/-- Step 3 of `get`: the levels `1 ..= cur_max_level` in order. -/
def getDeeper (s : LSMEngine) (k : String) : List Nat → Option (Option String)
  | [] => some none
  | level :: levels => do
    let ids := s.levelIds level
    match ← s.searchLevel k ids ids.length 0 ids.length with
    | some v => some (some v)
    | none => getDeeper s k levels

/-- `get`: `none` when the C++ crashes, else the value, a tombstone reading as absent. -/
def get (s : LSMEngine) (k : String) : Option (Option String) := do
  let raw ← match s.memtable.get k with
    | some v => some (some v)
    | none => do
      match ← s.getLevel0 k (s.levelIds 0) with
      | some v => some (some v)
      | none => s.getDeeper k ((List.range s.curMaxLevel).map (· + 1))
  some (raw.bind liveValue)

/-! ### Writing SSTs and compaction -/

/-- Build the SST a builder holds under the id `cur_max_sst_id++`, writing
`get_sst_path(id, level)`. -/
def buildSst (s : LSMEngine) (b : SSTBuilder) (level : Nat) : SST × LSMEngine :=
  let name := sstFileName s.curMaxSstId level
  (b.build s.curMaxSstId name,
    { s with curMaxSstId := s.curMaxSstId + 1, dir := writeFile s.dir name b.entries })

/-- `gen_sst_from_iter` over the pairs `iter` yields: a new SST whenever the builder's estimated
size reaches `target_sst_size`, and a last one for what is left. -/
def genSstFromIter (s : LSMEngine) (iter : List (String × String))
    (targetSstSize targetLevel : Nat) : List SST × LSMEngine :=
  loop iter .empty [] s
where
  loop : List (String × String) → SSTBuilder → List SST → LSMEngine → List SST × LSMEngine
    | [], b, newSsts, s =>
      if 0 < b.estimatedSize cfg then
        let (t, s) := s.buildSst b targetLevel
        (newSsts ++ [t], s)
      else (newSsts, s)
    | p :: rest, b, newSsts, s =>
      let b := b.add p.1 p.2
      if targetSstSize ≤ b.estimatedSize cfg then
        let (t, s) := s.buildSst b targetLevel
        loop rest .empty (newSsts ++ [t]) s
      else loop rest b newSsts s

/-- `get_sst_size`, computed exactly (the source takes `std::pow` in `double`). -/
def getSstSize (level : Nat) : Nat :=
  if level = 0 then cfg.perMemSizeLimit else cfg.perMemSizeLimit * cfg.sstLevelRatio ^ level

/-- `full_l0_l1_compact`: the level-0 SSTs overlap, so they go through a heap first. -/
def fullL0L1Compact (s : LSMEngine) (l0Ids l1Ids : List Nat) : Option (List SST × LSMEngine) := do
  let l0 ← l0Ids.mapM s.sst?
  let l1 ← l1Ids.mapM s.sst?
  let l0Begin := mergeSstIterator (l0.map fun t => ⟨t.sstId, t.entries⟩)
  some (s.genSstFromIter cfg (twoMerge l0Begin (concactIterator l1))
    (cfg.perMemSizeLimit * cfg.sstLevelRatio) 1)

/-- `full_common_compact`: both levels are runs of disjoint ranges. -/
def fullCommonCompact (s : LSMEngine) (lxIds lyIds : List Nat) (levelY : Nat) :
    Option (List SST × LSMEngine) := do
  let lx ← lxIds.mapM s.sst?
  let ly ← lyIds.mapM s.sst?
  some (s.genSstFromIter cfg (twoMerge (concactIterator lx) (concactIterator ly))
    (getSstSize cfg levelY) levelY)

/-- `del_sst` then `ssts.erase` for each old id, in order. -/
def eraseSsts (s : LSMEngine) : List Nat → Option LSMEngine
  | [] => some s
  | id :: ids => do
    let t ← s.sst? id
    eraseSsts { s with dir := removeFile s.dir t.fileName, ssts := s.ssts.filter (·.sstId ≠ id) } ids

/-- The body of `full_compact` after its recursive call: merge levels `src` and `src + 1` into
new SSTs, drop the old ones, clear both lists and give `src + 1` the new ids, sorted. -/
def compactInto (s : LSMEngine) (src : Nat) : Option LSMEngine := do
  let x := s.levelIds src
  let y := s.levelIds (src + 1)
  let (newSsts, s) ←
    if src = 0 then s.fullL0L1Compact cfg x y else s.fullCommonCompact cfg x y (src + 1)
  let s ← s.eraseSsts (x ++ y)
  some { s with
    levelSstIds := setLevel (setLevel s.levelSstIds src []) (src + 1)
      ((newSsts.map SST.sstId).insertionSort (· ≤ ·))
    curMaxLevel := max s.curMaxLevel (src + 1)
    ssts := newSsts.foldl registerSst s.ssts }

/-- `full_compact(src_level)`: level `src + 1` is compacted first when it has reached
`LSM_SST_LEVEL_RATIO`. The recursion descends a level per call; `fuel` bounds the calls, and
running out of it is a recursion that never returns. -/
def fullCompact : Nat → Nat → LSMEngine → Option LSMEngine
  | 0, _, _ => none
  | fuel + 1, src, s => do
    let s ← if cfg.sstLevelRatio ≤ (s.levelIds (src + 1)).length then
        fullCompact fuel (src + 1) s else some s
    s.compactInto cfg src

/-! ### Writes -/

/-- `flush`: compact level 0 once it has reached `LSM_SST_LEVEL_RATIO`, then write the oldest
frozen skiplist to a new level-0 SST under `cur_max_sst_id++`. Every level past the list is
empty, so `levelSstIds.length + 1` calls of `full_compact` always suffice. The map holds level 0
once it holds any level. -/
def flush (s : LSMEngine) : Option LSMEngine :=
  if s.memtable.getTotalSize = 0 then some s else do
    let s ← if s.levelSstIds ≠ [] ∧ cfg.sstLevelRatio ≤ (s.levelIds 0).length then
        fullCompact cfg (s.levelSstIds.length + 1) 0 s else some s
    let newSstId := s.curMaxSstId
    let (nodes, memtable) ← s.memtable.flushLast
    let name := sstFileName newSstId 0
    some { s with
      curMaxSstId := newSstId + 1
      memtable
      dir := writeFile s.dir name nodes
      ssts := registerSst s.ssts ⟨newSstId, name, nodes⟩
      levelSstIds := setLevel s.levelSstIds 0 (newSstId :: s.levelIds 0) }

def put (s : LSMEngine) (k v : String) : Option LSMEngine :=
  let s := { s with memtable := s.memtable.put cfg k v }
  if cfg.tolMemSizeLimit ≤ s.memtable.getTotalSize then s.flush cfg else some s

def putBatch (s : LSMEngine) (kvs : List (String × String)) : Option LSMEngine :=
  let s := { s with memtable := s.memtable.putBatch cfg kvs }
  if cfg.tolMemSizeLimit ≤ s.memtable.getTotalSize then s.flush cfg else some s

def remove (s : LSMEngine) (k : String) : LSMEngine := { s with memtable := s.memtable.remove cfg k }

def removeBatch (s : LSMEngine) (ks : List String) : LSMEngine :=
  { s with memtable := s.memtable.removeBatch cfg ks }

/-- `clear`: drop the memtable, the level lists and the SSTs, and remove every regular file. -/
def clear (s : LSMEngine) : LSMEngine :=
  { s with memtable := .empty, levelSstIds := [], ssts := [], dir := s.dir.filter (!·.regular) }

def flushAllLoop : Nat → LSMEngine → Option LSMEngine
  | 0, _ => none
  | fuel + 1, s =>
    if 0 < s.memtable.getTotalSize then (s.flush cfg).bind (flushAllLoop fuel) else some s

/-- `flush_all`: flush while the memtable holds any bytes. A flush that returns has popped a frozen
skiplist, so `frozen.length + 1` passes reach the end of the loop. -/
def flushAll (s : LSMEngine) : Option LSMEngine := flushAllLoop cfg (s.memtable.frozen.length + 1) s

/-! ### Range cursors -/

/-- `begin()..end()`: the memtable merged over a heap of the level-0 SSTs, into which `begin`
puts a cursor at every record, tombstones skipped. -/
def begin (s : LSMEngine) : Option (List (String × String)) := do
  let l0 ← (s.levelIds 0).mapM s.sst?
  some (skipTombstones (twoMerge s.memtable.begin (mergeSstIterator (l0.flatMap SST.cursors))))

/-- The heap items of `lsm_iters_monotony_predicate`: the records where `pred` is zero of every SST
of every level, `idx` the negated id of its SST. -/
def predicateItems (s : LSMEngine) (pred : String → Int) : Option (List SearchItem) := do
  let perLevel ← s.levelSstIds.enum.mapM fun (level, ids) => ids.mapM fun id => do
    let t ← s.sst? id
    some (((sstItersMonotonyPredicate t pred).getD []).map fun p => ⟨p.1, p.2, sstIdx id, level⟩)
  some (perLevel.flatten.flatten)

/-- `lsm_iters_monotony_predicate`: `none` when the C++ crashes, `some none` when no key of the
memtable or of any SST gives zero, else what the merged cursor yields, tombstones skipped. -/
def lsmItersMonotonyPredicate (s : LSMEngine) (pred : String → Int) :
    Option (Option (List (String × String))) := do
  let memResult := s.memtable.itersMonotonyPredicate pred
  let itemVec ← s.predicateItems pred
  if memResult = none ∧ itemVec = [] then some none
  else some (some (skipTombstones (twoMerge (memResult.getD []) (heapIterator itemVec))))

/-! ### Runs -/

/-- The engine's public operations. -/
inductive Op where
  | put (k v : String)
  | putBatch (kvs : List (String × String))
  | remove (k : String)
  | removeBatch (ks : List String)
  | flush
  | flushAll
  | clear

def step (s : LSMEngine) : Op → Option LSMEngine
  | .put k v => s.put cfg k v
  | .putBatch kvs => s.putBatch cfg kvs
  | .remove k => some (s.remove cfg k)
  | .removeBatch ks => some (s.removeBatch cfg ks)
  | .flush => s.flush cfg
  | .flushAll => s.flushAll cfg
  | .clear => some s.clear

def run (s : LSMEngine) : List Op → Option LSMEngine
  | [] => some s
  | op :: ops => (s.step cfg op).bind (run · ops)

end LSMEngine

end LsmTree
