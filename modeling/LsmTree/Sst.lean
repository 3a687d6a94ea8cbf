import LsmTree.MemTable
set_option autoImplicit false

/-!
Modelled from the spec: SST files, their builder and their cursors (`sst/sst.cpp`,
`sst/sst_iterator.cpp` and `sst/concact_iterator.cpp` are not in the sources). An SST is kept as
its records in file order. Blocks, the bloom filter and the block cache only change how a record
is found, not which one, so they are left out. The data directory is kept as its entries.
-/

namespace LsmTree

/-- Modelled from the spec: an SST as the engine uses it: its id, the name of its file in the
data directory, and its records. -/
structure SST where
  sstId : Nat
  fileName : String
  entries : List (String × String)
  deriving DecidableEq, Repr

namespace SST

/-- `get`: a cursor at the key, or `end()`; here the value the cursor would show. -/
def get (t : SST) (k : String) : Option String := lookup t.entries k

def getFirstKey (t : SST) : String := (t.entries.head?.map Prod.fst).getD ""

def getLastKey (t : SST) : String := (t.entries.getLast?.map Prod.fst).getD ""

theorem key_mem_range {t : SST} (h : Ascending t.entries) {p : String × String}
    (hp : p ∈ t.entries) : t.getFirstKey ≤ p.1 ∧ p.1 ≤ t.getLastKey := by
  constructor
  · cases he : t.entries with
    | nil => simp [he] at hp
    | cons e es =>
      rw [he] at h hp
      simp only [getFirstKey, he, List.head?_cons, Option.map_some', Option.getD_some]
      rcases List.mem_cons.1 hp with rfl | hp
      · exact le_rfl
      · exact (h.lt_of_mem hp).le
  · rcases List.eq_nil_or_concat t.entries with he | ⟨L, b, he⟩
    · simp [he] at hp
    · rw [List.concat_eq_append] at he
      rw [he] at h hp
      simp only [getLastKey, he, List.getLast?_concat, Option.map_some', Option.getD_some]
      rcases List.mem_append.1 hp with hp | hp
      · exact ((List.pairwise_append.1 h).2.2 p hp b (List.mem_singleton_self _)).le
      · rw [List.mem_singleton.1 hp]

theorem firstKey_le_lastKey {t : SST} (h : Ascending t.entries) (hne : t.entries ≠ []) :
    t.getFirstKey ≤ t.getLastKey := by
  obtain ⟨p, hp⟩ := List.exists_mem_of_ne_nil _ hne
  exact (key_mem_range h hp).1.trans (key_mem_range h hp).2

theorem get_eq_none_of_not_mem_range {t : SST} (h : Ascending t.entries) {k : String}
    (hk : k < t.getFirstKey ∨ t.getLastKey < k) : t.get k = none :=
  lookup_eq_none.2 fun p hp hpk => by
    have := key_mem_range h hp
    rw [hpk] at this
    exact hk.elim (fun h' => absurd this.1 (not_le.2 h')) fun h' => absurd this.2 (not_le.2 h')

end SST

/-- Modelled from the spec: a cursor into an SST, as its id and the records it has left. -/
structure SstIterator where
  sstId : Nat
  rest : List (String × String)

/-- The cursors `begin()`, `++begin()`, … up to but not including `end()`. -/
def SST.cursors (t : SST) : List SstIterator := t.entries.tails.dropLast.map (⟨t.sstId, ·⟩)

/-- Modelled from the spec: `SstIterator::merge_sst_iterator`: a heap over what every cursor has
left, each record's `idx` the negated id of its SST, so that the newest SST wins. -/
def mergeSstIterator (iters : List SstIterator) : List (String × String) :=
  heapIterator (iters.flatMap fun it => it.rest.map fun p => ⟨p.1, p.2, sstIdx it.sstId, 0⟩)

/-- Modelled from the spec: the `ConcactIterator` over SSTs with disjoint ascending ranges. -/
def concactIterator (ssts : List SST) : List (String × String) := ssts.flatMap SST.entries

/-- Modelled from the spec: `sst_iters_monotony_predicate`: the records its two binary searches
bracket, and no cursor when they bracket none. -/
def sstItersMonotonyPredicate (t : SST) (pred : String → Int) : Option (List (String × String)) :=
  let r := predicateRange pred t.entries
  if r = [] then none else some r

/-- Modelled from the spec: the SST builder, as the records added so far. -/
structure SSTBuilder where
  entries : List (String × String)

namespace SSTBuilder

def empty : SSTBuilder := ⟨[]⟩

def add (b : SSTBuilder) (k v : String) : SSTBuilder := ⟨b.entries ++ [(k, v)]⟩

def estimatedSize (cfg : Config) (b : SSTBuilder) : Nat := cfg.estimatedSize b.entries

def build (b : SSTBuilder) (sstId : Nat) (fileName : String) : SST := ⟨sstId, fileName, b.entries⟩

end SSTBuilder

/-- An entry of the data directory. A regular file holds the records of an SST image, or `none`
for bytes that are not one. -/
structure DirEntry where
  name : String
  regular : Bool
  image : Option (List (String × String))
  deriving DecidableEq, Repr

def writeFile (dir : List DirEntry) (name : String) (entries : List (String × String)) :
    List DirEntry :=
  dir.filter (·.name ≠ name) ++ [⟨name, true, some entries⟩]

def removeFile (dir : List DirEntry) (name : String) : List DirEntry := dir.filter (·.name ≠ name)

/-- The file name part of `get_sst_path`: `sst_`, the id zero-padded to 32 digits, `.`, the
level. -/
def sstFileName (sstId level : Nat) : String :=
  "sst_" ++ String.mk ((toString sstId).data.leftpad 32 '0') ++ "." ++ toString level

def getSstPath (dataDir : String) (sstId level : Nat) : String :=
  dataDir ++ "/" ++ sstFileName sstId level

example : sstFileName 7 1 = "sst_00000000000000000000000000000007.1" := by decide

end LsmTree
