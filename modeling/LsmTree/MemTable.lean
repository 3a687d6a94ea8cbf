import LsmTree.Iterator
set_option autoImplicit false

/-!
Modelled from the spec: the memtable and its skiplists. `memtable/memtable.cpp` and
`skiplist/skiplist.cpp` are not in the sources; `test/test_skiplist.cpp` is, and it fixes the size
a skiplist reports. A skiplist is kept as its nodes in ascending key order: the random tower
heights only make its searches fast.
-/

namespace LsmTree

def insertNode (k v : String) : List (String × String) → List (String × String)
  | [] => [(k, v)]
  | p :: l =>
    if k < p.1 then (k, v) :: p :: l else if k = p.1 then (k, v) :: l else p :: insertNode k v l

theorem mem_insertNode {k v : String} {l : List (String × String)} {q : String × String}
    (h : q ∈ insertNode k v l) : q = (k, v) ∨ q ∈ l := by
  induction l with
  | nil => simpa [insertNode] using h
  | cons p l ih =>
    simp only [insertNode] at h
    split_ifs at h with h₁ h₂
    · simpa using h
    · rcases List.mem_cons.1 h with h | h
      · exact .inl h
      · exact .inr (List.mem_cons_of_mem _ h)
    · rcases List.mem_cons.1 h with h | h
      · exact .inr (h ▸ List.mem_cons_self _ _)
      · exact (ih h).imp_right (List.mem_cons_of_mem _)

theorem insertNode_ascending {k v : String} {l : List (String × String)} (hl : Ascending l) :
    Ascending (insertNode k v l) := by
  induction l with
  | nil => simp [insertNode, Ascending]
  | cons p l ih =>
    rw [Ascending, List.pairwise_cons] at hl
    simp only [insertNode]
    split_ifs with h₁ h₂
    · exact List.Pairwise.cons (fun q hq => h₁.trans_le ((List.mem_cons.1 hq).elim
        (fun h => h ▸ le_rfl) (fun h => (hl.1 q h).le))) (List.Pairwise.cons hl.1 hl.2)
    · exact List.Pairwise.cons (fun q hq => h₂ ▸ hl.1 q hq) hl.2
    · have hp : p.1 < k := lt_of_le_of_ne (not_lt.1 h₁) (Ne.symm h₂)
      refine List.Pairwise.cons (fun q hq => ?_) (ih hl.2)
      rcases mem_insertNode hq with rfl | hq
      · exact hp
      · exact hl.1 q hq

@[simp] theorem lookup_insertNode (k v : String) (l : List (String × String)) (k' : String) :
    lookup (insertNode k v l) k' = if k = k' then some v else lookup l k' := by
  induction l with
  | nil => simp [insertNode, lookup_cons]
  | cons p l ih =>
    rw [insertNode]
    by_cases h₁ : k < p.1
    · rw [if_pos h₁]
      exact lookup_cons _ _ _
    by_cases h₂ : k = p.1
    · rw [if_neg h₁, if_pos h₂, lookup_cons, lookup_cons, ← h₂]
      by_cases hk : k = k' <;> simp [hk]
    · rw [if_neg h₁, if_neg h₂, lookup_cons, lookup_cons, ih]
      by_cases hp : p.1 = k'
      · have hk : k ≠ k' := fun h => h₂ (h.trans hp.symm)
        simp [hp, hk]
      · simp [hp]

/-- Modelled from the spec: a skiplist, as its nodes in ascending key order. -/
structure SkipList where
  nodes : List (String × String)
  ascending : Ascending nodes

namespace SkipList

def empty : SkipList := ⟨[], List.Pairwise.nil⟩

def put (s : SkipList) (k v : String) : SkipList := ⟨insertNode k v s.nodes, insertNode_ascending s.ascending⟩

def get (s : SkipList) (k : String) : Option String := lookup s.nodes k

/-- `get_size`: the bytes of the keys and values it holds, as `test_skiplist.cpp` checks. -/
def size (s : SkipList) : Nat := (s.nodes.map fun p => p.1.length + p.2.length).sum

@[simp] theorem empty_nodes : empty.nodes = [] := rfl
@[simp] theorem put_nodes (s : SkipList) (k v : String) : (s.put k v).nodes = insertNode k v s.nodes := rfl

end SkipList

/-- Modelled from the spec: the memtable: the active skiplist and the frozen ones, the most
recently frozen first. -/
structure MemTable where
  active : SkipList
  frozen : List SkipList

namespace MemTable

variable (cfg : Config)

def empty : MemTable := ⟨.empty, []⟩

def tables (m : MemTable) : List SkipList := m.active :: m.frozen

/-- `get_total_size`: the bytes held by all skiplists. -/
def getTotalSize (m : MemTable) : Nat := (m.tables.map SkipList.size).sum

theorem getTotalSize_eq (m : MemTable) :
    m.getTotalSize = m.active.size + (m.frozen.map SkipList.size).sum := by
  simp [getTotalSize, tables]

/-- `freeze_current`: the active skiplist goes to the front of the frozen ones. -/
def freezeCurrent (m : MemTable) : MemTable := ⟨.empty, m.active :: m.frozen⟩

/-- `put`: write to the active skiplist, and freeze it once it reaches
`LSM_PER_MEM_SIZE_LIMIT`, before it accepts more. -/
def put (m : MemTable) (k v : String) : MemTable :=
  let m' := { m with active := m.active.put k v }
  if cfg.perMemSizeLimit ≤ m'.active.size then m'.freezeCurrent else m'

def putBatch (m : MemTable) (kvs : List (String × String)) : MemTable :=
  kvs.foldl (fun m p => m.put cfg p.1 p.2) m

/-- `remove`: a tombstone, `put(k, "")`. -/
def remove (m : MemTable) (k : String) : MemTable := m.put cfg k ""

def removeBatch (m : MemTable) (ks : List String) : MemTable :=
  ks.foldl (fun m k => m.remove cfg k) m

/-- `get`: the active skiplist, then the frozen ones from the newest. A tombstone is returned as
it is. -/
def get (m : MemTable) (k : String) : Option String := firstHit (m.tables.map SkipList.nodes) k

/-- `flush_last`: pop the oldest frozen skiplist and hand its nodes, in ascending order, to the
SST builder. With no frozen skiplist the call is an invariant violation: `none`. -/
def flushLast (m : MemTable) : Option (List (String × String) × MemTable) :=
  m.frozen.getLast?.map fun t => (t.nodes, { m with frozen := m.frozen.dropLast })

theorem get_freezeCurrent (m : MemTable) (k : String) : m.freezeCurrent.get k = m.get k := by
  simp [get, freezeCurrent, tables, firstHit]

theorem get_put (m : MemTable) (k v k' : String) :
    (m.put cfg k v).get k' = if k = k' then some v else m.get k' := by
  have h : ({ m with active := m.active.put k v } : MemTable).get k' =
      if k = k' then some v else m.get k' := by
    by_cases hk : k = k' <;> simp [get, tables, firstHit, SkipList.put, hk]
  simp only [put]
  split
  · rw [get_freezeCurrent, h]
  · exact h

/-- The heap items of every skiplist: the active one has `idx` 0 and the `i`-th frozen one
`i + 1`, so that among equal keys the newest table is popped first. -/
def items (m : MemTable) : List SearchItem :=
  m.tables.enum.flatMap fun (i, t) => t.nodes.map fun p => ⟨p.1, p.2, i, 0⟩

/-- `begin()..end()`: every key once, from its newest table. -/
def begin (m : MemTable) : List (String × String) := heapIterator m.items

theorem enumFrom_pairwise_lt {α : Type} (l : List α) (n : Nat) :
    (l.enumFrom n).Pairwise (·.1 < ·.1) := by
  induction l generalizing n with
  | nil => exact List.Pairwise.nil
  | cons a l ih =>
    exact List.pairwise_cons.2 ⟨fun x hx => List.le_fst_of_mem_enumFrom hx, ih _⟩

theorem lookup_heapIterator_items_filter (m : MemTable) (p : String → Bool) (k : String) :
    lookup (heapIterator (m.items.filter fun it => p it.key)) k = if p k then m.get k else none := by
  rw [items, List.flatMap_def, lookup_heapIterator_flatten_filter, get]
  · congr 2
    simp only [List.map_map, Function.comp_def, List.enum]
    conv_rhs => rw [← List.enumFrom_map_snd 0 m.tables, List.map_map]
    simp [Function.comp_def]
  · simp only [List.mem_map, forall_exists_index, and_imp]
    rintro _ ⟨i, t⟩ - rfl a ha b hb
    simp only [List.mem_map] at ha hb
    obtain ⟨p, -, rfl⟩ := ha
    obtain ⟨q, -, rfl⟩ := hb
    rfl
  · refine (enumFrom_pairwise_lt _ 0).map _ ?_
    rintro ⟨i, t⟩ ⟨j, u⟩ hij a ha b hb -
    simp only [List.mem_map] at ha hb
    obtain ⟨p, -, rfl⟩ := ha
    obtain ⟨q, -, rfl⟩ := hb
    exact Int.ofNat_lt.2 hij
  · simp only [List.mem_map, forall_exists_index, and_imp]
    rintro _ ⟨i, t⟩ - rfl a ha b hb
    simp only [List.mem_map] at ha hb
    obtain ⟨p, hp, rfl⟩ := ha
    obtain ⟨q, hq, rfl⟩ := hb
    intro (hpq : p.1 = q.1)
    have h := lookup_of_mem t.ascending hq
    rw [← hpq, lookup_of_mem t.ascending hp] at h
    exact Option.some.inj h

theorem begin_spec (m : MemTable) : Ascending m.begin ∧ ∀ k, lookup m.begin k = m.get k :=
  ⟨heapIterator_ascending _, fun k => by
    simpa using m.lookup_heapIterator_items_filter (fun _ => true) k⟩

/-- The heap items of what the binary searches bracket in every skiplist. -/
def rangeItems (m : MemTable) (pred : String → Int) : List SearchItem :=
  m.tables.enum.flatMap fun (i, t) => (predicateRange pred t.nodes).map fun p => ⟨p.1, p.2, i, 0⟩

/-- `iters_monotony_predicate`: the same merge over what the binary searches bracket, and no
cursor when they bracket nothing. -/
def itersMonotonyPredicate (m : MemTable) (pred : String → Int) :
    Option (List (String × String)) :=
  let items := m.rangeItems pred
  if items = [] then none else some (heapIterator items)

theorem rangeItems_eq {pred : String → Int} (hp : PredMonotone pred) (m : MemTable) :
    m.rangeItems pred = m.items.filter fun it => pred it.key = 0 := by
  simp only [rangeItems, items, List.filter_flatMap, List.filter_map]
  congr 1
  funext x
  rw [predicateRange_eq_filter hp x.2.ascending]
  rfl

/-- The memtable's predicate cursor, an absent one read as empty, is ascending and holds the
newest version of every key where `pred` is zero, a tombstone included. -/
theorem itersMonotonyPredicate_spec (m : MemTable) {pred : String → Int} (hp : PredMonotone pred) :
    Ascending ((m.itersMonotonyPredicate pred).getD []) ∧
      ∀ k, lookup ((m.itersMonotonyPredicate pred).getD []) k =
        if pred k = 0 then m.get k else none := by
  have h := m.lookup_heapIterator_items_filter (fun k => decide (pred k = 0))
  simp only [decide_eq_true_eq] at h
  simp only [itersMonotonyPredicate, m.rangeItems_eq hp]
  split_ifs with he
  · refine ⟨List.Pairwise.nil, fun k => ?_⟩
    rw [← h k, he]
    rfl
  · exact ⟨heapIterator_ascending _, h⟩

theorem itersMonotonyPredicate_ne_some_nil (m : MemTable) (pred : String → Int) :
    m.itersMonotonyPredicate pred ≠ some [] := by
  simp only [itersMonotonyPredicate]
  split_ifs with h
  · exact Option.noConfusion
  · simpa [heapIterator_eq_nil] using h

end MemTable

end LsmTree
