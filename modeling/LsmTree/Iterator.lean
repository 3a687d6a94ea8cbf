import LsmTree.Basic
set_option autoImplicit false

/-!
The merging cursors. `operator<` on `SearchItem` is `src/src/iterator/iterator.cpp`; the heap,
two-way merge and concatenating iterators are not in the sources and are modelled from the spec,
each as the list of pairs it yields between `begin` and `end`.
-/

namespace LsmTree

/-- An entry of a merge heap. The header declaring it is not in the sources: the fields are the
four `engine.cpp` passes, and `idx` is a C++ `int`. -/
structure SearchItem where
  key : String
  value : String
  idx : Int
  level : Nat
  deriving DecidableEq, Repr

/-- `operator<` of `iterator.cpp`: by key, then by `idx`. -/
def SearchItem.lt (a b : SearchItem) : Bool :=
  if a.key ≠ b.key then decide (a.key < b.key) else decide (a.idx < b.idx)

/-- The order in which a min-heap under `operator<` pops its items. -/
def SearchItem.before (a b : SearchItem) : Prop := b.lt a = false

instance : DecidableRel SearchItem.before := fun a b => inferInstanceAs (Decidable (b.lt a = false))

theorem SearchItem.before_iff (a b : SearchItem) :
    a.before b ↔ a.key < b.key ∨ (a.key = b.key ∧ a.idx ≤ b.idx) := by
  unfold before lt
  rcases lt_trichotomy a.key b.key with h | h | h
  · rw [if_pos h.ne', decide_eq_false_iff_not]
    exact ⟨fun _ => .inl h, fun _ => not_lt_of_gt h⟩
  · rw [if_neg (not_not.2 h.symm), decide_eq_false_iff_not, not_lt]
    exact ⟨fun h' => .inr ⟨h, h'⟩, fun h' => h'.elim (fun h' => absurd h' (h ▸ lt_irrefl _)) And.right⟩
  · rw [if_pos h.ne, decide_eq_true h]
    exact ⟨Bool.noConfusion, fun h' => h'.elim (fun h' => absurd h' (not_lt_of_gt h))
      (fun h' => absurd h'.1 h.ne')⟩

theorem SearchItem.before_total (a b : SearchItem) : a.before b ∨ b.before a := by
  simp only [SearchItem.before_iff]
  rcases lt_trichotomy a.key b.key with h | h | h
  · exact .inl (.inl h)
  · rcases le_total a.idx b.idx with h' | h'
    · exact .inl (.inr ⟨h, h'⟩)
    · exact .inr (.inr ⟨h.symm, h'⟩)
  · exact .inr (.inl h)

theorem SearchItem.before_trans {a b c : SearchItem} : a.before b → b.before c → a.before c := by
  simp only [SearchItem.before_iff]
  rintro (h₁ | ⟨h₁, h₁'⟩) (h₂ | ⟨h₂, h₂'⟩)
  · exact .inl (h₁.trans h₂)
  · exact .inl (h₂ ▸ h₁)
  · exact .inl (h₁ ▸ h₂)
  · exact .inr ⟨h₁.trans h₂, h₁'.trans h₂'⟩

instance : IsTotal SearchItem SearchItem.before := ⟨SearchItem.before_total⟩

instance : IsTrans SearchItem SearchItem.before := ⟨fun _ _ _ => SearchItem.before_trans⟩

/-- `-sst_id` for a `size_t` id, stored in the `int idx` of a `SearchItem`: negation modulo
2^64, then the conversion to a 32-bit `int`, which keeps the low 32 bits. -/
def sstIdx (sstId : Nat) : Int :=
  let n : Nat := (2 ^ 64 - sstId % 2 ^ 64) % 2 ^ 64 % 2 ^ 32
  if n < 2 ^ 31 then (n : Int) else (n : Int) - 2 ^ 32

theorem sstIdx_of_le {sstId : Nat} (h : sstId ≤ 2 ^ 31) : sstIdx sstId = -sstId := by
  rcases Nat.eq_zero_or_pos sstId with rfl | hpos
  · rfl
  · have hn : (2 ^ 64 - sstId % 2 ^ 64) % 2 ^ 64 % 2 ^ 32 = 2 ^ 32 - sstId := by omega
    simp only [sstIdx, hn]
    split <;> omega

theorem sstIdx_of_gt {sstId : Nat} (h₁ : 2 ^ 31 < sstId) (h₂ : sstId ≤ 2 ^ 32) :
    sstIdx sstId = 2 ^ 32 - sstId := by
  have hn : (2 ^ 64 - sstId % 2 ^ 64) % 2 ^ 64 % 2 ^ 32 = 2 ^ 32 - sstId := by omega
  simp only [sstIdx, hn]
  split <;> omega

/-- The pairs the heap yields from its items in pop order: after popping an item it also pops
every item left with the same key, so the first item of each key wins. -/
def popRuns : Option String → List SearchItem → List (String × String)
  | _, [] => []
  | last, a :: l =>
    if last = some a.key then popRuns last l else (a.key, a.value) :: popRuns (some a.key) l

/-- Modelled from the spec: what a `HeapIterator` over `items` yields. -/
def heapIterator (items : List SearchItem) : List (String × String) :=
  popRuns none (items.insertionSort SearchItem.before)

/-- Modelled from the spec: what a `TwoMergeIterator` over `a`, the newer side, and `b` yields.
Keys come in ascending order, an ended side counts as past every key, and on a key both sides
hold, `a`'s pair is yielded and both sides advance. -/
def twoMerge : List (String × String) → List (String × String) → List (String × String)
  | [], b => b
  | p :: a, b =>
    let rest := b.dropWhile (fun q => q.1 < p.1)
    b.takeWhile (fun q => q.1 < p.1) ++
      p :: twoMerge a (if rest.head?.map Prod.fst = some p.1 then rest.tail else rest)

theorem twoMerge_eq_nil {a b : List (String × String)} : twoMerge a b = [] ↔ a = [] ∧ b = [] := by
  cases a <;> simp [twoMerge]

theorem mem_twoMerge {a b : List (String × String)} {q : String × String}
    (h : q ∈ twoMerge a b) : q ∈ a ∨ q ∈ b := by
  induction a generalizing b with
  | nil => exact .inr h
  | cons p a ih =>
    simp only [twoMerge, List.mem_append, List.mem_cons] at h
    rcases h with h | rfl | h
    · exact .inr (List.takeWhile_subset _ h)
    · exact .inl (List.mem_cons_self _ _)
    · refine (ih h).imp (List.mem_cons_of_mem _) fun h => List.dropWhile_subset (fun q => q.1 < p.1) ?_
      split at h
      · exact List.mem_of_mem_tail h
      · exact h

theorem le_of_mem_dropWhile {b : List (String × String)} (hb : Ascending b) {x : String}
    {q : String × String} (hq : q ∈ b.dropWhile (fun q => q.1 < x)) : x ≤ q.1 := by
  induction b with
  | nil => simp at hq
  | cons p b ih =>
    by_cases hp : p.1 < x
    · rw [List.dropWhile_cons_of_pos (by simpa using hp)] at hq
      exact ih hb.tail hq
    · rw [List.dropWhile_cons_of_neg (by simpa using hp)] at hq
      rcases List.mem_cons.1 hq with rfl | hq
      · exact not_lt.1 hp
      · exact (not_lt.1 hp).trans (hb.lt_of_mem hq).le

theorem skipKey_spec {R : List (String × String)} {x : String} (hR : Ascending R)
    (hx : ∀ q ∈ R, x ≤ q.1) :
    Ascending (if R.head?.map Prod.fst = some x then R.tail else R) ∧
    (∀ q ∈ (if R.head?.map Prod.fst = some x then R.tail else R), x < q.1) ∧
    ∀ k, k ≠ x → lookup (if R.head?.map Prod.fst = some x then R.tail else R) k = lookup R k := by
  cases R with
  | nil => simp [Ascending]
  | cons r R =>
    by_cases hr : r.1 = x
    · simp only [List.head?_cons, Option.map_some', hr, if_true, List.tail_cons]
      exact ⟨hR.tail, fun q hq => hr ▸ hR.lt_of_mem hq,
        fun k hk => by rw [lookup_cons, if_neg (hr ▸ Ne.symm hk)]⟩
    · have hlt : x < r.1 := lt_of_le_of_ne (hx r (List.mem_cons_self _ _)) (Ne.symm hr)
      simp only [List.head?_cons, Option.map_some', Option.some.injEq, hr, if_false]
      refine ⟨hR, fun q hq => ?_, by simp⟩
      rcases List.mem_cons.1 hq with rfl | hq
      · exact hlt
      · exact hlt.trans (hR.lt_of_mem hq)

/-- The two-way merge of two ascending cursors is ascending, and on every key the newer side
wins. -/
theorem twoMerge_spec {a b : List (String × String)} (ha : Ascending a) (hb : Ascending b) :
    Ascending (twoMerge a b) ∧ ∀ k, lookup (twoMerge a b) k = (lookup a k).or (lookup b k) := by
  induction a generalizing b with
  | nil => exact ⟨hb, fun _ => rfl⟩
  | cons p a ih =>
    have hT : ∀ q ∈ b.takeWhile (fun q => q.1 < p.1), q.1 < p.1 :=
      fun q hq => by simpa using List.mem_takeWhile_imp hq
    have hR : ∀ q ∈ b.dropWhile (fun q => q.1 < p.1), p.1 ≤ q.1 :=
      fun q hq => le_of_mem_dropWhile hb hq
    have hsplit : ∀ k, lookup b k = (lookup (b.takeWhile (fun q => q.1 < p.1)) k).or
        (lookup (b.dropWhile (fun q => q.1 < p.1)) k) := fun k => by
      rw [← lookup_append, List.takeWhile_append_dropWhile]
    obtain ⟨hR'asc, hR'gt, hR'lookup⟩ := skipKey_spec (hb.sublist (List.dropWhile_sublist _)) hR
    obtain ⟨hMasc, hMlookup⟩ := ih ha.tail hR'asc
    have hM : ∀ q ∈ twoMerge a _, p.1 < q.1 :=
      fun q hq => (mem_twoMerge hq).elim ha.lt_of_mem (hR'gt q)
    simp only [twoMerge]
    refine ⟨List.pairwise_append.2 ⟨hb.sublist (List.takeWhile_sublist _),
      List.pairwise_cons.2 ⟨hM, hMasc⟩, fun t ht q hq => ?_⟩, fun k => ?_⟩
    · rcases List.mem_cons.1 hq with rfl | hq
      · exact hT t ht
      · exact (hT t ht).trans (hM q hq)
    · rw [lookup_append, lookup_cons, hMlookup, hsplit, lookup_cons]
      rcases lt_trichotomy k p.1 with hk | rfl | hk
      · rw [if_neg hk.ne', if_neg hk.ne', lookup_eq_none.2 fun q hq => (hk.trans (ha.lt_of_mem hq)).ne',
          lookup_eq_none.2 fun q hq => (hk.trans (hR'gt q hq)).ne',
          lookup_eq_none.2 fun q hq => (hk.trans_le (hR q hq)).ne']
        simp
      · rw [if_pos rfl, if_pos rfl, lookup_eq_none.2 fun q hq => (hT q hq).ne]
        rfl
      · rw [if_neg hk.ne, if_neg hk.ne, hR'lookup k hk.ne',
          lookup_eq_none.2 fun q hq => ((hT q hq).trans hk).ne]
        rfl

example : twoMerge [("a", "1"), ("c", "3")] [("a", "0"), ("b", "2"), ("d", "4")] =
    [("a", "1"), ("b", "2"), ("c", "3"), ("d", "4")] := by decide

/-! ## What callers see -/

/-- Modelled from the spec (§3): a range iterator handed to a caller skips tombstones. The merges
above keep them, since a compaction streams them on (§4.6). -/
def skipTombstones (l : List (String × String)) : List (String × String) :=
  l.filter fun p => p.2 ≠ ""

theorem lookup_skipTombstones {l : List (String × String)} (hl : Ascending l) (k : String) :
    lookup (skipTombstones l) k = (lookup l k).bind liveValue := by
  induction l with
  | nil => rfl
  | cons p l ih =>
    rw [skipTombstones, List.filter_cons, ← skipTombstones, lookup_cons]
    by_cases hk : p.1 = k
    · subst hk
      have hl' : lookup l p.1 = none := lookup_eq_none.2 fun q hq => (hl.lt_of_mem hq).ne'
      by_cases hv : p.2 = ""
      · simp [hv, ih hl.tail, hl', liveValue]
      · simp [hv, lookup_cons, liveValue_of_ne hv]
    · by_cases hv : p.2 = "" <;> simp [hv, hk, lookup_cons, ih hl.tail]

theorem Ascending.skipTombstones {l : List (String × String)} (hl : Ascending l) :
    Ascending (skipTombstones l) := hl.sublist (List.filter_sublist _)

/-- The contract of a scan predicate (spec §4.2): positive, then zero, then negative as the key
ascends. -/
def PredMonotone (pred : String → Int) : Prop :=
  ∀ a b, a < b → (pred a ≤ 0 → pred b ≤ 0) ∧ (pred a < 0 → pred b < 0)

/-- Modelled from the spec (§4.2): the records that the two binary searches of a predicate scan
bracket, from the first whose key gives a non-positive value to the first giving a negative one. -/
def predicateRange (pred : String → Int) (l : List (String × String)) : List (String × String) :=
  (l.take (l.findIdx fun p => pred p.1 < 0)).drop (l.findIdx fun p => pred p.1 ≤ 0)

theorem predicateRange_eq_filter {pred : String → Int} (hp : PredMonotone pred) :
    ∀ {l : List (String × String)}, Ascending l →
      predicateRange pred l = l.filter fun p => pred p.1 = 0
  | [], _ => rfl
  | p :: l, hl => by
    have ih := predicateRange_eq_filter hp hl.tail
    -- past a key whose value is not positive, no value is positive
    have hle : pred p.1 ≤ 0 → ∀ q ∈ l, pred q.1 ≤ 0 := fun h q hq => (hp _ _ (hl.lt_of_mem hq)).1 h
    have hlt : pred p.1 < 0 → ∀ q ∈ l, pred q.1 < 0 := fun h q hq => (hp _ _ (hl.lt_of_mem hq)).2 h
    rcases lt_trichotomy (pred p.1) 0 with hneg | hzero | hpos
    · have hnil : l.filter (fun q => pred q.1 = 0) = [] :=
        List.filter_eq_nil_iff.2 fun q hq => by simpa using (hlt hneg q hq).ne
      simp [predicateRange, List.findIdx_cons, hneg, hneg.le, hneg.ne, hnil]
    · have h0 : l.findIdx (fun q => pred q.1 ≤ 0) = 0 := by
        cases l with
        | nil => rfl
        | cons q l => simp [List.findIdx_cons, hle hzero.le q (List.mem_cons_self _ _)]
      rw [predicateRange, h0, List.drop_zero] at ih
      simp [predicateRange, List.findIdx_cons, hzero, ih]
    · simp only [predicateRange, List.findIdx_cons, hpos.not_lt, not_le.2 hpos, decide_False,
        cond_false, List.take_succ_cons, List.drop_succ_cons, List.filter_cons, hpos.ne',
        decide_False] at ih ⊢
      exact ih

/-! ## The heap -/

theorem SearchItem.before.key_le {a b : SearchItem} (h : a.before b) : a.key ≤ b.key :=
  ((SearchItem.before_iff a b).1 h).elim le_of_lt fun h => h.1.le

section Heap

variable {l : List SearchItem}

theorem lt_of_mem_popRuns (hl : l.Sorted SearchItem.before) {x : String}
    (hx : ∀ it ∈ l, x ≤ it.key) {q : String × String} (hq : q ∈ popRuns (some x) l) : x < q.1 := by
  induction l generalizing x with
  | nil => simp [popRuns] at hq
  | cons a l ih =>
    have hl' := List.sorted_cons.1 hl
    unfold popRuns at hq
    split at hq
    · exact ih hl'.2 (fun it hit => hx it (List.mem_cons_of_mem _ hit)) hq
    · rename_i hne
      have hlt : x < a.key :=
        lt_of_le_of_ne (hx a (List.mem_cons_self _ _)) fun h => hne (h ▸ rfl)
      rcases List.mem_cons.1 hq with rfl | hq
      · exact hlt
      · exact hlt.trans (ih hl'.2 (fun it hit => (hl'.1 it hit).key_le) hq)

theorem popRuns_ascending (hl : l.Sorted SearchItem.before) (last : Option String) :
    Ascending (popRuns last l) := by
  induction l generalizing last with
  | nil => exact List.Pairwise.nil
  | cons a l ih =>
    have hl' := List.sorted_cons.1 hl
    unfold popRuns
    split
    · exact ih hl'.2 last
    · exact List.pairwise_cons.2
        ⟨fun q hq => lt_of_mem_popRuns hl'.2 (fun it hit => (hl'.1 it hit).key_le) hq, ih hl'.2 _⟩

theorem lookup_popRuns (hl : l.Sorted SearchItem.before) {last : Option String}
    (hlast : ∀ x ∈ last, ∀ it ∈ l, x ≤ it.key) (k : String) :
    lookup (popRuns last l) k =
      if last = some k then none else lookup (l.map fun it => (it.key, it.value)) k := by
  induction l generalizing last with
  | nil => simp [popRuns]
  | cons a l ih =>
    have hl' := List.sorted_cons.1 hl
    unfold popRuns
    rw [List.map_cons, lookup_cons]
    split
    · rename_i heq
      rw [ih hl'.2 fun x hx it hit => hlast x hx it (List.mem_cons_of_mem _ hit)]
      by_cases hak : a.key = k
      · simp [heq, hak]
      · simp [hak]
    · rename_i hne
      rw [lookup_cons, ih hl'.2 fun x hx it hit => by cases hx; exact (hl'.1 it hit).key_le]
      by_cases hak : a.key = k
      · subst hak; simp [hne]
      · simp only [hak, if_false, Option.some.injEq]
        split
        · rename_i hlk
          refine lookup_eq_none.2 ?_
          simp only [List.mem_map]
          rintro _ ⟨it, hit, rfl⟩ hitk
          have hka : k < a.key := lt_of_le_of_ne (hlast k hlk a (List.mem_cons_self _ _)) (Ne.symm hak)
          exact absurd hitk (hka.trans_le (hl'.1 it hit).key_le).ne'
        · rfl

theorem lookup_sorted_of_min (hl : l.Sorted SearchItem.before)
    (huniq : ∀ a ∈ l, ∀ b ∈ l, a.key = b.key → a.idx = b.idx → a.value = b.value)
    {it : SearchItem} (hit : it ∈ l) (hmin : ∀ b ∈ l, b.key = it.key → it.idx ≤ b.idx) :
    lookup (l.map fun it => (it.key, it.value)) it.key = some it.value := by
  induction l with
  | nil => simp at hit
  | cons a l ih =>
    have hl' := List.sorted_cons.1 hl
    rw [List.map_cons, lookup_cons]
    split
    · rename_i hak
      have hai : a.idx ≤ it.idx := by
        rcases List.mem_cons.1 hit with rfl | hit
        · exact le_rfl
        · rcases (SearchItem.before_iff a it).1 (hl'.1 it hit) with h | h
          · exact absurd hak h.ne
          · exact h.2
      exact congrArg some (huniq a (List.mem_cons_self _ _) it hit hak
        (le_antisymm hai (hmin a (List.mem_cons_self _ _) hak)))
    · rename_i hak
      have hit' : it ∈ l := (List.mem_cons.1 hit).resolve_left fun h => hak (h ▸ rfl)
      exact ih hl'.2 (fun a ha b hb => huniq a (List.mem_cons_of_mem _ ha) b (List.mem_cons_of_mem _ hb))
        hit' fun b hb => hmin b (List.mem_cons_of_mem _ hb)

end Heap

theorem heapIterator_eq_nil {items : List SearchItem} : heapIterator items = [] ↔ items = [] := by
  refine ⟨fun h => ?_, fun h => h ▸ rfl⟩
  rw [← List.length_eq_zero, ← (List.perm_insertionSort SearchItem.before items).length_eq]
  cases hs : items.insertionSort SearchItem.before with
  | nil => rfl
  | cons a l => simp [heapIterator, hs, popRuns] at h

theorem heapIterator_ascending (items : List SearchItem) : Ascending (heapIterator items) :=
  popRuns_ascending (List.sorted_insertionSort _ _) none

theorem lookup_heapIterator_of_min {items : List SearchItem}
    (huniq : ∀ a ∈ items, ∀ b ∈ items, a.key = b.key → a.idx = b.idx → a.value = b.value)
    {it : SearchItem} (hit : it ∈ items) (hmin : ∀ b ∈ items, b.key = it.key → it.idx ≤ b.idx) :
    lookup (heapIterator items) it.key = some it.value := by
  have hp := List.perm_insertionSort SearchItem.before items
  rw [heapIterator, lookup_popRuns (List.sorted_insertionSort _ _) (by simp), if_neg (by simp)]
  exact lookup_sorted_of_min (List.sorted_insertionSort _ _)
    (fun a ha b hb => huniq a (hp.subset ha) b (hp.subset hb)) (hp.symm.subset hit)
    fun b hb => hmin b (hp.subset hb)

theorem lookup_heapIterator_eq_none {items : List SearchItem} {k : String}
    (h : ∀ it ∈ items, it.key ≠ k) : lookup (heapIterator items) k = none := by
  have hp := List.perm_insertionSort SearchItem.before items
  rw [heapIterator, lookup_popRuns (List.sorted_insertionSort _ _) (by simp), if_neg (by simp),
    lookup_eq_none]
  simp only [List.mem_map]
  rintro _ ⟨it, hit, rfl⟩
  exact h it (hp.subset hit)

section Layers

/-! Heaps built from runs of items: each run with one `idx`, strictly increasing from run to run
among items of one key, and one value per key within a run (the memtable's skiplists, the SSTs
level by level). -/

variable {layers : List (List SearchItem)}
  (hconst : ∀ A ∈ layers, ∀ a ∈ A, ∀ b ∈ A, a.idx = b.idx)
  (hidx : layers.Pairwise fun A B => ∀ a ∈ A, ∀ b ∈ B, a.key = b.key → a.idx < b.idx)
  (hfun : ∀ A ∈ layers, ∀ a ∈ A, ∀ b ∈ A, a.key = b.key → a.value = b.value)

include hidx hfun in
theorem flatten_uniq :
    ∀ a ∈ layers.flatten, ∀ b ∈ layers.flatten, a.key = b.key → a.idx = b.idx → a.value = b.value := by
  induction layers with
  | nil => simp
  | cons A rest ih =>
    have hidx' := List.pairwise_cons.1 hidx
    have ih' := ih hidx'.2 fun B hB => hfun B (List.mem_cons_of_mem _ hB)
    simp only [List.flatten_cons, List.mem_append]
    have hcross : ∀ a ∈ A, ∀ b ∈ rest.flatten, a.key = b.key → a.idx ≠ b.idx := fun a ha b hb hk => by
      obtain ⟨B, hB, hb⟩ := List.mem_flatten.1 hb
      exact (hidx'.1 B hB a ha b hb hk).ne
    rintro a (ha | ha) b (hb | hb) hk hi
    · exact hfun A (List.mem_cons_self _ _) a ha b hb hk
    · exact absurd hi (hcross a ha b hb hk)
    · exact absurd hi.symm (hcross b hb a ha hk.symm)
    · exact ih' a ha b hb hk hi

include hconst hidx in
theorem exists_min_of_firstHit {k v : String}
    (h : firstHit (layers.map fun A => A.map fun it => (it.key, it.value)) k = some v) :
    ∃ it ∈ layers.flatten, it.key = k ∧ it.value = v ∧
      ∀ b ∈ layers.flatten, b.key = k → it.idx ≤ b.idx := by
  induction layers with
  | nil => simp [firstHit] at h
  | cons A rest ih =>
    have hidx' := List.pairwise_cons.1 hidx
    simp only [List.map_cons, firstHit, List.flatten_cons, List.mem_append] at h ⊢
    cases hA : lookup (A.map fun it => (it.key, it.value)) k with
    | some w =>
      rw [hA, Option.or_some] at h
      cases h
      obtain ⟨it, hit, hkv⟩ := List.mem_map.1 (lookup_eq_some hA)
      simp only [Prod.mk.injEq] at hkv
      refine ⟨it, .inl hit, hkv.1, hkv.2, ?_⟩
      rintro b (hb | hb) hbk
      · exact (hconst A (List.mem_cons_self _ _) it hit b hb).le
      · obtain ⟨B, hB, hb⟩ := List.mem_flatten.1 hb
        exact (hidx'.1 B hB it hit b hb (hkv.1.trans hbk.symm)).le
    | none =>
      rw [hA, Option.none_or] at h
      obtain ⟨it, hit, hk, hv, hmin⟩ :=
        ih (fun B hB => hconst B (List.mem_cons_of_mem _ hB)) hidx'.2 h
      refine ⟨it, .inr hit, hk, hv, ?_⟩
      rintro b (hb | hb) hbk
      · exact absurd hbk (lookup_eq_none.1 hA _ (List.mem_map_of_mem _ hb))
      · exact hmin b hb hbk

include hconst hidx hfun in
theorem lookup_heapIterator_flatten (k : String) :
    lookup (heapIterator layers.flatten) k =
      firstHit (layers.map fun A => A.map fun it => (it.key, it.value)) k := by
  cases h : firstHit (layers.map fun A => A.map fun it => (it.key, it.value)) k with
  | some v =>
    obtain ⟨it, hit, rfl, rfl, hmin⟩ := exists_min_of_firstHit hconst hidx h
    exact lookup_heapIterator_of_min (flatten_uniq hidx hfun) hit hmin
  | none =>
    refine lookup_heapIterator_eq_none fun it hit hk => ?_
    rw [firstHit_eq_lookup, lookup_eq_none] at h
    refine h (it.key, it.value) ?_ hk
    obtain ⟨A, hA, hit⟩ := List.mem_flatten.1 hit
    exact List.mem_flatten.2 ⟨_, List.mem_map_of_mem _ hA, List.mem_map_of_mem _ hit⟩

include hconst hidx hfun in
theorem lookup_heapIterator_flatten_filter (p : String → Bool) (k : String) :
    lookup (heapIterator (layers.flatten.filter fun it => p it.key)) k =
      if p k then firstHit (layers.map fun A => A.map fun it => (it.key, it.value)) k else none := by
  have hsub : ∀ A ∈ layers.map (List.filter fun it => p it.key), ∃ B ∈ layers, A ⊆ B := by
    simp only [List.mem_map]
    rintro _ ⟨B, hB, rfl⟩
    exact ⟨B, hB, List.filter_subset' B⟩
  rw [List.filter_flatten, lookup_heapIterator_flatten, firstHit_eq_lookup, firstHit_eq_lookup,
    ← lookup_filter]
  · simp [List.filter_flatten, List.filter_map, Function.comp_def]
  · intro A hA a ha b hb
    obtain ⟨B, hB, hAB⟩ := hsub A hA
    exact hconst B hB a (hAB ha) b (hAB hb)
  · exact List.pairwise_map.2 (hidx.imp fun h a ha b hb =>
      h a (List.mem_of_mem_filter ha) b (List.mem_of_mem_filter hb))
  · intro A hA a ha b hb
    obtain ⟨B, hB, hAB⟩ := hsub A hA
    exact hfun B hB a (hAB ha) b (hAB hb)

end Layers

example : heapIterator [⟨"b", "old", 0, 0⟩, ⟨"a", "x", 3, 0⟩, ⟨"b", "new", -1, 0⟩] =
    [("a", "x"), ("b", "new")] := by decide

end LsmTree
