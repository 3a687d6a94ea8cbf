import LsmTree.Runs
set_option autoImplicit false

/-!
# The range cursors

`lsm_iters_monotony_predicate` merges the memtable with one heap over the SSTs of every level,
each record ranked by its SST's negated id. The heap keeps the newest version of each key, a
tombstone included, as long as the ids fit its `int`: on every reachable state the scan is the
store's scan. `begin()` merges the memtable with a heap over the level-0
SSTs only, so a key that compaction has moved to a deeper level is missed.
-/

namespace LsmTree

namespace LSMEngine

/-! ## The predicate scan -/

/-- The heap items `lsm_iters_monotony_predicate` takes from an SST at a level. -/
def sstLayer (level : Nat) (t : SST) : List SearchItem :=
  t.entries.map fun p => ⟨p.1, p.2, sstIdx t.sstId, level⟩

/-- The heap items of every SST, level by level, one run per SST. -/
def sstLayers (s : LSMEngine) : List (List SearchItem) :=
  (List.range s.levelSstIds.length).flatMap fun level => (s.levelSsts level).map (sstLayer level)

theorem mem_sstLayer {level : Nat} {t : SST} {a : SearchItem} (h : a ∈ sstLayer level t) :
    (a.key, a.value) ∈ t.entries ∧ a.idx = sstIdx t.sstId := by
  obtain ⟨p, hp, rfl⟩ := List.mem_map.1 h
  exact ⟨hp, rfl⟩

theorem getD_sstItersMonotonyPredicate {t : SST} (hasc : Ascending t.entries) {pred : String → Int}
    (hp : PredMonotone pred) :
    (sstItersMonotonyPredicate t pred).getD [] = t.entries.filter fun p => pred p.1 = 0 := by
  simp only [sstItersMonotonyPredicate, predicateRange_eq_filter hp hasc]
  split_ifs with h
  · exact h.symm
  · rfl

theorem mapM_eq_some_map {α β : Type} {f : α → Option β} {g : α → β} :
    ∀ {l : List α}, (∀ x ∈ l, f x = some (g x)) → l.mapM f = some (l.map g)
  | [], _ => rfl
  | x :: l, h => by
    rw [List.mapM_cons, h x (List.mem_cons_self x l),
      mapM_eq_some_map fun y hy => h y (List.mem_cons_of_mem x hy)]
    rfl

section Scan

variable {s : LSMEngine}

theorem Wf.mapM_predicateLevel (hs : s.Wf) {pred : String → Int} (hp : PredMonotone pred)
    (level : Nat) :
    ((s.levelIds level).mapM fun id => do
      let t ← s.sst? id
      some (((sstItersMonotonyPredicate t pred).getD []).map
        fun p => (⟨p.1, p.2, sstIdx id, level⟩ : SearchItem))) =
      some ((s.levelSsts level).map fun t => (sstLayer level t).filter fun it => pred it.key = 0) := by
  have h : ∀ id ∈ s.levelIds level, (s.sst? id).isSome := fun _ h => hs.isSome_sst? h
  rw [levelSsts]
  generalize s.levelIds level = ids at h ⊢
  induction ids with
  | nil => rfl
  | cons id ids ih =>
    obtain ⟨t, ht⟩ := Option.isSome_iff_exists.1 (h id (List.mem_cons_self _ _))
    rw [List.mapM_cons, ih fun id' hid' => h id' (List.mem_cons_of_mem _ hid'), List.filterMap_cons, ht]
    simp [ht, (sst?_spec ht).2, sstLayer, getD_sstItersMonotonyPredicate
      (hs.ascending t (sst?_spec ht).1) hp, List.filter_map, Function.comp_def]

theorem Wf.predicateItems_eq (hs : s.Wf) {pred : String → Int} (hp : PredMonotone pred) :
    s.predicateItems pred = some (s.sstLayers.flatten.filter fun it => pred it.key = 0) := by
  simp only [predicateItems]
  rw [mapM_eq_some_map (g := fun x : Nat × List Nat =>
    (s.levelSsts x.1).map fun t => (sstLayer x.1 t).filter fun it => pred it.key = 0)]
  · have he : ∀ {β : Type} (g : Nat → β), s.levelSstIds.enum.map (fun x => g x.1) =
        (List.range s.levelSstIds.length).map g := fun g => by
      rw [← List.enum_map_fst, List.map_map]
      rfl
    simp only [he (fun l => (s.levelSsts l).map fun t => (sstLayer l t).filter fun it => pred it.key = 0)]
    simp [sstLayers, List.flatMap_def, List.filter_flatten, List.map_flatten, List.map_map,
      Function.comp_def]
  · rintro ⟨level, ids⟩ hx
    obtain ⟨hl, hid⟩ := List.mem_enum hx
    have hids : ids = s.levelIds level := by
      simp [hid, levelIds, List.getD_eq_getElem?_getD, hl]
    subst hids
    exact hs.mapM_predicateLevel hp level

theorem sstLayer_idx_lt {t u : SST} (ht : t.sstId ≤ 2 ^ 31) (hu : u.sstId ≤ 2 ^ 31)
    (h : u.sstId < t.sstId) (l₁ l₂ : Nat) :
    ∀ a ∈ sstLayer l₁ t, ∀ b ∈ sstLayer l₂ u, a.idx < b.idx := fun a ha b hb => by
  rw [(mem_sstLayer ha).2, (mem_sstLayer hb).2, sstIdx_of_le ht, sstIdx_of_le hu]
  omega

theorem Wf.sstLayers_pairwise (hs : s.Wf) (hord : s.OrderedFrom 0)
    (hid : ∀ t ∈ s.ssts, t.sstId ≤ 2 ^ 31) :
    s.sstLayers.Pairwise fun A B => ∀ a ∈ A, ∀ b ∈ B, a.key = b.key → a.idx < b.idx := by
  have hb : ∀ {level t}, t ∈ s.levelSsts level → t.sstId ≤ 2 ^ 31 := fun ht => hid _ (mem_levelSsts ht)
  have hmem : ∀ {level t}, t ∈ s.levelSsts level → t.sstId ∈ s.levelIds level := fun ht =>
    hs.map_sstId_levelSsts _ ▸ List.mem_map_of_mem _ ht
  refine List.pairwise_flatMap.2 ⟨fun level _ => List.pairwise_map.2 ?_, ?_⟩
  · rcases Nat.eq_zero_or_pos level with rfl | hl
    · have h0 := hs.map_sstId_levelSsts 0 ▸ hs.level0
      refine (List.pairwise_map.1 h0).imp_of_mem fun ht hu htu a ha b hb' _ => ?_
      exact sstLayer_idx_lt (hb ht) (hb hu) htu 0 0 a ha b hb'
    · refine (hs.deeper' hl).2.1.imp_of_mem fun ht hu htu a ha b hb' hab => absurd hab ?_
      have ha' := SST.key_mem_range (hs.ascending_of_mem_levelSsts ht) (mem_sstLayer ha).1
      have hb'' := SST.key_mem_range (hs.ascending_of_mem_levelSsts hu) (mem_sstLayer hb').1
      exact (ha'.2.trans_lt (htu.trans_le hb''.1)).ne
  · refine (List.pairwise_lt_range _).imp_of_mem fun {l₁ l₂} _ _ hlt A hA B hB => ?_
    obtain ⟨t, ht, rfl⟩ := List.mem_map.1 hA
    obtain ⟨u, hu, rfl⟩ := List.mem_map.1 hB
    have hut := hord l₁ (lt_length_of_mem (hmem ht)) l₂ (lt_length_of_mem (hmem hu))
      ⟨Nat.zero_le _, hlt⟩ _ (hmem ht) _ (hmem hu)
    exact fun a ha b hb' _ => sstLayer_idx_lt (hb ht) (hb hu) hut l₁ l₂ a ha b hb'

theorem Wf.lookup_heapIterator_sstLayers (hs : s.Wf) (hord : s.OrderedFrom 0)
    (hid : ∀ t ∈ s.ssts, t.sstId ≤ 2 ^ 31) (pred : String → Int) (k : String) :
    lookup (heapIterator (s.sstLayers.flatten.filter fun it => pred it.key = 0)) k =
      if pred k = 0 then lookup s.levelOrder k else none := by
  have hlayer : ∀ A ∈ s.sstLayers, ∃ level, ∃ t ∈ s.levelSsts level, A = sstLayer level t := by
    intro A hA
    obtain ⟨level, -, hA⟩ := List.mem_flatMap.1 hA
    obtain ⟨t, ht, rfl⟩ := List.mem_map.1 hA
    exact ⟨level, t, ht, rfl⟩
  have h := lookup_heapIterator_flatten_filter
    (fun A hA a ha b hb => by
      obtain ⟨level, t, -, rfl⟩ := hlayer A hA
      rw [(mem_sstLayer ha).2, (mem_sstLayer hb).2])
    (hs.sstLayers_pairwise hord hid)
    (fun A hA a ha b hb hab => by
      obtain ⟨level, t, ht, rfl⟩ := hlayer A hA
      have hasc := hs.ascending_of_mem_levelSsts ht
      have h := lookup_of_mem hasc (mem_sstLayer hb).1
      rw [← hab, lookup_of_mem hasc (mem_sstLayer ha).1] at h
      exact Option.some.inj h)
    (fun k => decide (pred k = 0)) k
  simp only [decide_eq_true_eq] at h
  rw [h, firstHit_eq_lookup]
  congr 2
  simp [sstLayers, sstLayer, levelOrder, concactIterator, List.flatMap_def, List.map_flatten,
    List.map_map, Function.comp_def, List.flatten_flatten]

theorem Wf.lsmItersMonotonyPredicate_eq (hs : s.Wf) (hord : s.OrderedFrom 0)
    (hid : s.curMaxSstId ≤ 2 ^ 31 + 1) {pred : String → Int} (hp : PredMonotone pred) :
    ∃ R, Ascending R ∧ (∀ k, lookup R k = if pred k = 0 then s.view k else none) ∧
      s.lsmItersMonotonyPredicate pred = some (if R = [] then none else some (skipTombstones R)) := by
  have hid' : ∀ t ∈ s.ssts, t.sstId ≤ 2 ^ 31 := fun t ht => by
    have := hs.maxId t ht
    omega
  obtain ⟨hMa, hMl⟩ := s.memtable.itersMonotonyPredicate_spec hp
  obtain ⟨hRa, hRl⟩ := twoMerge_spec hMa (heapIterator_ascending
    (s.sstLayers.flatten.filter fun it => pred it.key = 0))
  refine ⟨_, hRa, fun k => ?_, ?_⟩
  · rw [hRl, hMl, hs.lookup_heapIterator_sstLayers hord hid' pred k, view_eq]
    split_ifs <;> rfl
  · simp only [lsmItersMonotonyPredicate, hs.predicateItems_eq hp, Option.bind_eq_bind,
      Option.some_bind]
    by_cases hm : s.memtable.itersMonotonyPredicate pred = none ∧
        (s.sstLayers.flatten.filter fun it => pred it.key = 0) = []
    · rw [if_pos hm, hm.1, hm.2]
      rfl
    · rw [if_neg hm, if_neg]
      rw [twoMerge_eq_nil, heapIterator_eq_nil]
      refine fun h => hm ⟨?_, h.2⟩
      cases hr : s.memtable.itersMonotonyPredicate pred with
      | none => rfl
      | some r =>
        rw [hr, Option.getD_some] at h
        exact absurd (hr ▸ h.1 ▸ rfl) (s.memtable.itersMonotonyPredicate_ne_some_nil pred)

/-- Holding a store, the engine's predicate scan is the store's: the live newest version of every
key where `pred` is zero. -/
theorem Wf.lsmItersMonotonyPredicate_refines (hs : s.Wf) (hord : s.OrderedFrom 0)
    (hid : s.curMaxSstId ≤ 2 ^ 31 + 1) {kv : KVStore} (hkv : s.Refines kv) {pred : String → Int}
    (hp : PredMonotone pred) :
    s.lsmItersMonotonyPredicate pred = some (kv.itersMonotonyPredicate pred) := by
  obtain ⟨R, hRa, hRl, hR⟩ := hs.lsmItersMonotonyPredicate_eq hord hid hp
  have hF : R = kv.entries.filter fun p => pred p.1 = 0 :=
    ascending_ext hRa (kv.ascending.filter _) fun k => by
      rw [hRl, lookup_filter (fun k => decide (pred k = 0)), hkv k]
      simp
  rw [hR, hF]
  rfl

end Scan

variable (cfg : Config)

/-- Every state a run reaches from an engine on a directory with no SST file, while the ids it
minted fit the heap's `int`, scans as the store the same run builds, for every predicate keeping
the contract. -/
theorem scan_eq_store_scan (dataDir : String) (dir : List DirEntry) (ops : List Op)
    {s' : LSMEngine} (h : (empty dataDir dir).run cfg ops = some s')
    (hid : s'.curMaxSstId ≤ 2 ^ 31 + 1) {pred : String → Int} (hp : PredMonotone pred) :
    s'.lsmItersMonotonyPredicate pred = some ((KVStore.empty.run ops).itersMonotonyPredicate pred) := by
  obtain ⟨hwf, hord, -, href⟩ := (wf_empty dataDir dir).run_spec cfg ops h
  exact hwf.lsmItersMonotonyPredicate_refines (hord fun _ hi => absurd hi (Nat.not_lt_zero _)) hid
    (href hid _ (refines_empty dataDir dir)) hp

/-- A tombstone flushed over an SST value, with `LSM_SST_LEVEL_RATIO = 2`. -/
def flushedTombstone : List Op :=
  [.put "a" "1", .put "ab" "2", .flush, .remove "a", .flush, .put "b" "3"]

theorem scan_eq_store_scan_flushedTombstone :
    ∃ s', (empty "db" []).run (Config.withLimits 1 1000 2) flushedTombstone = some s' ∧
      s'.curMaxSstId ≤ 2 ^ 31 + 1 ∧ PredMonotone (prefixPredicate "a") ∧
      s'.lsmItersMonotonyPredicate (prefixPredicate "a") =
        some ((KVStore.empty.run flushedTombstone).itersMonotonyPredicate (prefixPredicate "a")) :=
  have h := Option.eq_some_of_isSome
    (by decide : ((empty "db" []).run (Config.withLimits 1 1000 2) flushedTombstone).isSome)
  ⟨_, h, by decide, prefixPredicate_monotone "a",
    scan_eq_store_scan _ "db" [] flushedTombstone h (by decide) (prefixPredicate_monotone "a")⟩

example : (KVStore.empty.run flushedTombstone).itersMonotonyPredicate (prefixPredicate "a") =
    some [("ab", "2")] := by decide

/-- Past `2 ^ 31` ids the heap of `lsm_iters_monotony_predicate` ranks the SSTs by an `int` that
no longer grows with the id: of `k` flushed under the ids `2 ^ 31` and `2 ^ 31 + 1`, the older
version wins the scan, while `get` reads the newer one. -/
theorem scan_returns_older_version_past_int_ids :
    ∃ s', (empty "db" []).run (Config.withLimits 1 1000 2)
        (idRounds (2 ^ 31) ++ [.put "k" "old", .flush, .put "k" "new", .flush]) = some s' ∧
      PredMonotone (prefixPredicate "k") ∧ s'.get "k" = some (some "new") ∧
      s'.lsmItersMonotonyPredicate (prefixPredicate "k") = some (some [("k", "old")]) := by
  have h0 : empty "db" [] = { empty "db" [] with curMaxSstId := 0 } := rfl
  rw [run_append, h0, run_idRounds, Option.some_bind, Nat.zero_add]
  have h := Option.eq_some_of_isSome (by decide : (({ empty "db" [] with curMaxSstId := 2 ^ 31 }).run
    (Config.withLimits 1 1000 2) [.put "k" "old", .flush, .put "k" "new", .flush]).isSome)
  exact ⟨_, h, prefixPredicate_monotone "k", by decide, by decide⟩

/-! ## The full scan -/

theorem mem_of_mem_flatten_tails {l : List (String × String)} {q : String × String}
    (hq : q ∈ l.tails.dropLast.flatten) : q ∈ l := by
  obtain ⟨r, hr, hq⟩ := List.mem_flatten.1 hq
  exact ((List.mem_tails _ _).1 (List.dropLast_subset _ hr)).subset hq

theorem lookup_flatten_tails (l : List (String × String)) (k : String) :
    lookup l.tails.dropLast.flatten k = lookup l k := by
  cases l with
  | nil => rfl
  | cons p l =>
    rw [List.tails, List.dropLast_cons_of_ne_nil (by cases l <;> simp [List.tails]), List.flatten_cons,
      lookup_append]
    cases h : lookup (p :: l) k with
    | some v => rfl
    | none =>
      exact lookup_eq_none.2 fun q hq => lookup_eq_none.1 h q
        (List.mem_cons_of_mem p (mem_of_mem_flatten_tails hq))

theorem mergeSstIterator_cursors_spec {ts : List SST} (hasc : ∀ t ∈ ts, Ascending t.entries)
    (hids : ts.Pairwise fun a b => b.sstId < a.sstId) (hbound : ∀ t ∈ ts, t.sstId ≤ 2 ^ 31)
    (k : String) :
    lookup (mergeSstIterator (ts.flatMap SST.cursors)) k = lookup (concactIterator ts) k := by
  have hlayers : ((ts.flatMap SST.cursors).flatMap fun it =>
      it.rest.map fun p => (⟨p.1, p.2, sstIdx it.sstId, 0⟩ : SearchItem)) =
      (ts.map fun t => t.entries.tails.dropLast.flatten.map
        fun p => (⟨p.1, p.2, sstIdx t.sstId, 0⟩ : SearchItem)).flatten := by
    simp [SST.cursors, List.flatMap_def, List.map_flatten, List.flatten_flatten, Function.comp_def]
  rw [mergeSstIterator, hlayers, lookup_heapIterator_sstRuns _
      (fun _ _ hp => mem_of_mem_flatten_tails hp) hasc hids hbound,
    firstHit_map_congr (f := fun t : SST => t.entries.tails.dropLast.flatten) (g := SST.entries)
      fun t => lookup_flatten_tails t.entries k, firstHit_eq_lookup, concactIterator,
    List.flatMap_def]

section Begin

variable {s : LSMEngine}

/-- On a well-formed state whose level-0 ids fit the heap's `int`, `begin()..end()` yields, in
ascending order, every key whose newest version in the memtable or level 0 is live, with that
version: the deeper levels are not read. -/
theorem begin_reads_memtable_and_level0 (hs : s.Wf) (hid : ∀ id ∈ s.levelIds 0, id ≤ 2 ^ 31) :
    ∃ R, s.begin = some R ∧ Ascending R ∧ ∀ k, lookup R k =
      ((s.memtable.get k).or (lookup (concactIterator (s.levelSsts 0)) k)).bind liveValue := by
  have hl0 : (s.levelIds 0).mapM s.sst? = some (s.levelSsts 0) :=
    mapM_sst? fun _ h => hs.isSome_sst? h
  have hmem : ∀ {t}, t ∈ s.levelSsts 0 → t.sstId ∈ s.levelIds 0 := fun ht =>
    hs.map_sstId_levelSsts 0 ▸ List.mem_map_of_mem _ ht
  obtain ⟨hMa, hMl⟩ := s.memtable.begin_spec
  obtain ⟨hRa, hRl⟩ := twoMerge_spec hMa (heapIterator_ascending
    (((s.levelSsts 0).flatMap SST.cursors).flatMap fun it =>
      it.rest.map fun p => (⟨p.1, p.2, sstIdx it.sstId, 0⟩ : SearchItem)))
  refine ⟨_, by simp only [begin, hl0, Option.bind_eq_bind, Option.some_bind]; rfl,
    hRa.skipTombstones, fun k => ?_⟩
  rw [lookup_skipTombstones hRa, hRl, hMl, ← mergeSstIterator, mergeSstIterator_cursors_spec
    (fun _ ht => hs.ascending_of_mem_levelSsts ht)
    (List.pairwise_map.1 (hs.map_sstId_levelSsts 0 ▸ hs.level0)) (fun _ ht => hid _ (hmem ht))]

end Begin

/-- Two flushes with `LSM_SST_LEVEL_RATIO = 1`: the second compacts `a` into level 1. -/
def twoFlushes : List Op := [.put "a" "1", .put "b" "2", .flush, .put "c" "3", .flush]

theorem begin_reads_memtable_and_level0_twoFlushes :
    ∃ s, (empty "db" []).run (Config.withLimits 1 1000 1) twoFlushes = some s ∧ s.Wf ∧
      (∀ id ∈ s.levelIds 0, id ≤ 2 ^ 31) ∧ ∃ R, s.begin = some R ∧ Ascending R ∧ ∀ k, lookup R k =
        ((s.memtable.get k).or (lookup (concactIterator (s.levelSsts 0)) k)).bind liveValue :=
  have h := Option.eq_some_of_isSome
    (by decide : ((empty "db" []).run (Config.withLimits 1 1000 1) twoFlushes).isSome)
  have hs : (Option.get _ (by decide : ((empty "db" []).run (Config.withLimits 1 1000 1)
      twoFlushes).isSome)).Wf := by decide
  ⟨_, h, hs, by decide, begin_reads_memtable_and_level0 hs (by decide)⟩

/-- `get` finds `a` on level 1, where the scan from `begin()` never looks. -/
theorem begin_misses_level_one :
    ∃ s, (empty "db" []).run (Config.withLimits 1 1000 1) twoFlushes = some s ∧
      s.get "a" = some (some "1") ∧ s.begin = some [("b", "2"), ("c", "3")] := by
  have h := Option.eq_some_of_isSome
    (by decide : ((empty "db" []).run (Config.withLimits 1 1000 1) twoFlushes).isSome)
  exact ⟨_, h, by decide, by decide⟩

end LSMEngine

end LsmTree
