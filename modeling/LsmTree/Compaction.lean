import LsmTree.Get
set_option autoImplicit false

/-!
# Compaction keeps the newest versions

`gen_sst_from_iter` cuts a stream of records into SSTs without losing, doubling or reordering one
(`genSstFromIter_spec`). `compactInto` replaces levels `src` and `src + 1` by the SSTs cut from
their merge, which answers every key as the two levels did, level `src` first; `fullCompact` is a
cascade of such steps. Level 0's merge goes through the heap ordered by `sstIdx`, which puts the
newest SST first only while ids stay at or below 2^31.
-/

namespace LsmTree

namespace LSMEngine

variable (cfg : Config)

/-! ## Cutting a stream into SSTs -/

theorem genSstFromIter_loop_spec (target level : Nat) :
    ∀ (iter : List (String × String)) (b : SSTBuilder) (acc : List SST) (s : LSMEngine),
    ∃ out : List SST, (genSstFromIter.loop cfg target level iter b acc s).1 = acc ++ out ∧
      out.flatMap SST.entries = b.entries ++ iter ∧ (∀ t ∈ out, t.entries ≠ []) ∧
      out.map SST.sstId = List.range' s.curMaxSstId out.length ∧
      (genSstFromIter.loop cfg target level iter b acc s).2 =
        { s with curMaxSstId := s.curMaxSstId + out.length,
                 dir := (genSstFromIter.loop cfg target level iter b acc s).2.dir }
  | [], b, acc, s => by
    by_cases h : 0 < b.estimatedSize cfg
    · have hb : b.entries ≠ [] := fun hb => by
        simp [SSTBuilder.estimatedSize, (cfg.estimatedSize_eq_zero _).2 hb] at h
      refine ⟨[b.build s.curMaxSstId (sstFileName s.curMaxSstId level)], ?_⟩
      simp [genSstFromIter.loop, h, buildSst, SSTBuilder.build, hb]
    · have hb : b.entries = [] :=
        (cfg.estimatedSize_eq_zero _).1 (Nat.eq_zero_of_not_pos h)
      exact ⟨[], by simp [genSstFromIter.loop, h, hb]⟩
  | p :: rest, b, acc, s => by
    simp only [genSstFromIter.loop]
    split
    · obtain ⟨out, h1, h2, h3, h4, h5⟩ := genSstFromIter_loop_spec target level rest .empty
        (acc ++ [(b.add p.1 p.2).build s.curMaxSstId (sstFileName s.curMaxSstId level)])
        (s.buildSst (b.add p.1 p.2) level).2
      simp only [buildSst] at h1 h4 h5 ⊢
      refine ⟨(b.add p.1 p.2).build s.curMaxSstId (sstFileName s.curMaxSstId level) :: out,
        by simp [h1], by simp [SSTBuilder.build, SSTBuilder.add, h2, SSTBuilder.empty], ?_,
        by simp [SSTBuilder.build, h4, List.range'_succ], ?_⟩
      · simp only [List.mem_cons]
        rintro t (rfl | ht)
        · simp [SSTBuilder.build, SSTBuilder.add]
        · exact h3 t ht
      · rw [h5]
        simp only [List.length_cons]
        congr 1
        omega
    · obtain ⟨out, h1, h2, h3, h4, h5⟩ :=
        genSstFromIter_loop_spec target level rest (b.add p.1 p.2) acc s
      exact ⟨out, h1, by simp [h2, SSTBuilder.add], h3, h4, h5⟩

theorem genSstFromIter_spec (s : LSMEngine) (iter : List (String × String)) (target level : Nat) :
    ∃ out : List SST, (s.genSstFromIter cfg iter target level).1 = out ∧
      out.flatMap SST.entries = iter ∧ (∀ t ∈ out, t.entries ≠ []) ∧
      out.map SST.sstId = List.range' s.curMaxSstId out.length ∧
      (s.genSstFromIter cfg iter target level).2 =
        { s with curMaxSstId := s.curMaxSstId + out.length,
                 dir := (s.genSstFromIter cfg iter target level).2.dir } := by
  obtain ⟨out, h1, h2, h3, h4, h5⟩ := genSstFromIter_loop_spec cfg target level iter .empty [] s
  exact ⟨out, by simpa using h1, by simpa [SSTBuilder.empty] using h2, h3, h4, h5⟩

theorem genSstFromIter_loop_full (target level : Nat) :
    ∀ (iter : List (String × String)) (b : SSTBuilder) (acc : List SST) (s : LSMEngine),
    (∀ t ∈ acc, target ≤ cfg.estimatedSize t.entries) →
    ∀ t ∈ (genSstFromIter.loop cfg target level iter b acc s).1.dropLast,
      target ≤ cfg.estimatedSize t.entries
  | [], b, acc, s, hacc => by
    simp only [genSstFromIter.loop]
    split
    · simpa using hacc
    · exact fun t ht => hacc t (List.dropLast_subset _ ht)
  | p :: rest, b, acc, s, hacc => by
    simp only [genSstFromIter.loop]
    split
    · rename_i h
      refine genSstFromIter_loop_full target level rest .empty _ _ fun t ht => ?_
      rcases List.mem_append.1 ht with ht | ht
      · exact hacc t ht
      · rw [List.mem_singleton.1 ht]
        exact h
    · exact genSstFromIter_loop_full target level rest _ acc s hacc

/-! ## Levels as runs -/

theorem SST.exists_mem_firstKey {t : SST} (h : t.entries ≠ []) :
    ∃ p ∈ t.entries, p.1 = t.getFirstKey := by
  cases he : t.entries with
  | nil => exact absurd he h
  | cons e es => exact ⟨e, List.mem_cons_self _ _, by simp [SST.getFirstKey, he]⟩

theorem SST.exists_mem_lastKey {t : SST} (h : t.entries ≠ []) :
    ∃ p ∈ t.entries, p.1 = t.getLastKey := by
  rcases List.eq_nil_or_concat t.entries with he | ⟨L, b, he⟩
  · exact absurd he h
  · rw [List.concat_eq_append] at he
    exact ⟨b, he ▸ List.mem_append_right _ (List.mem_singleton_self _),
      by simp [SST.getLastKey, he]⟩

theorem ascending_concact {ts : List SST} (hasc : ∀ t ∈ ts, Ascending t.entries)
    (hrange : ts.Pairwise fun a b => a.getLastKey < b.getFirstKey) :
    Ascending (concactIterator ts) := by
  induction ts with
  | nil => exact List.Pairwise.nil
  | cons t ts ih =>
    obtain ⟨h1, h2⟩ := List.pairwise_cons.1 hrange
    have ht := hasc t (List.mem_cons_self _ _)
    refine List.pairwise_append.2 ⟨ht, ih (fun u hu => hasc u (List.mem_cons_of_mem _ hu)) h2,
      fun p hp q hq => ?_⟩
    obtain ⟨u, hu, hq⟩ := List.mem_flatMap.1 hq
    exact ((SST.key_mem_range ht hp).2.trans_lt (h1 u hu)).trans_le
      (SST.key_mem_range (hasc u (List.mem_cons_of_mem _ hu)) hq).1

theorem ranges_of_ascending_concact {ts : List SST} (h : Ascending (concactIterator ts))
    (hne : ∀ t ∈ ts, t.entries ≠ []) :
    (∀ t ∈ ts, Ascending t.entries) ∧ ts.Pairwise fun a b => a.getLastKey < b.getFirstKey := by
  induction ts with
  | nil => exact ⟨by simp, List.Pairwise.nil⟩
  | cons t ts ih =>
    obtain ⟨h1, h2, h3⟩ := List.pairwise_append.1 (show Ascending (t.entries ++ concactIterator ts) from h)
    obtain ⟨ih1, ih2⟩ := ih h2 fun u hu => hne u (List.mem_cons_of_mem _ hu)
    refine ⟨List.forall_mem_cons.2 ⟨h1, ih1⟩, List.pairwise_cons.2 ⟨fun u hu => ?_, ih2⟩⟩
    obtain ⟨p, hp, hpk⟩ := SST.exists_mem_lastKey (hne t (List.mem_cons_self _ _))
    obtain ⟨q, hq, hqk⟩ := SST.exists_mem_firstKey (hne u (List.mem_cons_of_mem _ hu))
    rw [← hpk, ← hqk]
    exact h3 p hp q (List.mem_flatMap.2 ⟨u, hu, hq⟩)

/-- `gen_sst_from_iter` cuts a strictly ascending stream into non-empty SSTs that hold it in
order, with ascending ranges that do not meet, under the ids `cur_max_sst_id, cur_max_sst_id + 1, …`,
and every SST but the last was cut once the builder's estimated size reached `target_sst_size`. -/
theorem genSstFromIter_cuts_ascending_stream (s : LSMEngine) {iter : List (String × String)}
    (hiter : Ascending iter) (target level : Nat) :
    ∃ out : List SST, (s.genSstFromIter cfg iter target level).1 = out ∧
      out.flatMap SST.entries = iter ∧ (∀ t ∈ out, t.entries ≠ [] ∧ Ascending t.entries) ∧
      out.Pairwise (fun a b => a.getLastKey < b.getFirstKey) ∧
      out.map SST.sstId = List.range' s.curMaxSstId out.length ∧
      (s.genSstFromIter cfg iter target level).2.curMaxSstId = s.curMaxSstId + out.length ∧
      ∀ t ∈ out.dropLast, target ≤ cfg.estimatedSize t.entries := by
  obtain ⟨out, h1, h2, h3, h4, h5⟩ := genSstFromIter_spec cfg s iter target level
  obtain ⟨hasc, hrange⟩ := ranges_of_ascending_concact (show Ascending (out.flatMap SST.entries) from h2 ▸ hiter) h3
  refine ⟨out, h1, h2, fun t ht => ⟨h3 t ht, hasc t ht⟩, hrange, h4, by rw [h5], ?_⟩
  rw [← h1]
  exact genSstFromIter_loop_full cfg target level iter .empty [] s fun _ h => absurd h (List.not_mem_nil _)

theorem genSstFromIter_cuts_ascending_stream_threeRecords :
    ∃ out : List SST, ((⟨"db", [], .empty, [], [], 5, 0⟩ : LSMEngine).genSstFromIter (Config.withLimits 1 1000 2)
          [("a", "1"), ("b", ""), ("c", "3")] 2 1).1 = out ∧
      out.flatMap SST.entries = [("a", "1"), ("b", ""), ("c", "3")] ∧
      (∀ t ∈ out, t.entries ≠ [] ∧ Ascending t.entries) ∧
      out.Pairwise (fun a b => a.getLastKey < b.getFirstKey) ∧
      out.map SST.sstId = List.range' 5 out.length ∧
      ((⟨"db", [], .empty, [], [], 5, 0⟩ : LSMEngine).genSstFromIter (Config.withLimits 1 1000 2)
          [("a", "1"), ("b", ""), ("c", "3")] 2 1).2.curMaxSstId = 5 + out.length ∧
      ∀ t ∈ out.dropLast, 2 ≤ (Config.withLimits 1 1000 2).estimatedSize t.entries :=
  genSstFromIter_cuts_ascending_stream _ _ (by decide) 2 1

theorem lookup_heapIterator_sstRuns {ts : List SST} (run : SST → List (String × String))
    (hrun : ∀ t, ∀ p ∈ run t, p ∈ t.entries) (hasc : ∀ t ∈ ts, Ascending t.entries)
    (hids : ts.Pairwise fun a b => b.sstId < a.sstId) (hbound : ∀ t ∈ ts, t.sstId ≤ 2 ^ 31)
    (k : String) :
    lookup (heapIterator (ts.map fun t =>
      (run t).map fun p => (⟨p.1, p.2, sstIdx t.sstId, 0⟩ : SearchItem)).flatten) k =
      firstHit (ts.map run) k := by
  rw [lookup_heapIterator_flatten]
  · simp [List.map_map, Function.comp_def]
  · simp only [List.mem_map, forall_exists_index, and_imp]
    rintro _ t - rfl a ha b hb
    simp only [List.mem_map] at ha hb
    obtain ⟨p, -, rfl⟩ := ha
    obtain ⟨q, -, rfl⟩ := hb
    rfl
  · refine List.pairwise_map.2 (hids.imp_of_mem fun {a b} ha hb hab x hx y hy _ => ?_)
    simp only [List.mem_map] at hx hy
    obtain ⟨p, -, rfl⟩ := hx
    obtain ⟨q, -, rfl⟩ := hy
    show sstIdx a.sstId < sstIdx b.sstId
    rw [sstIdx_of_le (hbound a ha), sstIdx_of_le (hbound b hb)]
    omega
  · simp only [List.mem_map, forall_exists_index, and_imp]
    rintro _ t ht rfl a ha b hb
    simp only [List.mem_map] at ha hb
    obtain ⟨p, hp, rfl⟩ := ha
    obtain ⟨q, hq, rfl⟩ := hb
    intro (hpq : p.1 = q.1)
    have h := lookup_of_mem (hasc t ht) (hrun t q hq)
    rw [← hpq, lookup_of_mem (hasc t ht) (hrun t p hp)] at h
    exact Option.some.inj h

theorem mergeSstIterator_spec {ts : List SST} (hasc : ∀ t ∈ ts, Ascending t.entries)
    (hids : ts.Pairwise fun a b => b.sstId < a.sstId) (hbound : ∀ t ∈ ts, t.sstId ≤ 2 ^ 31)
    (k : String) :
    lookup (mergeSstIterator (ts.map fun t => ⟨t.sstId, t.entries⟩)) k =
      lookup (concactIterator ts) k := by
  rw [mergeSstIterator, List.flatMap_map, List.flatMap_def,
    lookup_heapIterator_sstRuns SST.entries (fun _ _ hp => hp) hasc hids hbound,
    firstHit_eq_lookup, concactIterator, List.flatMap_def]

/-! ## One compaction step -/

/-- The records `full_compact` merges out of levels `src` and `src + 1`, level `src` first. -/
def compactStream (s : LSMEngine) (src : Nat) : List (String × String) :=
  if src = 0 then
    twoMerge (mergeSstIterator ((s.levelSsts 0).map fun t => ⟨t.sstId, t.entries⟩))
      (concactIterator (s.levelSsts 1))
  else twoMerge (concactIterator (s.levelSsts src)) (concactIterator (s.levelSsts (src + 1)))

/-- What `compactInto` leaves: the SSTs of levels `src` and `src + 1` dropped, the new ones
registered as level `src + 1`. -/
def compacted (s : LSMEngine) (src : Nat) (newSsts : List SST) (dir : List DirEntry) : LSMEngine :=
  { s with
    dir
    curMaxSstId := s.curMaxSstId + newSsts.length
    ssts := s.ssts.filter (fun t => t.sstId ∉ s.levelIds src ++ s.levelIds (src + 1)) ++ newSsts
    levelSstIds := setLevel (setLevel s.levelSstIds src []) (src + 1) (newSsts.map SST.sstId)
    curMaxLevel := max s.curMaxLevel (src + 1) }

section Step

variable {s : LSMEngine}

theorem mapM_sst? {ids : List Nat} (h : ∀ id ∈ ids, (s.sst? id).isSome) :
    ids.mapM s.sst? = some (ids.filterMap s.sst?) := by
  induction ids with
  | nil => rfl
  | cons id ids ih =>
    obtain ⟨t, ht⟩ := Option.isSome_iff_exists.1 (h id (List.mem_cons_self _ _))
    rw [List.mapM_cons, ht, ih fun id' hid' => h id' (List.mem_cons_of_mem _ hid')]
    simp [ht]

theorem eraseSsts_eq : ∀ (ids : List Nat) (s : LSMEngine), ids.Nodup →
    (∀ id ∈ ids, id ∈ s.ssts.map SST.sstId) →
    ∃ dir, s.eraseSsts ids = some { s with dir, ssts := s.ssts.filter fun t => t.sstId ∉ ids }
  | [], s, _, _ => ⟨s.dir, by simp [eraseSsts]⟩
  | id :: ids, s, hnd, hreg => by
    obtain ⟨t, ht⟩ := Option.isSome_iff_exists.1 (sst?_isSome (hreg id (List.mem_cons_self _ _)))
    have hnd' := List.nodup_cons.1 hnd
    obtain ⟨dir, h⟩ := eraseSsts_eq ids
      { s with dir := removeFile s.dir t.fileName, ssts := s.ssts.filter (·.sstId ≠ id) } hnd'.2
      fun id' hid' => by
        obtain ⟨u, hu, rfl⟩ := List.mem_map.1 (hreg id' (List.mem_cons_of_mem _ hid'))
        exact List.mem_map_of_mem _
          (List.mem_filter.2 ⟨hu, decide_eq_true fun h : u.sstId = id => hnd'.1 (h ▸ hid')⟩)
    refine ⟨dir, ?_⟩
    simp only [eraseSsts, ht, Option.bind_eq_bind, Option.some_bind, h, List.filter_filter]
    congr 2
    exact List.filter_congr fun u _ => by
      by_cases h₁ : u.sstId = id <;> by_cases h₂ : u.sstId ∈ ids <;> simp [h₁, h₂]

theorem foldl_registerSst : ∀ (ts l : List SST), (∀ t ∈ ts, t.sstId ∉ l.map SST.sstId) →
    (ts.map SST.sstId).Nodup → ts.foldl registerSst l = l ++ ts
  | [], l, _, _ => by simp
  | t :: ts, l, hfresh, hnd => by
    have hnd' := List.nodup_cons.1 hnd
    have hl : registerSst l t = l ++ [t] := by
      rw [registerSst, List.filter_eq_self.2 fun u hu => decide_eq_true (show u.sstId ≠ t.sstId from
        fun h => hfresh t (List.mem_cons_self _ _) (h ▸ List.mem_map_of_mem SST.sstId hu))]
    rw [List.foldl_cons, hl, foldl_registerSst ts (l ++ [t]) _ hnd'.2, List.append_assoc]
    · rfl
    · intro u hu
      simp only [List.map_append, List.map_cons, List.map_nil, List.mem_append, List.mem_singleton,
        not_or]
      exact ⟨hfresh u (List.mem_cons_of_mem _ hu), fun h => hnd'.1 (h ▸ List.mem_map_of_mem _ hu)⟩

/-- `compactInto` on a well-formed engine: it cannot crash, and it leaves `compacted` with the
SSTs cut from `compactStream`. -/
theorem Wf.compactInto_eq (hs : s.Wf) (src : Nat) :
    ∃ newSsts dir, newSsts.flatMap SST.entries = s.compactStream src ∧
      (∀ t ∈ newSsts, t.entries ≠ []) ∧
      newSsts.map SST.sstId = List.range' s.curMaxSstId newSsts.length ∧
      s.compactInto cfg src = some (s.compacted src newSsts dir) := by
  have hx : (s.levelIds src).mapM s.sst? = some (s.levelSsts src) :=
    mapM_sst? fun _ h => hs.isSome_sst? h
  have hy : (s.levelIds (src + 1)).mapM s.sst? = some (s.levelSsts (src + 1)) :=
    mapM_sst? fun _ h => hs.isSome_sst? h
  have hnd := nodup_flatten_iff_getD.1 hs.nodupLevels
  have hxy : (s.levelIds src ++ s.levelIds (src + 1)).Nodup :=
    List.nodup_append.2 ⟨hnd.1 src, hnd.1 (src + 1),
      fun id h₁ h₂ => absurd (hnd.2 _ _ id h₁ h₂) (Nat.ne_of_lt (Nat.lt_succ_self src))⟩
  have hreg : ∀ id ∈ s.levelIds src ++ s.levelIds (src + 1), id ∈ s.ssts.map SST.sstId :=
    fun id h => hs.registered id (List.mem_append.1 h |>.elim mem_flatten_of_mem_levelIds
      mem_flatten_of_mem_levelIds)
  obtain ⟨out, h1, h2, h3, h4, h5⟩ := genSstFromIter_spec cfg s (s.compactStream src)
    (if src = 0 then cfg.perMemSizeLimit * cfg.sstLevelRatio else getSstSize cfg (src + 1))
    (src + 1)
  obtain ⟨dir, herase⟩ := eraseSsts_eq _ (s.genSstFromIter cfg (s.compactStream src)
    (if src = 0 then cfg.perMemSizeLimit * cfg.sstLevelRatio else getSstSize cfg (src + 1))
    (src + 1)).2 hxy (by rw [h5]; exact hreg)
  have hfresh : ∀ t ∈ out, t.sstId ∉ (s.ssts.filter fun t =>
      t.sstId ∉ s.levelIds src ++ s.levelIds (src + 1)).map SST.sstId := fun t ht h => by
    obtain ⟨u, hu, hut⟩ := List.mem_map.1 h
    have hlt := hs.maxId u (List.mem_filter.1 hu).1
    have hge : s.curMaxSstId ≤ t.sstId := by
      have : t.sstId ∈ List.range' s.curMaxSstId out.length := h4 ▸ List.mem_map_of_mem _ ht
      exact (List.mem_range'_1.1 this).1
    omega
  have hsorted : (out.map SST.sstId).insertionSort (· ≤ ·) = out.map SST.sstId :=
    List.Sorted.insertionSort_eq (h4 ▸ (List.pairwise_lt_range' _ _).imp le_of_lt)
  have hcall : (if src = 0 then s.fullL0L1Compact cfg (s.levelIds src) (s.levelIds (src + 1))
      else s.fullCommonCompact cfg (s.levelIds src) (s.levelIds (src + 1)) (src + 1)) =
      some (s.genSstFromIter cfg (s.compactStream src)
        (if src = 0 then cfg.perMemSizeLimit * cfg.sstLevelRatio else getSstSize cfg (src + 1))
        (src + 1)) := by
    by_cases h0 : src = 0
    · subst h0
      simp only [fullL0L1Compact, compactStream, if_pos rfl]
      rw [hx, hy]
      rfl
    · simp only [fullCommonCompact, compactStream, if_neg h0]
      rw [hx, hy]
      rfl
  generalize s.genSstFromIter cfg (s.compactStream src)
    (if src = 0 then cfg.perMemSizeLimit * cfg.sstLevelRatio else getSstSize cfg (src + 1))
    (src + 1) = g at h1 h5 herase hcall
  obtain ⟨g1, g2⟩ := g
  dsimp only at h1 h5 herase
  subst h1
  rw [h5] at herase
  refine ⟨g1, dir, h2, h3, h4, ?_⟩
  unfold compactInto
  dsimp only
  split_ifs at hcall ⊢ <;> rw [hcall, h5] <;>
  simp only [Option.bind_eq_bind, Option.some_bind, herase, hsorted,
    foldl_registerSst g1 _ hfresh (h4 ▸ List.nodup_range' _ _), compacted]

end Step

/-! ## The state after one step -/

section Compacted

variable {s : LSMEngine} {src : Nat} {out : List SST} {dir : List DirEntry}

theorem levelIds_compacted (l : Nat) :
    (s.compacted src out dir).levelIds l =
      if l = src + 1 then out.map SST.sstId else if l = src then [] else s.levelIds l := by
  simp only [levelIds, compacted, getD_setLevel]

theorem mem_levelIds_compacted {l id : Nat} (h : id ∈ (s.compacted src out dir).levelIds l) :
    (l = src + 1 ∧ id ∈ out.map SST.sstId) ∨ (l ≠ src + 1 ∧ l ≠ src ∧ id ∈ s.levelIds l) := by
  rw [levelIds_compacted] at h
  split_ifs at h with h₁ h₂
  · exact .inl ⟨h₁, h⟩
  · simp at h
  · exact .inr ⟨h₁, h₂, h⟩

variable (hs : s.Wf) (hids : out.map SST.sstId = List.range' s.curMaxSstId out.length)

include hids in
theorem le_sstId_of_mem_out {t : SST} (ht : t ∈ out) : s.curMaxSstId ≤ t.sstId :=
  (List.mem_range'_1.1 (hids ▸ List.mem_map_of_mem SST.sstId ht)).1

include hids in
theorem sstId_lt_of_mem_out {t : SST} (ht : t ∈ out) : t.sstId < s.curMaxSstId + out.length :=
  (List.mem_range'_1.1 (hids ▸ List.mem_map_of_mem SST.sstId ht)).2

include hs hids in
theorem sst?_compacted_new {t : SST} (ht : t ∈ out) :
    (s.compacted src out dir).sst? t.sstId = some t := by
  have hold : (s.ssts.filter fun u => u.sstId ∉ s.levelIds src ++ s.levelIds (src + 1)).find?
      (·.sstId = t.sstId) = none := by
    refine List.find?_eq_none.2 fun u hu h => ?_
    have := hs.maxId u (List.mem_filter.1 hu).1
    have := le_sstId_of_mem_out hids ht
    simp only [decide_eq_true_eq] at h
    omega
  obtain ⟨u, hu⟩ := Option.isSome_iff_exists.1
    (List.find?_isSome.2 ⟨t, ht, by simp⟩ : (out.find? (·.sstId = t.sstId)).isSome)
  have hut : u = t := List.inj_on_of_nodup_map (hids ▸ List.nodup_range' _ _)
    (List.mem_of_find?_eq_some hu) ht (by simpa using List.find?_some hu)
  rw [sst?, compacted, List.find?_append, hold, Option.none_or, hu, hut]

include hids in
theorem sst?_compacted_old {id : Nat} (hid : id ∉ s.levelIds src ++ s.levelIds (src + 1))
    (hlt : id < s.curMaxSstId) : (s.compacted src out dir).sst? id = s.sst? id := by
  have hnew : out.find? (·.sstId = id) = none :=
    List.find?_eq_none.2 fun u hu h => by
      have := le_sstId_of_mem_out hids hu
      simp only [decide_eq_true_eq] at h
      omega
  rw [sst?, compacted, List.find?_append, hnew, Option.or_none, List.find?_filter, sst?]
  congr 1
  funext u
  by_cases h : u.sstId = id
  · simp [h, hid]
  · simp [h]

include hs hids in
theorem levelSsts_compacted (l : Nat) :
    (s.compacted src out dir).levelSsts l =
      if l = src + 1 then out else if l = src then [] else s.levelSsts l := by
  rw [levelSsts, levelIds_compacted]
  split_ifs with h₁ h₂
  · rw [List.filterMap_map]
    exact (List.filterMap_congr fun t ht => sst?_compacted_new hs hids ht).trans (List.filterMap_some _)
  · rfl
  · refine List.filterMap_congr fun id hid => sst?_compacted_old hids ?_ (hs.lt_curMaxSstId hid)
    simp only [List.mem_append, not_or]
    exact ⟨fun h => h₂ (hs.level_unique hid h), fun h => h₁ (hs.level_unique hid h)⟩

theorem lookup_flatMap_range_congr {f g : Nat → List (String × String)} {N : Nat}
    (hN : src + 2 ≤ N) (hfg : ∀ l, l ≠ src → l ≠ src + 1 → f l = g l)
    (hpair : ∀ k, lookup (f src ++ f (src + 1)) k = lookup (g src ++ g (src + 1)) k) (k : String) :
    lookup ((List.range N).flatMap f) k = lookup ((List.range N).flatMap g) k := by
  obtain ⟨d, rfl⟩ := Nat.exists_eq_add_of_le hN
  have hlow : (List.range src).flatMap f = (List.range src).flatMap g :=
    List.flatMap_congr fun l hl => hfg l (List.mem_range.1 hl).ne (by simp at hl; omega)
  have hhigh : ((List.range d).map (src + 2 + ·)).flatMap f =
      ((List.range d).map (src + 2 + ·)).flatMap g :=
    List.flatMap_congr fun l hl => by
      obtain ⟨i, -, rfl⟩ := List.mem_map.1 hl
      exact hfg _ (by omega) (by omega)
  have hsplit : ∀ h : Nat → List (String × String), (List.range (src + 2 + d)).flatMap h =
      (List.range src).flatMap h ++ (h src ++ h (src + 1)) ++
        ((List.range d).map (src + 2 + ·)).flatMap h := fun h => by
    rw [List.range_add, List.range_succ, List.range_succ]
    simp [List.flatMap_append, List.append_assoc]
  rw [hsplit, hsplit, hlow, hhigh]
  simp only [lookup_append] at hpair ⊢
  rw [hpair]

include hs hids in
theorem view_compacted
    (hcat : out.flatMap SST.entries = s.compactStream src)
    (hstream : ∀ k, lookup (s.compactStream src) k =
      lookup (concactIterator (s.levelSsts src) ++ concactIterator (s.levelSsts (src + 1))) k)
    (k : String) : (s.compacted src out dir).view k = s.view k := by
  have hlen : (s.compacted src out dir).levelSstIds.length =
      max (max s.levelSstIds.length (src + 1)) (src + 2) := by
    simp only [compacted, length_setLevel]
  have hempty : ∀ l, s.levelSstIds.length ≤ l → concactIterator (s.levelSsts l) = [] :=
    fun l hl => by simp [levelSsts, levelIds_eq_nil hl, concactIterator]
  rw [view_eq, view_eq, levelOrder, levelOrder, hlen,
    ← flatMap_range_levels hempty (n := max (max s.levelSstIds.length (src + 1)) (src + 2))
      (by omega)]
  congr 1
  refine @lookup_flatMap_range_congr src _ _ _ (by omega) (fun l h₁ h₂ => ?_) (fun k => ?_) k
  · rw [levelSsts_compacted hs hids, if_neg h₂, if_neg h₁]
  · rw [levelSsts_compacted hs hids, levelSsts_compacted hs hids, if_pos rfl, if_neg (by omega),
      if_pos rfl, ← hstream]
    simp [concactIterator, hcat]

include hs hids in
theorem wf_compacted (hasc : Ascending (s.compactStream src))
    (hcat : out.flatMap SST.entries = s.compactStream src) (hne : ∀ t ∈ out, t.entries ≠ []) :
    (s.compacted src out dir).Wf := by
  obtain ⟨hout, hranges⟩ :=
    ranges_of_ascending_concact (hcat ▸ hasc : Ascending (out.flatMap SST.entries)) hne
  have hnotxy : ∀ {l id}, id ∈ s.levelIds l → l ≠ src → l ≠ src + 1 →
      id ∉ s.levelIds src ++ s.levelIds (src + 1) := fun hid h₁ h₂ h => by
    rcases List.mem_append.1 h with h | h
    · exact h₁ (hs.level_unique hid h)
    · exact h₂ (hs.level_unique hid h)
  have hfresh : ∀ {l id}, id ∈ s.levelIds l → id ∉ out.map SST.sstId := fun hid h => by
    obtain ⟨t, ht, rfl⟩ := List.mem_map.1 h
    exact absurd (hs.lt_curMaxSstId hid) (not_lt.2 (le_sstId_of_mem_out hids ht))
  have hlevels : ∀ l, (s.compacted src out dir).levelSstIds.getD l [] =
      if l = src + 1 then out.map SST.sstId else if l = src then [] else s.levelIds l :=
    levelIds_compacted
  have hcases := @mem_levelIds_compacted s src out dir
  constructor
  · intro id hid
    obtain ⟨l, hl⟩ := mem_flatten_iff_getD.1 hid
    simp only [compacted, List.map_append, List.mem_append]
    rcases hcases hl with ⟨-, hl⟩ | ⟨h₁, h₂, hl⟩
    · exact .inr hl
    · obtain ⟨t, ht, rfl⟩ := List.mem_map.1 (hs.registered _ (mem_flatten_of_mem_levelIds hl))
      exact .inl (List.mem_map_of_mem _ (List.mem_filter.2 ⟨ht, by simpa using hnotxy hl h₂ h₁⟩))
  · intro t ht
    refine mem_flatten_iff_getD.2 ?_
    simp only [compacted, List.mem_append, List.mem_filter] at ht
    rcases ht with ⟨ht, hxy⟩ | ht
    · obtain ⟨l, hl⟩ := mem_flatten_iff_getD.1 (hs.listed t ht)
      simp only [List.mem_append, decide_eq_true_eq, not_or] at hxy
      have h₁ : l ≠ src + 1 := fun h => hxy.2 (h ▸ hl)
      have h₂ : l ≠ src := fun h => hxy.1 (h ▸ hl)
      exact ⟨l, by rw [hlevels, if_neg h₁, if_neg h₂]; exact hl⟩
    · exact ⟨src + 1, by rw [hlevels, if_pos rfl]; exact List.mem_map_of_mem _ ht⟩
  · refine nodup_flatten_iff_getD.2 ⟨fun l => ?_, fun l₁ l₂ id h₁ h₂ => ?_⟩
    · rw [hlevels]
      split_ifs
      · exact hids ▸ List.nodup_range' _ _
      · exact List.nodup_nil
      · exact (nodup_flatten_iff_getD.1 hs.nodupLevels).1 l
    · rcases hcases h₁ with ⟨e₁, h₁⟩ | ⟨-, -, h₁⟩ <;> rcases hcases h₂ with ⟨e₂, h₂⟩ | ⟨-, -, h₂⟩
      · exact e₁.trans e₂.symm
      · exact absurd h₁ (hfresh h₂)
      · exact absurd h₂ (hfresh h₁)
      · exact hs.level_unique h₁ h₂
  · simp only [compacted, List.map_append]
    refine List.nodup_append.2 ⟨hs.nodup.sublist ((List.filter_sublist _).map SST.sstId),
      hids ▸ List.nodup_range' _ _, fun id h₁ h₂ => ?_⟩
    obtain ⟨t, ht, rfl⟩ := List.mem_map.1 h₁
    obtain ⟨u, hu, hut⟩ := List.mem_map.1 h₂
    have := hs.maxId t (List.mem_filter.1 ht).1
    have := le_sstId_of_mem_out hids hu
    omega
  · intro t ht
    simp only [compacted, List.mem_append, List.mem_filter] at ht
    exact ht.elim (fun ht => hs.ascending t ht.1) (hout t)
  · show (s.compacted src out dir).levelIds 0 |>.Sorted (· > ·)
    rw [levelIds_compacted, if_neg (by omega)]
    split_ifs with h
    · exact List.sorted_nil
    · exact hs.level0
  · intro l _ hl
    show (s.compacted src out dir).levelIds l |>.Sorted (· < ·)
    rw [levelIds_compacted]
    split_ifs
    · exact hids ▸ List.pairwise_lt_range' _ _
    · exact List.sorted_nil
    · exact (hs.deeper' hl).1
  · intro l _ hl
    rw [levelSsts_compacted hs hids]
    split_ifs
    · exact hranges
    · exact List.Pairwise.nil
    · exact (hs.deeper' hl).2.1
  · intro l _ hl
    rw [levelSsts_compacted hs hids]
    split_ifs
    · exact hne
    · simp
    · exact (hs.deeper' hl).2.2
  · intro t ht
    simp only [compacted, List.mem_append, List.mem_filter] at ht
    rcases ht with ht | ht
    · exact (hs.maxId t ht.1).trans_le (Nat.le_add_right _ _)
    · exact sstId_lt_of_mem_out hids ht
  · intro l _ hl
    show l ≤ max s.curMaxLevel (src + 1)
    obtain ⟨id, hid⟩ := List.exists_mem_of_ne_nil _ hl
    rcases hcases hid with ⟨rfl, -⟩ | ⟨-, -, hid⟩
    · exact le_max_right _ _
    · exact le_max_of_le_left (hs.le_curMaxLevel (List.ne_nil_of_mem hid))

include hs hids in
theorem orderedFrom_compacted (hord : s.OrderedFrom (src + 2)) :
    (s.compacted src out dir).OrderedFrom src := by
  rintro i - j - ⟨hi, hij⟩ a ha b hb
  rcases mem_levelIds_compacted ha with ⟨rfl, hnew⟩ | ⟨hi₁, hi₂, hold⟩ <;>
    rcases mem_levelIds_compacted hb with ⟨rfl, -⟩ | ⟨-, -, hb'⟩
  · omega
  · obtain ⟨t, ht, rfl⟩ := List.mem_map.1 hnew
    exact (hs.lt_curMaxSstId hb').trans_le (le_sstId_of_mem_out hids ht)
  · omega
  · exact hord i (lt_length_of_mem hold) j (lt_length_of_mem hb') ⟨by omega, hij⟩ a hold b hb'

end Compacted

theorem Wf.compactStream_ascending {s : LSMEngine} (hs : s.Wf) (src : Nat) :
    Ascending (s.compactStream src) := by
  have hlevel : ∀ l, 0 < l → Ascending (concactIterator (s.levelSsts l)) := fun l hl =>
    ascending_concact (fun t ht => hs.ascending_of_mem_levelSsts ht) (hs.deeper' hl).2.1
  rw [compactStream]
  split_ifs with h0
  · exact (twoMerge_spec (heapIterator_ascending _) (hlevel 1 Nat.one_pos)).1
  · exact (twoMerge_spec (hlevel src (Nat.pos_of_ne_zero h0)) (hlevel (src + 1) (Nat.succ_pos _))).1

theorem Wf.lookup_compactStream {s : LSMEngine} (hs : s.Wf) (src : Nat)
    (hbound : src = 0 → ∀ id ∈ s.levelIds 0, id ≤ 2 ^ 31) (k : String) :
    lookup (s.compactStream src) k =
      lookup (concactIterator (s.levelSsts src) ++ concactIterator (s.levelSsts (src + 1))) k := by
  have hlevel : ∀ l, 0 < l → Ascending (concactIterator (s.levelSsts l)) := fun l hl =>
    ascending_concact (fun t ht => hs.ascending_of_mem_levelSsts ht) (hs.deeper' hl).2.1
  by_cases h0 : src = 0
  · subst h0
    have hids : (s.levelSsts 0).Pairwise fun a b => b.sstId < a.sstId :=
      List.pairwise_map.1 ((hs.map_sstId_levelSsts 0).symm ▸ hs.level0)
    have hb : ∀ t ∈ s.levelSsts 0, t.sstId ≤ 2 ^ 31 := fun t ht =>
      hbound rfl _ (hs.map_sstId_levelSsts 0 ▸ List.mem_map_of_mem SST.sstId ht)
    rw [compactStream, if_pos rfl, (twoMerge_spec (a := mergeSstIterator ((s.levelSsts 0).map
      fun t => ⟨t.sstId, t.entries⟩)) (heapIterator_ascending _) (hlevel 1 Nat.one_pos)).2,
      lookup_append]
    rw [mergeSstIterator_spec (fun t ht => hs.ascending_of_mem_levelSsts ht) hids hb k]
  · rw [compactStream, if_neg h0, (twoMerge_spec (hlevel src (Nat.pos_of_ne_zero h0))
      (hlevel (src + 1) (Nat.succ_pos _))).2, lookup_append]

theorem OrderedFrom.mono {s : LSMEngine} {m n : Nat} (h : s.OrderedFrom m) (hmn : m ≤ n) :
    s.OrderedFrom n :=
  fun i hi j hj hij => h i hi j hj ⟨hmn.trans hij.1, hij.2⟩

/-! ## The cascade -/

theorem fullCompact_succ (fuel src : Nat) (s : LSMEngine) :
    fullCompact cfg (fuel + 1) src s =
      (if cfg.sstLevelRatio ≤ (s.levelIds (src + 1)).length then fullCompact cfg fuel (src + 1) s
        else some s).bind (compactInto cfg · src) := by
  rw [fullCompact]
  split_ifs <;> rfl

/-- What `full_compact(src)` does when it returns: level `src` is empty, the level map keeps its
shape, the memtable and the levels above `src` are as they were, and (d) holds from `src` on once
it held from `src + 2` on. While level 0's ids are at most 2^31, every key keeps its newest
version. -/
theorem Wf.fullCompact_spec : ∀ {fuel src : Nat} {s s' : LSMEngine}, s.Wf →
    fullCompact cfg fuel src s = some s' →
    s'.Wf ∧ s'.levelIds src = [] ∧ (s.OrderedFrom (src + 2) → s'.OrderedFrom src) ∧
      s'.memtable = s.memtable ∧ (∀ l < src, s'.levelIds l = s.levelIds l) ∧
      s.curMaxSstId ≤ s'.curMaxSstId ∧
      ((src = 0 → ∀ id ∈ s.levelIds 0, id ≤ 2 ^ 31) → ∀ k, s'.view k = s.view k)
  | fuel + 1, src, s, s', hs, h => by
    obtain ⟨s1, hs1, hc⟩ := Option.bind_eq_some.1 ((fullCompact_succ cfg fuel src s).symm.trans h)
    obtain ⟨hwf1, hord1, hmem1, hlow1, hmax1, hview1⟩ : s1.Wf ∧
        (s.OrderedFrom (src + 2) → s1.OrderedFrom (src + 2)) ∧ s1.memtable = s.memtable ∧
        (∀ l < src + 1, s1.levelIds l = s.levelIds l) ∧ s.curMaxSstId ≤ s1.curMaxSstId ∧
        ∀ k, s1.view k = s.view k := by
      split_ifs at hs1
      · obtain ⟨hwf, -, hord, hmem, hlow, hmax, hview⟩ := Wf.fullCompact_spec hs hs1
        exact ⟨hwf, fun h => (hord (h.mono (by omega))).mono (by omega), hmem, hlow, hmax,
          hview (by omega)⟩
      · cases hs1
        exact ⟨hs, id, rfl, fun _ _ => rfl, le_rfl, fun _ => rfl⟩
    obtain ⟨out, dir, hcat, hne, hids, hc'⟩ := hwf1.compactInto_eq cfg src
    cases hc.symm.trans hc'
    refine ⟨wf_compacted hwf1 hids (hwf1.compactStream_ascending src) hcat hne, ?_,
      fun h => orderedFrom_compacted hwf1 hids (hord1 h), hmem1, fun l hl => ?_,
      hmax1.trans (Nat.le_add_right _ _), fun hb k => ?_⟩
    · rw [levelIds_compacted, if_neg (by omega), if_pos rfl]
    · rw [levelIds_compacted, if_neg (by omega), if_neg (by omega), hlow1 l (by omega)]
    · rw [view_compacted hwf1 hids hcat (hwf1.lookup_compactStream src fun h0 id hid =>
        hb h0 id (hlow1 0 (by omega) ▸ hid)), hview1]

theorem Wf.fullCompact_isSome (hratio : 0 < cfg.sstLevelRatio) : ∀ {fuel src : Nat} {s : LSMEngine},
    s.Wf → s.levelSstIds.length ≤ src + fuel → 0 < fuel → (fullCompact cfg fuel src s).isSome
  | fuel + 1, src, s, hs, hlen, _ => by
    obtain ⟨s1, hs1, hwf1⟩ : ∃ s1, (if cfg.sstLevelRatio ≤ (s.levelIds (src + 1)).length then
        fullCompact cfg fuel (src + 1) s else some s) = some s1 ∧ s1.Wf := by
      split_ifs with hfull
      · obtain ⟨id, hid⟩ := List.exists_mem_of_ne_nil (s.levelIds (src + 1)) fun h => by
          simp [h] at hfull; omega
        have := lt_length_of_mem hid
        have h1 : (fullCompact cfg fuel (src + 1) s).isSome :=
          Wf.fullCompact_isSome hratio hs (by omega) (by omega)
        obtain ⟨s1, h1⟩ := Option.isSome_iff_exists.1 h1
        exact ⟨s1, h1, (hs.fullCompact_spec cfg h1).1⟩
      · exact ⟨s, rfl, hs⟩
    obtain ⟨out, dir, -, -, -, hc⟩ := hwf1.compactInto_eq cfg src
    rw [fullCompact_succ, hs1, Option.some_bind, hc]
    rfl

end LSMEngine

end LsmTree
