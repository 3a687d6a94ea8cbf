import LsmTree.Writes
set_option autoImplicit false

/-!
# Runs of the engine against runs of the store

A call of the engine changes `view` as the same call changes a `KVStore`, and keeps the level
map's shape (`step_spec`); by induction a whole run does (`run_spec`). With
`LSM_SST_LEVEL_RATIO ≥ 1` a call fails exactly where it reaches `flush_last` with nothing frozen
(`step_eq_none_iff`), so a run either returns or stops there (`run_returns`).
-/

namespace LsmTree

/-! ## The store's run -/

namespace KVStore

/-- A call of the engine on the store: flushes change nothing and `clear` empties it. -/
def step (s : KVStore) : LSMEngine.Op → KVStore
  | .put k v => s.put k v
  | .putBatch kvs => s.putBatch kvs
  | .remove k => s.remove k
  | .removeBatch ks => s.removeBatch ks
  | .flush => s
  | .flushAll => s
  | .clear => empty

def run (s : KVStore) (ops : List LSMEngine.Op) : KVStore := ops.foldl step s

theorem run_append (s : KVStore) (ops₁ ops₂ : List LSMEngine.Op) :
    s.run (ops₁ ++ ops₂) = (s.run ops₁).run ops₂ :=
  List.foldl_append _ _ _ _

end KVStore

namespace LSMEngine

variable (cfg : Config)

section Runs

variable {s s' : LSMEngine}

theorem Wf.clear (s : LSMEngine) : s.clear.Wf := by
  constructor <;> simp [LSMEngine.clear, levelIds, levelSsts, sst?]

theorem refines_clear (s : LSMEngine) : s.clear.Refines KVStore.empty := fun k => by
  simp [view_eq, LSMEngine.clear, levelOrder, MemTable.get, MemTable.empty, MemTable.tables,
    SkipList.empty, firstHit, KVStore.empty]

/-- One call: the level map keeps its shape and (d), and, while the ids fit the heap's `int`, the
engine holds what the same call makes of the store. -/
theorem Wf.step_spec (hs : s.Wf) {op : Op} (h : s.step cfg op = some s') :
    s'.Wf ∧ (s.OrderedFrom 0 → s'.OrderedFrom 0) ∧ s.curMaxSstId ≤ s'.curMaxSstId ∧
      (s'.curMaxSstId ≤ 2 ^ 31 + 1 → ∀ kv, s.Refines kv → s'.Refines (kv.step op)) := by
  have hmem : ∀ {m : MemTable} {kv kv' : KVStore}, s.Refines kv →
      (∀ L, (∀ k, (s.memtable.get k).or (lookup L k) = lookup kv.entries k) →
        ∀ k, (m.get k).or (lookup L k) = lookup kv'.entries k) →
      { s with memtable := m }.Refines kv' := fun hkv hm =>
    refines_withMemtable.2 (hm _ fun k => (view_eq s k).symm.trans (hkv k))
  cases op with
  | put k v =>
    obtain ⟨hwf, hord, hmax, hview⟩ := hs.flushIfFull_spec cfg _ h
    exact ⟨hwf, hord, hmax, fun hb kv hkv k' => (hview hb k').trans
      (hmem hkv (fun _ h => or_get_put cfg h k v) k')⟩
  | putBatch kvs =>
    obtain ⟨hwf, hord, hmax, hview⟩ := hs.flushIfFull_spec cfg _ h
    exact ⟨hwf, hord, hmax, fun hb kv hkv k => (hview hb k).trans
      (hmem hkv (fun _ h => or_get_putBatch cfg kvs h) k)⟩
  | remove k =>
    cases h
    exact ⟨hs.withMemtable _, id, le_rfl, fun _ kv hkv => hmem hkv fun _ h => or_get_put cfg h k ""⟩
  | removeBatch ks =>
    cases h
    exact ⟨hs.withMemtable _, id, le_rfl, fun _ kv hkv =>
      hmem hkv fun _ h => or_get_removeBatch cfg ks h⟩
  | flush =>
    obtain ⟨hwf, hord, hmax, -, -, hview⟩ := hs.flush_spec cfg h
    exact ⟨hwf, hord, hmax, fun hb kv hkv k => (hview hb k).trans (hkv k)⟩
  | flushAll =>
    obtain ⟨hwf, hord, hmax, hview⟩ := hs.flushAllLoop_spec cfg _ h
    exact ⟨hwf, hord, hmax, fun hb kv hkv k => (hview hb k).trans (hkv k)⟩
  | clear =>
    cases h
    exact ⟨Wf.clear s, fun _ _ h => by simp [LSMEngine.clear] at h, le_rfl,
      fun _ _ _ => refines_clear s⟩

/-- A whole run, by induction from `step_spec`. -/
theorem Wf.run_spec : ∀ (ops : List Op) {s s' : LSMEngine}, s.Wf → s.run cfg ops = some s' →
    s'.Wf ∧ (s.OrderedFrom 0 → s'.OrderedFrom 0) ∧ s.curMaxSstId ≤ s'.curMaxSstId ∧
      (s'.curMaxSstId ≤ 2 ^ 31 + 1 → ∀ kv, s.Refines kv → s'.Refines (kv.run ops))
  | [], _, _, hs, h => by
    cases h
    exact ⟨hs, id, le_rfl, fun _ _ h => h⟩
  | op :: ops, s, s', hs, h => by
    obtain ⟨s1, h1, h⟩ := Option.bind_eq_some.1 h
    obtain ⟨hwf1, hord1, hmax1, href1⟩ := hs.step_spec cfg h1
    obtain ⟨hwf, hord, hmax, href⟩ := Wf.run_spec ops hwf1 h
    exact ⟨hwf, hord ∘ hord1, hmax1.trans hmax, fun hb kv hkv =>
      href hb _ (href1 (hmax.trans hb) kv hkv)⟩

/-! ## Where a run stops -/

/-- `flush` on this memtable reaches `flush_last` with no frozen skiplist. -/
def flushPanics (m : MemTable) : Prop := 0 < m.getTotalSize ∧ m.frozen = []

instance (m : MemTable) : Decidable (flushPanics m) :=
  decidable_of_iff (0 < m.getTotalSize ∧ m.frozen.isEmpty) (by simp [flushPanics])

/-- The calls that reach `flush_last` with no frozen skiplist, which spec §4.2 makes a panic: the
flush that `put` and `put_batch` start at `LSM_TOL_MEM_SIZE_LIMIT`, an explicit `flush`, and
`flush_all` while the active skiplist holds bytes, once it has flushed every frozen one. -/
def Panics (s : LSMEngine) : Op → Prop
  | .put k v => cfg.tolMemSizeLimit ≤ (s.memtable.put cfg k v).getTotalSize ∧
      flushPanics (s.memtable.put cfg k v)
  | .putBatch kvs => cfg.tolMemSizeLimit ≤ (s.memtable.putBatch cfg kvs).getTotalSize ∧
      flushPanics (s.memtable.putBatch cfg kvs)
  | .flush => flushPanics s.memtable
  | .flushAll => 0 < s.memtable.active.size
  | .remove _ | .removeBatch _ | .clear => False

instance (s : LSMEngine) : (op : Op) → Decidable (s.Panics cfg op)
  | .put _ _ | .putBatch _ => inferInstanceAs (Decidable (_ ∧ _))
  | .flush => inferInstanceAs (Decidable (flushPanics _))
  | .flushAll => inferInstanceAs (Decidable (_ < _))
  | .remove _ | .removeBatch _ | .clear => instDecidableFalse

variable (hratio : 0 < cfg.sstLevelRatio)

include hratio

theorem Wf.flushIfFull_eq_none_iff (hs : s.Wf) (m : MemTable) :
    (if cfg.tolMemSizeLimit ≤ m.getTotalSize then { s with memtable := m }.flush cfg
      else some { s with memtable := m }) = none ↔
      cfg.tolMemSizeLimit ≤ m.getTotalSize ∧ flushPanics m := by
  split_ifs with h
  · simp only [(hs.withMemtable m).flush_eq_none_iff cfg hratio, h, true_and]
    rfl
  · simp [h]

theorem Wf.flushAllLoop_eq_none_iff : ∀ (fuel : Nat) {s : LSMEngine}, s.Wf →
    s.memtable.frozen.length < fuel →
    (flushAllLoop cfg fuel s = none ↔ 0 < s.memtable.active.size)
  | fuel + 1, s, hs, hlen => by
    have htot := MemTable.getTotalSize_eq s.memtable
    rw [flushAllLoop]
    split_ifs with hpos
    · by_cases hf : s.memtable.frozen = []
      · rw [(hs.flush_eq_none_iff cfg hratio).2 ⟨hpos, hf⟩, Option.none_bind]
        simp only [hf, List.map_nil, List.sum_nil, add_zero] at htot
        exact iff_of_true rfl (htot ▸ hpos)
      · obtain ⟨s1, h1⟩ := Option.ne_none_iff_exists'.1
          (mt (hs.flush_eq_none_iff cfg hratio).1 fun h => hf h.2)
        obtain ⟨hwf1, -, -, hact, hfro, -⟩ := hs.flush_spec cfg h1
        have : s1.memtable.frozen.length < fuel := by
          rw [hfro hpos, List.length_dropLast]
          have := List.length_pos.2 hf
          omega
        rw [h1, Option.some_bind, Wf.flushAllLoop_eq_none_iff fuel hwf1 this, hact]
    · exact iff_of_false (by simp) (by omega)

omit hratio in
theorem flushAllLoop_getTotalSize : ∀ (fuel : Nat) {s s' : LSMEngine},
    flushAllLoop cfg fuel s = some s' → s'.memtable.getTotalSize = 0
  | fuel + 1, s, s', h => by
    rw [flushAllLoop] at h
    split_ifs at h with hpos
    · obtain ⟨s1, -, h⟩ := Option.bind_eq_some.1 h
      exact flushAllLoop_getTotalSize fuel h
    · cases h
      omega

theorem Wf.step_eq_none_iff (hs : s.Wf) (op : Op) : s.step cfg op = none ↔ s.Panics cfg op := by
  cases op with
  | put k v => exact hs.flushIfFull_eq_none_iff cfg hratio _
  | putBatch kvs => exact hs.flushIfFull_eq_none_iff cfg hratio _
  | flush => exact hs.flush_eq_none_iff cfg hratio
  | flushAll => exact hs.flushAllLoop_eq_none_iff cfg hratio _ (Nat.lt_succ_self _)
  | remove k | removeBatch ks | clear => exact iff_of_false (Option.some_ne_none _) id

theorem Wf.run_returns : ∀ (ops : List Op) {s : LSMEngine}, s.Wf →
    (∃ s', s.run cfg ops = some s') ∨
      (s.run cfg ops = none ∧ ∃ pre op post s₁, ops = pre ++ op :: post ∧
        s.run cfg pre = some s₁ ∧ s₁.Panics cfg op)
  | [], s, _ => .inl ⟨s, rfl⟩
  | op :: ops, s, hs => by
    cases h : s.step cfg op with
    | none =>
      exact .inr ⟨by simp [run, h], [], op, ops, s, rfl, rfl, (hs.step_eq_none_iff cfg hratio op).1 h⟩
    | some s1 =>
      have hcons : s.run cfg (op :: ops) = s1.run cfg ops := by simp [run, h]
      rcases Wf.run_returns ops (hs.step_spec cfg h).1 with ⟨s', h'⟩ | ⟨hnone, pre, op', post, s₁, rfl, hpre, hp⟩
      · exact .inl ⟨s', hcons.trans h'⟩
      · exact .inr ⟨hcons.trans hnone, op :: pre, op', post, s₁, rfl, by simp [run, h, hpre], hp⟩

omit hratio in
theorem refines_empty (dataDir : String) (dir : List DirEntry) :
    (empty dataDir dir).Refines KVStore.empty := refines_clear (empty dataDir dir)

end Runs

theorem run_append (s : LSMEngine) (ops₁ ops₂ : List Op) :
    s.run cfg (ops₁ ++ ops₂) = (s.run cfg ops₁).bind (run cfg · ops₂) := by
  induction ops₁ generalizing s with
  | nil => rfl
  | cons op ops ih =>
    show (s.step cfg op).bind (run cfg · (ops ++ ops₂)) = ((s.step cfg op).bind (run cfg · ops)).bind _
    cases s.step cfg op with
    | none => rfl
    | some s1 => exact ih s1

theorem wf_empty (dataDir : String) (dir : List DirEntry) : (empty dataDir dir).Wf := by
  constructor <;> simp [LSMEngine.empty, levelIds, levelSsts, sst?]

/-- Every state a run reaches from an engine on a directory with no SST file has the level map's
shape: (a), (b), (c) and (e) as `Wf`, and (d) as `OrderedFrom 0`. -/
theorem reachable_wf_orderedFrom (dataDir : String) (dir : List DirEntry) (ops : List Op)
    {s' : LSMEngine} (h : (empty dataDir dir).run cfg ops = some s') : s'.Wf ∧ s'.OrderedFrom 0 :=
  let ⟨hwf, hord, _⟩ := (wf_empty dataDir dir).run_spec cfg ops h
  ⟨hwf, hord fun _ hi => absurd hi (Nat.not_lt_zero _)⟩

/-- Three flushes with `LSM_SST_LEVEL_RATIO = 2`: the third compacts level 0 into level 1. -/
def threeFlushes : List Op := [.put "a" "1", .flush, .put "b" "2", .flush, .put "a" "3", .flush]

theorem reachable_wf_orderedFrom_threeFlushes :
    ∃ s', (empty "db" []).run (Config.withLimits 1 1000 2) threeFlushes = some s' ∧
      s'.Wf ∧ s'.OrderedFrom 0 :=
  have h := Option.eq_some_of_isSome
    (by decide : ((empty "db" []).run (Config.withLimits 1 1000 2) threeFlushes).isSome)
  ⟨_, h, reachable_wf_orderedFrom _ "db" [] threeFlushes h⟩

/-! ## Level 0 stays small -/

section Level0

variable {s s' : LSMEngine} (hratio : 0 < cfg.sstLevelRatio)

include hratio

theorem Wf.flush_level0 (hs : s.Wf) (h0 : (s.levelIds 0).length ≤ cfg.sstLevelRatio)
    (h : s.flush cfg = some s') : (s'.levelIds 0).length ≤ cfg.sstLevelRatio := by
  by_cases hz : s.memtable.getTotalSize = 0
  · rw [flush, if_pos hz] at h
    cases h
    exact h0
  rw [flush_eq cfg s (Nat.pos_of_ne_zero hz)] at h
  obtain ⟨s1, hs1, h⟩ := Option.bind_eq_some.1 h
  obtain ⟨t, -, rfl⟩ := Option.map_eq_some'.1 h
  rw [levelIds_flushed, if_pos rfl, List.length_cons]
  split_ifs at hs1 with hfull
  · rw [(hs.fullCompact_spec cfg hs1).2.1, List.length_nil]
    exact hratio
  · cases hs1
    by_cases hnil : s.levelSstIds = []
    · simp only [levelIds, hnil, List.getD_nil, List.length_nil]
      exact hratio
    · exact Nat.succ_le_of_lt (Nat.lt_of_not_le fun h => hfull ⟨hnil, h⟩)

theorem Wf.flushAllLoop_level0 : ∀ (fuel : Nat) {s s' : LSMEngine}, s.Wf →
    (s.levelIds 0).length ≤ cfg.sstLevelRatio → flushAllLoop cfg fuel s = some s' →
    (s'.levelIds 0).length ≤ cfg.sstLevelRatio
  | fuel + 1, s, s', hs, h0, h => by
    rw [flushAllLoop] at h
    split_ifs at h
    · obtain ⟨s1, h1, h⟩ := Option.bind_eq_some.1 h
      exact Wf.flushAllLoop_level0 fuel (hs.flush_spec cfg h1).1 (hs.flush_level0 cfg hratio h0 h1) h
    · cases h
      exact h0

theorem Wf.step_level0 (hs : s.Wf) (h0 : (s.levelIds 0).length ≤ cfg.sstLevelRatio) {op : Op}
    (h : s.step cfg op = some s') : (s'.levelIds 0).length ≤ cfg.sstLevelRatio := by
  have hput : ∀ m : MemTable, (if cfg.tolMemSizeLimit ≤ m.getTotalSize then
      { s with memtable := m }.flush cfg else some { s with memtable := m }) = some s' →
      (s'.levelIds 0).length ≤ cfg.sstLevelRatio := fun m h => by
    split_ifs at h
    · exact (hs.withMemtable m).flush_level0 cfg hratio h0 h
    · cases h
      exact h0
  cases op with
  | put k v => exact hput _ h
  | putBatch kvs => exact hput _ h
  | remove k | removeBatch ks =>
    cases h
    exact h0
  | flush => exact hs.flush_level0 cfg hratio h0 h
  | flushAll => exact hs.flushAllLoop_level0 cfg hratio _ h0 h
  | clear =>
    cases h
    exact Nat.zero_le _

theorem Wf.run_level0 : ∀ (ops : List Op) {s s' : LSMEngine}, s.Wf →
    (s.levelIds 0).length ≤ cfg.sstLevelRatio → s.run cfg ops = some s' →
    (s'.levelIds 0).length ≤ cfg.sstLevelRatio
  | [], _, _, _, h0, h => by
    cases h
    exact h0
  | op :: ops, s, s', hs, h0, h => by
    obtain ⟨s1, h1, h⟩ := Option.bind_eq_some.1 h
    exact Wf.run_level0 ops (hs.step_spec cfg h1).1 (hs.step_level0 cfg hratio h0 h1) h

end Level0

/-- With `LSM_SST_LEVEL_RATIO ≥ 1`, no run from a fresh engine leaves more than
`LSM_SST_LEVEL_RATIO` SSTs on level 0, the level whose SSTs overlap and which `get` searches one
SST at a time. -/
theorem reachable_level0_le_ratio (hratio : 0 < cfg.sstLevelRatio) (dataDir : String)
    (dir : List DirEntry) (ops : List Op) {s : LSMEngine} (h : (empty dataDir dir).run cfg ops = some s) :
    (s.levelIds 0).length ≤ cfg.sstLevelRatio :=
  (wf_empty dataDir dir).run_level0 cfg hratio ops (Nat.zero_le _) h

theorem reachable_level0_le_ratio_threeFlushes :
    0 < (Config.withLimits 1 1000 2).sstLevelRatio ∧
    ∃ s, (empty "db" []).run (Config.withLimits 1 1000 2) threeFlushes = some s ∧
      (s.levelIds 0).length ≤ (Config.withLimits 1 1000 2).sstLevelRatio :=
  have h := Option.eq_some_of_isSome
    (by decide : ((empty "db" []).run (Config.withLimits 1 1000 2) threeFlushes).isSome)
  ⟨by decide, _, h, reachable_level0_le_ratio _ (by decide) "db" [] threeFlushes h⟩

/-! ## The engine refines the store -/

/-- From a state that holds `kv`, a run either stops at a call that reaches `flush_last` with
nothing frozen, or returns a state whose `get` answers every key as the same run makes the store
answer, as long as every id it minted fits the heap's `int`. -/
theorem run_get_eq_store_get (hratio : 0 < cfg.sstLevelRatio) (ops : List Op) {s : LSMEngine}
    {kv : KVStore} (hs : s.Wf) (hkv : s.Refines kv) :
    (∃ s', s.run cfg ops = some s' ∧
      (s'.curMaxSstId ≤ 2 ^ 31 + 1 → ∀ k, s'.get k = some ((kv.run ops).get k))) ∨
    (s.run cfg ops = none ∧ ∃ pre op post s₁, ops = pre ++ op :: post ∧
      s.run cfg pre = some s₁ ∧ s₁.Panics cfg op) := by
  rcases hs.run_returns cfg hratio ops with ⟨s', h⟩ | hstop
  · obtain ⟨hwf, -, -, href⟩ := hs.run_spec cfg ops h
    exact .inl ⟨s', h, fun hb k => by rw [hwf.get_eq, href hb kv hkv k]; rfl⟩
  · exact .inr hstop

theorem run_get_eq_store_get_threeFlushes :
    0 < (Config.withLimits 1 1000 2).sstLevelRatio ∧
    ∃ s', (empty "db" []).run (Config.withLimits 1 1000 2) threeFlushes = some s' ∧
      (s'.curMaxSstId ≤ 2 ^ 31 + 1 →
        ∀ k, s'.get k = some ((KVStore.empty.run threeFlushes).get k)) := by
  have hret : ((empty "db" []).run (Config.withLimits 1 1000 2) threeFlushes).isSome := by decide
  refine ⟨by decide, (run_get_eq_store_get _ (by decide) threeFlushes (wf_empty "db" [])
    (refines_empty "db" [])).resolve_right fun h => ?_⟩
  rw [h.1] at hret
  exact Bool.false_ne_true hret

/-- `2 ^ 31` rounds of a write, a flush and a `clear`. `clear` keeps `cur_max_sst_id`, so they
leave an empty engine whose next id is `2 ^ 31`. -/
def idRounds (n : Nat) : List Op := (List.replicate n [.put "a" "x", .flush, .clear]).flatten

/-- Then `k` is written twice, each version flushed to level 0, under the ids `2 ^ 31` and
`2 ^ 31 + 1`, and a third flush compacts level 0. -/
def overwriteAndCompact : List Op :=
  [.put "k" "old", .flush, .put "k" "new", .flush, .put "b" "y", .flush]

theorem run_idRounds (n i : Nat) :
    ({ empty "db" [] with curMaxSstId := i }).run (Config.withLimits 1 1000 2) (idRounds n) =
      some { empty "db" [] with curMaxSstId := i + n } := by
  induction n generalizing i with
  | zero => rfl
  | succ n ih =>
    have hround : ({ empty "db" [] with curMaxSstId := i }).run (Config.withLimits 1 1000 2)
        [.put "a" "x", .flush, .clear] = some { empty "db" [] with curMaxSstId := i + 1 } := rfl
    rw [idRounds, List.replicate_succ, List.flatten_cons, run_append, hround, Option.some_bind,
      ← idRounds, ih, Nat.add_assoc, Nat.add_comm 1 n]

theorem store_run_idRounds (n : Nat) : KVStore.empty.run (idRounds n) = .empty := by
  induction n with
  | zero => rfl
  | succ n ih => rw [idRounds, List.replicate_succ, List.flatten_cons, KVStore.run_append, ← idRounds]; exact ih

/-- Past `2 ^ 31` ids, the heap that merges level 0 during a compaction ranks an SST by an `int`
that no longer grows with its id: `-(2 ^ 31)` for id `2 ^ 31` and `2 ^ 31 - 1` for id `2 ^ 31 + 1`.
The older version of `k` wins the merge, and `get` returns it after the newer was written. -/
theorem get_returns_older_version_past_int_ids :
    ∃ s', (empty "db" []).run (Config.withLimits 1 1000 2)
        (idRounds (2 ^ 31) ++ overwriteAndCompact) = some s' ∧
      s'.get "k" = some (some "old") ∧
      (KVStore.empty.run (idRounds (2 ^ 31) ++ overwriteAndCompact)).get "k" = some "new" := by
  have h0 : empty "db" [] = { empty "db" [] with curMaxSstId := 0 } := rfl
  rw [run_append, h0, run_idRounds, Option.some_bind, Nat.zero_add, KVStore.run_append,
    store_run_idRounds]
  have h := Option.eq_some_of_isSome (by decide : (({ empty "db" [] with curMaxSstId := 2 ^ 31 }).run
    (Config.withLimits 1 1000 2) overwriteAndCompact).isSome)
  exact ⟨_, h, by decide, by decide⟩

/-- Every id up to `2 ^ 32` is one the counter reaches, and once an id `b` is past `2 ^ 31` the
item built for it is no longer below the item of an id `a ≤ 2 ^ 31` on the same key: the narrowed
`-b` is `2 ^ 32 - b ≥ 0`, the narrowed `-a` is `-a ≤ 0`. -/
theorem searchItem_prefers_older_past_int_ids {a b : Nat} (ha : a ≤ 2 ^ 31) (hb₁ : 2 ^ 31 < b)
    (hb₂ : b ≤ 2 ^ 32) (key va vb : String) (la lb : Nat) :
    (∃ s, (empty "db" []).run (Config.withLimits 1 1000 2) (idRounds b) = some s ∧ s.curMaxSstId = b) ∧
      SearchItem.lt ⟨key, vb, sstIdx b, lb⟩ ⟨key, va, sstIdx a, la⟩ = false := by
  have h0 : empty "db" [] = { empty "db" [] with curMaxSstId := 0 } := rfl
  refine ⟨⟨_, by rw [h0, run_idRounds], Nat.zero_add b⟩, ?_⟩
  simp only [SearchItem.lt, ne_eq, not_true_eq_false, if_false, decide_eq_false_iff_not,
    sstIdx_of_le ha, sstIdx_of_gt hb₁ hb₂]
  omega

theorem searchItem_prefers_older_past_int_ids_first :
    (∃ s, (empty "db" []).run (Config.withLimits 1 1000 2) (idRounds (2 ^ 31 + 1)) = some s ∧
        s.curMaxSstId = 2 ^ 31 + 1) ∧
      SearchItem.lt ⟨"k", "new", sstIdx (2 ^ 31 + 1), 0⟩ ⟨"k", "old", sstIdx (2 ^ 31), 0⟩ = false :=
  searchItem_prefers_older_past_int_ids (by decide) (by decide) (by decide) "k" "old" "new" 0 0

end LSMEngine

end LsmTree
