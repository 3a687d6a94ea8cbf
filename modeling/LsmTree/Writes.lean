import LsmTree.Compaction
import LsmTree.Directory
import LsmTree.Store
set_option autoImplicit false

/-!
# Writes and flushes

`put`, `remove` and their batches write the memtable: the memtable then answers as the same write
makes a `KVStore` answer. `flush` compacts level 0 once it is full and then moves the oldest frozen
skiplist into a new level-0 SST (`flushed`): it keeps `Wf` and (d), and, while every id fits the
heap's `int`, changes no answer. It fails exactly when the memtable holds bytes and nothing is
frozen, which spec §4.2 makes a panic of `flush_last`.
-/

namespace LsmTree

namespace LSMEngine

variable (cfg : Config)

/-- The engine holds the store `kv`: every key reads in `view` as in `kv`. -/
def Refines (s : LSMEngine) (kv : KVStore) : Prop := ∀ k, s.view k = lookup kv.entries k

/-! ## Writing the memtable -/

section Memtable

variable {s : LSMEngine}

theorem Wf.withMemtable (hs : s.Wf) (m : MemTable) : { s with memtable := m }.Wf :=
  ⟨hs.1, hs.2, hs.3, hs.4, hs.5, hs.6, hs.7, hs.8, hs.9, hs.10, hs.11⟩

theorem refines_withMemtable {m : MemTable} {kv : KVStore} :
    { s with memtable := m }.Refines kv ↔
      ∀ k, (m.get k).or (lookup s.levelOrder k) = lookup kv.entries k :=
  forall_congr' fun k => by rw [view_eq]; rfl

variable {m : MemTable} {kv : KVStore} {L : List (String × String)}

theorem or_get_put (h : ∀ k, (m.get k).or (lookup L k) = lookup kv.entries k) (a b k : String) :
    ((m.put cfg a b).get k).or (lookup L k) = lookup (kv.put a b).entries k := by
  rw [MemTable.get_put, KVStore.put, lookup_insertNode]
  split_ifs
  · rfl
  · exact h k

theorem or_get_putBatch : ∀ (kvs : List (String × String)) {m : MemTable} {kv : KVStore},
    (∀ k, (m.get k).or (lookup L k) = lookup kv.entries k) →
    ∀ k, ((m.putBatch cfg kvs).get k).or (lookup L k) = lookup (kv.putBatch kvs).entries k
  | [], _, _, h => h
  | p :: kvs, _, _, h => or_get_putBatch kvs (or_get_put cfg h p.1 p.2)

theorem or_get_removeBatch : ∀ (ks : List String) {m : MemTable} {kv : KVStore},
    (∀ k, (m.get k).or (lookup L k) = lookup kv.entries k) →
    ∀ k, ((m.removeBatch cfg ks).get k).or (lookup L k) = lookup (kv.removeBatch ks).entries k
  | [], _, _, h => h
  | k :: ks, _, _, h => or_get_removeBatch ks (or_get_put cfg h k "")

end Memtable

/-! ## Flush -/

/-- The state `flush` leaves once level 0 has room: the skiplist `t`, the oldest frozen one,
written to a new level-0 SST under `cur_max_sst_id`. -/
def flushed (s : LSMEngine) (t : SkipList) : LSMEngine :=
  let name := sstFileName s.curMaxSstId 0
  { s with
    curMaxSstId := s.curMaxSstId + 1
    memtable := { s.memtable with frozen := s.memtable.frozen.dropLast }
    dir := writeFile s.dir name t.nodes
    ssts := registerSst s.ssts ⟨s.curMaxSstId, name, t.nodes⟩
    levelSstIds := setLevel s.levelSstIds 0 (s.curMaxSstId :: s.levelIds 0) }

@[simp] theorem memtable_flushed (s : LSMEngine) (t : SkipList) :
    (s.flushed t).memtable = { s.memtable with frozen := s.memtable.frozen.dropLast } := rfl

@[simp] theorem curMaxSstId_flushed (s : LSMEngine) (t : SkipList) :
    (s.flushed t).curMaxSstId = s.curMaxSstId + 1 := rfl

theorem flush_eq (s : LSMEngine) (h : 0 < s.memtable.getTotalSize) :
    s.flush cfg = (if s.levelSstIds ≠ [] ∧ cfg.sstLevelRatio ≤ (s.levelIds 0).length then
      fullCompact cfg (s.levelSstIds.length + 1) 0 s else some s).bind fun s =>
        s.memtable.frozen.getLast?.map s.flushed := by
  rw [flush, if_neg h.ne']
  dsimp only
  split_ifs
  · congr 1
    funext y
    simp only [MemTable.flushLast]
    cases y.memtable.frozen.getLast? <;> rfl
  · simp only [MemTable.flushLast, Option.bind_eq_bind, Option.some_bind]
    cases s.memtable.frozen.getLast? <;> rfl

section Flushed

variable {s : LSMEngine} {t : SkipList}

theorem levelIds_flushed (l : Nat) :
    (s.flushed t).levelIds l = if l = 0 then s.curMaxSstId :: s.levelIds 0 else s.levelIds l := by
  simp only [levelIds, flushed, getD_setLevel]

theorem mem_levelIds_flushed {l id : Nat} :
    id ∈ (s.flushed t).levelIds l ↔ (l = 0 ∧ id = s.curMaxSstId) ∨ id ∈ s.levelIds l := by
  rw [levelIds_flushed]
  split_ifs with h <;> simp [h]

variable (hs : s.Wf)

include hs

theorem Wf.ssts_flushed :
    (s.flushed t).ssts = s.ssts ++ [⟨s.curMaxSstId, sstFileName s.curMaxSstId 0, t.nodes⟩] := by
  simp only [flushed, registerSst]
  rw [List.filter_eq_self.2 fun u hu => by simpa using (hs.maxId u hu).ne]

theorem Wf.mem_ssts_flushed {u : SST} : u ∈ (s.flushed t).ssts ↔
    u ∈ s.ssts ∨ u = ⟨s.curMaxSstId, sstFileName s.curMaxSstId 0, t.nodes⟩ := by
  rw [hs.ssts_flushed, List.mem_append, List.mem_singleton]

theorem Wf.sst?_flushed (id : Nat) : (s.flushed t).sst? id =
    if id = s.curMaxSstId then some ⟨s.curMaxSstId, sstFileName s.curMaxSstId 0, t.nodes⟩
    else s.sst? id := by
  rw [sst?, hs.ssts_flushed, List.find?_append, ← sst?]
  split_ifs with h
  · subst h
    have hnone : s.sst? s.curMaxSstId = none :=
      List.find?_eq_none.2 fun u hu h => (hs.maxId u hu).ne (by simpa using h)
    simp [hnone]
  · simp [Ne.symm h]

theorem Wf.levelSsts_flushed (l : Nat) : (s.flushed t).levelSsts l =
    if l = 0 then ⟨s.curMaxSstId, sstFileName s.curMaxSstId 0, t.nodes⟩ :: s.levelSsts 0
    else s.levelSsts l := by
  have hold : ∀ l, ∀ id ∈ s.levelIds l, (s.flushed t).sst? id = s.sst? id := fun _ id hid => by
    rw [hs.sst?_flushed, if_neg (hs.lt_curMaxSstId hid).ne]
  rw [levelSsts, levelIds_flushed]
  split_ifs
  · rw [List.filterMap_cons, hs.sst?_flushed, if_pos rfl, levelSsts,
      List.filterMap_congr (hold 0)]
  · exact List.filterMap_congr (hold l)

theorem Wf.levelOrder_flushed : (s.flushed t).levelOrder = t.nodes ++ s.levelOrder := by
  have hlen : (s.flushed t).levelSstIds.length = max s.levelSstIds.length 1 :=
    length_setLevel _ _ _
  have hempty : ∀ l, s.levelSstIds.length ≤ l → concactIterator (s.levelSsts l) = [] :=
    fun l hl => by simp [levelSsts, levelIds_eq_nil hl, concactIterator]
  obtain ⟨n, hn⟩ : ∃ n, max s.levelSstIds.length 1 = n + 1 := ⟨_, (Nat.succ_pred_eq_of_pos
    (lt_max_of_lt_right Nat.one_pos)).symm⟩
  rw [levelOrder, levelOrder, hlen, hn, ← flatMap_range_levels hempty (n := n + 1) (hn ▸ le_max_left _ _),
    List.range_succ_eq_map, List.flatMap_cons, List.flatMap_cons, List.flatMap_map,
    List.flatMap_map, hs.levelSsts_flushed, if_pos rfl]
  simp [concactIterator, hs.levelSsts_flushed]

theorem Wf.searchOrder_flushed (ht : s.memtable.frozen.getLast? = some t) :
    (s.flushed t).searchOrder = s.searchOrder := by
  have hf := List.dropLast_append_getLast? t ht
  rw [searchOrder, searchOrder, hs.levelOrder_flushed]
  conv_rhs => rw [MemTable.tables, ← hf]
  simp [MemTable.tables, flushed]

theorem Wf.flushed : (s.flushed t).Wf := by
  have hfresh : ∀ {l id}, id ∈ s.levelIds l → id ≠ s.curMaxSstId :=
    fun h => (hs.lt_curMaxSstId h).ne
  constructor
  · intro id hid
    obtain ⟨l, hl⟩ := mem_flatten_iff_getD.1 hid
    rw [hs.ssts_flushed, List.map_append, List.mem_append]
    rcases mem_levelIds_flushed.1 hl with ⟨-, rfl⟩ | hl
    · exact .inr (List.mem_singleton.2 rfl)
    · exact .inl (hs.registered _ (mem_flatten_of_mem_levelIds hl))
  · intro u hu
    refine mem_flatten_iff_getD.2 ?_
    rcases hs.mem_ssts_flushed.1 hu with hu | rfl
    · obtain ⟨l, hl⟩ := mem_flatten_iff_getD.1 (hs.listed u hu)
      exact ⟨l, mem_levelIds_flushed.2 (.inr hl)⟩
    · exact ⟨0, mem_levelIds_flushed.2 (.inl ⟨rfl, rfl⟩)⟩
  · refine nodup_flatten_iff_getD.2 ⟨fun l => ?_, fun l₁ l₂ id h₁ h₂ => ?_⟩
    · show ((s.flushed t).levelIds l).Nodup
      rw [levelIds_flushed]
      split_ifs
      · exact List.nodup_cons.2 ⟨fun h => hfresh h rfl,
          (nodup_flatten_iff_getD.1 hs.nodupLevels).1 0⟩
      · exact (nodup_flatten_iff_getD.1 hs.nodupLevels).1 l
    · rcases mem_levelIds_flushed.1 h₁ with ⟨rfl, rfl⟩ | h₁ <;>
        rcases mem_levelIds_flushed.1 h₂ with ⟨rfl, e⟩ | h₂
      · rfl
      · exact absurd rfl (hfresh h₂)
      · exact absurd e (hfresh h₁)
      · exact hs.level_unique h₁ h₂
  · rw [hs.ssts_flushed, List.map_append]
    exact List.nodup_append.2 ⟨hs.nodup, List.nodup_singleton _, fun id h₁ h₂ => by
      obtain ⟨u, hu, rfl⟩ := List.mem_map.1 h₁
      exact (hs.maxId u hu).ne (List.mem_singleton.1 h₂)⟩
  · intro u hu
    rcases hs.mem_ssts_flushed.1 hu with hu | rfl
    · exact hs.ascending u hu
    · exact t.ascending
  · show ((s.flushed t).levelIds 0).Sorted (· > ·)
    rw [levelIds_flushed, if_pos rfl]
    exact List.sorted_cons.2 ⟨fun b hb => hs.lt_curMaxSstId hb, hs.level0⟩
  · intro l _ hl
    show ((s.flushed t).levelIds l).Sorted (· < ·)
    rw [levelIds_flushed, if_neg hl.ne']
    exact (hs.deeper' hl).1
  · intro l _ hl
    rw [hs.levelSsts_flushed, if_neg hl.ne']
    exact (hs.deeper' hl).2.1
  · intro l _ hl
    rw [hs.levelSsts_flushed, if_neg hl.ne']
    exact (hs.deeper' hl).2.2
  · intro u hu
    rcases hs.mem_ssts_flushed.1 hu with hu | rfl
    · exact (hs.maxId u hu).trans (Nat.lt_succ_self _)
    · exact Nat.lt_succ_self _
  · intro l _ hl
    show l ≤ s.curMaxLevel
    obtain ⟨id, hid⟩ := List.exists_mem_of_ne_nil _ hl
    rcases mem_levelIds_flushed.1 hid with ⟨rfl, -⟩ | hid
    · exact Nat.zero_le _
    · exact hs.le_curMaxLevel (List.ne_nil_of_mem hid)

theorem Wf.orderedFrom_flushed (hord : s.OrderedFrom 0) : (s.flushed t).OrderedFrom 0 := by
  rintro i - j - ⟨-, hij⟩ a ha b hb
  rcases mem_levelIds_flushed.1 hb with ⟨rfl, -⟩ | hb
  · omega
  rcases mem_levelIds_flushed.1 ha with ⟨-, rfl⟩ | ha
  · exact hs.lt_curMaxSstId hb
  · exact hord i (lt_length_of_mem ha) j (lt_length_of_mem hb) ⟨Nat.zero_le _, hij⟩ a ha b hb

end Flushed

/-! ## The calls -/

section Calls

variable {s s' : LSMEngine}

/-- What `flush` does when it returns: the level map keeps its shape and (d), the active skiplist
stays, the oldest frozen one goes, and, while the ids fit the heap's `int`, no key changes. -/
theorem Wf.flush_spec (hs : s.Wf) (h : s.flush cfg = some s') :
    s'.Wf ∧ (s.OrderedFrom 0 → s'.OrderedFrom 0) ∧ s.curMaxSstId ≤ s'.curMaxSstId ∧
      s'.memtable.active = s.memtable.active ∧
      (0 < s.memtable.getTotalSize → s'.memtable.frozen = s.memtable.frozen.dropLast) ∧
      (s'.curMaxSstId ≤ 2 ^ 31 + 1 → ∀ k, s'.view k = s.view k) := by
  by_cases h0 : s.memtable.getTotalSize = 0
  · rw [flush, if_pos h0] at h
    cases h
    exact ⟨hs, id, le_rfl, rfl, fun h => absurd h0 h.ne', fun _ _ => rfl⟩
  rw [flush_eq cfg s (Nat.pos_of_ne_zero h0)] at h
  obtain ⟨s1, hs1, h⟩ := Option.bind_eq_some.1 h
  obtain ⟨t, ht, rfl⟩ := Option.map_eq_some'.1 h
  obtain ⟨hwf1, hord1, hmem1, hmax1, hview1⟩ : s1.Wf ∧ (s.OrderedFrom 0 → s1.OrderedFrom 0) ∧
      s1.memtable = s.memtable ∧ s.curMaxSstId ≤ s1.curMaxSstId ∧
      ((∀ id ∈ s.levelIds 0, id ≤ 2 ^ 31) → ∀ k, s1.view k = s.view k) := by
    split_ifs at hs1
    · obtain ⟨hwf, -, hord, hmem, -, hmax, hview⟩ := hs.fullCompact_spec cfg hs1
      exact ⟨hwf, fun h => hord (h.mono (Nat.zero_le _)), hmem, hmax, fun hb => hview fun _ => hb⟩
    · cases hs1
      exact ⟨hs, id, rfl, le_rfl, fun _ _ => rfl⟩
  refine ⟨hwf1.flushed, fun h => hwf1.orderedFrom_flushed (hord1 h),
    hmax1.trans (Nat.le_succ _), by simp [hmem1], fun _ => by simp [hmem1], fun hb k => ?_⟩
  rw [view, hwf1.searchOrder_flushed ht, ← view, hview1 fun id hid => ?_]
  have := hs.lt_curMaxSstId hid
  rw [curMaxSstId_flushed] at hb
  omega

theorem Wf.flush_eq_none_iff (hratio : 0 < cfg.sstLevelRatio) (hs : s.Wf) :
    s.flush cfg = none ↔ 0 < s.memtable.getTotalSize ∧ s.memtable.frozen = [] := by
  by_cases h0 : s.memtable.getTotalSize = 0
  · simp [flush, h0]
  rw [flush_eq cfg s (Nat.pos_of_ne_zero h0)]
  obtain ⟨s1, hs1, hmem⟩ : ∃ s1, (if s.levelSstIds ≠ [] ∧ cfg.sstLevelRatio ≤ (s.levelIds 0).length
      then fullCompact cfg (s.levelSstIds.length + 1) 0 s else some s) = some s1 ∧
      s1.memtable = s.memtable := by
    split_ifs
    · have h1 : (fullCompact cfg (s.levelSstIds.length + 1) 0 s).isSome :=
        hs.fullCompact_isSome cfg hratio (by omega) (by omega)
      obtain ⟨s1, h1⟩ := Option.isSome_iff_exists.1 h1
      exact ⟨s1, h1, (hs.fullCompact_spec cfg h1).2.2.2.1⟩
    · exact ⟨s, rfl, rfl⟩
  rw [hs1, Option.some_bind, hmem, Option.map_eq_none', List.getLast?_eq_none_iff]
  simp [Nat.pos_of_ne_zero h0]

theorem Wf.flushIfFull_spec (hs : s.Wf) (m : MemTable)
    (h : (if cfg.tolMemSizeLimit ≤ m.getTotalSize then { s with memtable := m }.flush cfg
      else some { s with memtable := m }) = some s') :
    s'.Wf ∧ (s.OrderedFrom 0 → s'.OrderedFrom 0) ∧ s.curMaxSstId ≤ s'.curMaxSstId ∧
      (s'.curMaxSstId ≤ 2 ^ 31 + 1 → ∀ k, s'.view k = { s with memtable := m }.view k) := by
  split_ifs at h
  · obtain ⟨hwf, hord, hmax, -, -, hview⟩ := (hs.withMemtable m).flush_spec cfg h
    exact ⟨hwf, hord, hmax, hview⟩
  · cases h
    exact ⟨hs.withMemtable m, id, le_rfl, fun _ _ => rfl⟩

theorem Wf.flushAllLoop_spec : ∀ (fuel : Nat) {s s' : LSMEngine}, s.Wf →
    flushAllLoop cfg fuel s = some s' →
    s'.Wf ∧ (s.OrderedFrom 0 → s'.OrderedFrom 0) ∧ s.curMaxSstId ≤ s'.curMaxSstId ∧
      (s'.curMaxSstId ≤ 2 ^ 31 + 1 → ∀ k, s'.view k = s.view k)
  | fuel + 1, s, s', hs, h => by
    rw [flushAllLoop] at h
    split_ifs at h
    · obtain ⟨s1, h1, h⟩ := Option.bind_eq_some.1 h
      obtain ⟨hwf1, hord1, hmax1, -, -, hview1⟩ := hs.flush_spec cfg h1
      obtain ⟨hwf, hord, hmax, hview⟩ := Wf.flushAllLoop_spec fuel hwf1 h
      exact ⟨hwf, hord ∘ hord1, hmax1.trans hmax, fun hb k =>
        (hview hb k).trans (hview1 (hmax.trans hb) k)⟩
    · cases h
      exact ⟨hs, id, le_rfl, fun _ _ => rfl⟩

end Calls

end LSMEngine

end LsmTree
