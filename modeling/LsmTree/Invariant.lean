import LsmTree.Engine
set_option autoImplicit false

/-!
# What the engine stores, and the shape its operations keep

`searchOrder` lists every record the engine holds in the order `get` consults them: the
memtable's skiplists newest first, then the SSTs of every level, level by level and each level in
list order. `view` reads a key off it, the first record winning. The refinement theorems say that
`get` answers with `view`, and that every operation changes `view` as it changes a `KVStore`.

`Wf` is the shape of the level map that the operations keep:

* (a) the level lists hold exactly the registered SSTs, each once;
* (b) level 0 is newest first;
* (c) every deeper level is sorted by id, with non-empty SSTs whose key ranges ascend and are
  disjoint;
* (e) `cur_max_sst_id` is above every id, and `cur_max_level` at or above every non-empty level.

(d), a deeper level holds older ids, is `OrderedFrom 0`.
-/

namespace LsmTree

namespace LSMEngine

def levelSsts (s : LSMEngine) (level : Nat) : List SST := (s.levelIds level).filterMap s.sst?

def levelOrder (s : LSMEngine) : List (String × String) :=
  (List.range s.levelSstIds.length).flatMap fun level => concactIterator (s.levelSsts level)

/-- Every record, in the order `get` consults them. -/
def searchOrder (s : LSMEngine) : List (String × String) :=
  (s.memtable.tables.map SkipList.nodes).flatten ++ s.levelOrder

/-- The newest version of a key the engine holds, a tombstone included. -/
def view (s : LSMEngine) (k : String) : Option String := lookup s.searchOrder k

theorem view_eq (s : LSMEngine) (k : String) :
    s.view k = (s.memtable.get k).or (lookup s.levelOrder k) := by
  rw [view, searchOrder, lookup_append, MemTable.get, firstHit_eq_lookup]

/-- The shape of the level map (see the module doc). -/
structure Wf (s : LSMEngine) : Prop where
  registered : ∀ id ∈ s.levelSstIds.flatten, id ∈ s.ssts.map SST.sstId
  listed : ∀ t ∈ s.ssts, t.sstId ∈ s.levelSstIds.flatten
  nodupLevels : s.levelSstIds.flatten.Nodup
  nodup : (s.ssts.map SST.sstId).Nodup
  ascending : ∀ t ∈ s.ssts, Ascending t.entries
  level0 : (s.levelIds 0).Sorted (· > ·)
  deeperIds : ∀ level < s.levelSstIds.length, 0 < level → (s.levelIds level).Sorted (· < ·)
  deeperRanges : ∀ level < s.levelSstIds.length, 0 < level →
    (s.levelSsts level).Pairwise (fun a b => a.getLastKey < b.getFirstKey)
  deeperNonempty : ∀ level < s.levelSstIds.length, 0 < level →
    ∀ t ∈ s.levelSsts level, t.entries ≠ []
  maxId : ∀ t ∈ s.ssts, t.sstId < s.curMaxSstId
  maxLevel : ∀ level < s.levelSstIds.length, s.levelIds level ≠ [] → level ≤ s.curMaxLevel

instance (s : LSMEngine) : Decidable s.Wf :=
  have : Decidable ((∀ id ∈ s.levelSstIds.flatten, id ∈ s.ssts.map SST.sstId) ∧
      (∀ t ∈ s.ssts, t.sstId ∈ s.levelSstIds.flatten) ∧ s.levelSstIds.flatten.Nodup ∧
      (s.ssts.map SST.sstId).Nodup ∧ (∀ t ∈ s.ssts, Ascending t.entries)) := inferInstance
  have : Decidable ((s.levelIds 0).Sorted (· > ·) ∧
      (∀ level < s.levelSstIds.length, 0 < level → (s.levelIds level).Sorted (· < ·)) ∧
      (∀ level < s.levelSstIds.length, 0 < level →
        (s.levelSsts level).Pairwise (fun a b => a.getLastKey < b.getFirstKey))) := inferInstance
  have : Decidable ((∀ level < s.levelSstIds.length, 0 < level →
        ∀ t ∈ s.levelSsts level, t.entries ≠ []) ∧
      (∀ t ∈ s.ssts, t.sstId < s.curMaxSstId) ∧
      ∀ level < s.levelSstIds.length, s.levelIds level ≠ [] → level ≤ s.curMaxLevel) :=
    inferInstance
  decidable_of_iff (((∀ id ∈ s.levelSstIds.flatten, id ∈ s.ssts.map SST.sstId) ∧
      (∀ t ∈ s.ssts, t.sstId ∈ s.levelSstIds.flatten) ∧ s.levelSstIds.flatten.Nodup ∧
      (s.ssts.map SST.sstId).Nodup ∧ (∀ t ∈ s.ssts, Ascending t.entries)) ∧
      ((s.levelIds 0).Sorted (· > ·) ∧
      (∀ level < s.levelSstIds.length, 0 < level → (s.levelIds level).Sorted (· < ·)) ∧
      (∀ level < s.levelSstIds.length, 0 < level →
        (s.levelSsts level).Pairwise (fun a b => a.getLastKey < b.getFirstKey))) ∧
      ((∀ level < s.levelSstIds.length, 0 < level → ∀ t ∈ s.levelSsts level, t.entries ≠ []) ∧
      (∀ t ∈ s.ssts, t.sstId < s.curMaxSstId) ∧
      ∀ level < s.levelSstIds.length, s.levelIds level ≠ [] → level ≤ s.curMaxLevel))
    ⟨fun ⟨⟨a, b, c, d, e⟩, ⟨f, g, h⟩, ⟨i, j, k⟩⟩ => ⟨a, b, c, d, e, f, g, h, i, j, k⟩,
      fun ⟨a, b, c, d, e, f, g, h, i, j, k⟩ => ⟨⟨a, b, c, d, e⟩, ⟨f, g, h⟩, ⟨i, j, k⟩⟩⟩

/-- (d) from level `m` on: every id at a level is above every id at a deeper one. -/
def OrderedFrom (s : LSMEngine) (m : Nat) : Prop :=
  ∀ i < s.levelSstIds.length, ∀ j < s.levelSstIds.length, m ≤ i ∧ i < j →
    ∀ a ∈ s.levelIds i, ∀ b ∈ s.levelIds j, b < a

instance (s : LSMEngine) (m : Nat) : Decidable (s.OrderedFrom m) :=
  inferInstanceAs (Decidable (∀ i < s.levelSstIds.length, ∀ j < s.levelSstIds.length,
    m ≤ i ∧ i < j → ∀ a ∈ s.levelIds i, ∀ b ∈ s.levelIds j, b < a))

/-! ## The level map toolkit -/

section Toolkit

variable {s : LSMEngine}

theorem getD_setLevel (levels : List (List Nat)) (l l' : Nat) (ids : List Nat) :
    (setLevel levels l ids).getD l' [] = if l' = l then ids else levels.getD l' [] := by
  have hlen : l < (levels ++ List.replicate (l + 1 - levels.length) []).length := by
    simp only [List.length_append, List.length_replicate]; omega
  rw [setLevel, List.getD_eq_getElem?_getD, List.getElem?_set]
  by_cases h : l' = l
  · subst h; rw [if_pos rfl, if_pos hlen, if_pos rfl]; rfl
  · rw [if_neg (Ne.symm h), if_neg h, ← List.getD_eq_getElem?_getD]
    by_cases h' : l' < levels.length
    · exact List.getD_append _ _ _ _ h'
    · rw [List.getD_append_right _ _ _ _ (not_lt.1 h'), List.getD_eq_getElem?_getD,
        List.getElem?_getD_replicate_default_eq, List.getD_eq_default _ _ (not_lt.1 h')]

theorem length_setLevel (levels : List (List Nat)) (l : Nat) (ids : List Nat) :
    (setLevel levels l ids).length = max levels.length (l + 1) := by
  simp only [setLevel, List.length_set, List.length_append, List.length_replicate]
  omega

theorem mem_flatten_iff_getD {L : List (List Nat)} {id : Nat} :
    id ∈ L.flatten ↔ ∃ l, id ∈ L.getD l [] := by
  induction L with
  | nil => simp
  | cons a L ih =>
    simp only [List.flatten_cons, List.mem_append, ih]
    constructor
    · rintro (h | ⟨l, h⟩)
      · exact ⟨0, h⟩
      · exact ⟨l + 1, h⟩
    · rintro ⟨_ | l, h⟩
      · exact .inl h
      · exact .inr ⟨l, h⟩

theorem nodup_flatten_iff_getD {L : List (List Nat)} :
    L.flatten.Nodup ↔ (∀ l, (L.getD l []).Nodup) ∧
      ∀ l₁ l₂ id, id ∈ L.getD l₁ [] → id ∈ L.getD l₂ [] → l₁ = l₂ := by
  induction L with
  | nil => simp
  | cons a L ih =>
    rw [List.flatten_cons, List.nodup_append, ih]
    constructor
    · rintro ⟨ha, ⟨hn, hu⟩, hd⟩
      refine ⟨fun l => ?_, fun l₁ l₂ id h₁ h₂ => ?_⟩
      · cases l
        · exact ha
        · exact hn _
      · cases l₁ <;> cases l₂
        · rfl
        · exact (hd h₁ (mem_flatten_iff_getD.2 ⟨_, h₂⟩)).elim
        · exact (hd h₂ (mem_flatten_iff_getD.2 ⟨_, h₁⟩)).elim
        · exact congrArg _ (hu _ _ id h₁ h₂)
    · rintro ⟨hn, hu⟩
      refine ⟨hn 0, ⟨fun l => hn (l + 1), fun l₁ l₂ id h₁ h₂ => Nat.succ.inj (hu _ _ id h₁ h₂)⟩,
        fun id h₁ h₂ => ?_⟩
      obtain ⟨l, h₂⟩ := mem_flatten_iff_getD.1 h₂
      exact absurd (hu 0 (l + 1) id h₁ h₂) (Nat.succ_ne_zero l).symm

theorem levelIds_eq_nil {level : Nat} (h : s.levelSstIds.length ≤ level) : s.levelIds level = [] := by
  simp [levelIds, List.getElem?_eq_none h]

theorem lt_length_of_mem {level id : Nat} (h : id ∈ s.levelIds level) :
    level < s.levelSstIds.length :=
  not_le.1 fun hl => by simp [levelIds_eq_nil hl] at h

theorem mem_flatten_of_mem_levelIds {level id : Nat} (h : id ∈ s.levelIds level) :
    id ∈ s.levelSstIds.flatten := by
  by_cases hl : level < s.levelSstIds.length
  · simp only [levelIds, List.getD_eq_getElem?_getD, List.getElem?_eq_getElem hl,
      Option.getD_some] at h
    exact List.mem_flatten.2 ⟨_, List.getElem_mem hl, h⟩
  · simp [levelIds_eq_nil (not_lt.1 hl)] at h

theorem sst?_spec {id : Nat} {t : SST} (h : s.sst? id = some t) : t ∈ s.ssts ∧ t.sstId = id :=
  ⟨List.mem_of_find?_eq_some h, by simpa using List.find?_some h⟩

theorem sst?_isSome {id : Nat} (h : id ∈ s.ssts.map SST.sstId) : (s.sst? id).isSome := by
  obtain ⟨t, ht, rfl⟩ := List.mem_map.1 h
  exact List.find?_isSome.2 ⟨t, ht, by simp⟩

theorem map_sst? {ids : List Nat} (h : ∀ id ∈ ids, (s.sst? id).isSome) :
    ids.map s.sst? = (ids.filterMap s.sst?).map some := by
  induction ids with
  | nil => rfl
  | cons id ids ih =>
    obtain ⟨t, ht⟩ := Option.isSome_iff_exists.1 (h id (List.mem_cons_self _ _))
    simp [ht, ih fun id' hid' => h id' (List.mem_cons_of_mem _ hid')]

theorem Wf.isSome_sst? (hs : s.Wf) {level id : Nat} (h : id ∈ s.levelIds level) :
    (s.sst? id).isSome :=
  sst?_isSome (hs.registered _ (mem_flatten_of_mem_levelIds h))

theorem Wf.levelIds_map_sst? (hs : s.Wf) (level : Nat) :
    (s.levelIds level).map s.sst? = (s.levelSsts level).map some :=
  map_sst? fun _ h => hs.isSome_sst? h

theorem map_sstId_filterMap {ids : List Nat} (h : ∀ id ∈ ids, (s.sst? id).isSome) :
    (ids.filterMap s.sst?).map SST.sstId = ids := by
  induction ids with
  | nil => rfl
  | cons id ids ih =>
    obtain ⟨t, ht⟩ := Option.isSome_iff_exists.1 (h id (List.mem_cons_self _ _))
    rw [List.filterMap_cons, ht, List.map_cons, (sst?_spec ht).2,
      ih fun id' hid' => h id' (List.mem_cons_of_mem _ hid')]

theorem Wf.map_sstId_levelSsts (hs : s.Wf) (level : Nat) :
    (s.levelSsts level).map SST.sstId = s.levelIds level :=
  map_sstId_filterMap fun _ h => hs.isSome_sst? h

theorem Wf.lt_curMaxSstId (hs : s.Wf) {level id : Nat} (h : id ∈ s.levelIds level) :
    id < s.curMaxSstId := by
  obtain ⟨t, ht, rfl⟩ := List.mem_map.1 (hs.registered id (mem_flatten_of_mem_levelIds h))
  exact hs.maxId t ht

theorem Wf.level_unique (hs : s.Wf) {l₁ l₂ id : Nat} (h₁ : id ∈ s.levelIds l₁)
    (h₂ : id ∈ s.levelIds l₂) : l₁ = l₂ :=
  (nodup_flatten_iff_getD.1 hs.nodupLevels).2 l₁ l₂ id h₁ h₂

theorem mem_levelSsts {level : Nat} {t : SST} (ht : t ∈ s.levelSsts level) : t ∈ s.ssts := by
  obtain ⟨id, -, hid⟩ := List.mem_filterMap.1 ht
  exact (sst?_spec hid).1

theorem Wf.ascending_of_mem_levelSsts (hs : s.Wf) {level : Nat} {t : SST}
    (ht : t ∈ s.levelSsts level) : Ascending t.entries :=
  hs.ascending t (mem_levelSsts ht)

theorem Wf.deeper' (hs : s.Wf) {level : Nat} (hl : 0 < level) :
    (s.levelIds level).Sorted (· < ·) ∧
    (s.levelSsts level).Pairwise (fun a b => a.getLastKey < b.getFirstKey) ∧
    ∀ t ∈ s.levelSsts level, t.entries ≠ [] := by
  by_cases h : level < s.levelSstIds.length
  · exact ⟨hs.deeperIds level h hl, hs.deeperRanges level h hl, hs.deeperNonempty level h hl⟩
  · simp [levelSsts, levelIds_eq_nil (not_lt.1 h)]

theorem Wf.levelIds_eq_nil_of_lt (hs : s.Wf) {level : Nat} (h : s.curMaxLevel < level) :
    s.levelIds level = [] := by
  by_cases hl : level < s.levelSstIds.length
  · by_contra hne
    exact absurd (hs.maxLevel level hl hne) (not_le.2 h)
  · exact levelIds_eq_nil (not_lt.1 hl)

theorem Wf.le_curMaxLevel (hs : s.Wf) {level : Nat} (h : s.levelIds level ≠ []) :
    level ≤ s.curMaxLevel :=
  not_lt.1 fun hlt => h (hs.levelIds_eq_nil_of_lt hlt)

end Toolkit

end LSMEngine

end LsmTree
