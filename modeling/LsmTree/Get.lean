import LsmTree.Invariant
set_option autoImplicit false

/-!
# `get` reads the newest version

Under `Wf`, `LSMEngine.get` answers every key with `view`: the first record of the search order,
a tombstone reading as absent. The memtable and level 0 are linear searches; a deeper level is
the binary search of `get`'s step 3, which finds the only SST whose range can hold the key: over
ranges that ascend without meeting it answers as a linear scan of the level does (`linearScan`),
and over SSTs that hold their records in order that scan reads the level's records.
-/

namespace LsmTree

namespace LSMEngine

/-! ## A level of disjoint ranges -/

section Level

variable {ts : List SST} (hasc : ∀ t ∈ ts, Ascending t.entries)

include hasc in
theorem lookup_concact_eq_none {k : String}
    (hk : ∀ t ∈ ts, k < t.getFirstKey ∨ t.getLastKey < k) :
    lookup (concactIterator ts) k = none := by
  refine lookup_eq_none.2 fun p hp hpk => ?_
  obtain ⟨t, ht, hp⟩ := List.mem_flatMap.1 hp
  have hr := SST.key_mem_range (hasc t ht) hp
  rw [hpk] at hr
  exact (hk t ht).elim (fun h => absurd hr.1 (not_le.2 h)) fun h => absurd hr.2 (not_le.2 h)

include hasc in
theorem lookup_concact_of_mem_range
    (hrange : ts.Pairwise fun a b => a.getLastKey < b.getFirstKey)
    (hne : ∀ t ∈ ts, t.entries ≠ []) {A B : List SST} {t : SST} (hts : ts = A ++ t :: B)
    {k : String} (hlo : t.getFirstKey ≤ k) (hhi : k ≤ t.getLastKey) :
    lookup (concactIterator ts) k = t.get k := by
  subst hts
  have hle : ∀ u ∈ A ++ t :: B, u.getFirstKey ≤ u.getLastKey := fun u hu =>
    SST.firstKey_le_lastKey (hasc u hu) (hne u hu)
  obtain ⟨-, hB, hAB⟩ := List.pairwise_append.1 hrange
  have hA : ∀ u ∈ A, u.getLastKey < k := fun u hu =>
    (hAB u hu t (List.mem_cons_self _ _)).trans_le hlo
  have hB' : ∀ u ∈ B, k < u.getFirstKey := fun u hu =>
    hhi.trans_lt ((List.pairwise_cons.1 hB).1 u hu)
  have hnA : lookup (concactIterator A) k = none :=
    lookup_concact_eq_none (fun u hu => hasc u (List.mem_append_left _ hu))
      fun u hu => .inr (hA u hu)
  have hnB : lookup (concactIterator B) k = none :=
    lookup_concact_eq_none (fun u hu => hasc u (List.mem_append_right _ (List.mem_cons_of_mem _ hu)))
      fun u hu => .inl (hB' u hu)
  simp only [concactIterator, List.flatMap_append, List.flatMap_cons] at hnA hnB ⊢
  rw [lookup_append, lookup_append, hnA, hnB, Option.none_or, Option.or_none]
  rfl

/-! ## The binary search -/

/-- A level read as a linear scan: the first SST whose `[first_key, last_key]` holds the key
answers with its own lookup, `none` when it lacks the key; with no such SST, `none`. `none`
sends `get` on to the next level, and `some ""` is a tombstone. -/
def linearScan (ts : List SST) (k : String) : Option String :=
  match ts.find? fun t => t.getFirstKey ≤ k ∧ k ≤ t.getLastKey with
  | some t => t.get k
  | none => none

include hasc in
theorem linearScan_eq_lookup (hrange : ts.Pairwise fun a b => a.getLastKey < b.getFirstKey)
    (hne : ∀ t ∈ ts, t.entries ≠ []) (k : String) :
    linearScan ts k = lookup (concactIterator ts) k := by
  unfold linearScan
  cases h : ts.find? fun t => t.getFirstKey ≤ k ∧ k ≤ t.getLastKey with
  | none =>
    refine (lookup_concact_eq_none hasc fun t ht => ?_).symm
    have := List.find?_eq_none.1 h t ht
    simp only [decide_eq_true_eq, not_and, not_le] at this
    by_cases h1 : t.getFirstKey ≤ k
    · exact .inr (this h1)
    · exact .inl (not_le.1 h1)
  | some t =>
    obtain ⟨hp, A, B, hsplit, -⟩ := List.find?_eq_some.1 h
    simp only [decide_eq_true_eq] at hp
    exact (lookup_concact_of_mem_range hasc hrange hne hsplit hp.1 hp.2).symm

end Level

section SearchLevel

variable {s : LSMEngine} {k : String} {ids : List Nat} {ts : List SST}
  (hts : ids.map s.sst? = ts.map some)
  (hrange : ts.Pairwise fun a b => a.getLastKey < b.getFirstKey)
  (hle : ∀ t ∈ ts, t.getFirstKey ≤ t.getLastKey)

include hts in
theorem sst?_getD {i : Nat} (hi : i < ts.length) : s.sst? (ids.getD i 0) = some ts[i] := by
  have hlen : ids.length = ts.length := by simpa using congrArg List.length hts
  have := congrArg (·[i]?) hts
  simp only [List.getElem?_map, List.getElem?_eq_getElem hi,
    List.getElem?_eq_getElem (hlen ▸ hi), Option.map_some'] at this
  simpa [List.getD_eq_getElem?_getD, List.getElem?_eq_getElem (hlen ▸ hi)] using this

/-- The invariant of the binary search over `[left, right)`: every SST before `left` ends below the
key and every SST from `right` on starts above it. -/
def Bracket (ts : List SST) (k : String) (left right : Nat) : Prop :=
  (∀ i (h : i < ts.length), i < left → ts[i].getLastKey < k) ∧
    ∀ i (h : i < ts.length), right ≤ i → k < ts[i].getFirstKey

theorem bracket_start : Bracket ts k 0 ts.length :=
  ⟨fun _ _ h => absurd h (Nat.not_lt_zero _), fun _ h hi => absurd h (not_lt.2 hi)⟩

theorem Bracket.linearScan_eq_none {left right : Nat} (hb : Bracket ts k left right)
    (hlr : right ≤ left) : linearScan ts k = none := by
  have : ts.find? (fun t => t.getFirstKey ≤ k ∧ k ≤ t.getLastKey) = none := by
    refine List.find?_eq_none.2 fun t ht hp => ?_
    obtain ⟨i, hi, rfl⟩ := List.getElem_of_mem ht
    simp only [decide_eq_true_eq] at hp
    by_cases h : i < left
    · exact absurd hp.2 (not_le.2 (hb.1 i hi h))
    · exact absurd hp.1 (not_le.2 (hb.2 i hi (by omega)))
  rw [linearScan, this]

include hrange hle in
theorem Bracket.right_step {left right mid : Nat} (hb : Bracket ts k left right)
    (hmid : mid < ts.length) (hgt : ts[mid].getLastKey < k) : Bracket ts k (mid + 1) right := by
  refine ⟨fun i hi hil => ?_, hb.2⟩
  rcases Nat.lt_or_eq_of_le (Nat.le_of_lt_succ hil) with hil | rfl
  · exact (List.pairwise_iff_getElem.1 hrange i mid hi hmid hil).trans_le
      ((hle _ (List.getElem_mem hmid)).trans hgt.le)
  · exact hgt

include hrange hle in
theorem Bracket.left_step {left right mid : Nat} (hb : Bracket ts k left right)
    (hmid : mid < ts.length) (hk : k < ts[mid].getFirstKey) : Bracket ts k left mid := by
  refine ⟨hb.1, fun i hi hil => ?_⟩
  rcases Nat.lt_or_eq_of_le hil with hil | rfl
  · exact hk.trans ((hle _ (List.getElem_mem hmid)).trans_lt
      (List.pairwise_iff_getElem.1 hrange mid i hmid hi hil))
  · exact hk

include hrange in
theorem linearScan_eq_get {mid : Nat} (hmid : mid < ts.length)
    (hin : ts[mid].getFirstKey ≤ k ∧ k ≤ ts[mid].getLastKey) : linearScan ts k = ts[mid].get k := by
  have hfind : ts.find? (fun t => t.getFirstKey ≤ k ∧ k ≤ t.getLastKey) = some ts[mid] := by
    refine List.find?_eq_some.2 ⟨by simpa using hin, ts.take mid, ts.drop (mid + 1),
      by rw [List.getElem_cons_drop, List.take_append_drop], fun a ha => ?_⟩
    obtain ⟨i, hi, rfl⟩ := List.getElem_of_mem ha
    have hi' : i < mid := (by simpa using hi : i < mid ∧ _).1
    have hlt := List.pairwise_iff_getElem.1 hrange i mid (by omega) hmid hi'
    simp only [List.getElem_take, decide_eq_true_eq, not_and, not_le, Bool.not_eq_true',
      decide_eq_false_iff_not]
    exact fun _ => hlt.trans_le hin.1
  rw [linearScan, hfind]

include hts hrange hle in
theorem searchLevel_loop : ∀ (fuel left right : Nat), right ≤ ts.length → right - left ≤ fuel →
    Bracket ts k left right → s.searchLevel k ids fuel left right = some (linearScan ts k)
  | 0, left, right, _, hfuel, hb => by
    rw [searchLevel, hb.linearScan_eq_none (by omega)]
  | fuel + 1, left, right, hr, hfuel, hb => by
    rw [searchLevel]
    split
    · rename_i hlt
      dsimp only
      generalize hm : left + (right - left) / 2 = mid
      have hmid : mid < ts.length := by omega
      rw [sst?_getD hts hmid, Option.bind_eq_bind, Option.some_bind]
      split
      · rename_i hin
        rw [linearScan_eq_get hrange hmid hin]
      · rename_i hout
        split
        · rename_i hgt
          exact searchLevel_loop fuel (mid + 1) right hr (by omega) (hb.right_step hrange hle hmid hgt)
        · rename_i hle'
          exact searchLevel_loop fuel left mid hmid.le (by omega)
            (hb.left_step hrange hle hmid (lt_of_not_le fun h => hout ⟨h, not_lt.1 hle'⟩))
    · rename_i hge
      rw [hb.linearScan_eq_none (not_lt.1 hge)]

include hts hrange hle in
/-- On a level whose SST ranges ascend without meeting, the binary search of `get`'s step 3 ends,
given as many passes as the level has SSTs, with the answer of a linear scan of the level. -/
theorem searchLevel_eq_linearScan {fuel : Nat} (hfuel : ids.length ≤ fuel) :
    s.searchLevel k ids fuel 0 ids.length = some (linearScan ts k) := by
  have hlen : ids.length = ts.length := by simpa using congrArg List.length hts
  rw [hlen] at hfuel ⊢
  exact searchLevel_loop hts hrange hle fuel 0 _ le_rfl (by omega) bracket_start

/-- Two SSTs of one level, the first ending in a tombstone. -/
def rangeLevel : List SST := [⟨1, "sst_1", [("a", "1"), ("c", "")]⟩, ⟨2, "sst_2", [("e", "5")]⟩]

theorem searchLevel_eq_linearScan_rangeLevel :
    ({ dataDir := "db", dir := [], memtable := .empty, ssts := rangeLevel, levelSstIds := [[], [1, 2]],
        curMaxSstId := 3, curMaxLevel := 1 } : LSMEngine).searchLevel "c" [1, 2] 2 0 [1, 2].length =
      some (linearScan rangeLevel "c") :=
  searchLevel_eq_linearScan (by decide) (by decide) (by decide) le_rfl

example : linearScan rangeLevel "c" = some "" := by decide

end SearchLevel

/-! ## `get` -/

section Get

variable {s : LSMEngine}

theorem getLevel0_eq {k : String} {ids : List Nat} (h : ∀ id ∈ ids, (s.sst? id).isSome) :
    s.getLevel0 k ids = some (lookup (concactIterator (ids.filterMap s.sst?)) k) := by
  induction ids with
  | nil => rfl
  | cons id ids ih =>
    obtain ⟨t, ht⟩ := Option.isSome_iff_exists.1 (h id (List.mem_cons_self _ _))
    have ih := ih fun id' hid' => h id' (List.mem_cons_of_mem _ hid')
    simp only [getLevel0, ht, Option.bind_eq_bind, Option.some_bind, List.filterMap_cons,
      concactIterator, List.flatMap_cons, lookup_append] at ih ⊢
    cases hk : t.get k with
    | some v => simp [SST.get] at hk; simp [hk]
    | none => simp [SST.get] at hk; simp [hk, ih]

theorem Wf.searchLevel_eq (hs : s.Wf) {level : Nat} (hl : 0 < level) (k : String) :
    s.searchLevel k (s.levelIds level) (s.levelIds level).length 0 (s.levelIds level).length =
      some (lookup (concactIterator (s.levelSsts level)) k) := by
  obtain ⟨-, hrange, hne⟩ := hs.deeper' hl
  have hasc : ∀ t ∈ s.levelSsts level, Ascending t.entries := fun t ht => hs.ascending_of_mem_levelSsts ht
  have hts := hs.levelIds_map_sst? level
  have hlen : (s.levelIds level).length = (s.levelSsts level).length := by
    simpa using congrArg List.length hts
  rw [hlen, searchLevel_loop hts hrange (fun t ht => SST.firstKey_le_lastKey (hasc t ht) (hne t ht)) _ 0 _
    le_rfl (by omega) bracket_start, linearScan_eq_lookup hasc hrange hne]

theorem Wf.getDeeper_eq (hs : s.Wf) (k : String) {levels : List Nat} (hl : ∀ l ∈ levels, 0 < l) :
    s.getDeeper k levels =
      some (lookup (levels.flatMap fun l => concactIterator (s.levelSsts l)) k) := by
  induction levels with
  | nil => rfl
  | cons l levels ih =>
    have ih := ih fun l' hl' => hl l' (List.mem_cons_of_mem _ hl')
    simp only [getDeeper, hs.searchLevel_eq (hl l (List.mem_cons_self _ _)) k, Option.bind_eq_bind,
      Option.some_bind, List.flatMap_cons, lookup_append]
    cases lookup (concactIterator (s.levelSsts l)) k with
    | some v => rfl
    | none => exact ih

theorem flatMap_range_levels {f : Nat → List (String × String)} {m : Nat}
    (hf : ∀ l, m ≤ l → f l = []) {n : Nat} (hn : m ≤ n) :
    (List.range n).flatMap f = (List.range m).flatMap f := by
  obtain ⟨d, rfl⟩ := Nat.exists_eq_add_of_le hn
  rw [List.range_add, List.flatMap_append, List.flatMap_map]
  simp [hf]

/-- `get` answers with the newest version, a tombstone reading as absent. -/
theorem Wf.get_eq (hs : s.Wf) (k : String) : s.get k = some ((s.view k).bind liveValue) := by
  have hlevels : (List.range s.levelSstIds.length).flatMap (fun l => concactIterator (s.levelSsts l)) =
      concactIterator (s.levelSsts 0) ++ ((List.range s.curMaxLevel).map (· + 1)).flatMap
        fun l => concactIterator (s.levelSsts l) := by
    have hempty : ∀ l, min s.levelSstIds.length (s.curMaxLevel + 1) ≤ l →
        concactIterator (s.levelSsts l) = [] := fun l hl => by
      rcases (min_le_iff.1 hl) with hl | hl
      · simp [concactIterator, levelSsts, levelIds_eq_nil hl]
      · simp [concactIterator, levelSsts, hs.levelIds_eq_nil_of_lt hl]
    rw [flatMap_range_levels hempty (min_le_left _ _),
      ← flatMap_range_levels hempty (min_le_right _ _), List.range_succ_eq_map, List.flatMap_cons]
  have h0 : s.getLevel0 k (s.levelIds 0) = some (lookup (concactIterator (s.levelSsts 0)) k) :=
    getLevel0_eq fun _ h => hs.isSome_sst? h
  have hd : s.getDeeper k ((List.range s.curMaxLevel).map (· + 1)) = some (lookup
      (((List.range s.curMaxLevel).map (· + 1)).flatMap fun l => concactIterator (s.levelSsts l)) k) :=
    hs.getDeeper_eq k (by simp)
  rw [view_eq, levelOrder, hlevels, lookup_append]
  simp only [get, MemTable.get, Option.bind_eq_bind]
  cases firstHit (s.memtable.tables.map SkipList.nodes) k with
  | some v => rfl
  | none =>
    rw [h0]
    simp only [Option.some_bind, Option.none_or]
    cases lookup (concactIterator (s.levelSsts 0)) k with
    | some v => rfl
    | none => rw [hd]; rfl

end Get

end LSMEngine

end LsmTree
