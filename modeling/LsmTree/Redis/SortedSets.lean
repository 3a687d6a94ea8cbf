import LsmTree.Redis.ZSet
import LsmTree.Redis.Strings
set_option autoImplicit false

/-!
Sorted sets as the commands mean them, and the store's encoding of one. `Zset` keeps each member
once with its score; `ZADD` gives members scores, `ZCARD` counts them, `ZSCORE` reads one and
`ZRANGE` lists them in the order of their score keys, that is of their scores zero-padded to
`REDIS_SORTED_SET_SCORE_LEN`. `HoldsZset` says that the store holds a `Zset` under a key, and the
commands keep it as the model changes it, as long as no `ZADD` gives a present member a new score
and no two members' scores pad alike.
-/

namespace LsmTree

theorem append_lt_append_left {a b : String} (p : String) (h : a < b) : p ++ a < p ++ b := by
  rw [String.lt_iff_toList_lt] at h ⊢
  simpa using List.Lex.append_left (· < ·) h p.data

theorem append_lt_append_left_iff {a b : String} (p : String) : p ++ a < p ++ b ↔ a < b := by
  refine ⟨fun h => ?_, append_lt_append_left p⟩
  rcases lt_trichotomy a b with hab | rfl | hab
  · exact hab
  · exact absurd h (lt_irrefl _)
  · exact absurd h (append_lt_append_left p hab).asymm

theorem Ascending.map_append_left {l : List (String × String)} (h : Ascending l) (p : String) :
    Ascending (l.map fun q => (p ++ q.1, q.2)) :=
  List.pairwise_map.2 (h.imp (append_lt_append_left p))

theorem mem_iff_lookup {l : List (String × String)} (h : Ascending l) {q : String × String} :
    q ∈ l ↔ lookup l q.1 = some q.2 :=
  ⟨lookup_of_mem h, lookup_eq_some⟩

theorem ascending_eq_of_mem_iff {l₁ l₂ : List (String × String)} (h₁ : Ascending l₁)
    (h₂ : Ascending l₂) (h : ∀ q, q ∈ l₁ ↔ q ∈ l₂) : l₁ = l₂ := by
  refine ascending_ext h₁ h₂ fun k => ?_
  cases hk : lookup l₁ k with
  | some v => exact ((mem_iff_lookup h₂).1 ((h (k, v)).1 (lookup_eq_some hk))).symm
  | none =>
    cases hk' : lookup l₂ k with
    | none => rfl
    | some v => simpa [hk] using (mem_iff_lookup h₁).1 ((h (k, v)).2 (lookup_eq_some hk'))

theorem lookup_eq_some_iff_of_nodup {l : List (String × String)} (h : (l.map Prod.fst).Nodup)
    {k v : String} : lookup l k = some v ↔ (k, v) ∈ l := by
  induction l with
  | nil => simp
  | cons p l ih =>
    obtain ⟨a, b⟩ := p
    rw [List.map_cons, List.nodup_cons] at h
    rw [lookup_cons, List.mem_cons]
    by_cases ha : a = k
    · subst ha
      have : (a, v) ∉ l := fun hv => h.1 (List.mem_map.2 ⟨_, hv, rfl⟩)
      simp [this, eq_comm]
    · simp [ha, ih h.2, Ne.symm ha]

theorem lookup_eq_none_iff {l : List (String × String)} {k : String} :
    lookup l k = none ↔ k ∉ l.map Prod.fst := by
  rw [lookup_eq_none]
  exact ⟨fun h hk => let ⟨p, hp, e⟩ := List.mem_map.1 hk; h p hp e,
    fun h p hp e => h (e ▸ List.mem_map_of_mem _ hp)⟩

namespace RedisWrapper

variable (rc : RedisConsts)

/-- A score as its score key holds it: zero-padded on the left to `REDIS_SORTED_SET_SCORE_LEN`. -/
def paddedScore (score : String) : String := String.mk (score.data.leftpad rc.sortedSetScoreLen '0')

theorem getZsetKeySocre_eq (key score : String) :
    getZsetKeySocre rc key score = getZsetScorePreffix rc key ++ paddedScore rc score := rfl

/-! ## The model -/

theorem nodup_filter_append {M : List (String × String)} (h : (M.map Prod.fst).Nodup)
    (member score : String) :
    ((M.filter fun p => p.1 != member) ++ [(member, score)]).map Prod.fst |>.Nodup := by
  rw [List.map_append, List.nodup_append]
  refine ⟨h.sublist ((List.filter_sublist _).map _), List.nodup_singleton _, ?_⟩
  simp [List.disjoint_singleton]

/-- A sorted set: its members, each once, with their scores. -/
structure Zset where
  members : List (String × String)
  nodup : (members.map Prod.fst).Nodup

namespace Zset

def empty : Zset := ⟨[], List.nodup_nil⟩

def score (M : Zset) (member : String) : Option String := lookup M.members member

def card (M : Zset) : Nat := M.members.length

/-- Give `member` the score `score`, adding it when it is new. -/
def add (M : Zset) (score member : String) : Zset :=
  ⟨(M.members.filter fun p => p.1 != member) ++ [(member, score)], nodup_filter_append M.nodup _ _⟩

def erase (M : Zset) (member : String) : Zset :=
  ⟨M.members.filter fun p => p.1 != member, M.nodup.sublist ((List.filter_sublist _).map _)⟩

/-- `ZADD` with the pairs `(score, member)`, in turn: the reply counts the members that were not
in the set. -/
def zadd (M : Zset) : List (String × String) → Nat × Zset
  | [] => (0, M)
  | (sc, m) :: rest =>
    let r := (M.add sc m).zadd rest
    (if M.score m = none then r.1 + 1 else r.1, r.2)

/-- The members keyed by their padded scores, in ascending order of them. -/
def scoreList (M : Zset) : List (String × String) :=
  (M.members.map fun p => (paddedScore rc p.2, p.1)).insertionSort fun a b => a.1 ≤ b.1

/-- `ZRANGE key 0 -1`: the members in ascending order of their padded scores. -/
def byScore (M : Zset) : List String := (M.scoreList rc).map Prod.snd

/-- `ZRANK`'s meaning: the number of members of lower score. -/
def rank (M : Zset) (score : String) : Nat :=
  M.members.countP fun p => paddedScore rc p.2 < paddedScore rc score

/-- No two members' scores pad to one score key. -/
def ScoresApart (M : Zset) : Prop := (M.members.map fun p => paddedScore rc p.2).Nodup

instance (M : Zset) : Decidable (M.ScoresApart rc) := inferInstanceAs (Decidable (List.Nodup _))

variable {rc} {M : Zset}

theorem score_eq_some_iff {m sc : String} : M.score m = some sc ↔ (m, sc) ∈ M.members :=
  lookup_eq_some_iff_of_nodup M.nodup

@[simp] theorem score_empty (m : String) : empty.score m = none := rfl

@[simp] theorem score_erase (m x : String) : (M.erase m).score x = if x = m then none else M.score x := by
  simp only [score, erase, lookup_filter (· != m) M.members x, bne_iff_ne, ne_eq, ite_not]

@[simp] theorem score_add (sc m x : String) :
    (M.add sc m).score x = if m = x then some sc else M.score x := by
  have hf := lookup_filter (· != m) M.members x
  simp only [score, add, lookup_append, lookup_cons, lookup_nil]
  rw [hf]
  by_cases h : m = x
  · subst h; simp
  · simp [h, Ne.symm h]

theorem zadd_eq : ∀ {pairs : List (String × String)} (M : Zset), (pairs.map Prod.snd).Nodup →
    (M.zadd pairs).1 = pairs.countP (fun p => M.score p.2 = none) ∧
      ∀ x, (M.zadd pairs).2.score x = (lookup (pairs.map Prod.swap) x).or (M.score x)
  | [], _, _ => ⟨rfl, fun _ => rfl⟩
  | (sc, m) :: rest, M, h => by
    rw [List.map_cons, List.nodup_cons] at h
    obtain ⟨ih₁, ih₂⟩ := zadd_eq (M.add sc m) h.2
    have hcount : rest.countP (fun p => (M.add sc m).score p.2 = none) =
        rest.countP (fun p => M.score p.2 = none) := List.countP_congr fun p hp => by
      rw [score_add, if_neg fun e => h.1 (List.mem_map.2 ⟨p, hp, e.symm⟩)]
    refine ⟨?_, fun x => ?_⟩
    · simp only [zadd, ih₁, hcount, List.countP_cons]
      split_ifs <;> simp_all
    · simp only [zadd, ih₂, List.map_cons, Prod.swap_prod_mk, lookup_cons, score_add]
      by_cases hx : m = x
      · subst hx
        rw [lookup_eq_none_iff.2 (by simpa [Function.comp_def] using h.1)]
        simp
      · simp [hx]

theorem mem_scoreList {q : String × String} :
    q ∈ M.scoreList rc ↔ ∃ p ∈ M.members, q = (paddedScore rc p.2, p.1) := by
  rw [scoreList, (List.perm_insertionSort _ _).mem_iff, List.mem_map]
  exact ⟨fun ⟨p, hp, e⟩ => ⟨p, hp, e.symm⟩, fun ⟨p, hp, e⟩ => ⟨p, hp, e.symm⟩⟩

theorem ascending_scoreList (h : M.ScoresApart rc) : Ascending (M.scoreList rc) := by
  have : IsTotal (String × String) fun a b => a.1 ≤ b.1 := ⟨fun a b => le_total a.1 b.1⟩
  have : IsTrans (String × String) fun a b => a.1 ≤ b.1 := ⟨fun _ _ _ => le_trans⟩
  have hnd : ((M.scoreList rc).map Prod.fst).Nodup := by
    rw [scoreList, ((List.perm_insertionSort _ _).map _).nodup_iff, List.map_map]
    exact h
  have hs := List.sorted_insertionSort (fun a b : String × String => a.1 ≤ b.1)
    (M.members.map fun p => (paddedScore rc p.2, p.1))
  exact (hs.and (List.pairwise_map.1 hnd)).imp fun h => lt_of_le_of_ne h.1 h.2

theorem length_scoreList : (M.scoreList rc).length = M.card := by
  rw [scoreList, List.length_insertionSort, List.length_map, card]

theorem length_byScore : (M.byScore rc).length = M.card := by
  rw [byScore, List.length_map, length_scoreList]

theorem ScoresApart.erase (h : M.ScoresApart rc) (m : String) : (M.erase m).ScoresApart rc :=
  h.sublist ((List.filter_sublist _).map _)

theorem erase_of_score_none {m : String} (hm : M.score m = none) : M.erase m = M := by
  obtain ⟨l, hl⟩ := M
  rw [erase, mk.injEq, List.filter_eq_self]
  intro p hp
  have hs : (⟨l, hl⟩ : Zset).score p.1 = some p.2 := score_eq_some_iff.2 hp
  simp only [bne_iff_ne, ne_eq]
  exact fun e => Option.noConfusion (hm.symm.trans (e ▸ hs))

theorem card_erase {m sc : String} (hm : M.score m = some sc) : (M.erase m).card = M.card - 1 := by
  have hmem := score_eq_some_iff.1 hm
  have herase : (M.erase m).members = M.members.erase (m, sc) := by
    rw [(M.nodup.of_map Prod.fst).erase_eq_filter]
    refine List.filter_congr fun p hp => Bool.eq_iff_iff.2 ?_
    have hs : M.score p.1 = some p.2 := score_eq_some_iff.2 hp
    simp only [bne_iff_ne, ne_eq, not_iff_not]
    refine ⟨fun e => Prod.ext e ?_, fun e => e ▸ rfl⟩
    rw [e, hm, Option.some.injEq] at hs
    exact hs.symm
  rw [card, herase, List.length_erase_of_mem hmem, card]

theorem scoreList_erase (h : M.ScoresApart rc) (m : String) :
    (M.erase m).scoreList rc = (M.scoreList rc).filter fun q => q.2 != m := by
  refine ascending_eq_of_mem_iff (ascending_scoreList (h.erase m))
    ((ascending_scoreList h).sublist (List.filter_sublist _)) fun q => ?_
  simp only [List.mem_filter, mem_scoreList, erase]
  constructor
  · rintro ⟨p, ⟨hp, hpm⟩, rfl⟩
    exact ⟨⟨p, hp, rfl⟩, hpm⟩
  · rintro ⟨⟨p, hp, rfl⟩, hpm⟩
    exact ⟨p, ⟨hp, hpm⟩, rfl⟩

theorem byScore_erase (h : M.ScoresApart rc) (m : String) :
    (M.erase m).byScore rc = (M.byScore rc).filter (· != m) := by
  rw [byScore, byScore, scoreList_erase h, List.filter_map]
  rfl

end Zset

/-! ## The store holding a sorted set -/

theorem ne_of_has_keyPreffix {k x : String} (hk : '_' ∉ k.data)
    (hx : (getZsetKeyPreffix rc k).data <+: x.data) : k ≠ x := by
  rintro rfl
  exact keyPreffix_not_prefix_of_plain rc hk k hx

theorem getZsetKeyElem_inj_iff {k m₁ m₂ : String} :
    getZsetKeyElem rc k m₁ = getZsetKeyElem rc k m₂ ↔ m₁ = m₂ := getZsetKeyElem_inj rc

theorem getZsetKeySocre_inj {k sc₁ sc₂ : String} :
    getZsetKeySocre rc k sc₁ = getZsetKeySocre rc k sc₂ ↔ paddedScore rc sc₁ = paddedScore rc sc₂ := by
  rw [getZsetKeySocre_eq, getZsetKeySocre_eq]
  exact ⟨fun h => String.ext (List.append_cancel_left (congrArg String.data h)), fun h => h ▸ rfl⟩

/-- The store holds sorted set `M` under key `k`: each member's element key holds its score and
its score key holds the member, no two scores pad alike, every live key under the set's prefix is
one of these, and the set has no expire key. -/
structure HoldsZset (k : String) (s : KVStore) (M : Zset) : Prop where
  elem : ∀ m, s.get (getZsetKeyElem rc k m) = M.score m
  score : ∀ p ∈ M.members, s.get (getZsetKeySocre rc k p.2) = some p.1
  apart : M.ScoresApart rc
  keys : ∀ y v, s.get y = some v → (getZsetKeyPreffix rc k).data <+: y.data →
    ∃ p ∈ M.members, y = getZsetKeyElem rc k p.1 ∨ y = getZsetKeySocre rc k p.2
  noExpire : s.get (getExplireKey rc k) = none

theorem holdsZset_empty (k : String) : HoldsZset rc k KVStore.empty Zset.empty :=
  ⟨fun _ => rfl, fun _ h => absurd h (List.not_mem_nil _), List.nodup_nil,
    fun _ _ h => Option.noConfusion h, rfl⟩

theorem rangeReply_nil (start stop : Int) : rangeReply [] start stop = "*0\r\n" := by
  have h₀ : ∀ x : Int, (((0 : Nat) : Int)) ≤ x % 2 ^ 64 := fun x => Int.emod_nonneg x (by decide)
  have h₁ : toInt32 ((0 : Nat) - 1) = -1 := by decide
  simp only [rangeReply, rangeBounds, List.length_nil, h₀, if_true, h₁]
  rw [if_pos (by split_ifs <;> omega)]

theorem zcardReply_eq (key : String) (s : KVStore) :
    zcardReply rc key s = intReply ((scoreScan rc s key).getD []).length := by
  cases h : scoreScan rc s key <;> simp [zcardReply, h]
  rfl

theorem zrangeReply_eq (key : String) (start stop : Int) (s : KVStore) :
    zrangeReply rc key start stop s = rangeReply (((scoreScan rc s key).getD []).map Prod.snd) start stop := by
  cases h : scoreScan rc s key <;> simp [zrangeReply, h, rangeReply_nil, Function.comp_def]

section Reads

variable {rc} {now : Int} {k : String} {s : KVStore} {M : Zset}

theorem HoldsZset.expireZsetClean (h : HoldsZset rc k s M) :
    expireZsetClean rc now s k = (.ok false, s) :=
  expireClean_of_get_none h.noExpire

theorem HoldsZset.getD_scoreScan (h : HoldsZset rc k s M) :
    (scoreScan rc s k).getD [] = (M.scoreList rc).map fun q => (getZsetScorePreffix rc k ++ q.1, q.2) := by
  rw [scoreScan, KVStore.getD_itersMonotonyPredicate]
  refine ascending_eq_of_mem_iff (Ascending.skipTombstones (s.ascending.filter _))
    ((Zset.ascending_scoreList h.apart).map_append_left _) fun q => ?_
  rw [KVStore.mem_scan]
  simp only [prefixPredicate_eq_zero, List.mem_map, Zset.mem_scoreList]
  constructor
  · rintro ⟨hq, hpre⟩
    obtain ⟨p, hp, he | hs⟩ := h.keys q.1 q.2 hq ((keyPreffix_prefix_scorePreffix rc k).trans hpre)
    · exact absurd (he ▸ hpre) (not_scorePreffix_prefix_keyElem rc k p.1)
    · refine ⟨_, ⟨p, hp, rfl⟩, Prod.ext hs.symm ?_⟩
      exact Option.some.inj ((h.score p hp).symm.trans (hs ▸ hq))
  · rintro ⟨_, ⟨p, hp, rfl⟩, rfl⟩
    exact ⟨h.score p hp, scorePreffix_prefix_keySocre rc k p.2⟩

theorem HoldsZset.zscore_reply (h : HoldsZset rc k s M) (m : String) :
    redisZscore rc now s k m = (.ok (getReply (M.score m)), s) := by
  simp only [redisZscore, h.expireZsetClean, checked_ok_false, zscoreReply, h.elem]
  cases M.score m <;> rfl

theorem HoldsZset.zcard_reply (h : HoldsZset rc k s M) :
    redisZcard rc now s k = (.ok (intReply M.card), s) := by
  simp only [redisZcard, h.expireZsetClean, checked_ok_false, zcardReply_eq, h.getD_scoreScan,
    List.length_map, Zset.length_scoreList]

theorem HoldsZset.zrange_reply (h : HoldsZset rc k s M) (start stop : Int) :
    redisZrange rc now s k start stop = (.ok (rangeReply (M.byScore rc) start stop), s) := by
  simp [redisZrange, zrangeReply_eq, h.expireZsetClean, h.getD_scoreScan, Zset.byScore, Function.comp_def]

end Reads

/-! ## `ZADD` -/

/-- The arguments `score, member, score, member, …` of a `ZADD` of `pairs`. -/
def pairArgs : List (String × String) → List String
  | [] => []
  | p :: rest => p.1 :: p.2 :: pairArgs rest

/-- What `ZADD` puts for the pair `(score, member)`: the score key holding the member, the element
key holding the score. -/
def pairKvs (k : String) (p : String × String) : List (String × String) :=
  [(getZsetKeySocre rc k p.1, p.2), (getZsetKeyElem rc k p.2, p.1)]

theorem zaddLoop_pairArgs (s : KVStore) (k : String) :
    ∀ (pairs acc : List (String × String)) (n : Nat), zaddLoop rc s k (pairArgs pairs) (acc, n) =
      (acc ++ (pairs.filter fun p => s.get (getZsetKeyElem rc k p.2) ≠ some p.1).flatMap (pairKvs rc k),
        n + pairs.countP fun p => s.get (getZsetKeyElem rc k p.2) ≠ some p.1)
  | [], acc, n => by simp [pairArgs, zaddLoop]
  | (sc, m) :: rest, acc, n => by
    rw [pairArgs, zaddLoop]
    by_cases hs : s.get (getZsetKeyElem rc k m) = some sc
    · simp [hs, zaddLoop_pairArgs s k rest]
    · simp [hs, zaddLoop_pairArgs s k rest, pairKvs]
      omega

theorem KVStore.get_putBatch_of_nodup {s : KVStore} {kvs : List (String × String)}
    (h : (kvs.map Prod.fst).Nodup) (x : String) :
    (s.putBatch kvs).get x = (lookup kvs x).elim (s.get x) liveValue := by
  induction kvs generalizing s with
  | nil => rfl
  | cons p kvs ih =>
    rw [List.map_cons, List.nodup_cons] at h
    rw [KVStore.putBatch, List.foldl_cons, ← KVStore.putBatch, ih h.2, lookup_cons]
    by_cases hx : p.1 = x
    · subst hx
      rw [lookup_eq_none_iff.2 h.1]
      simp
    · simp [hx]

section Lookups

variable {rc} {k : String}

theorem lookup_pairKvs_elem (x : String) : ∀ N : List (String × String),
    lookup (N.flatMap (pairKvs rc k)) (getZsetKeyElem rc k x) = lookup (N.map Prod.swap) x
  | [] => rfl
  | p :: N => by
    simp only [List.flatMap_cons, pairKvs, List.cons_append, List.nil_append, lookup_cons,
      List.map_cons, Prod.fst_swap, Prod.snd_swap, getZsetKeyElem_inj_iff,
      if_neg (getZsetKeyElem_ne_keySocre rc k x p.1).symm, lookup_pairKvs_elem x N]

theorem lookup_pairKvs_score (sc : String) : ∀ N : List (String × String),
    lookup (N.flatMap (pairKvs rc k)) (getZsetKeySocre rc k sc) =
      lookup (N.map fun p => (paddedScore rc p.1, p.2)) (paddedScore rc sc)
  | [] => rfl
  | p :: N => by
    simp only [List.flatMap_cons, pairKvs, List.cons_append, List.nil_append, lookup_cons,
      List.map_cons, getZsetKeySocre_inj, if_neg (getZsetKeyElem_ne_keySocre rc k p.2 sc),
      lookup_pairKvs_score sc N]

theorem lookup_pairKvs_eq_none {x : String} (hx : ¬(getZsetKeyPreffix rc k).data <+: x.data) :
    ∀ N : List (String × String), lookup (N.flatMap (pairKvs rc k)) x = none
  | [] => rfl
  | p :: N => by
    have h₁ : getZsetKeySocre rc k p.1 ≠ x := fun e => hx (e ▸ keyPreffix_prefix_keySocre rc k p.1)
    have h₂ : getZsetKeyElem rc k p.2 ≠ x := fun e => hx (e ▸ keyPreffix_prefix_keyElem rc k p.2)
    simp only [List.flatMap_cons, pairKvs, List.cons_append, List.nil_append, lookup_cons, h₁, h₂,
      if_false, lookup_pairKvs_eq_none hx N]

end Lookups

/-- A `ZADD` that the encoding keeps: non-empty scores and members, each member once, no present
member given a new score, and no two members of the resulting set whose scores pad alike. -/
def AddValid (M : Zset) (pairs : List (String × String)) : Prop :=
  (∀ p ∈ pairs, p.1 ≠ "" ∧ p.2 ≠ "" ∧ (M.score p.2 = none ∨ M.score p.2 = some p.1)) ∧
    (pairs.map Prod.snd).Nodup ∧ (M.zadd pairs).2.ScoresApart rc

instance (M : Zset) (pairs : List (String × String)) : Decidable (AddValid rc M pairs) :=
  inferInstanceAs (Decidable (_ ∧ _ ∧ _))

namespace Zset

variable {rc} {M : Zset}

theorem ScoresApart.eq_of_score (h : M.ScoresApart rc) {m₁ m₂ a b : String}
    (h₁ : M.score m₁ = some a) (h₂ : M.score m₂ = some b) (e : paddedScore rc a = paddedScore rc b) :
    m₁ = m₂ :=
  congrArg Prod.fst (List.inj_on_of_nodup_map h (score_eq_some_iff.1 h₁) (score_eq_some_iff.1 h₂) e)

theorem score_zadd_of_valid {pairs : List (String × String)}
    (hv : ∀ p ∈ pairs, M.score p.2 = none ∨ M.score p.2 = some p.1) (hnd : (pairs.map Prod.snd).Nodup)
    (x : String) : (M.zadd pairs).2.score x =
      (lookup ((pairs.filter fun p => M.score p.2 = none).map Prod.swap) x).or (M.score x) := by
  rw [(zadd_eq M hnd).2]
  induction pairs with
  | nil => rfl
  | cons p rest ih =>
    rw [List.map_cons, List.nodup_cons] at hnd
    have ih' := ih (fun q hq => hv q (List.mem_cons_of_mem p hq)) hnd.2
    rcases hv p (List.mem_cons_self p rest) with hn | hs
    · simp only [List.filter_cons, hn, decide_True, if_true, List.map_cons, lookup_cons,
        Prod.fst_swap, Prod.snd_swap]
      split_ifs
      · rfl
      · exact ih'
    · have hskip : ¬(M.score p.2 = none) := by simp [hs]
      simp only [List.filter_cons, hskip, decide_False, Bool.false_eq_true, if_false,
        List.map_cons, lookup_cons, Prod.fst_swap, Prod.snd_swap]
      by_cases hx : p.2 = x
      · subst hx
        have hnone : lookup ((rest.filter fun q => M.score q.2 = none).map Prod.swap) p.2 = none :=
          lookup_eq_none_iff.2 fun hm => hskip (by simp [List.map_map, Function.comp_def] at hm; exact hm.2)
        rw [if_pos rfl, hnone, hs]
        rfl
      · rw [if_neg hx, ih']

end Zset

theorem getZsetKeyPreffix_ne_keyElem (k m : String) : getZsetKeyPreffix rc k ≠ getZsetKeyElem rc k m :=
  fun e => by simpa [getZsetKeyPreffix, getZsetKeyElem] using congrArg String.data e

theorem getZsetKeyPreffix_ne_keySocre (k sc : String) :
    getZsetKeyPreffix rc k ≠ getZsetKeySocre rc k sc :=
  fun e => by simpa [getZsetKeyPreffix, getZsetKeySocre] using congrArg String.data e

section Zadd

variable {rc} {now : Int} {k : String} {s : KVStore} {M : Zset}

theorem HoldsZset.get_keyPreffix (h : HoldsZset rc k s M) : s.get (getZsetKeyPreffix rc k) = none := by
  cases hv : s.get (getZsetKeyPreffix rc k) with
  | none => rfl
  | some v =>
    obtain ⟨p, -, he | hs⟩ := h.keys _ v hv (List.prefix_refl _)
    · exact absurd he (getZsetKeyPreffix_ne_keyElem rc k p.1)
    · exact absurd hs (getZsetKeyPreffix_ne_keySocre rc k p.2)

theorem HoldsZset.redisZadd_eq (h : HoldsZset rc k s M) (pairs : List (String × String)) :
    redisZadd rc now s ("ZADD" :: k :: pairArgs pairs) =
      (.ok (intReply (pairs.countP fun p => M.score p.2 ≠ some p.1 : Nat)),
        s.putBatch ((k, getZsetKeyPreffix rc k) ::
          (pairs.filter fun p => M.score p.2 ≠ some p.1).flatMap (pairKvs rc k))) := by
  simp only [redisZadd, List.getD_cons_succ, List.getD_cons_zero, h.expireZsetClean,
    checked_ok_false, zaddBody, List.drop, h.get_keyPreffix, Option.isNone_none, if_true, zaddLoop_pairArgs, h.elem, Nat.zero_add,
    List.singleton_append]
  rfl

variable (hexp : getExplireKey rc k ≠ k)
  (hexp' : ¬(getZsetKeyPreffix rc k).data <+: (getExplireKey rc k).data) (hk : '_' ∉ k.data)

include hexp hexp' hk in
/-- A valid `ZADD` replies the number of members it adds, and leaves the store holding the set
it makes. -/
theorem HoldsZset.zadd (h : HoldsZset rc k s M) {pairs : List (String × String)}
    (hv : AddValid rc M pairs) :
    (redisZadd rc now s ("ZADD" :: k :: pairArgs pairs)).1 = .ok (intReply (M.zadd pairs).1) ∧
      HoldsZset rc k (redisZadd rc now s ("ZADD" :: k :: pairArgs pairs)).2 (M.zadd pairs).2 := by
  obtain ⟨hpairs, hnd, hapart⟩ := hv
  have hfilter : (pairs.filter fun p => M.score p.2 ≠ some p.1) =
      pairs.filter fun p => M.score p.2 = none := List.filter_congr fun p hp => by
    rcases (hpairs p hp).2.2 with e | e <;> simp [e]
  have hcount : pairs.countP (fun p => M.score p.2 ≠ some p.1) = (M.zadd pairs).1 := by
    rw [(M.zadd_eq hnd).1]
    exact List.countP_congr fun p hp => by rcases (hpairs p hp).2.2 with e | e <;> simp [e]
  rw [h.redisZadd_eq pairs, hfilter, hcount]
  refine ⟨rfl, ?_⟩
  set N := pairs.filter fun p => M.score p.2 = none with hN
  have hscore := M.score_zadd_of_valid (fun p hp => (hpairs p hp).2.2) hnd
  rw [← hN] at hscore
  have hNpairs : ∀ q ∈ N, q ∈ pairs ∧ M.score q.2 = none := fun q hq => by
    simpa [hN] using hq
  have hNnd : (N.map Prod.snd).Nodup := hnd.sublist ((List.filter_sublist _).map _)
  have hnew : ∀ q ∈ N, (M.zadd pairs).2.score q.2 = some q.1 := fun q hq => by
    rw [hscore, (lookup_eq_some_iff_of_nodup (by simpa [List.map_map, Function.comp_def] using hNnd)).2
      (List.mem_map_of_mem Prod.swap hq)]
    rfl
  have hNpad : (N.map fun p => paddedScore rc p.1).Nodup := (hNnd.of_map _).map_on fun a ha b hb e =>
    List.inj_on_of_nodup_map hNnd ha hb (hapart.eq_of_score (hnew a ha) (hnew b hb) e)
  have hkeyk : ∀ x ∈ (N.flatMap (pairKvs rc k)).map Prod.fst,
      ∃ q ∈ N, x = getZsetKeySocre rc k q.1 ∨ x = getZsetKeyElem rc k q.2 := fun x hx => by
    obtain ⟨r, hr, rfl⟩ := List.mem_map.1 hx
    obtain ⟨q, hq, hr⟩ := List.mem_flatMap.1 hr
    simp only [pairKvs, List.mem_cons, List.mem_singleton, List.not_mem_nil, or_false] at hr
    rcases hr with rfl | rfl
    exacts [⟨q, hq, .inl rfl⟩, ⟨q, hq, .inr rfl⟩]
  have hnotk : ∀ {x : String}, (getZsetKeyPreffix rc k).data <+: x.data → k ≠ x :=
    ne_of_has_keyPreffix rc hk
  have hnodup : (((k, getZsetKeyPreffix rc k) :: N.flatMap (pairKvs rc k)).map Prod.fst).Nodup := by
    rw [List.map_cons, List.nodup_cons, List.map_flatMap]
    refine ⟨fun hx => ?_, List.nodup_flatMap.2 ⟨fun p _ => ?_, ?_⟩⟩
    · obtain ⟨q, -, e | e⟩ := hkeyk k (by rwa [List.map_flatMap])
      · exact hnotk (keyPreffix_prefix_keySocre rc k q.1) e
      · exact hnotk (keyPreffix_prefix_keyElem rc k q.2) e
    · simp [pairKvs, (getZsetKeyElem_ne_keySocre rc k p.2 p.1).symm]
    · refine ((List.pairwise_map.1 hNnd).and (List.pairwise_map.1 hNpad)).imp fun hab => ?_
      simp [Function.onFun, pairKvs, getZsetKeySocre_inj, getZsetKeyElem_inj_iff, hab.1, hab.2,
        getZsetKeyElem_ne_keySocre, (getZsetKeyElem_ne_keySocre _ _ _ _).symm]
      exact ⟨fun e => hab.2 e.symm, fun e => hab.1 e.symm⟩
  have hget := KVStore.get_putBatch_of_nodup (s := s) hnodup
  refine ⟨fun m => ?_, fun p hp => ?_, hapart, fun y v hy hpre => ?_, ?_⟩
  · rw [hget, lookup_cons, if_neg (hnotk (keyPreffix_prefix_keyElem rc k m)), lookup_pairKvs_elem,
      hscore, h.elem]
    cases hl : lookup (N.map Prod.swap) m with
    | none => rfl
    | some v =>
      obtain ⟨q, hq, e⟩ := List.mem_map.1 (lookup_eq_some hl)
      obtain rfl : q.1 = v := congrArg Prod.snd e
      exact liveValue_of_ne (hpairs q (hNpairs q hq).1).1
  · have hp' := hscore p.1 ▸ Zset.score_eq_some_iff.2 hp
    rw [hget, lookup_cons, if_neg (hnotk (keyPreffix_prefix_keySocre rc k p.2)), lookup_pairKvs_score]
    cases hl : lookup (N.map Prod.swap) p.1 with
    | some v =>
      obtain rfl : v = p.2 := by simpa [hl] using hp'
      obtain ⟨q, hq, e⟩ := List.mem_map.1 (lookup_eq_some hl)
      have hq' : (paddedScore rc p.2, p.1) ∈ N.map fun r => (paddedScore rc r.1, r.2) :=
        List.mem_map.2 ⟨q, hq, by
          rw [show q.1 = p.2 from congrArg Prod.snd e, show q.2 = p.1 from congrArg Prod.fst e]⟩
      rw [(lookup_eq_some_iff_of_nodup (by simpa [List.map_map, Function.comp_def] using hNpad)).2 hq']
      have hq₂ : q.2 = p.1 := congrArg Prod.fst e
      exact liveValue_of_ne (hq₂ ▸ (hpairs q (hNpairs q hq).1).2.1)
    | none =>
      have hnone : lookup (N.map fun r => (paddedScore rc r.1, r.2)) (paddedScore rc p.2) = none :=
        lookup_eq_none.2 fun r hr e => by
          obtain ⟨q, hq, rfl⟩ := List.mem_map.1 hr
          exact lookup_eq_none.1 hl _ (List.mem_map_of_mem Prod.swap hq)
            (hapart.eq_of_score (hnew q hq) (Zset.score_eq_some_iff.2 hp) e)
      rw [hnone]
      exact h.score p (Zset.score_eq_some_iff.1 (by simpa [hl] using hp'))
  · rw [hget] at hy
    cases hl : lookup ((k, getZsetKeyPreffix rc k) :: N.flatMap (pairKvs rc k)) y with
    | none =>
      rw [hl] at hy
      obtain ⟨p, hp, hkey⟩ := h.keys y v hy hpre
      have hnone : lookup (N.map Prod.swap) p.1 = none := lookup_eq_none.2 fun r hr e => by
        obtain ⟨q', hq', rfl⟩ := List.mem_map.1 hr
        have := (hNpairs q' hq').2
        rw [show q'.2 = p.1 from e, Zset.score_eq_some_iff.2 hp] at this
        cases this
      refine ⟨p, Zset.score_eq_some_iff.1 ?_, hkey⟩
      rw [hscore, hnone, Option.none_or]
      exact Zset.score_eq_some_iff.2 hp
    | some w =>
      have hx := List.mem_map_of_mem Prod.fst (lookup_eq_some hl)
      rw [List.map_cons, List.mem_cons] at hx
      rcases hx with e | hx
      · exact absurd e.symm (hnotk hpre)
      · obtain ⟨r, hr, e⟩ := hkeyk _ hx
        exact ⟨(r.2, r.1), Zset.score_eq_some_iff.1 (hnew r hr), e.symm⟩
  · rw [hget, lookup_cons, if_neg (Ne.symm hexp), lookup_pairKvs_eq_none hexp']
    exact h.noExpire

include hk in
theorem HoldsZset.get_key_zadd (h : HoldsZset rc k s M) (pairs : List (String × String)) :
    (redisZadd rc now s ("ZADD" :: k :: pairArgs pairs)).2.get k = some (getZsetKeyPreffix rc k) := by
  rw [h.redisZadd_eq pairs, KVStore.putBatch, List.foldl_cons, ← KVStore.putBatch,
    KVStore.get_putBatch_of_forall_ne fun q hq e => ?_, KVStore.get_put, if_pos rfl]
  · exact liveValue_of_ne fun e => by simpa [getZsetKeyPreffix] using congrArg String.data e
  · obtain ⟨r, -, hr⟩ := List.mem_flatMap.1 hq
    simp only [pairKvs, List.mem_cons, List.mem_singleton, List.not_mem_nil, or_false] at hr
    rcases hr with rfl | rfl
    · exact ne_of_has_keyPreffix rc hk (keyPreffix_prefix_keySocre rc k r.1) e.symm
    · exact ne_of_has_keyPreffix rc hk (keyPreffix_prefix_keyElem rc k r.2) e.symm

end Zadd

/-! ## `ZREM` -/

section Zrem

variable {rc} {now : Int} {k : String} {s : KVStore} {M : Zset}
  (hexp' : ¬(getZsetKeyPreffix rc k).data <+: (getExplireKey rc k).data)

theorem HoldsZset.redisZrem_eq (h : HoldsZset rc k s M) {m sc : String} (hm : M.score m = some sc) :
    redisZrem rc now s ["ZREM", k, m] =
      (.ok (intReply 1), (s.remove (getZsetKeyElem rc k m)).remove (getZsetKeySocre rc k sc)) := by
  simp [redisZrem, h.expireZsetClean, zremBody, zremElem, h.elem, hm]

include hexp' in
/-- `ZREM` of one member replies whether the set held it, and leaves the store holding the set
without it. -/
theorem HoldsZset.zrem (h : HoldsZset rc k s M) (m : String) :
    (redisZrem rc now s ["ZREM", k, m]).1 = .ok (intReply (if (M.score m).isSome then 1 else 0)) ∧
      HoldsZset rc k (redisZrem rc now s ["ZREM", k, m]).2 (M.erase m) := by
  cases hm : M.score m with
  | none =>
    have hz : redisZrem rc now s ["ZREM", k, m] = (.ok (intReply 0), s) := by
      simp [redisZrem, h.expireZsetClean, zremBody, zremElem, h.elem, hm]
    rw [hz, Zset.erase_of_score_none hm]
    exact ⟨rfl, h⟩
  | some sc =>
    rw [h.redisZrem_eq hm]
    refine ⟨rfl, fun x => ?_, fun p hp => ?_, h.apart.erase m, fun y v hy hpre => ?_, ?_⟩
    · rw [KVStore.get_remove, KVStore.get_remove, if_neg (getZsetKeyElem_ne_keySocre rc k x sc).symm,
        Zset.score_erase, h.elem]
      by_cases hx : x = m <;> simp [hx, Ne.symm, getZsetKeyElem_inj_iff]
    · obtain ⟨hp, hpm⟩ := List.mem_filter.1 hp
      have hS : getZsetKeySocre rc k sc ≠ getZsetKeySocre rc k p.2 := fun e => bne_iff_ne.1 hpm
        (h.apart.eq_of_score (Zset.score_eq_some_iff.2 hp) hm ((getZsetKeySocre_inj rc).1 e.symm))
      rw [KVStore.get_remove, KVStore.get_remove, if_neg hS,
        if_neg (getZsetKeyElem_ne_keySocre rc k m p.2), h.score p hp]
    · rw [KVStore.get_remove, KVStore.get_remove] at hy
      split_ifs at hy with h₁ h₂
      obtain ⟨p, hp, hkey⟩ := h.keys y v hy hpre
      refine ⟨p, List.mem_filter.2 ⟨hp, bne_iff_ne.2 fun e => ?_⟩, hkey⟩
      have hsc : M.score p.1 = some p.2 := Zset.score_eq_some_iff.2 hp
      rw [e, hm, Option.some.injEq] at hsc
      rcases hkey with hy | hy
      · exact h₂ (by rw [hy, e])
      · exact h₁ (by rw [hy, hsc])
    · have hS : getZsetKeySocre rc k sc ≠ getExplireKey rc k :=
        fun e => hexp' (e ▸ keyPreffix_prefix_keySocre rc k sc)
      have hE : getZsetKeyElem rc k m ≠ getExplireKey rc k :=
        fun e => hexp' (e ▸ keyPreffix_prefix_keyElem rc k m)
      rw [KVStore.get_remove, KVStore.get_remove, if_neg hS, if_neg hE, h.noExpire]

end Zrem

/-! ## Sessions -/

/-- The sorted-set commands of a session on one key. -/
inductive ZsetCmd where
  | zadd (pairs : List (String × String))
  | zrem (member : String)
  | zcard
  | zscore (member : String)
  | zrange (start stop : Int)

namespace ZsetCmd

/-- The wrapper's reply and state; `zadd` passes its pairs as `score, member, …`. -/
def run (now : Int) (k : String) (s : KVStore) : ZsetCmd → Outcome
  | zadd pairs => redisZadd rc now s ("ZADD" :: k :: pairArgs pairs)
  | zrem m => redisZrem rc now s ["ZREM", k, m]
  | zcard => redisZcard rc now s k
  | zscore m => redisZscore rc now s k m
  | zrange start stop => redisZrange rc now s k start stop

/-- The reply and the set the command means. -/
def model (M : Zset) : ZsetCmd → String × Zset
  | zadd pairs => (intReply (M.zadd pairs).1, (M.zadd pairs).2)
  | zrem m => (intReply (if (M.score m).isSome then 1 else 0), M.erase m)
  | zcard => (intReply M.card, M)
  | zscore m => (getReply (M.score m), M)
  | zrange start stop => (rangeReply (M.byScore rc) start stop, M)

/-- A valid `ZADD`, and `ZRANGE` bounds that `std::stoi` can return. -/
def Valid (M : Zset) : ZsetCmd → Prop
  | zadd pairs => AddValid rc M pairs
  | zrange start stop => -2 ^ 31 ≤ start ∧ start < 2 ^ 31 ∧ -2 ^ 31 ≤ stop ∧ stop < 2 ^ 31
  | _ => True

instance (M : Zset) : DecidablePred (Valid rc M) := fun
  | zadd pairs => inferInstanceAs (Decidable (AddValid rc M pairs))
  | zrange _ _ => inferInstanceAs (Decidable (_ ∧ _ ∧ _ ∧ _))
  | zrem _ | zcard | zscore _ => isTrue trivial

/-- A session each of whose commands is valid on the set the session has made so far. -/
def ValidRun : Zset → List ZsetCmd → Prop
  | _, [] => True
  | M, c :: cs => c.Valid rc M ∧ ValidRun (c.model rc M).2 cs

instance instDecidableValidRun : ∀ (M : Zset) (cmds : List ZsetCmd), Decidable (ValidRun rc M cmds)
  | _, [] => isTrue trivial
  | M, c :: cs =>
    have : Decidable (ValidRun rc (c.model rc M).2 cs) := instDecidableValidRun _ cs
    inferInstanceAs (Decidable (_ ∧ _))

variable {α σ : Type}

def replies (step : σ → ZsetCmd → α × σ) : σ → List ZsetCmd → List α
  | _, [] => []
  | s, c :: cs => (step s c).1 :: replies step (step s c).2 cs

def final (step : σ → ZsetCmd → α × σ) (s : σ) (cmds : List ZsetCmd) : σ :=
  cmds.foldl (fun s c => (step s c).2) s

end ZsetCmd

section Simulation

variable {rc} {now : Int} {k : String} {s : KVStore} {M : Zset}
  (hexp : getExplireKey rc k ≠ k)
  (hexp' : ¬(getZsetKeyPreffix rc k).data <+: (getExplireKey rc k).data) (hk : '_' ∉ k.data)

include hexp hexp' hk in
/-- One valid command replies as the set does and keeps the store holding it. -/
theorem HoldsZset.runCmd (h : HoldsZset rc k s M) {c : ZsetCmd} (hc : c.Valid rc M) :
    (c.run rc now k s).1 = .ok (c.model rc M).1 ∧
      HoldsZset rc k (c.run rc now k s).2 (c.model rc M).2 := by
  cases c with
  | zadd pairs => exact h.zadd hexp hexp' hk hc
  | zrem m => exact h.zrem hexp' m
  | zcard => rw [ZsetCmd.run, h.zcard_reply]; exact ⟨rfl, h⟩
  | zscore m => rw [ZsetCmd.run, h.zscore_reply]; exact ⟨rfl, h⟩
  | zrange start stop => rw [ZsetCmd.run, h.zrange_reply]; exact ⟨rfl, h⟩

include hexp hexp' hk in
/-- A session of `ZADD`, `ZREM`, `ZCARD`, `ZSCORE` and `ZRANGE` on one sorted-set key without `_`,
whose expire key is neither the key nor under the set's prefix, replies as the sorted set does and
leaves the store holding it, as long as every command is valid on the set made so far. -/
theorem zset_replies_follow_sorted_set : ∀ (cmds : List ZsetCmd) {s : KVStore} {M : Zset},
    HoldsZset rc k s M → ZsetCmd.ValidRun rc M cmds →
      ZsetCmd.replies (ZsetCmd.run rc now k) s cmds =
          (ZsetCmd.replies (ZsetCmd.model rc) M cmds).map .ok ∧
        HoldsZset rc k (ZsetCmd.final (ZsetCmd.run rc now k) s cmds)
          (ZsetCmd.final (ZsetCmd.model rc) M cmds)
  | [], _, _, h, _ => ⟨rfl, h⟩
  | c :: cmds, _, _, h, ⟨hc, hrest⟩ => by
    obtain ⟨hr, h'⟩ := h.runCmd hexp hexp' hk hc
    obtain ⟨ih₁, ih₂⟩ := zset_replies_follow_sorted_set cmds h' hrest
    exact ⟨by rw [ZsetCmd.replies, ZsetCmd.replies, hr, ih₁, List.map_cons], ih₂⟩

end Simulation

/-- Two members, a listing, a score, a repeated member beside a new one, a removal and a count. -/
def zsetSession : List ZsetCmd :=
  [.zadd [("2", "b"), ("1", "a")], .zrange 0 (-1), .zscore "a", .zadd [("1", "a"), ("3", "c")],
    .zrem "b", .zcard]

theorem zset_replies_follow_sorted_set_session :
    ZsetCmd.replies (ZsetCmd.run sampleConsts 0 "z") KVStore.empty zsetSession =
        (ZsetCmd.replies (ZsetCmd.model sampleConsts) Zset.empty zsetSession).map .ok ∧
      HoldsZset sampleConsts "z"
        (ZsetCmd.final (ZsetCmd.run sampleConsts 0 "z") KVStore.empty zsetSession)
        (ZsetCmd.final (ZsetCmd.model sampleConsts) Zset.empty zsetSession) :=
  zset_replies_follow_sorted_set (by decide) (by decide) (by decide) zsetSession
    (holdsZset_empty _ _) (by decide)

example : ZsetCmd.replies (ZsetCmd.model sampleConsts) Zset.empty zsetSession =
    [":2\r\n", "*2\r\n$1\r\na\r\n$1\r\nb\r\n", "$1\r\n1\r\n", ":1\r\n", ":1\r\n", ":2\r\n"] := by
  set_option maxRecDepth 20000 in decide

def twoMembers : KVStore :=
  (redisZadd sampleConsts 0 .empty ("ZADD" :: "z" :: pairArgs [("2", "b"), ("1", "a")])).2

def twoMembersZset : Zset := (Zset.empty.zadd [("2", "b"), ("1", "a")]).2

theorem holdsZset_twoMembers : HoldsZset sampleConsts "z" twoMembers twoMembersZset :=
  ((holdsZset_empty sampleConsts "z").zadd (by decide) (by decide) (by decide) (by decide)).2

theorem get_key_twoMembers : twoMembers.get "z" = some (getZsetKeyPreffix sampleConsts "z") :=
  (holdsZset_empty sampleConsts "z").get_key_zadd (by decide) _

section Removal

variable {rc} {now : Int} {k : String} {s : KVStore} {M : Zset}

/-- `ZREM` of a member the set holds replies 1; after it `ZSCORE` no longer finds the member,
`ZCARD` counts one fewer and `ZRANGE` lists the others in their order. -/
theorem HoldsZset.zrem_removes_member
    (hexp' : ¬(getZsetKeyPreffix rc k).data <+: (getExplireKey rc k).data)
    (h : HoldsZset rc k s M) {m sc : String} (hm : M.score m = some sc) :
    (redisZrem rc now s ["ZREM", k, m]).1 = .ok (intReply 1) ∧
      (redisZscore rc now (redisZrem rc now s ["ZREM", k, m]).2 k m).1 = .ok nilReply ∧
      (redisZcard rc now (redisZrem rc now s ["ZREM", k, m]).2 k).1 = .ok (intReply (M.card - 1 : Nat)) ∧
      ∀ start stop, (redisZrange rc now (redisZrem rc now s ["ZREM", k, m]).2 k start stop).1 =
        .ok (rangeReply ((M.byScore rc).filter (· != m)) start stop) := by
  obtain ⟨hr, h'⟩ := h.zrem hexp' m
  rw [hm, Option.isSome_some, if_pos rfl] at hr
  refine ⟨hr, ?_, ?_, fun start stop => ?_⟩
  · rw [h'.zscore_reply, Zset.score_erase, if_pos rfl]
    rfl
  · rw [h'.zcard_reply, Zset.card_erase hm]
  · rw [h'.zrange_reply, Zset.byScore_erase h.apart]

end Removal

theorem zrem_removes_member_twoMembers :
    twoMembersZset.score "b" = some "2" ∧
      (redisZrem sampleConsts 0 twoMembers ["ZREM", "z", "b"]).1 = .ok (intReply 1) ∧
      (redisZscore sampleConsts 0
        (redisZrem sampleConsts 0 twoMembers ["ZREM", "z", "b"]).2 "z" "b").1 = .ok nilReply ∧
      (redisZcard sampleConsts 0 (redisZrem sampleConsts 0 twoMembers ["ZREM", "z", "b"]).2 "z").1 =
        .ok (intReply (twoMembersZset.card - 1 : Nat)) ∧
      ∀ start stop, (redisZrange sampleConsts 0
        (redisZrem sampleConsts 0 twoMembers ["ZREM", "z", "b"]).2 "z" start stop).1 =
          .ok (rangeReply ((twoMembersZset.byScore sampleConsts).filter (· != "b")) start stop) :=
  ⟨by decide, HoldsZset.zrem_removes_member (by decide) holdsZset_twoMembers
    (show twoMembersZset.score "b" = some "2" by decide)⟩

example : (twoMembersZset.byScore sampleConsts).filter (· != "b") = ["a"] := by
  set_option maxRecDepth 20000 in decide

/-! ## The rank of a member -/

section Rank

variable {rc} {now : Int} {k : String} {s : KVStore} {M : Zset}

theorem HoldsZset.perm_scan_keyPreffix (h : HoldsZset rc k s M) :
    (skipTombstones (s.entries.filter fun q => prefixPredicate (getZsetKeyPreffix rc k) q.1 = 0)).Perm
      (M.members.map (fun p => (getZsetKeyElem rc k p.1, p.2)) ++
        M.members.map fun p => (getZsetKeySocre rc k p.2, p.1)) := by
  have hmem := M.nodup.of_map Prod.fst
  have hnd₁ : (skipTombstones (s.entries.filter
      fun q => prefixPredicate (getZsetKeyPreffix rc k) q.1 = 0)).Nodup :=
    (Ascending.skipTombstones (s.ascending.filter _)).imp fun hlt e => (e ▸ hlt).false
  have hnd₂ : (M.members.map (fun p => (getZsetKeyElem rc k p.1, p.2)) ++
      M.members.map fun p => (getZsetKeySocre rc k p.2, p.1)).Nodup := by
    refine List.nodup_append.2 ⟨hmem.map_on fun x hx y hy e => ?_, hmem.map_on fun x hx y hy e => ?_,
      fun q hq hq' => ?_⟩
    · exact List.inj_on_of_nodup_map M.nodup hx hy ((getZsetKeyElem_inj rc).1 (congrArg Prod.fst e))
    · exact List.inj_on_of_nodup_map M.nodup hx hy (congrArg Prod.snd e)
    · obtain ⟨x, -, rfl⟩ := List.mem_map.1 hq
      obtain ⟨y, -, e⟩ := List.mem_map.1 hq'
      exact getZsetKeyElem_ne_keySocre rc k x.1 y.2 (congrArg Prod.fst e).symm
  refine (List.perm_ext_iff_of_nodup hnd₁ hnd₂).2 fun q => ?_
  rw [KVStore.mem_scan]
  simp only [prefixPredicate_eq_zero, List.mem_append, List.mem_map]
  constructor
  · rintro ⟨hq, hpre⟩
    obtain ⟨p, hp, he | hs⟩ := h.keys q.1 q.2 hq hpre
    · have hv : s.get q.1 = some p.2 := by rw [he, h.elem, Zset.score_eq_some_iff.2 hp]
      exact .inl ⟨p, hp, Prod.ext he.symm (Option.some.inj (hv.symm.trans hq))⟩
    · have hv : s.get q.1 = some p.1 := by rw [hs, h.score p hp]
      exact .inr ⟨p, hp, Prod.ext hs.symm (Option.some.inj (hv.symm.trans hq))⟩
  · rintro (⟨p, hp, rfl⟩ | ⟨p, hp, rfl⟩)
    · exact ⟨(h.elem p.1).trans (Zset.score_eq_some_iff.2 hp), keyPreffix_prefix_keyElem rc k p.1⟩
    · exact ⟨h.score p hp, keyPreffix_prefix_keySocre rc k p.2⟩

/-- `ZRANK` counts the keys under the set's prefix that sort below the member's score key: every
member's element key, then the score keys of lower scores. It replies the member's rank plus the
number of members. -/
theorem HoldsZset.zrank_eq_card_add_rank (h : HoldsZset rc k s M) {m sc : String} (hm : M.score m = some sc) :
    redisZrank rc now s k m = (.ok (intReply (M.card + M.rank rc sc : Nat)), s) := by
  rw [redisZrank_eq_countP rc h.expireZsetClean ((h.elem m).trans hm)
      (h.score (m, sc) (Zset.score_eq_some_iff.1 hm)),
    h.perm_scan_keyPreffix.countP_eq, List.countP_append, List.countP_map, List.countP_map,
    List.countP_eq_length.2 fun p _ => by simpa using getZsetKeyElem_lt_keySocre rc k p.1 sc]
  simp only [Zset.card, Zset.rank, Function.comp_def, getZsetKeySocre_eq, append_lt_append_left_iff]

end Rank

theorem zrank_eq_card_add_rank_twoMembers :
    twoMembersZset.score "b" = some "2" ∧
      redisZrank sampleConsts 0 twoMembers "z" "b" =
        (.ok (intReply (twoMembersZset.card + twoMembersZset.rank sampleConsts "2" : Nat)), twoMembers) :=
  ⟨by decide, HoldsZset.zrank_eq_card_add_rank holdsZset_twoMembers (by decide)⟩

example : (redisZrank sampleConsts 0 twoMembers "z" "b").1 = .ok (intReply 3) := by
  set_option maxRecDepth 20000 in decide

/-! ## Removing a set's key -/

section Del

variable {rc} {k : String} {s : KVStore} {M : Zset}

/-- `DEL` of a sorted set's key removes that key and its expire key alone: the members stay, and
the store still holds the set. -/
theorem HoldsZset.del_keeps_members (hexp : getExplireKey rc k ≠ k) (hk : '_' ∉ k.data)
    (h : HoldsZset rc k s M) (hkey : s.get k = some (getZsetKeyPreffix rc k))
    (hhash : isValueHash rc (getZsetKeyPreffix rc k) = false) :
    (redisDel rc s ["DEL", k]).1 = intReply 1 ∧ HoldsZset rc k (redisDel rc s ["DEL", k]).2 M := by
  have hget : ∀ {x}, (getZsetKeyPreffix rc k).data <+: x.data → (s.remove k).get x = s.get x :=
    fun hx => by rw [KVStore.get_remove, if_neg (ne_of_has_keyPreffix rc hk hx)]
  have hdel : redisDel rc s ["DEL", k] = (intReply 1, s.remove k) := by
    simp only [redisDel, List.drop, List.foldl, delKey, hkey, hhash, Bool.false_eq_true, if_false,
      KVStore.get_remove, if_neg (Ne.symm hexp), h.noExpire, Option.isSome_none]
    rfl
  rw [hdel]
  refine ⟨rfl, fun m => ?_, fun p hp => ?_, h.apart, fun y v hy hpre => h.keys y v ?_ hpre, ?_⟩
  · rw [hget (keyPreffix_prefix_keyElem rc k m), h.elem]
  · rw [hget (keyPreffix_prefix_keySocre rc k p.2), h.score p hp]
  · rwa [hget hpre] at hy
  · rw [KVStore.get_remove, if_neg (Ne.symm hexp), h.noExpire]

end Del

theorem del_keeps_members_twoMembers :
    (redisDel sampleConsts twoMembers ["DEL", "z"]).1 = intReply 1 ∧
      HoldsZset sampleConsts "z" (redisDel sampleConsts twoMembers ["DEL", "z"]).2 twoMembersZset :=
  HoldsZset.del_keeps_members (by decide) (by decide) holdsZset_twoMembers get_key_twoMembers (by decide)

end RedisWrapper

end LsmTree
