import LsmTree.Redis.Basic
set_option autoImplicit false

/-!
Sorted sets. Member `m` of set `key` with score `sc` is stored twice: under
`REDIS_SORTED_SET_PREFIX + key + "_SCORE_" + sc` (the score zero-padded to
`REDIS_SORTED_SET_SCORE_LEN` digits) with value `m`, and under
`REDIS_SORTED_SET_PREFIX + key + "_ELEM_" + m` with value `sc`. A scan of the score keys lists
the members by score.
-/

namespace LsmTree

/-- The position of the first occurrence of `pat` in a string. -/
def indexOfSub (pat : List Char) : List Char → Option Nat
  | [] => if pat = [] then some 0 else none
  | c :: cs => if pat.isPrefixOf (c :: cs) then some 0 else (indexOfSub pat cs).map (· + 1)

namespace RedisWrapper

variable (rc : RedisConsts)

/-- `get_zset_key_socre`: `std::setw` pads the score with `'0'` on the left. -/
def getZsetKeySocre (key score : String) : String :=
  rc.sortedSetPrefix ++ key ++ "_SCORE_" ++ String.mk (score.data.leftpad rc.sortedSetScoreLen '0')

def getZsetKeyElem (key elem : String) : String := rc.sortedSetPrefix ++ key ++ "_ELEM_" ++ elem

def getZsetKeyPreffix (key : String) : String := rc.sortedSetPrefix ++ key ++ "_"

def getZsetScorePreffix (key : String) : String := rc.sortedSetPrefix ++ key ++ "_SCORE_"

/-- `get_zset_score_item`: what follows the first `_SCORE_`, or the empty string. -/
def getZsetScoreItem (key : String) : String :=
  match indexOfSub "_SCORE_".data key.data with
  | some i => String.mk (key.data.drop (i + 7))
  | none => ""

/-- What `expire_zset_clean` removes under the exclusive lock: the set's key, its expire key and
every key a scan under the set's prefix yields. -/
def zsetCleanup (key : String) (s : KVStore) : KVStore :=
  let s := (s.remove key).remove (getExplireKey rc key)
  match s.itersMonotonyPredicate (prefixPredicate (getZsetKeyPreffix rc key)) with
  | some elems => s.removeBatch (elems.map Prod.fst)
  | none => s

def expireZsetClean (now : Int) (s : KVStore) (key : String) : Except StoullError Bool × KVStore :=
  expireClean rc now (fun s => .ok (zsetCleanup rc key s)) s key

/-- The loop of `redis_zadd` over the pairs `score, elem` of `args[2..]`, against the store as it
was before the call. A member whose score changes has its old score key put into `remove_keys`,
which nothing reads. -/
def zaddLoop (s : KVStore) (key : String) :
    List String → List (String × String) × Nat → List (String × String) × Nat
  | score :: elem :: rest, (putKvs, addedCount) =>
    let keyScore := getZsetKeySocre rc key score
    let keyElem := getZsetKeyElem rc key elem
    if s.get keyElem = some score then zaddLoop s key rest (putKvs, addedCount)
    else zaddLoop s key rest (putKvs ++ [(keyScore, elem), (keyElem, score)], addedCount + 1)
  | _, acc => acc

/-- `redis_zadd` past its check; the batch removes `del_keys`, which stays empty. -/
def zaddBody (args : List String) (s : KVStore) : Outcome :=
  let key := args.getD 1 ""
  let value := getZsetKeyPreffix rc key
  let putKvs := if (s.get value).isNone then [(key, value)] else []
  let (putKvs, addedCount) := zaddLoop rc s key (args.drop 2) (putKvs, 0)
  let delKeys : List String := []
  (.ok (intReply addedCount), (s.removeBatch delKeys).putBatch putKvs)

def redisZadd (now : Int) (s : KVStore) (args : List String) : Outcome :=
  checked (expireZsetClean rc now s (args.getD 1 "")) (zaddBody rc args) (zaddBody rc args)

/-- One member of `redis_zrem`. -/
def zremElem (key : String) (acc : Nat × KVStore) (elem : String) : Nat × KVStore :=
  let keyElem := getZsetKeyElem rc key elem
  match acc.2.get keyElem with
  | some score => (acc.1 + 1, (acc.2.remove keyElem).remove (getZsetKeySocre rc key score))
  | none => acc

def zremBody (args : List String) (s : KVStore) : Outcome :=
  let (removedCount, s) := (args.drop 2).foldl (zremElem rc (args.getD 1 "")) (0, s)
  (.ok (intReply removedCount), s)

def redisZrem (now : Int) (s : KVStore) (args : List String) : Outcome :=
  if args.length < 3 then (.ok "-ERR wrong number of arguments for 'zrem' command\r\n", s) else
  checked (expireZsetClean rc now s (args.getD 1 "")) (fun s => (.ok ":0\r\n", s)) (zremBody rc args)

/-- The members `redis_zrange` and `redis_zcard` scan: the values of the score keys. -/
def scoreScan (s : KVStore) (key : String) : Option (List (String × String)) :=
  s.itersMonotonyPredicate (prefixPredicate (getZsetScorePreffix rc key))

def zrangeReply (key : String) (start stop : Int) (s : KVStore) : String :=
  match scoreScan rc s key with
  | none => "*0\r\n"
  | some scan =>
    let elements := scan.map fun p => (getZsetScoreItem p.1, p.2)
    rangeReply (elements.map Prod.snd) start stop

/-- `redis_zrange`, with `start` and `stop` the `int`s `std::stoi` read from `args[2]` and
`args[3]`. -/
def redisZrange (now : Int) (s : KVStore) (key : String) (start stop : Int) : Outcome :=
  checked (expireZsetClean rc now s key) (fun s => (.ok "*0\r\n", s))
    fun s => (.ok (zrangeReply rc key start stop s), s)

def zcardReply (key : String) (s : KVStore) : String :=
  match scoreScan rc s key with
  | none => ":0\r\n"
  | some scan => intReply scan.length

def redisZcard (now : Int) (s : KVStore) (key : String) : Outcome :=
  checked (expireZsetClean rc now s key) (fun s => (.ok ":0\r\n", s))
    fun s => (.ok (zcardReply rc key s), s)

def zscoreReply (key elem : String) (s : KVStore) : String :=
  match s.get (getZsetKeyElem rc key elem) with
  | some v => bulkReply v
  | none => nilReply

def redisZscore (now : Int) (s : KVStore) (key elem : String) : Outcome :=
  checked (expireZsetClean rc now s key) (fun s => (.ok nilReply, s))
    fun s => (.ok (zscoreReply rc key elem s), s)

/-- `redis_zrank` past its check: the position of the member's score key in a scan of every key
under `get_zset_key_preffix(key)`, counted from 0. -/
def zrankReply (key elem : String) (s : KVStore) : String :=
  match s.get (getZsetKeyElem rc key elem) with
  | none => nilReply
  | some score =>
    let keyScore := getZsetKeySocre rc key score
    match s.itersMonotonyPredicate (prefixPredicate (getZsetKeyPreffix rc key)) with
    | none => nilReply
    | some scan =>
      match scan.findIdx? (·.1 = keyScore) with
      | some rank => intReply rank
      | none => nilReply

def redisZrank (now : Int) (s : KVStore) (key elem : String) : Outcome :=
  checked (expireZsetClean rc now s key) (fun s => (.ok nilReply, s))
    fun s => (.ok (zrankReply rc key elem s), s)

def rescoredMember : KVStore :=
  (redisZadd sampleConsts 0
    (redisZadd sampleConsts 0 .empty ["ZADD", "k", "1", "m"]).2 ["ZADD", "k", "2", "m"]).2

/-- The second `zadd` writes the new score key but leaves the old one, so the set lists `m` under
both scores. -/
theorem zadd_new_score_keeps_old_score_key :
    (redisZscore sampleConsts 0 rescoredMember "k" "m").1 = .ok "$1\r\n2\r\n" ∧
      (redisZcard sampleConsts 0 rescoredMember "k").1 = .ok ":2\r\n" ∧
      (redisZrange sampleConsts 0 rescoredMember "k" 0 (-1)).1 =
        .ok "*2\r\n$1\r\nm\r\n$1\r\nm\r\n" := by
  set_option maxRecDepth 20000 in decide

/-! ## Members that share a score -/

theorem getZsetKeyElem_ne_keySocre (k m sc : String) :
    getZsetKeyElem rc k m ≠ getZsetKeySocre rc k sc := by
  intro h
  have := congrArg String.data h
  simp [getZsetKeyElem, getZsetKeySocre] at this

theorem getZsetKeyElem_inj {k m₁ m₂ : String} :
    getZsetKeyElem rc k m₁ = getZsetKeyElem rc k m₂ ↔ m₁ = m₂ := by
  refine ⟨fun h => String.ext ?_, fun h => h ▸ rfl⟩
  simpa [getZsetKeyElem] using congrArg String.data h

theorem scorePreffix_prefix_keySocre (k sc : String) :
    (getZsetScorePreffix rc k).data <+: (getZsetKeySocre rc k sc).data := by
  simp [getZsetScorePreffix, getZsetKeySocre]

theorem not_scorePreffix_prefix_keyElem (k m : String) :
    ¬(getZsetScorePreffix rc k).data <+: (getZsetKeyElem rc k m).data := by
  simp [getZsetScorePreffix, getZsetKeyElem]

theorem scorePreffix_not_prefix_of_plain {k : String} (hk : '_' ∉ k.data) (k' : String) :
    ¬(getZsetScorePreffix rc k').data <+: k.data :=
  fun h => hk (h.subset (by simp [getZsetScorePreffix]))

theorem keyPreffix_not_prefix_of_plain {k : String} (hk : '_' ∉ k.data) (k' : String) :
    ¬(getZsetKeyPreffix rc k').data <+: k.data :=
  fun h => hk (h.subset (by simp [getZsetKeyPreffix]))

theorem getZsetKeyElem_lt_keySocre (k m sc : String) : getZsetKeyElem rc k m < getZsetKeySocre rc k sc := by
  have h := List.Lex.append_left (· < ·)
    (List.Lex.rel (by decide) : List.Lex (· < ·) ('E' :: ("LEM_".data ++ m.data))
      ('S' :: ("CORE_".data ++ (sc.data.leftpad rc.sortedSetScoreLen '0'))))
    (rc.sortedSetPrefix.data ++ k.data ++ ['_'])
  rw [String.lt_iff_toList_lt]
  simpa [getZsetKeyElem, getZsetKeySocre, List.append_assoc] using h

theorem keyPreffix_prefix_scorePreffix (k : String) :
    (getZsetKeyPreffix rc k).data <+: (getZsetScorePreffix rc k).data := by
  simp [getZsetKeyPreffix, getZsetScorePreffix, List.prefix_append]

theorem keyPreffix_prefix_keyElem (k m : String) :
    (getZsetKeyPreffix rc k).data <+: (getZsetKeyElem rc k m).data := by
  simp [getZsetKeyPreffix, getZsetKeyElem, List.prefix_append]

theorem keyPreffix_prefix_keySocre (k sc : String) :
    (getZsetKeyPreffix rc k).data <+: (getZsetKeySocre rc k sc).data :=
  (keyPreffix_prefix_scorePreffix rc k).trans (scorePreffix_prefix_keySocre rc k sc)

theorem sortedSetPrefix_prefix_keyPreffix (k : String) :
    rc.sortedSetPrefix.data <+: (getZsetKeyPreffix rc k).data := by
  simp [getZsetKeyPreffix, List.prefix_append]

theorem zaddLoop_keyPreffix (s : KVStore) (key : String) :
    ∀ (args : List String) (acc : List (String × String) × Nat),
    ∀ p ∈ (zaddLoop rc s key args acc).1, p ∈ acc.1 ∨ (getZsetKeyPreffix rc key).data <+: p.1.data
  | [], _, _, hp | [_], _, _, hp => .inl hp
  | score :: elem :: rest, (putKvs, n), p, hp => by
    rw [zaddLoop] at hp
    split_ifs at hp
    · exact zaddLoop_keyPreffix s key rest _ p hp
    · rcases zaddLoop_keyPreffix s key rest _ p hp with hp | hp
      · simp only [List.mem_append, List.mem_cons, List.mem_singleton, List.not_mem_nil, or_false] at hp
        rcases hp with hp | rfl | rfl
        · exact .inl hp
        · exact .inr (keyPreffix_prefix_keySocre rc key score)
        · exact .inr (keyPreffix_prefix_keyElem rc key elem)
      · exact .inr hp

/-- `redis_zadd` writes the set's key and keys under its prefix, and removes nothing. -/
theorem zaddBody_keys (args : List String) (s : KVStore) :
    ∃ kvs, (zaddBody rc args s).2 = s.putBatch kvs ∧ ∀ p ∈ kvs,
      p.1 = args.getD 1 "" ∨ (getZsetKeyPreffix rc (args.getD 1 "")).data <+: p.1.data := by
  simp only [zaddBody, KVStore.removeBatch, List.foldl_nil]
  refine ⟨_, rfl, fun p hp => ?_⟩
  rcases zaddLoop_keyPreffix rc s _ _ _ p hp with hp | hp
  · split_ifs at hp
    · exact .inl (List.mem_singleton.1 hp ▸ rfl)
    · exact absurd hp (List.not_mem_nil _)
  · exact .inr hp

theorem sampleConsts_expireKey_ne_zsetKey (k y : String)
    (h : sampleConsts.sortedSetPrefix.data <+: y.data) : getExplireKey sampleConsts k ≠ y := by
  rintro rfl
  obtain ⟨t, ht⟩ := h
  simp [getExplireKey, sampleConsts] at ht

section ZaddStore

variable {rc}
variable (hexpKey : ∀ k k', '_' ∉ k'.data → getExplireKey rc k ≠ k')
  (hexpZset : ∀ k y, rc.sortedSetPrefix.data <+: y.data → getExplireKey rc k ≠ y)

include hexpKey hexpZset in
theorem expireZsetClean_putBatch_empty {now : Int} {k : String} (hk : '_' ∉ k.data)
    {kvs : List (String × String)} (hkvs : ∀ p ∈ kvs, p.1 = k ∨ rc.sortedSetPrefix.data <+: p.1.data) :
    expireZsetClean rc now (KVStore.empty.putBatch kvs) k = (.ok false, KVStore.empty.putBatch kvs) := by
  refine expireClean_of_get_none ?_
  rw [KVStore.get_putBatch_of_forall_ne fun p hp hpx => ?_]
  · rfl
  rcases hkvs p hp with h | h
  · exact hexpKey k k hk (hpx ▸ h)
  · exact hexpZset k p.1 h hpx.symm

theorem scoreScan_eq_singleton {S : KVStore} {k sc m : String} (hk : '_' ∉ k.data)
    (hscore : S.get (getZsetKeySocre rc k sc) = some m)
    (hkeys : ∀ p ∈ S.entries, p.1 = k ∨ p.1 = getZsetKeySocre rc k sc ∨ ∃ e, p.1 = getZsetKeyElem rc k e) :
    scoreScan rc S k = some [(getZsetKeySocre rc k sc, m)] := by
  refine KVStore.itersMonotonyPredicate_eq_singleton S
    (prefixPredicate_eq_zero.2 (scorePreffix_prefix_keySocre rc k sc)) hscore fun p hp hpred => ?_
  rw [prefixPredicate_eq_zero] at hpred
  rcases hkeys p hp with h | h | ⟨e, h⟩
  · exact absurd (h ▸ hpred) (scorePreffix_not_prefix_of_plain rc hk k)
  · exact h
  · exact absurd (h ▸ hpred) (not_scorePreffix_prefix_keyElem rc k e)

end ZaddStore

/-- Two new members under one score share its score key, so the last one takes it: `zadd`
replies that it added two, `zcard` counts one, `zrange` lists the last member only, and
`zscore` still answers for the first. -/
theorem zadd_same_score_keeps_last_member
    (hexpKey : ∀ k k', '_' ∉ k'.data → getExplireKey rc k ≠ k')
    (hexpZset : ∀ k y, rc.sortedSetPrefix.data <+: y.data → getExplireKey rc k ≠ y) (now : Int)
    {k sc m₁ m₂ : String} (hk : '_' ∉ k.data) (hsc : sc ≠ "") (hm₂ : m₂ ≠ "") (hm : m₁ ≠ m₂) :
    (redisZadd rc now KVStore.empty ["ZADD", k, sc, m₁, sc, m₂]).1 = .ok (intReply 2) ∧
      (redisZcard rc now (redisZadd rc now KVStore.empty ["ZADD", k, sc, m₁, sc, m₂]).2
        k).1 = .ok (intReply 1) ∧
      (redisZrange rc now (redisZadd rc now KVStore.empty ["ZADD", k, sc, m₁, sc, m₂]).2
        k 0 (-1)).1 = .ok (arrayReply [m₂]) ∧
      (redisZscore rc now (redisZadd rc now KVStore.empty ["ZADD", k, sc, m₁, sc, m₂]).2
        k m₁).1 = .ok (bulkReply sc) := by
  have hzadd : redisZadd rc now KVStore.empty ["ZADD", k, sc, m₁, sc, m₂] =
      (.ok (intReply 2), KVStore.empty.putBatch [(k, getZsetKeyPreffix rc k),
        (getZsetKeySocre rc k sc, m₁), (getZsetKeyElem rc k m₁, sc),
        (getZsetKeySocre rc k sc, m₂), (getZsetKeyElem rc k m₂, sc)]) := rfl
  rw [hzadd]
  set S := KVStore.empty.putBatch [(k, getZsetKeyPreffix rc k), (getZsetKeySocre rc k sc, m₁),
    (getZsetKeyElem rc k m₁, sc), (getZsetKeySocre rc k sc, m₂), (getZsetKeyElem rc k m₂, sc)]
    with hS
  have hne : getZsetKeyElem rc k m₁ ≠ getZsetKeyElem rc k m₂ := mt (getZsetKeyElem_inj rc).1 hm
  have hse : ∀ m, getZsetKeySocre rc k sc ≠ getZsetKeyElem rc k m :=
    fun m h => getZsetKeyElem_ne_keySocre rc k m sc h.symm
  have hclean : expireZsetClean rc now S k = (.ok false, S) :=
    expireZsetClean_putBatch_empty hexpKey hexpZset hk (by
      simp [getZsetKeySocre, getZsetKeyElem, List.prefix_append])
  have hscore : S.get (getZsetKeySocre rc k sc) = some m₂ := by
    simp only [hS, KVStore.putBatch, List.foldl_cons, List.foldl_nil, KVStore.get_put,
      if_neg (hse _).symm, if_pos rfl, if_true, liveValue_of_ne hm₂]
  have helem : S.get (getZsetKeyElem rc k m₁) = some sc := by
    simp only [hS, KVStore.putBatch, List.foldl_cons, List.foldl_nil, KVStore.get_put,
      if_neg hne.symm, if_neg (hse _), if_pos rfl, if_true, liveValue_of_ne hsc]
  have hscan : scoreScan rc S k = some [(getZsetKeySocre rc k sc, m₂)] :=
    scoreScan_eq_singleton hk hscore fun p hp => by
      have := (KVStore.mem_putBatch hp).resolve_left (List.not_mem_nil _)
      simp only [List.map_cons, List.map_nil, List.mem_cons, List.not_mem_nil, or_false] at this
      rcases this with h | h | h | h | h
      exacts [.inl h, .inr (.inl h), .inr (.inr ⟨_, h⟩), .inr (.inl h), .inr (.inr ⟨_, h⟩)]
  refine ⟨rfl, ?_, ?_, ?_⟩
  · simp only [redisZcard, hclean, checked_ok_false, zcardReply, hscan]
    rfl
  · simp only [redisZrange, hclean, checked_ok_false, zrangeReply, hscan, List.map_cons, List.map_nil]
    exact congrArg Except.ok (rangeReply_all (List.cons_ne_nil _ _) (by norm_num))
  · simp only [redisZscore, hclean, checked_ok_false, zscoreReply, helem]

theorem zadd_same_score_keeps_last_member_sample :
    (redisZadd sampleConsts 0 KVStore.empty ["ZADD", "k", "1", "a", "1", "b"]).1 =
        .ok (intReply 2) ∧
      (redisZcard sampleConsts 0
        (redisZadd sampleConsts 0 KVStore.empty ["ZADD", "k", "1", "a", "1", "b"]).2 "k").1 =
        .ok (intReply 1) ∧
      (redisZrange sampleConsts 0
        (redisZadd sampleConsts 0 KVStore.empty ["ZADD", "k", "1", "a", "1", "b"]).2 "k" 0 (-1)).1 =
        .ok (arrayReply ["b"]) ∧
      (redisZscore sampleConsts 0
        (redisZadd sampleConsts 0 KVStore.empty ["ZADD", "k", "1", "a", "1", "b"]).2 "k" "a").1 =
        .ok (bulkReply "1") :=
  zadd_same_score_keeps_last_member sampleConsts sampleConsts_expireKey_ne_key
    sampleConsts_expireKey_ne_zsetKey 0 (by decide) (by decide) (by decide) (by decide)

/-! ## The rank of a member -/

/-- What `redis_zrank` computes when the set has not expired and holds the member: the rank is the
number of live keys under the set's prefix that sort below the member's score key. -/
theorem redisZrank_eq_countP {now : Int} {s : KVStore} {key m sc w : String}
    (hclean : expireZsetClean rc now s key = (.ok false, s))
    (helem : s.get (getZsetKeyElem rc key m) = some sc)
    (hscore : s.get (getZsetKeySocre rc key sc) = some w) :
    redisZrank rc now s key m = (.ok (intReply ((skipTombstones (s.entries.filter fun p =>
      prefixPredicate (getZsetKeyPreffix rc key) p.1 = 0)).countP fun p =>
        p.1 < getZsetKeySocre rc key sc)), s) := by
  have hpre : prefixPredicate (getZsetKeyPreffix rc key) (getZsetKeySocre rc key sc) = 0 :=
    prefixPredicate_eq_zero.2 (by simp [getZsetKeyPreffix, getZsetKeySocre, List.prefix_append])
  have hmem : (getZsetKeySocre rc key sc, w) ∈ skipTombstones (s.entries.filter fun p =>
      prefixPredicate (getZsetKeyPreffix rc key) p.1 = 0) := KVStore.mem_scan.2 ⟨hscore, hpre⟩
  simp only [redisZrank, hclean, checked_ok_false, zrankReply, helem,
    KVStore.itersMonotonyPredicate_of_get hscore hpre,
    findIdx?_fst_eq_of_ascending (Ascending.skipTombstones (s.ascending.filter _)) hmem]

def oneMember : KVStore := (redisZadd sampleConsts 0 .empty ["ZADD", "k", "1", "m"]).2

/-- A set of one member: `zrange` lists it at position 0, but `zrank` counts the member's element
key, which sorts before its score key, and replies 1. -/
theorem zrank_counts_element_keys
    (hexpKey : ∀ k k', '_' ∉ k'.data → getExplireKey rc k ≠ k')
    (hexpZset : ∀ k y, rc.sortedSetPrefix.data <+: y.data → getExplireKey rc k ≠ y) (now : Int)
    {k sc m : String} (hk : '_' ∉ k.data) (hsc : sc ≠ "") (hm : m ≠ "") :
    (redisZrank rc now (redisZadd rc now KVStore.empty ["ZADD", k, sc, m]).2 k m).1 =
        .ok (intReply 1) ∧
      (redisZrange rc now (redisZadd rc now KVStore.empty ["ZADD", k, sc, m]).2 k 0 (-1)).1 =
        .ok (arrayReply [m]) := by
  have hzadd : redisZadd rc now KVStore.empty ["ZADD", k, sc, m] =
      (.ok (intReply 1), KVStore.empty.putBatch [(k, getZsetKeyPreffix rc k),
        (getZsetKeySocre rc k sc, m), (getZsetKeyElem rc k m, sc)]) := rfl
  rw [hzadd]
  set S := KVStore.empty.putBatch [(k, getZsetKeyPreffix rc k), (getZsetKeySocre rc k sc, m),
    (getZsetKeyElem rc k m, sc)] with hS
  have hse : getZsetKeySocre rc k sc ≠ getZsetKeyElem rc k m :=
    fun h => getZsetKeyElem_ne_keySocre rc k m sc h.symm
  have hclean : expireZsetClean rc now S k = (.ok false, S) :=
    expireZsetClean_putBatch_empty hexpKey hexpZset hk (by
      simp [getZsetKeySocre, getZsetKeyElem, List.prefix_append])
  have hscore : S.get (getZsetKeySocre rc k sc) = some m := by
    simp only [hS, KVStore.putBatch, List.foldl_cons, List.foldl_nil, KVStore.get_put,
      if_neg hse.symm, if_pos rfl, if_true, liveValue_of_ne hm]
  have helem : S.get (getZsetKeyElem rc k m) = some sc := by
    simp only [hS, KVStore.putBatch, List.foldl_cons, List.foldl_nil, KVStore.get_put, if_pos rfl,
      if_true, liveValue_of_ne hsc]
  have hkeys : ∀ p ∈ S.entries,
      p.1 = k ∨ p.1 = getZsetKeySocre rc k sc ∨ p.1 = getZsetKeyElem rc k m :=
    fun p hp => by simpa using (KVStore.mem_putBatch hp).resolve_left (List.not_mem_nil _)
  constructor
  · rw [redisZrank_eq_countP rc hclean helem hscore, List.countP_eq_length_filter,
      eq_singleton_of_ascending ((Ascending.skipTombstones (S.ascending.filter _)).filter _)
        (p := (getZsetKeyElem rc k m, sc)) ?_ fun q hq => ?_]
    · rfl
    · rw [List.mem_filter, KVStore.mem_scan, prefixPredicate_eq_zero, decide_eq_true_eq]
      exact ⟨⟨helem, by simp [getZsetKeyPreffix, getZsetKeyElem, List.prefix_append]⟩,
        getZsetKeyElem_lt_keySocre rc k m sc⟩
    · rw [List.mem_filter, KVStore.mem_scan, prefixPredicate_eq_zero, decide_eq_true_eq] at hq
      rcases hkeys q (KVStore.mem_of_get hq.1.1) with h | h | h
      · exact absurd (h ▸ hq.1.2) (keyPreffix_not_prefix_of_plain rc hk k)
      · exact absurd (h ▸ hq.2) (lt_irrefl _)
      · exact h
  · have hscan : scoreScan rc S k = some [(getZsetKeySocre rc k sc, m)] :=
      scoreScan_eq_singleton hk hscore fun p hp => (hkeys p hp).imp_right (Or.imp_right fun h => ⟨m, h⟩)
    simp only [redisZrange, hclean, checked_ok_false, zrangeReply, hscan, List.map_cons, List.map_nil]
    exact congrArg Except.ok (rangeReply_all (List.cons_ne_nil _ _) (by norm_num))

theorem zrank_counts_element_keys_oneMember :
    (redisZrank sampleConsts 0 oneMember "k" "m").1 = .ok (intReply 1) ∧
      (redisZrange sampleConsts 0 oneMember "k" 0 (-1)).1 = .ok (arrayReply ["m"]) :=
  zrank_counts_element_keys sampleConsts sampleConsts_expireKey_ne_key
    sampleConsts_expireKey_ne_zsetKey 0 (by decide) (by decide) (by decide)

end RedisWrapper

end LsmTree
