import LsmTree.Redis.Basic
set_option autoImplicit false

/-!
Hashes. The value of field `f` of hash `key` is stored under `REDIS_FIELD_PREFIX + key + "_" + f`,
and the list of the hash's fields under `key` itself, as `REDIS_HASH_VALUE_PREFFIX` followed by
the fields joined with `REDIS_FIELD_SEPARATOR`.
-/

namespace LsmTree

namespace RedisWrapper

variable (rc : RedisConsts)

/-- `get_fileds_from_hash_value`: drop the prefix with `substr`, which throws on a non-empty value
shorter than it, then split at the separator. -/
def getFiledsFromHashValue (fieldListOpt : Option String) : Except StoullError (List String) :=
  let fieldList := fieldListOpt.getD ""
  let fieldList :=
    if fieldList = "" then .ok fieldList else substr fieldList rc.hashValuePreffix.length
  fieldList.map fun fieldList => split fieldList rc.fieldSeparator

def getHashValueFromFields (fields : List String) : String :=
  rc.hashValuePreffix ++ join fields rc.fieldSeparator

def getHashFiledKey (key field : String) : String := rc.fieldPrefix ++ key ++ "_" ++ field

/-- `is_value_hash`: `value.find(REDIS_HASH_VALUE_PREFFIX) == 0`, the prefix found at the start. -/
def isValueHash (value : String) : Bool := rc.hashValuePreffix.data.isPrefixOf value.data

/-- What `expire_hash_clean` does under the exclusive lock: read the field list again, then remove
the fields, the list and the expire key. -/
def hashCleanup (key : String) (s : KVStore) : Except StoullError KVStore :=
  (getFiledsFromHashValue rc (s.get key)).map fun fileds =>
    let s := fileds.foldl (fun s f => s.remove (getHashFiledKey rc key f)) s
    (s.remove key).remove (getExplireKey rc key)

def expireHashClean (now : Int) (s : KVStore) (key : String) : Except StoullError Bool × KVStore :=
  expireClean rc now (hashCleanup rc key) s key

/-- `redis_hset` past its check: write the field, then read the field list, which may throw with
the field written, and append the field when it is new. -/
def hsetBody (key field value : String) (s : KVStore) : Outcome :=
  let s := s.put (getHashFiledKey rc key field) value
  match getFiledsFromHashValue rc (s.get key) with
  | .ok fieldList =>
    (.ok "+OK\r\n",
      if field ∈ fieldList then s else s.put key (getHashValueFromFields rc (fieldList ++ [field])))
  | .error e => (.error e, s)

def redisHset (now : Int) (s : KVStore) (key field value : String) : Outcome :=
  checked (expireHashClean rc now s key) (hsetBody rc key field value) (hsetBody rc key field value)

def hgetReply (key field : String) (s : KVStore) : String :=
  match s.get (getHashFiledKey rc key field) with
  | some v => bulkReply v
  | none => nilReply

def redisHget (now : Int) (s : KVStore) (key field : String) : Outcome :=
  checked (expireHashClean rc now s key) (fun s => (.ok nilReply, s))
    fun s => (.ok (hgetReply rc key field s), s)

/-- `redis_hdel` past its check: remove the field, then read the field list, which may throw with
the field removed, and drop the field from it. -/
def hdelBody (key field : String) (s : KVStore) : Outcome :=
  let fieldKey := getHashFiledKey rc key field
  let (delCount, s) : Nat × KVStore :=
    if (s.get fieldKey).isSome then (1, s.remove fieldKey) else (0, s)
  match getFiledsFromHashValue rc (s.get key) with
  | .ok fieldList =>
    (.ok (intReply delCount),
      if field ∈ fieldList then
        let fieldList := fieldList.erase field
        if fieldList = [] then s.remove key else s.put key (getHashValueFromFields rc fieldList)
      else s)
  | .error e => (.error e, s)

def redisHdel (now : Int) (s : KVStore) (key field : String) : Outcome :=
  checked (expireHashClean rc now s key) (fun s => (.ok ":0\r\n", s)) (hdelBody rc key field)

def hkeysReply (key : String) (s : KVStore) : Except StoullError String :=
  (getFiledsFromHashValue rc (s.get key)).map arrayReply

def redisHkeys (now : Int) (s : KVStore) (key : String) : Outcome :=
  checked (expireHashClean rc now s key) (fun s => (.ok "*0\r\n", s))
    fun s => (hkeysReply rc key s, s)

/-- One key of `redis_del`: a key holding a hash loses its fields too, and every key loses its
expire key. `substr` cannot throw here: a hash value starts with the prefix
(`getFiledsFromHashValue_of_isValueHash`). -/
def delKey (acc : Nat × KVStore) (curKey : String) : Nat × KVStore :=
  let s := acc.2
  let (n, s) : Nat × KVStore := match s.get curKey with
    | some v =>
      let s := if isValueHash rc v then
          match getFiledsFromHashValue rc (some v) with
          | .ok fieldList => fieldList.foldl (fun s f => s.remove (getHashFiledKey rc curKey f)) s
          | .error _ => s
        else s
      (acc.1 + 1, s.remove curKey)
    | none => (acc.1, s)
  let expireKey := getExplireKey rc curKey
  (n, if (s.get expireKey).isSome then s.remove expireKey else s)

/-- `redis_del` on the keys `args[1..]`. -/
def redisDel (s : KVStore) (args : List String) : String × KVStore :=
  let (delCount, s) := (args.drop 1).foldl (delKey rc) (0, s)
  (intReply delCount, s)

theorem getFiledsFromHashValue_of_isValueHash {v : String} (h : isValueHash rc v) :
    getFiledsFromHashValue rc (some v) =
      .ok (split (String.mk (v.data.drop rc.hashValuePreffix.length)) rc.fieldSeparator) := by
  have hlen : rc.hashValuePreffix.length ≤ v.length :=
    (List.IsPrefix.length_le (List.isPrefixOf_iff_prefix.1 h) :)
  by_cases hv : v = ""
  · subst hv
    have : rc.hashValuePreffix.length = 0 := Nat.le_zero.1 hlen
    simp [getFiledsFromHashValue, this]
    rfl
  · simp [getFiledsFromHashValue, hv, substr, not_lt.2 hlen]
    rfl

/-! ## Hashes as maps -/

/-- The hashes as the commands mean them: each key's fields in the order `hkeys` lists them, and
each field's value. -/
structure Hashes where
  fields : String → List String
  values : String → String → Option String

namespace Hashes

def empty : Hashes := ⟨fun _ => [], fun _ _ => none⟩

/-- `hset`: a new field goes last. -/
def hset (M : Hashes) (key field value : String) : Hashes :=
  ⟨Function.update M.fields key
      (if field ∈ M.fields key then M.fields key else M.fields key ++ [field]),
    fun k f => if k = key ∧ f = field then some value else M.values k f⟩

def hdel (M : Hashes) (key field : String) : Hashes :=
  ⟨Function.update M.fields key ((M.fields key).erase field),
    fun k f => if k = key ∧ f = field then none else M.values k f⟩

def del (M : Hashes) (keys : List String) : Hashes :=
  ⟨fun k => if k ∈ keys then [] else M.fields k, fun k f => if k ∈ keys then none else M.values k f⟩

def hget (M : Hashes) (key field : String) : String :=
  match M.values key field with
  | some v => bulkReply v
  | none => nilReply

def hkeys (M : Hashes) (key : String) : String := arrayReply (M.fields key)

theorem del_del_singleton (M : Hashes) (k : String) (keys : List String) :
    (M.del [k]).del keys = M.del (k :: keys) := by
  simp only [del, List.mem_singleton, List.mem_cons, mk.injEq]
  constructor <;> funext k' <;> by_cases h : k' = k <;> simp [h]

end Hashes

/-- The hash commands of a run. -/
inductive HashCmd where
  | hset (key field value : String)
  | hdel (key field : String)
  | del (keys : List String)

namespace HashCmd

/-- The wrapper's state after the command at the second `now`; `del` gets its keys after the
command name. -/
def run (now : Int) (s : KVStore) : HashCmd → KVStore
  | hset k f v => (redisHset rc now s k f v).2
  | hdel k f => (redisHdel rc now s k f).2
  | del ks => (redisDel rc s ("DEL" :: ks)).2

def model (M : Hashes) : HashCmd → Hashes
  | hset k f v => M.hset k f v
  | hdel k f => M.hdel k f
  | del ks => M.del ks

def runAll (now : Int) (cmds : List HashCmd) : KVStore := cmds.foldl (run rc now) KVStore.empty

def modelAll (cmds : List HashCmd) : Hashes := cmds.foldl model Hashes.empty

/-- Keys without `_`, and fields and values as a hash holds them: non-empty, and fields without
`REDIS_FIELD_SEPARATOR`. -/
def Valid : HashCmd → Prop
  | hset k f v => '_' ∉ k.data ∧ f ≠ "" ∧ rc.fieldSeparator ∉ f.data ∧ v ≠ ""
  | hdel k f => '_' ∉ k.data ∧ f ≠ "" ∧ rc.fieldSeparator ∉ f.data
  | del ks => ∀ k ∈ ks, '_' ∉ k.data

instance : DecidablePred (Valid rc) := fun
  | hset k f v => inferInstanceAs (Decidable ('_' ∉ k.data ∧ f ≠ "" ∧ _ ∧ v ≠ ""))
  | hdel k f => inferInstanceAs (Decidable ('_' ∉ k.data ∧ f ≠ "" ∧ _))
  | del ks => inferInstanceAs (Decidable (∀ k ∈ ks, '_' ∉ k.data))

end HashCmd

/-- The store holds the hashes `M` on the keys without `_`: the field list under the key, each
value under its field key, and no expire key. `M` lists each live field once. -/
structure HoldsHashes (s : KVStore) (M : Hashes) : Prop where
  fieldList : ∀ k, '_' ∉ k.data →
    s.get k = if M.fields k = [] then none else some (getHashValueFromFields rc (M.fields k))
  fieldValue : ∀ k f, '_' ∉ k.data → s.get (getHashFiledKey rc k f) = M.values k f
  noExpire : ∀ k, '_' ∉ k.data → s.get (getExplireKey rc k) = none
  wellFormed : ∀ k, ∀ f ∈ M.fields k, f ≠ "" ∧ rc.fieldSeparator ∉ f.data
  nodup : ∀ k, (M.fields k).Nodup
  live : ∀ k f, f ∈ M.fields k ↔ (M.values k f).isSome

section Keys

theorem append_cons_eq_iff {c : Char} : ∀ {x₁ x₂ z₁ z₂ : List Char}, c ∉ x₁ → c ∉ x₂ →
    (x₁ ++ c :: z₁ = x₂ ++ c :: z₂ ↔ x₁ = x₂ ∧ z₁ = z₂)
  | [], [], _, _, _, _ => by simp
  | [], b :: x₂, _, _, _, h₂ => by
    simp only [List.nil_append, List.cons_append, List.cons.injEq]
    exact iff_of_false (fun h => h₂ (h.1 ▸ List.mem_cons_self _ _)) (by simp)
  | a :: x₁, [], _, _, h₁, _ => by
    simp only [List.nil_append, List.cons_append, List.cons.injEq]
    exact iff_of_false (fun h => h₁ (h.1 ▸ List.mem_cons_self _ _)) (by simp)
  | a :: x₁, b :: x₂, _, _, h₁, h₂ => by
    simp only [List.cons_append, List.cons.injEq, and_assoc]
    rw [append_cons_eq_iff (fun h => h₁ (List.mem_cons_of_mem _ h))
      (fun h => h₂ (List.mem_cons_of_mem _ h))]

theorem getHashFiledKey_inj {k₁ k₂ f₁ f₂ : String} (h₁ : '_' ∉ k₁.data) (h₂ : '_' ∉ k₂.data) :
    getHashFiledKey rc k₁ f₁ = getHashFiledKey rc k₂ f₂ ↔ k₁ = k₂ ∧ f₁ = f₂ := by
  have : k₁.data ++ '_' :: f₁.data = k₂.data ++ '_' :: f₂.data ↔ k₁ = k₂ ∧ f₁ = f₂ := by
    rw [append_cons_eq_iff h₁ h₂, ← String.ext_iff, ← String.ext_iff]
  simpa [getHashFiledKey, String.ext_iff] using this

theorem ne_getHashFiledKey {k : String} (hk : '_' ∉ k.data) (k' f : String) :
    k ≠ getHashFiledKey rc k' f := by
  rintro rfl
  exact hk (by simp [getHashFiledKey])

theorem getHashFiledKey_ne {k : String} (hk : '_' ∉ k.data) {f g : String} (hg : g ≠ f) :
    getHashFiledKey rc k g ≠ getHashFiledKey rc k f :=
  fun he => hg ((getHashFiledKey_inj rc hk hk).1 he).2

theorem sampleConsts_expireKey_ne_fieldKey (k k' f : String) :
    getExplireKey sampleConsts k ≠ getHashFiledKey sampleConsts k' f := fun h => by
  have e1 : (getExplireKey sampleConsts k).data.get? 6 = some 'E' := rfl
  have e2 : (getHashFiledKey sampleConsts k' f).data.get? 6 = some 'F' := rfl
  rw [h, e2] at e1
  exact absurd (Option.some.inj e1) (by decide)

end Keys

section Simulation

variable {rc} {now : Int} {s : KVStore} {M : Hashes}

theorem getHashValueFromFields_ne_empty {fs : List String}
    (hfs : ∀ f ∈ fs, f ≠ "" ∧ rc.fieldSeparator ∉ f.data) (h : fs ≠ []) :
    getHashValueFromFields rc fs ≠ "" := fun he => h <| by
  have hd := congrArg String.data he
  simp only [getHashValueFromFields, String.data_append] at hd
  rw [← split_join hfs, String.ext (List.append_eq_nil.1 hd).2]
  rfl

theorem getFiledsFromHashValue_stored {fs : List String}
    (hfs : ∀ f ∈ fs, f ≠ "" ∧ rc.fieldSeparator ∉ f.data) :
    getFiledsFromHashValue rc (if fs = [] then none else some (getHashValueFromFields rc fs)) =
      .ok fs := by
  split_ifs with h
  · exact h.symm ▸ rfl
  · have hv : isValueHash rc (getHashValueFromFields rc fs) := by
      simp [isValueHash, getHashValueFromFields]
    have hl : rc.hashValuePreffix.length = rc.hashValuePreffix.data.length := rfl
    rw [getFiledsFromHashValue_of_isValueHash rc hv]
    simp only [getHashValueFromFields, String.data_append, hl, List.drop_left]
    exact congrArg Except.ok (split_join hfs)

theorem HoldsHashes.expireHashClean (h : HoldsHashes rc s M) {k : String} (hk : '_' ∉ k.data) :
    expireHashClean rc now s k = (.ok false, s) :=
  expireClean_of_get_none (h.noExpire k hk)

variable (hexpField : ∀ k k' f, getExplireKey rc k ≠ getHashFiledKey rc k' f)
  (hexpKey : ∀ k k', '_' ∉ k'.data → getExplireKey rc k ≠ k')

include hexpField hexpKey in
theorem HoldsHashes.update (h : HoldsHashes rc s M) {k : String} (hk : '_' ∉ k.data)
    {s' : KVStore} {M' : Hashes}
    (hout : ∀ x, x ≠ k → (∀ f, x ≠ getHashFiledKey rc k f) → s'.get x = s.get x)
    (hother : ∀ k', k' ≠ k → M'.fields k' = M.fields k' ∧ M'.values k' = M.values k')
    (hlist : s'.get k =
      if M'.fields k = [] then none else some (getHashValueFromFields rc (M'.fields k)))
    (hfield : ∀ f, s'.get (getHashFiledKey rc k f) = M'.values k f)
    (hwf : ∀ f ∈ M'.fields k, f ≠ "" ∧ rc.fieldSeparator ∉ f.data)
    (hnodup : (M'.fields k).Nodup) (hlive : ∀ f, f ∈ M'.fields k ↔ (M'.values k f).isSome) :
    HoldsHashes rc s' M' := by
  have hfk : ∀ {k'}, '_' ∉ k'.data → k' ≠ k → ∀ f g, getHashFiledKey rc k' f ≠ getHashFiledKey rc k g :=
    fun hk' hne f g he => hne ((getHashFiledKey_inj rc hk' hk).1 he).1
  refine ⟨fun k' hk' => ?_, fun k' f hk' => ?_, fun k' hk' => ?_, fun k' => ?_, fun k' => ?_,
    fun k' => ?_⟩
  · by_cases hkk : k' = k
    · exact hkk ▸ hlist
    · rw [hout k' hkk (ne_getHashFiledKey rc hk' k), h.fieldList k' hk', (hother k' hkk).1]
  · by_cases hkk : k' = k
    · exact hkk ▸ hfield f
    · rw [hout _ (ne_getHashFiledKey rc hk k' f).symm (hfk hk' hkk f), h.fieldValue k' f hk',
        (hother k' hkk).2]
  · rw [hout _ (hexpKey k' k hk) (hexpField k' k), h.noExpire k' hk']
  · by_cases hkk : k' = k
    · exact hkk ▸ hwf
    · exact (hother k' hkk).1 ▸ h.wellFormed k'
  · by_cases hkk : k' = k
    · exact hkk ▸ hnodup
    · exact (hother k' hkk).1 ▸ h.nodup k'
  · by_cases hkk : k' = k
    · exact hkk ▸ hlive
    · rw [(hother k' hkk).1, (hother k' hkk).2]
      exact h.live k'

include hexpField hexpKey in
theorem HoldsHashes.hset (h : HoldsHashes rc s M) {k f v : String} (hk : '_' ∉ k.data)
    (hf : f ≠ "") (hsep : rc.fieldSeparator ∉ f.data) (hv : v ≠ "") :
    HoldsHashes rc (redisHset rc now s k f v).2 (M.hset k f v) := by
  have hkf : k ≠ getHashFiledKey rc k f := ne_getHashFiledKey rc hk k f
  have hF : getFiledsFromHashValue rc ((s.put (getHashFiledKey rc k f) v).get k) = .ok (M.fields k) := by
    rw [KVStore.get_put, if_neg hkf.symm, h.fieldList k hk]
    exact getFiledsFromHashValue_stored (h.wellFormed k)
  have hwf' : ∀ g ∈ M.fields k ++ [f], g ≠ "" ∧ rc.fieldSeparator ∉ g.data := fun g hg =>
    (List.mem_append.1 hg).elim (h.wellFormed k g) fun hg => List.mem_singleton.1 hg ▸ ⟨hf, hsep⟩
  have hget : ∀ x, (redisHset rc now s k f v).2.get x =
      if x = getHashFiledKey rc k f then some v
      else if x = k ∧ f ∉ M.fields k then some (getHashValueFromFields rc (M.fields k ++ [f]))
      else s.get x := by
    intro x
    have hval := getHashValueFromFields_ne_empty hwf' (by simp)
    simp only [redisHset, h.expireHashClean hk, checked_ok_false, hsetBody, hF]
    by_cases hmem : f ∈ M.fields k
    · by_cases hx : x = getHashFiledKey rc k f
      · simp [hmem, hx, liveValue_of_ne hv]
      · simp [hmem, hx, Ne.symm hx]
    · by_cases hx : x = getHashFiledKey rc k f
      · simp [hmem, hx, hkf, liveValue_of_ne hv]
      · by_cases hxk : x = k
        · simp [hmem, hxk, hkf, Ne.symm hkf, liveValue_of_ne hval]
        · simp [hmem, hx, hxk, Ne.symm hx, Ne.symm hxk]
  refine h.update hexpField hexpKey hk (fun x hxk hxf => ?_) (fun k' hk' => by simp [Hashes.hset, hk'])
    ?_ (fun g => ?_) ?_ ?_ (fun g => ?_)
  · rw [hget, if_neg (hxf f), if_neg fun h => hxk h.1]
  · rw [hget, if_neg hkf]
    by_cases hmem : f ∈ M.fields k
    · simp [Hashes.hset, hmem, h.fieldList k hk, List.ne_nil_of_mem hmem]
    · simp [Hashes.hset, hmem]
  · rw [hget]
    by_cases hg : g = f
    · simp [Hashes.hset, hg]
    · simp [getHashFiledKey_ne rc hk hg, (ne_getHashFiledKey rc hk k g).symm, Hashes.hset, hg,
        h.fieldValue k g hk]
  · simp only [Hashes.hset, Function.update_same]
    split_ifs
    · exact h.wellFormed k
    · exact hwf'
  · simp only [Hashes.hset, Function.update_same]
    split_ifs with hmem
    · exact h.nodup k
    · exact (h.nodup k).append (List.nodup_singleton f) (List.disjoint_singleton.2 hmem)
  · by_cases hg : g = f
    · subst hg
      by_cases hmem : g ∈ M.fields k <;> simp [Hashes.hset, hmem]
    · by_cases hmem : f ∈ M.fields k <;> simp [Hashes.hset, hmem, hg, h.live k g]

include hexpField hexpKey in
theorem HoldsHashes.hdel (h : HoldsHashes rc s M) {k f : String} (hk : '_' ∉ k.data) :
    HoldsHashes rc (redisHdel rc now s k f).2 (M.hdel k f) := by
  have hkf : k ≠ getHashFiledKey rc k f := ne_getHashFiledKey rc hk k f
  have hF : ∀ s' : KVStore, s'.get k = s.get k →
      getFiledsFromHashValue rc (s'.get k) = .ok (M.fields k) :=
    fun s' hs' => by
      rw [hs', h.fieldList k hk]
      exact getFiledsFromHashValue_stored (h.wellFormed k)
  have hget : ∀ x, (redisHdel rc now s k f).2.get x =
      if x = getHashFiledKey rc k f then none
      else if x = k ∧ f ∈ M.fields k then
        (if (M.fields k).erase f = [] then none
          else some (getHashValueFromFields rc ((M.fields k).erase f)))
      else s.get x := by
    intro x
    have hval : (M.fields k).erase f ≠ [] →
        getHashValueFromFields rc ((M.fields k).erase f) ≠ "" :=
      getHashValueFromFields_ne_empty fun g hg => h.wellFormed k g (List.mem_of_mem_erase hg)
    have hrest : ∀ s1 : KVStore,
        (∀ y, s1.get y = if y = getHashFiledKey rc k f then none else s.get y) →
        (if f ∈ M.fields k then
          (if (M.fields k).erase f = [] then s1.remove k
            else s1.put k (getHashValueFromFields rc ((M.fields k).erase f)))
          else s1).get x =
        if x = getHashFiledKey rc k f then none
        else if x = k ∧ f ∈ M.fields k then
          (if (M.fields k).erase f = [] then none
            else some (getHashValueFromFields rc ((M.fields k).erase f)))
        else s.get x := fun s1 hs1 => by
      by_cases hx : x = k
      · subst hx
        by_cases hmem : f ∈ M.fields x <;> by_cases he : (M.fields x).erase f = [] <;>
          simp [hmem, he, hs1, KVStore.get_remove, hkf, Ne.symm hkf, liveValue_of_ne, hval]
      · by_cases hmem : f ∈ M.fields k <;> by_cases he : (M.fields k).erase f = [] <;>
          simp [hmem, he, hs1, KVStore.get_remove, hx, Ne.symm hx]
    have hF' := hF (s.remove (getHashFiledKey rc k f)) (by rw [KVStore.get_remove, if_neg (Ne.symm hkf)])
    by_cases hpres : (s.get (getHashFiledKey rc k f)).isSome = true
    · simp only [redisHdel, h.expireHashClean hk, checked_ok_false, hdelBody, hpres, ite_true, hF']
      exact hrest _ fun y => by simp only [KVStore.get_remove, eq_comm]
    · simp only [redisHdel, h.expireHashClean hk, checked_ok_false, hdelBody, hpres,
        Bool.false_eq_true, ite_false, hF s rfl]
      refine hrest s fun y => ?_
      split_ifs with hy
      · simpa [hy] using hpres
      · rfl
  refine h.update hexpField hexpKey hk (fun x hxk hxf => ?_) (fun k' hk' => by simp [Hashes.hdel, hk'])
    ?_ (fun g => ?_) (fun g hg => ?_) ?_ (fun g => ?_)
  · rw [hget, if_neg (hxf f), if_neg fun h => hxk h.1]
  · rw [hget, if_neg hkf]
    by_cases hmem : f ∈ M.fields k
    · simp [Hashes.hdel, hmem]
    · simp [Hashes.hdel, hmem, List.erase_of_not_mem hmem, h.fieldList k hk]
  · rw [hget]
    by_cases hg : g = f
    · simp [Hashes.hdel, hg]
    · simp [getHashFiledKey_ne rc hk hg, (ne_getHashFiledKey rc hk k g).symm, Hashes.hdel, hg,
        h.fieldValue k g hk]
  · simp only [Hashes.hdel, Function.update_same] at hg
    exact h.wellFormed k g (List.mem_of_mem_erase hg)
  · simpa [Hashes.hdel] using (h.nodup k).erase f
  · by_cases hg : g = f
    · subst hg
      simp [Hashes.hdel, (h.nodup k).not_mem_erase]
    · simp [Hashes.hdel, hg, List.mem_erase_of_ne hg, h.live k g]

include hexpField hexpKey in
theorem HoldsHashes.delOne (h : HoldsHashes rc s M) {k : String} (hk : '_' ∉ k.data) (n : Nat) :
    HoldsHashes rc (delKey rc (n, s) k).2 (M.del [k]) := by
  have hexp := h.noExpire k hk
  have hget : ∀ x, (delKey rc (n, s) k).2.get x =
      if x = k ∨ x ∈ (M.fields k).map (getHashFiledKey rc k) then none else s.get x := by
    intro x
    by_cases hF : M.fields k = []
    · have hnone : s.get k = none := by rw [h.fieldList k hk, if_pos hF]
      by_cases hx : x = k
      · subst hx
        simp [RedisWrapper.delKey, hnone, hexp]
      · simp [RedisWrapper.delKey, hnone, hexp, hF, hx]
    · have hsome : s.get k = some (getHashValueFromFields rc (M.fields k)) := by
        rw [h.fieldList k hk, if_neg hF]
      have hfs : getFiledsFromHashValue rc (some (getHashValueFromFields rc (M.fields k))) =
          .ok (M.fields k) := by
        have := getFiledsFromHashValue_stored (h.wellFormed k)
        rwa [if_neg hF] at this
      have hv : isValueHash rc (getHashValueFromFields rc (M.fields k)) = true := by
        simp [isValueHash, getHashValueFromFields]
      have hexp' : (((M.fields k).foldl (fun s f => s.remove (getHashFiledKey rc k f)) s).remove
          k).get (getExplireKey rc k) = none := by
        rw [KVStore.get_remove, KVStore.get_foldl_remove]
        simp [hexp]
      simp only [RedisWrapper.delKey, hsome, hv, ite_true, hfs, hexp', Option.isSome_none,
        Bool.false_eq_true, ite_false, KVStore.get_remove, KVStore.get_foldl_remove]
      by_cases hx : x = k
      · simp [hx]
      · simp [hx, Ne.symm hx]
  refine h.update hexpField hexpKey hk (fun x hxk hxf => ?_) (fun k' hk' => by simp [Hashes.del, hk'])
    (by rw [hget]; simp [Hashes.del]) (fun g => ?_) (by simp [Hashes.del]) (by simp [Hashes.del])
    (by simp [Hashes.del])
  · rw [hget, if_neg]
    rintro (hx | hx)
    · exact hxk hx
    · obtain ⟨g, -, hg⟩ := List.mem_map.1 hx
      exact hxf g hg.symm
  · by_cases hg : g ∈ M.fields k
    · rw [hget, if_pos (.inr (List.mem_map_of_mem _ hg))]
      simp [Hashes.del]
    · have hl := h.live k g
      simp only [hg, Option.not_isSome_iff_eq_none, false_iff] at hl
      rw [hget, if_neg, h.fieldValue k g hk, hl]
      · simp [Hashes.del]
      · rintro (hx | hx)
        · exact ne_getHashFiledKey rc hk k g hx.symm
        · obtain ⟨g', hg', he⟩ := List.mem_map.1 hx
          exact hg (((getHashFiledKey_inj rc hk hk).1 he).2 ▸ hg')

include hexpField hexpKey in
theorem HoldsHashes.foldlDelKey {ks : List String} (hks : ∀ k ∈ ks, '_' ∉ k.data) :
    ∀ {acc : Nat × KVStore} {M : Hashes}, HoldsHashes rc acc.2 M →
      HoldsHashes rc (ks.foldl (delKey rc) acc).2 (M.del ks) := by
  induction ks with
  | nil => intro acc M h; simpa [Hashes.del] using h
  | cons k ks ih =>
    rintro ⟨n, s⟩ M h
    rw [List.foldl_cons, ← Hashes.del_del_singleton]
    exact ih (fun k' hk' => hks k' (List.mem_cons_of_mem k hk'))
      (h.delOne hexpField hexpKey (hks k (List.mem_cons_self k ks)) n)

include hexpField hexpKey in
/-- A command on keys without `_` keeps the store holding the hashes as the command changes them. -/
theorem HoldsHashes.runCmd (h : HoldsHashes rc s M) :
    ∀ {c : HashCmd}, c.Valid rc → HoldsHashes rc (c.run rc now s) (c.model M)
  | .hset _ _ _, ⟨hk, hf, hsep, hv⟩ => h.hset hexpField hexpKey hk hf hsep hv
  | .hdel _ _, ⟨hk, _, _⟩ => h.hdel hexpField hexpKey hk
  | .del _, hks => h.foldlDelKey hexpField hexpKey hks

include hexpField hexpKey in
theorem HoldsHashes.runCmds (cmds : List HashCmd) : ∀ {s M}, HoldsHashes rc s M →
    (∀ c ∈ cmds, c.Valid rc) →
      HoldsHashes rc (cmds.foldl (HashCmd.run rc now) s) (cmds.foldl HashCmd.model M) := by
  induction cmds with
  | nil => exact fun h _ => h
  | cons c cmds ih =>
    exact fun h hv => ih (h.runCmd hexpField hexpKey (hv c (List.mem_cons_self c cmds)))
      fun c' hc' => hv c' (List.mem_cons_of_mem c hc')

theorem HoldsHashes.hget_reply (h : HoldsHashes rc s M) {k : String} (hk : '_' ∉ k.data)
    (f : String) : redisHget rc now s k f = (.ok (M.hget k f), s) := by
  simp only [redisHget, h.expireHashClean hk, checked_ok_false, hgetReply, h.fieldValue k f hk,
    Hashes.hget]

theorem HoldsHashes.hkeys_reply (h : HoldsHashes rc s M) {k : String} (hk : '_' ∉ k.data) :
    redisHkeys rc now s k = (.ok (M.hkeys k), s) := by
  simp only [redisHkeys, h.expireHashClean hk, checked_ok_false, hkeysReply, h.fieldList k hk,
    getFiledsFromHashValue_stored (h.wellFormed k), Hashes.hkeys]
  rfl

end Simulation

theorem holdsHashes_empty (rc : RedisConsts) : HoldsHashes rc KVStore.empty Hashes.empty :=
  ⟨fun _ _ => rfl, fun _ _ _ => rfl, fun _ _ => rfl, fun _ _ h => absurd h (List.not_mem_nil _),
    fun _ => List.nodup_nil, fun _ _ => by simp [Hashes.empty]⟩

/-- A session of `hset`, `hdel` and `del` on keys without `_` gives, on every such key, the
replies of the hashes the session means: `hget` the value of the last `hset` of the field that no
`hdel` of it or `del` of the key followed, nil if there is none, and `hkeys` each live field once.
Neither read changes the store. -/
theorem hget_hkeys_follow_hashes
    (hexpField : ∀ k k' f, getExplireKey rc k ≠ getHashFiledKey rc k' f)
    (hexpKey : ∀ k k', '_' ∉ k'.data → getExplireKey rc k ≠ k') (now : Int)
    (cmds : List HashCmd) (hv : ∀ c ∈ cmds, c.Valid rc)
    {k : String} (hk : '_' ∉ k.data) (f : String) :
    redisHget rc now (HashCmd.runAll rc now cmds) k f =
        (.ok ((HashCmd.modelAll cmds).hget k f), HashCmd.runAll rc now cmds) ∧
      redisHkeys rc now (HashCmd.runAll rc now cmds) k =
        (.ok ((HashCmd.modelAll cmds).hkeys k), HashCmd.runAll rc now cmds) ∧
      ((HashCmd.modelAll cmds).fields k).Nodup ∧
      ∀ g, g ∈ (HashCmd.modelAll cmds).fields k ↔ ((HashCmd.modelAll cmds).values k g).isSome := by
  have h : HoldsHashes rc (HashCmd.runAll rc now cmds) (HashCmd.modelAll cmds) :=
    (holdsHashes_empty rc).runCmds hexpField hexpKey cmds hv
  exact ⟨h.hget_reply hk f, h.hkeys_reply hk, h.nodup k, h.live k⟩

def userSession : List HashCmd :=
  [.hset "user" "name" "ann", .hset "user" "age" "7", .hdel "user" "name", .hset "cart" "pen" "2",
    .del ["cart"]]

theorem hget_hkeys_follow_hashes_userSession :
    (∀ c ∈ userSession, c.Valid sampleConsts) ∧ '_' ∉ "user".data ∧
      redisHget sampleConsts 0 (HashCmd.runAll sampleConsts 0 userSession) "user" "age" =
        (.ok ((HashCmd.modelAll userSession).hget "user" "age"),
          HashCmd.runAll sampleConsts 0 userSession) ∧
      redisHkeys sampleConsts 0 (HashCmd.runAll sampleConsts 0 userSession) "user" =
        (.ok ((HashCmd.modelAll userSession).hkeys "user"), HashCmd.runAll sampleConsts 0 userSession) ∧
      ((HashCmd.modelAll userSession).fields "user").Nodup ∧
      ∀ g, g ∈ (HashCmd.modelAll userSession).fields "user" ↔
        ((HashCmd.modelAll userSession).values "user" g).isSome :=
  have hv : ∀ c ∈ userSession, c.Valid sampleConsts := by decide
  have hk : '_' ∉ "user".data := by decide
  ⟨hv, hk, hget_hkeys_follow_hashes sampleConsts sampleConsts_expireKey_ne_fieldKey
    sampleConsts_expireKey_ne_key 0 userSession hv hk "age"⟩

example : (redisHkeys sampleConsts 0 (HashCmd.runAll sampleConsts 0 userSession) "user").1 =
    .ok (arrayReply ["age"]) := by decide

/-- Keys with `_`: field `b_c` of hash `a` and field `c` of hash `a_b` share the field key
`REDIS_FIELD_a_b_c`. -/
def crossKeySession : List HashCmd := [.hset "a" "b_c" "v"]

theorem hget_reads_field_of_other_key :
    "b_c" ≠ "" ∧ sampleConsts.fieldSeparator ∉ "b_c".data ∧
      (redisHget sampleConsts 0 (HashCmd.runAll sampleConsts 0 crossKeySession) "a_b" "c").1 =
        .ok (bulkReply "v") ∧
      (HashCmd.modelAll crossKeySession).hget "a_b" "c" = nilReply := by
  decide

end RedisWrapper

end LsmTree
