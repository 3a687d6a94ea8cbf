import LsmTree.Redis.Locking
import LsmTree.Redis.SortedSets
set_option autoImplicit false

/-!
# Clients on different keys

Two clients whose commands name different keys never meet in the store: every block of a command
on `key` reads and writes only the keys of `Region rc key` (the key, its expire key, and the keys
under its hash-field and sorted-set prefixes), and the regions of different keys are apart. So
whatever the clock says, expire cleanups included, every interleaving of such clients is the serial
run of the commands in the order they completed (`separate_keys_interleaving_is_serial`). The
lost updates of `hset_lost_to_expired_cleanup` and `set_lost_to_expired_get` need two clients on
one key.

Stores are compared key by key on their newest versions, tombstones included (`AgreeOn`): whether
a scan finds a cursor at all counts tombstones.
-/

namespace LsmTree

namespace KVStore

/-- `s` and `t` hold the same newest version, a tombstone included, of every key of `F`. -/
def AgreeOn (F : String → Prop) (s t : KVStore) : Prop :=
  ∀ y, F y → lookup s.entries y = lookup t.entries y

theorem ext_of_agreeOn {s t : KVStore} (h : AgreeOn (fun _ => True) s t) : s = t := by
  cases s; cases t
  congr
  exact ascending_ext ‹_› ‹_› fun y => h y trivial

theorem mem_itersMonotonyPredicate {s : KVStore} {pred : String → Int} {l : List (String × String)}
    (h : s.itersMonotonyPredicate pred = some l) {p : String × String} (hp : p ∈ l) : pred p.1 = 0 := by
  simp only [itersMonotonyPredicate] at h
  split_ifs at h
  cases h
  simpa using (List.mem_filter.1 (List.mem_filter.1 hp).1).2

namespace AgreeOn

variable {F G : String → Prop} {s t u : KVStore}

theorem refl (F : String → Prop) (s : KVStore) : AgreeOn F s s := fun _ _ => rfl

theorem symm (h : AgreeOn F s t) : AgreeOn F t s := fun y hy => (h y hy).symm

theorem trans (h₁ : AgreeOn F s t) (h₂ : AgreeOn F t u) : AgreeOn F s u :=
  fun y hy => (h₁ y hy).trans (h₂ y hy)

theorem mono (h : AgreeOn F s t) (hGF : ∀ y, G y → F y) : AgreeOn G s t := fun y hy => h y (hGF y hy)

theorem get (h : AgreeOn F s t) {y : String} (hy : F y) : s.get y = t.get y := by
  rw [KVStore.get, KVStore.get, h y hy]

theorem put (h : AgreeOn F s t) (k v : String) : AgreeOn F (s.put k v) (t.put k v) := fun y hy => by
  simp only [KVStore.put, lookup_insertNode, h y hy]

theorem put_left (h : AgreeOn F s t) {k : String} (hk : ¬ F k) (v : String) :
    AgreeOn F (s.put k v) t := fun y hy => by
  rw [KVStore.put, lookup_insertNode, if_neg fun (e : k = y) => hk (e ▸ hy), h y hy]

theorem remove (h : AgreeOn F s t) (k : String) : AgreeOn F (s.remove k) (t.remove k) := h.put k ""

theorem remove_left (h : AgreeOn F s t) {k : String} (hk : ¬ F k) : AgreeOn F (s.remove k) t :=
  h.put_left hk ""

theorem foldl_remove {α : Type} (g : α → String) (l : List α) (h : AgreeOn F s t) :
    AgreeOn F (l.foldl (fun s a => s.remove (g a)) s) (l.foldl (fun s a => s.remove (g a)) t) := by
  induction l generalizing s t with
  | nil => exact h
  | cons a l ih => exact ih (h.remove (g a))

theorem foldl_remove_left {α : Type} (g : α → String) {l : List α} (hl : ∀ a ∈ l, ¬ F (g a))
    (h : AgreeOn F s t) : AgreeOn F (l.foldl (fun s a => s.remove (g a)) s) t := by
  induction l generalizing s with
  | nil => exact h
  | cons a l ih =>
    exact ih (fun b hb => hl b (List.mem_cons_of_mem a hb))
      (h.remove_left (hl a (List.mem_cons_self a l)))

theorem putBatch (kvs : List (String × String)) (h : AgreeOn F s t) :
    AgreeOn F (s.putBatch kvs) (t.putBatch kvs) := by
  induction kvs generalizing s t with
  | nil => exact h
  | cons p kvs ih => exact ih (h.put p.1 p.2)

theorem putBatch_left {kvs : List (String × String)} (hkvs : ∀ p ∈ kvs, ¬ F p.1)
    (h : AgreeOn F s t) : AgreeOn F (s.putBatch kvs) t := by
  induction kvs generalizing s with
  | nil => exact h
  | cons p kvs ih =>
    exact ih (fun q hq => hkvs q (List.mem_cons_of_mem p hq))
      (h.put_left (hkvs p (List.mem_cons_self p kvs)) p.2)

theorem removeBatch (ks : List String) (h : AgreeOn F s t) :
    AgreeOn F (s.removeBatch ks) (t.removeBatch ks) :=
  foldl_remove id ks h

theorem removeBatch_left {ks : List String} (hks : ∀ k ∈ ks, ¬ F k) (h : AgreeOn F s t) :
    AgreeOn F (s.removeBatch ks) t :=
  foldl_remove_left id hks h

theorem itersMonotonyPredicate (h : AgreeOn F s t) {pred : String → Int} (hp : ∀ y, pred y = 0 → F y) :
    s.itersMonotonyPredicate pred = t.itersMonotonyPredicate pred := by
  have hfilter : s.entries.filter (fun p => pred p.1 = 0) = t.entries.filter (fun p => pred p.1 = 0) :=
    ascending_ext (s.ascending.sublist (List.filter_sublist _))
      (t.ascending.sublist (List.filter_sublist _)) fun y => by
        rw [lookup_filter (fun k => decide (pred k = 0)), lookup_filter (fun k => decide (pred k = 0))]
        split_ifs with hy
        · exact h y (hp y (of_decide_eq_true hy))
        · rfl
  simp only [KVStore.itersMonotonyPredicate, hfilter]

theorem put_outside (h : AgreeOn (fun y => ¬ F y) s t) {k : String} (hk : F k) (v : String) :
    AgreeOn (fun y => ¬ F y) (s.put k v) t :=
  h.put_left (not_not_intro hk) v

theorem remove_outside (h : AgreeOn (fun y => ¬ F y) s t) {k : String} (hk : F k) :
    AgreeOn (fun y => ¬ F y) (s.remove k) t :=
  h.put_outside hk ""

end AgreeOn

end KVStore

namespace RedisWrapper

open LsmTree.KVStore (AgreeOn)

/-! ## Functions and blocks that keep to a set of keys -/

/-- `f` writes only keys of `F`, and what it returns and writes there depends only on `F`. -/
structure Confined {α : Type} (F : String → Prop) (f : KVStore → α × KVStore) : Prop where
  frame : ∀ s, AgreeOn (fun y => ¬ F y) (f s).2 s
  agree : ∀ {s t}, AgreeOn F s t → (f s).1 = (f t).1 ∧ AgreeOn F (f s).2 (f t).2

section Confined

variable {F : String → Prop}

theorem Confined.of_snd_eq {α : Type} {f : KVStore → α × KVStore} (hs : ∀ s, (f s).2 = s)
    (h : ∀ {s t}, AgreeOn F s t → (f s).1 = (f t).1) : Confined F f :=
  ⟨fun s => by rw [hs]; exact AgreeOn.refl _ s, fun hst => ⟨h hst, by rw [hs, hs]; exact hst⟩⟩

theorem Confined.mono {α : Type} {f : KVStore → α × KVStore} {G : String → Prop} (h : Confined F f)
    (hFG : ∀ y, F y → G y) : Confined G f := by
  refine ⟨fun s => (h.frame s).mono fun y hy hF => hy (hFG y hF), fun {s t} hst => ⟨?_, fun y hy => ?_⟩⟩
  · exact (h.agree (hst.mono hFG)).1
  · by_cases hF : F y
    · exact (h.agree (hst.mono hFG)).2 y hF
    · rw [h.frame s y hF, h.frame t y hF, hst y hy]

theorem Confined.bind {α β : Type} {f : KVStore → α × KVStore} {g : α → KVStore → β × KVStore}
    (hf : Confined F f) (hg : ∀ a, Confined F (g a)) : Confined F fun s => g (f s).1 (f s).2 := by
  refine ⟨fun s => ((hg _).frame _).trans (hf.frame s), fun hst => ?_⟩
  obtain ⟨h₁, h₂⟩ := hf.agree hst
  rw [h₁]
  exact (hg _).agree h₂

theorem Confined.map {α β : Type} {f : KVStore → α × KVStore} (hf : Confined F f) (φ : α → β) :
    Confined F fun s => (φ (f s).1, (f s).2) :=
  ⟨hf.frame, fun hst => ⟨by rw [(hf.agree hst).1], (hf.agree hst).2⟩⟩

theorem Confined.foldl {α β : Type} {g : α × KVStore → β → α × KVStore} :
    ∀ (l : List β), (∀ a, ∀ b ∈ l, Confined F fun s => g (a, s) b) →
      ∀ a, Confined F fun s => l.foldl g (a, s)
  | [], _, _ => ⟨fun s => AgreeOn.refl _ s, fun hst => ⟨rfl, hst⟩⟩
  | b :: l, hg, a => (hg a b (List.mem_cons_self b l)).bind fun a' =>
      Confined.foldl l (fun a b hb => hg a b (List.mem_cons_of_mem _ hb)) a'

end Confined

/-- Every block of `b` is confined to `F`, and which block comes next depends only on `F`. -/
inductive Blocks.Confined (F : String → Prop) : Blocks → Prop
  | done (r : Except StoullError String) : Blocks.Confined F (.done r)
  | block {next : KVStore → Blocks} {write : KVStore → KVStore}
      (h : RedisWrapper.Confined F fun s => (next s, write s))
      (hnext : ∀ s, Blocks.Confined F (next s)) : Blocks.Confined F (.block next write)

/-- The states a client's blocks pass through when they run with no other client in between:
the blocks left and the store they have made from `s₀`. -/
inductive Blocks.Reaches (b₀ : Blocks) (s₀ : KVStore) : Blocks → KVStore → Prop
  | refl : Blocks.Reaches b₀ s₀ b₀ s₀
  | tail {next : KVStore → Blocks} {write : KVStore → KVStore} {ℓ : KVStore} :
      Blocks.Reaches b₀ s₀ (.block next write) ℓ → Blocks.Reaches b₀ s₀ (next ℓ) (write ℓ)

namespace Blocks

variable {F : String → Prop} {b₀ b : Blocks} {s₀ ℓ : KVStore}

theorem Reaches.solo_eq (h : Reaches b₀ s₀ b ℓ) : b₀.solo s₀ = b.solo ℓ := by
  induction h with
  | refl => rfl
  | tail _ ih => exact ih

theorem Reaches.confined (h : Reaches b₀ s₀ b ℓ) (hc : b₀.Confined F) : b.Confined F := by
  induction h with
  | refl => exact hc
  | tail _ ih => cases ih with
    | block _ hnext => exact hnext _

theorem Confined.solo (h : b.Confined F) : RedisWrapper.Confined F b.solo := by
  induction h with
  | done r => exact ⟨fun s => AgreeOn.refl _ s, fun hst => ⟨rfl, hst⟩⟩
  | @block next write hb _ ih =>
    refine ⟨fun s => ((ih s).frame (write s)).trans (hb.frame s), fun {s t} hst => ?_⟩
    obtain ⟨hn, hw⟩ := hb.agree hst
    simp only [Blocks.solo]
    rw [show next s = next t from hn]
    exact (ih t).agree hw

theorem Confined.mono {G : String → Prop} (h : b.Confined F) (hFG : ∀ y, F y → G y) : b.Confined G := by
  induction h with
  | done r => exact .done r
  | block hb _ ih => exact .block (hb.mono hFG) ih

end Blocks

theorem Confined.atomically {F : String → Prop} {f : KVStore → Outcome} (h : Confined F f) :
    (Blocks.atomically f).Confined F :=
  .block ⟨h.frame, fun hst => ⟨by dsimp only; rw [(h.agree hst).1], (h.agree hst).2⟩⟩ fun _ => .done _

variable (rc : RedisConsts) (now : Int)

theorem confined_guarded {F : String → Prop} {key : String}
    {clean : KVStore → Except StoullError KVStore} {onExpired : Blocks} {onLive : KVStore → Blocks}
    (hek : F (getExplireKey rc key)) (hclean : Confined F (cleanStep clean))
    (hexp : onExpired.Confined F) (hlive : ∀ s, (onLive s).Confined F)
    (hlive' : ∀ {s t}, AgreeOn F s t → onLive s = onLive t) :
    (guarded rc now key clean onExpired onLive).Confined F := by
  refine .block ⟨fun s => AgreeOn.refl _ s, fun hst => ⟨?_, hst⟩⟩ fun s => ?_
  · simp only [hst.get hek, hlive' hst]
  · dsimp only
    split
    · refine .block ⟨hclean.frame, fun hst => ⟨?_, (hclean.agree hst).2⟩⟩ fun s => ?_
      · simp only [(hclean.agree hst).1]
      · split
        · exact hexp
        · exact .done _
    · exact hlive s
    · exact .done _

/-! ## The region of a key -/

/-- The keys a command on `key` may read or write: the key, its expire key, and the keys under its
hash-field and sorted-set prefixes. -/
def Region (key y : String) : Prop :=
  y = key ∨ y = getExplireKey rc key ∨ (rc.fieldPrefix ++ key ++ "_").data <+: y.data ∨
    (getZsetKeyPreffix rc key).data <+: y.data

section Region

variable {rc} {key : String}

theorem region_key : Region rc key key := .inl rfl

theorem region_expireKey : Region rc key (getExplireKey rc key) := .inr (.inl rfl)

theorem region_fieldKey (f : String) : Region rc key (getHashFiledKey rc key f) :=
  .inr (.inr (.inl ⟨f.data, by simp [getHashFiledKey]⟩))

theorem region_of_zsetPrefix {y : String} (h : (getZsetKeyPreffix rc key).data <+: y.data) :
    Region rc key y :=
  .inr (.inr (.inr h))

theorem region_of_prefixPredicate {y : String} (h : prefixPredicate (getZsetKeyPreffix rc key) y = 0) :
    Region rc key y :=
  region_of_zsetPrefix (prefixPredicate_eq_zero.1 h)

theorem region_zsetKeyElem (m : String) : Region rc key (getZsetKeyElem rc key m) :=
  region_of_zsetPrefix ⟨("ELEM_" ++ m).data, by simp [getZsetKeyElem, getZsetKeyPreffix]⟩

theorem region_zsetKeySocre (score : String) : Region rc key (getZsetKeySocre rc key score) := by
  refine region_of_zsetPrefix
    ⟨("SCORE_" ++ String.mk (score.data.leftpad rc.sortedSetScoreLen '0')).data, ?_⟩
  simp only [getZsetKeySocre, getZsetKeyPreffix, String.data_append, List.append_assoc]
  rfl

theorem region_of_scorePrefix {y : String} (h : prefixPredicate (getZsetScorePreffix rc key) y = 0) :
    Region rc key y :=
  region_of_zsetPrefix ((keyPreffix_prefix_scorePreffix rc key).trans (prefixPredicate_eq_zero.1 h))

end Region

/-! ## Every command keeps to the regions of its keys -/

section Functions

variable {rc} {k : String}

theorem confined_hashCleanup : Confined (Region rc k) (cleanStep (hashCleanup rc k)) := by
  refine ⟨fun s => ?_, fun {s t} hst => ?_⟩
  · simp only [cleanStep, hashCleanup]
    cases getFiledsFromHashValue rc (s.get k) with
    | error e => exact AgreeOn.refl _ s
    | ok fs =>
      exact ((AgreeOn.foldl_remove_left _ (fun f _ => not_not_intro (region_fieldKey f))
        (AgreeOn.refl _ s)).remove_outside region_key).remove_outside region_expireKey
  · simp only [cleanStep, hashCleanup, hst.get region_key]
    cases getFiledsFromHashValue rc (t.get k) with
    | error e => exact ⟨rfl, hst⟩
    | ok fs => exact ⟨rfl, ((hst.foldl_remove _ _).remove k).remove _⟩

theorem confined_listCleanup : Confined (Region rc k) (cleanStep fun s => .ok (listCleanup rc k s)) :=
  ⟨fun s => ((AgreeOn.refl _ s).remove_outside region_key).remove_outside region_expireKey,
    fun hst => ⟨rfl, (hst.remove k).remove _⟩⟩

theorem confined_zsetCleanup : Confined (Region rc k) (cleanStep fun s => .ok (zsetCleanup rc k s)) := by
  refine ⟨fun s => ?_, fun {s t} hst => ⟨rfl, ?_⟩⟩
  · have h₁ := ((AgreeOn.refl (fun y => ¬ Region rc k y) s).remove_outside region_key).remove_outside
      region_expireKey
    simp only [cleanStep, zsetCleanup]
    split
    · next elems he =>
      refine AgreeOn.removeBatch_left (fun y hy => not_not_intro ?_) h₁
      obtain ⟨p, hp, rfl⟩ := List.mem_map.1 hy
      exact region_of_prefixPredicate (KVStore.mem_itersMonotonyPredicate he hp)
    · exact h₁
  · have h₁ := (hst.remove k).remove (getExplireKey rc k)
    simp only [cleanStep, zsetCleanup, h₁.itersMonotonyPredicate fun y => region_of_prefixPredicate]
    cases ((t.remove k).remove (getExplireKey rc k)).itersMonotonyPredicate
      (prefixPredicate (getZsetKeyPreffix rc k))
    · exact h₁
    · exact h₁.removeBatch _

theorem confined_redisSet (v : String) : Confined (Region rc k) fun s => redisSet rc s k v := by
  refine ⟨fun s => ?_, fun {s t} hst => ⟨rfl, ?_⟩⟩
  · have h₁ := (AgreeOn.refl (fun y => ¬ Region rc k y) s).put_outside region_key v
    simp only [redisSet]
    split_ifs
    · exact h₁.remove_outside region_expireKey
    · exact h₁
  · have h₁ := hst.put k v
    simp only [redisSet, h₁.get region_expireKey]
    split_ifs
    · exact h₁.remove _
    · exact h₁

theorem confined_getBlocks : (getBlocks rc now k).Confined (Region rc k) := by
  have hclean : ∀ g : KVStore → KVStore, Confined (Region rc k) (fun s => ((), g s)) →
      (Blocks.block (fun _ => .done (.ok nilReply)) g).Confined (Region rc k) := fun g hg =>
    .block ⟨hg.frame, fun hst => ⟨rfl, (hg.agree hst).2⟩⟩ fun _ => .done _
  refine .block ⟨fun s => AgreeOn.refl _ s, fun hst => ⟨?_, hst⟩⟩ fun s => ?_
  · rw [hst.get region_key, hst.get region_expireKey]
  · split
    · split
      · exact hclean _ ⟨fun s => ((AgreeOn.refl _ s).remove_outside region_key).remove_outside
          region_expireKey, fun hst => ⟨rfl, (hst.remove _).remove _⟩⟩
      all_goals exact .done _
    · exact .done _
    · exact hclean _ ⟨fun s => (AgreeOn.refl _ s).remove_outside region_expireKey,
        fun hst => ⟨rfl, hst.remove _⟩⟩
    · exact .done _

theorem confined_hsetBody (f v : String) : Confined (Region rc k) (hsetBody rc k f v) := by
  refine ⟨fun s => ?_, fun {s t} hst => ?_⟩
  · have h₁ := (AgreeOn.refl (fun y => ¬ Region rc k y) s).put_outside (region_fieldKey f) v
    simp only [hsetBody]
    cases getFiledsFromHashValue rc ((s.put (getHashFiledKey rc k f) v).get k) with
    | error e => exact h₁
    | ok fs =>
      dsimp only
      split_ifs
      · exact h₁
      · exact h₁.put_outside region_key _
  · have h₁ := hst.put (getHashFiledKey rc k f) v
    simp only [hsetBody, h₁.get region_key]
    cases getFiledsFromHashValue rc ((t.put (getHashFiledKey rc k f) v).get k) with
    | error e => exact ⟨rfl, h₁⟩
    | ok fs =>
      dsimp only
      split_ifs
      · exact ⟨rfl, h₁⟩
      · exact ⟨rfl, h₁.put _ _⟩

theorem confined_hdelBody (f : String) : Confined (Region rc k) (hdelBody rc k f) := by
  refine ⟨fun s => ?_, fun {s t} hst => ?_⟩
  · have h₀ := AgreeOn.refl (fun y => ¬ Region rc k y) s
    have h₁ := h₀.remove_outside (region_fieldKey f)
    simp only [hdelBody]
    repeat' split
    all_goals first
      | exact h₁.remove_outside region_key | exact h₁.put_outside region_key _ | exact h₁
      | exact h₀.remove_outside region_key | exact h₀.put_outside region_key _ | exact h₀
  · simp only [hdelBody, hst.get (region_fieldKey f)]
    cases (t.get (getHashFiledKey rc k f)).isSome
    · simp only [Bool.false_eq_true, ite_false, hst.get region_key]
      cases getFiledsFromHashValue rc (t.get k) with
      | error e => exact ⟨rfl, hst⟩
      | ok fs =>
        refine ⟨rfl, ?_⟩
        dsimp only
        split_ifs
        exacts [hst.remove k, hst.put _ _, hst]
    · have h₁ := hst.remove (getHashFiledKey rc k f)
      simp only [ite_true, h₁.get region_key]
      cases getFiledsFromHashValue rc ((t.remove (getHashFiledKey rc k f)).get k) with
      | error e => exact ⟨rfl, h₁⟩
      | ok fs =>
        refine ⟨rfl, ?_⟩
        dsimp only
        split_ifs
        exacts [h₁.remove k, h₁.put _ _, h₁]

theorem storeRest_outside (s : KVStore) (rest : List String) :
    AgreeOn (fun y => ¬ Region rc k y) (storeRest rc s k rest) s := by
  unfold storeRest
  split_ifs
  · exact (AgreeOn.refl _ s).remove_outside region_key
  · exact (AgreeOn.refl _ s).put_outside region_key _

theorem agreeOn_storeRest {F : String → Prop} {s t : KVStore} (h : AgreeOn F s t) (rest : List String) :
    AgreeOn F (storeRest rc s k rest) (storeRest rc t k rest) := by
  unfold storeRest
  split_ifs
  · exact h.remove k
  · exact h.put k _

theorem confined_lpushBody (v : String) : Confined (Region rc k) (lpushBody rc k v) := by
  refine ⟨fun s => (AgreeOn.refl _ s).put_outside region_key _, fun {s t} hst => ?_⟩
  simp only [lpushBody, hst.get region_key]
  exact ⟨trivial, hst.put _ _⟩

theorem confined_rpushBody (v : String) : Confined (Region rc k) (rpushBody rc k v) := by
  refine ⟨fun s => (AgreeOn.refl _ s).put_outside region_key _, fun {s t} hst => ?_⟩
  simp only [rpushBody, hst.get region_key]
  exact ⟨trivial, hst.put _ _⟩

theorem confined_lpopBody : Confined (Region rc k) (lpopBody rc k) := by
  refine ⟨fun s => ?_, fun {s t} hst => ?_⟩
  · simp only [lpopBody]
    repeat' split
    all_goals first | exact AgreeOn.refl _ s | exact storeRest_outside s _
  · simp only [lpopBody, hst.get region_key]
    cases t.get k with
    | none => exact ⟨rfl, hst⟩
    | some lv =>
      dsimp only
      cases split lv rc.listSeparator with
      | nil => exact ⟨rfl, hst⟩
      | cons v rest => exact ⟨rfl, agreeOn_storeRest hst rest⟩

theorem confined_rpopBody : Confined (Region rc k) (rpopBody rc k) := by
  refine ⟨fun s => ?_, fun {s t} hst => ?_⟩
  · simp only [rpopBody]
    repeat' split
    all_goals first | exact AgreeOn.refl _ s | exact storeRest_outside s _
  · simp only [rpopBody, hst.get region_key]
    cases t.get k with
    | none => exact ⟨rfl, hst⟩
    | some lv =>
      dsimp only
      cases (split lv rc.listSeparator).getLast? with
      | none => exact ⟨rfl, hst⟩
      | some v => exact ⟨rfl, agreeOn_storeRest hst _⟩

theorem zaddLoop_congr {s t : KVStore} {key : String} (hst : AgreeOn (Region rc key) s t) :
    ∀ (args : List String) (acc : List (String × String) × Nat),
      zaddLoop rc s key args acc = zaddLoop rc t key args acc
  | [], _ | [_], _ => rfl
  | score :: elem :: rest, (putKvs, n) => by
    simp only [zaddLoop, hst.get (region_zsetKeyElem elem), zaddLoop_congr hst rest]

theorem confined_zaddBody (args : List String) :
    Confined (Region rc (args.getD 1 "")) (zaddBody rc args) := by
  have hval : Region rc (args.getD 1 "") (getZsetKeyPreffix rc (args.getD 1 "")) :=
    region_of_zsetPrefix (List.prefix_refl _)
  refine ⟨fun s => ?_, fun {s t} hst => ?_⟩
  · obtain ⟨kvs, he, hkvs⟩ := zaddBody_keys rc args s
    rw [he]
    refine AgreeOn.putBatch_left (fun p hp => not_not_intro ?_) (AgreeOn.refl _ s)
    rcases hkvs p hp with e | e
    · exact e ▸ region_key
    · exact region_of_zsetPrefix e
  · simp only [zaddBody, hst.get hval, zaddLoop_congr hst]
    exact ⟨trivial, (hst.removeBatch []).putBatch _⟩

theorem confined_zremElem (key : String) (n : Nat) (m : String) :
    Confined (Region rc key) fun s => zremElem rc key (n, s) m := by
  refine ⟨fun s => ?_, fun {s t} hst => ?_⟩
  · simp only [zremElem]
    split
    · exact ((AgreeOn.refl _ s).remove_outside (region_zsetKeyElem m)).remove_outside
        (region_zsetKeySocre _)
    · exact AgreeOn.refl _ s
  · simp only [zremElem, hst.get (region_zsetKeyElem m)]
    cases t.get (getZsetKeyElem rc key m) with
    | none => exact ⟨rfl, hst⟩
    | some score => exact ⟨rfl, (hst.remove _).remove _⟩

theorem confined_zremBody (args : List String) :
    Confined (Region rc (args.getD 1 "")) (zremBody rc args) :=
  (Confined.foldl _ (fun n m _ => confined_zremElem _ n m) 0).map fun n => .ok (intReply n)

theorem confined_delKey (n : Nat) (key : String) :
    Confined (Region rc key) fun s => delKey rc (n, s) key := by
  refine ⟨fun s => ?_, fun {s t} hst => ?_⟩
  · have h₀ := AgreeOn.refl (fun y => ¬ Region rc key y) s
    simp only [RedisWrapper.delKey]
    cases s.get key with
    | none =>
      dsimp only
      split_ifs
      · exact h₀.remove_outside region_expireKey
      · exact h₀
    | some v =>
      dsimp only
      have h₁ : ∀ fs : List String, AgreeOn (fun y => ¬ Region rc key y)
          (fs.foldl (fun s f => s.remove (getHashFiledKey rc key f)) s) s := fun fs =>
        AgreeOn.foldl_remove_left _ (fun f _ => not_not_intro (region_fieldKey f)) h₀
      split_ifs <;> (try split)
      all_goals first
        | exact ((h₁ _).remove_outside region_key).remove_outside region_expireKey
        | exact (h₁ _).remove_outside region_key
        | exact (h₀.remove_outside region_key).remove_outside region_expireKey
        | exact h₀.remove_outside region_key
  · simp only [RedisWrapper.delKey, hst.get region_key]
    cases t.get key with
    | none =>
      dsimp only
      rw [hst.get region_expireKey]
      split_ifs
      · exact ⟨rfl, hst.remove _⟩
      · exact ⟨rfl, hst⟩
    | some v =>
      dsimp only
      have hv : ∀ {s t : KVStore}, AgreeOn (Region rc key) s t →
          (s.get (getExplireKey rc key)).isSome = (t.get (getExplireKey rc key)).isSome ∧
            AgreeOn (Region rc key) (if (s.get (getExplireKey rc key)).isSome then
              s.remove (getExplireKey rc key) else s) (if (t.get (getExplireKey rc key)).isSome then
              t.remove (getExplireKey rc key) else t) := fun h => by
        rw [h.get region_expireKey]
        exact ⟨rfl, by split_ifs; exacts [h.remove _, h]⟩
      by_cases hh : isValueHash rc v = true
      · rw [if_pos hh, if_pos hh]
        cases getFiledsFromHashValue rc (some v) with
        | error e => exact ⟨rfl, (hv (hst.remove key)).2⟩
        | ok fs => exact ⟨rfl, (hv ((hst.foldl_remove (getHashFiledKey rc key) fs).remove key)).2⟩
      · rw [if_neg hh, if_neg hh]
        exact ⟨rfl, (hv (hst.remove key)).2⟩

theorem confined_redisDel (args : List String) :
    Confined (fun y => ∃ k ∈ args.drop 1, Region rc k y) fun s => redisDel rc s args :=
  (Confined.foldl _ (fun n k hk => (confined_delKey n k).mono fun _ hy => ⟨k, hk, hy⟩) 0).map
    fun n => intReply n

/-! What the reading commands reply depends only on their key's region. -/

theorem hgetReply_congr (f : String) {s t : KVStore} (hst : AgreeOn (Region rc k) s t) :
    hgetReply rc k f s = hgetReply rc k f t := by
  simp only [hgetReply, hst.get (region_fieldKey f)]

theorem hkeysReply_congr {s t : KVStore} (hst : AgreeOn (Region rc k) s t) :
    hkeysReply rc k s = hkeysReply rc k t := by
  simp only [hkeysReply, hst.get region_key]

theorem llenReply_congr {s t : KVStore} (hst : AgreeOn (Region rc k) s t) :
    llenReply rc k s = llenReply rc k t := by
  simp only [llenReply, hst.get region_key]

theorem lrangeReply_congr (a b : Int) {s t : KVStore} (hst : AgreeOn (Region rc k) s t) :
    lrangeReply rc k a b s = lrangeReply rc k a b t := by
  simp only [lrangeReply, hst.get region_key]

theorem scoreScan_congr {s t : KVStore} (hst : AgreeOn (Region rc k) s t) :
    scoreScan rc s k = scoreScan rc t k :=
  hst.itersMonotonyPredicate fun _ => region_of_scorePrefix

theorem zrangeReply_congr (a b : Int) {s t : KVStore} (hst : AgreeOn (Region rc k) s t) :
    zrangeReply rc k a b s = zrangeReply rc k a b t := by
  simp only [zrangeReply, scoreScan_congr hst]

theorem zcardReply_congr {s t : KVStore} (hst : AgreeOn (Region rc k) s t) :
    zcardReply rc k s = zcardReply rc k t := by
  simp only [zcardReply, scoreScan_congr hst]

theorem zscoreReply_congr (m : String) {s t : KVStore} (hst : AgreeOn (Region rc k) s t) :
    zscoreReply rc k m s = zscoreReply rc k m t := by
  simp only [zscoreReply, hst.get (region_zsetKeyElem m)]

theorem zrankReply_congr (m : String) {s t : KVStore} (hst : AgreeOn (Region rc k) s t) :
    zrankReply rc k m s = zrankReply rc k m t := by
  simp only [zrankReply, hst.get (region_zsetKeyElem m),
    hst.itersMonotonyPredicate fun _ => region_of_prefixPredicate]

end Functions

/-! ## Commands -/

theorem confined_guarded_reader {key : String} {clean : KVStore → Except StoullError KVStore}
    {r : Except StoullError String} (reply : KVStore → Except StoullError String)
    (hclean : Confined (Region rc key) (cleanStep clean))
    (hreply : ∀ {s t}, AgreeOn (Region rc key) s t → reply s = reply t) :
    (guarded rc now key clean (.done r) fun s => .done (reply s)).Confined (Region rc key) :=
  confined_guarded rc now region_expireKey hclean (.done r) (fun _ => .done _)
    fun hst => congrArg Blocks.done (hreply hst)

theorem confined_guarded_writer {key : String} {clean : KVStore → Except StoullError KVStore}
    {onExpired : Blocks} {f : KVStore → Outcome} (hclean : Confined (Region rc key) (cleanStep clean))
    (hexp : onExpired.Confined (Region rc key)) (hf : Confined (Region rc key) f) :
    (guarded rc now key clean onExpired fun _ => .atomically f).Confined (Region rc key) :=
  confined_guarded rc now region_expireKey hclean hexp (fun _ => hf.atomically) fun _ => rfl

namespace Command

/-- The keys whose regions the command may read or write: its `keys`, and for `del` the keys it
deletes. -/
def touchedKeys : Command → List String
  | del args => args.drop 1
  | c => c.keys

def Touches (c : Command) (y : String) : Prop := ∃ k ∈ c.touchedKeys, Region rc k y

variable {rc}

theorem touches_of_region {c : Command} {k : String} (hk : c.touchedKeys = [k]) (y : String)
    (hy : Region rc k y) : c.Touches rc y :=
  ⟨k, hk ▸ List.mem_singleton_self k, hy⟩

variable (rc) in
/-- Every block of a command reads and writes only keys the command touches. -/
theorem confined_blocks (c : Command) : (c.blocks rc now).Confined (c.Touches rc) := by
  cases c with
  | set k v => exact ((confined_redisSet v).map Except.ok).atomically.mono (touches_of_region rfl)
  | get k => exact (confined_getBlocks now).mono (touches_of_region rfl)
  | del args => exact ((confined_redisDel args).map Except.ok).atomically
  | hset k f v =>
    exact (confined_guarded_writer rc now confined_hashCleanup (confined_hsetBody f v).atomically
      (confined_hsetBody f v)).mono (touches_of_region rfl)
  | hget k f =>
    exact (confined_guarded_reader rc now _ confined_hashCleanup
      fun hst => congrArg Except.ok (hgetReply_congr f hst)).mono (touches_of_region rfl)
  | hdel k f =>
    exact (confined_guarded_writer rc now confined_hashCleanup (.done _) (confined_hdelBody f)).mono
      (touches_of_region rfl)
  | hkeys k =>
    exact (confined_guarded_reader rc now _ confined_hashCleanup hkeysReply_congr).mono
      (touches_of_region rfl)
  | lpush k v =>
    exact (confined_guarded_writer rc now confined_listCleanup (confined_lpushBody v).atomically
      (confined_lpushBody v)).mono (touches_of_region rfl)
  | rpush k v =>
    exact (confined_guarded_writer rc now confined_listCleanup (confined_rpushBody v).atomically
      (confined_rpushBody v)).mono (touches_of_region rfl)
  | lpop k =>
    exact (confined_guarded_writer rc now confined_listCleanup (.done _) confined_lpopBody).mono
      (touches_of_region rfl)
  | rpop k =>
    exact (confined_guarded_writer rc now confined_listCleanup (.done _) confined_rpopBody).mono
      (touches_of_region rfl)
  | llen k =>
    exact (confined_guarded_reader rc now _ confined_listCleanup
      fun hst => congrArg Except.ok (llenReply_congr hst)).mono (touches_of_region rfl)
  | lrange k a b =>
    exact (confined_guarded_reader rc now _ confined_listCleanup
      fun hst => congrArg Except.ok (lrangeReply_congr a b hst)).mono (touches_of_region rfl)
  | zadd args =>
    exact (confined_guarded_writer rc now confined_zsetCleanup (confined_zaddBody args).atomically
      (confined_zaddBody args)).mono (touches_of_region rfl)
  | zrem args =>
    by_cases hl : args.length < 3
    · simp only [blocks, if_pos hl]
      exact .done _
    · simp only [blocks, if_neg hl]
      exact (confined_guarded_writer rc now confined_zsetCleanup (.done _)
        (confined_zremBody args)).mono (touches_of_region rfl)
  | zrange k a b =>
    exact (confined_guarded_reader rc now _ confined_zsetCleanup
      fun hst => congrArg Except.ok (zrangeReply_congr a b hst)).mono (touches_of_region rfl)
  | zcard k =>
    exact (confined_guarded_reader rc now _ confined_zsetCleanup
      fun hst => congrArg Except.ok (zcardReply_congr hst)).mono (touches_of_region rfl)
  | zscore k m =>
    exact (confined_guarded_reader rc now _ confined_zsetCleanup
      fun hst => congrArg Except.ok (zscoreReply_congr m hst)).mono (touches_of_region rfl)
  | zrank k m =>
    exact (confined_guarded_reader rc now _ confined_zsetCleanup
      fun hst => congrArg Except.ok (zrankReply_congr m hst)).mono (touches_of_region rfl)

end Command

/-! ## The regions of different keys are apart -/

theorem append_underscore_prefix_eq : ∀ {k k' : List Char}, '_' ∉ k → '_' ∉ k' →
    k ++ ['_'] <+: k' ++ ['_'] → k = k'
  | [], [], _, _, _ => rfl
  | [], b :: k', _, hk', h => absurd ((List.cons_prefix_cons.1 h).1 ▸ List.mem_cons_self b k') hk'
  | a :: k, [], hk, _, h => absurd ((List.cons_prefix_cons.1 h).1 ▸ List.mem_cons_self a k) hk
  | a :: k, b :: k', hk, hk', h => by
    obtain ⟨rfl, h'⟩ := List.cons_prefix_cons.1 h
    rw [append_underscore_prefix_eq (fun hm => hk (List.mem_cons_of_mem a hm))
      (fun hm => hk' (List.mem_cons_of_mem a hm)) h']

theorem eq_of_prefixes {P k k' : String} {y : List Char} (hk : '_' ∉ k.data) (hk' : '_' ∉ k'.data)
    (h : (P ++ k ++ "_").data <+: y) (h' : (P ++ k' ++ "_").data <+: y) : k = k' := by
  have key : ∀ {u v : String}, '_' ∉ u.data → '_' ∉ v.data →
      (P ++ u ++ "_").data <+: (P ++ v ++ "_").data → u = v := fun hu hv huv =>
    String.ext (append_underscore_prefix_eq hu hv ((List.prefix_append_right_inj P.data).1
      (by simpa only [String.data_append, List.append_assoc] using huv)))
  rcases List.prefix_or_prefix_of_prefix h h' with h | h
  · exact key hk hk' h
  · exact (key hk' hk h).symm

theorem underscore_mem_of_prefixed {P k y : String} (h : (P ++ k ++ "_").data <+: y.data) :
    '_' ∈ y.data := by
  obtain ⟨t, ht⟩ := h
  rw [← ht]
  simp [String.data_append]

section Apart

variable {rc} (hexpKey : ∀ k k', '_' ∉ k'.data → getExplireKey rc k ≠ k')
  (hexpField : ∀ k k' f, getExplireKey rc k ≠ getHashFiledKey rc k' f)
  (hexpZset : ∀ k y, rc.sortedSetPrefix.data <+: y.data → getExplireKey rc k ≠ y)
  (hfieldZset : ∀ y : String, rc.fieldPrefix.data <+: y.data → ¬ rc.sortedSetPrefix.data <+: y.data)

theorem eq_hashFiledKey_of_prefixed {k y : String} (h : (rc.fieldPrefix ++ k ++ "_").data <+: y.data) :
    ∃ f, y = getHashFiledKey rc k f := by
  obtain ⟨t, ht⟩ := h
  exact ⟨⟨t⟩, String.ext (by rw [← ht]; simp only [getHashFiledKey, String.data_append])⟩

theorem fieldPrefix_prefix_of_region {k y : String} (h : (rc.fieldPrefix ++ k ++ "_").data <+: y.data) :
    rc.fieldPrefix.data <+: y.data :=
  (by simp [String.data_append, List.append_assoc, List.prefix_append] :
    rc.fieldPrefix.data <+: (rc.fieldPrefix ++ k ++ "_").data).trans h

theorem sortedSetPrefix_prefix_of_region {k y : String} (h : (getZsetKeyPreffix rc k).data <+: y.data) :
    rc.sortedSetPrefix.data <+: y.data :=
  (sortedSetPrefix_prefix_keyPreffix rc k).trans h

include hexpKey hexpField hexpZset hfieldZset in
theorem region_apart {k k' : String} (hk : '_' ∉ k.data) (hk' : '_' ∉ k'.data) (hne : k ≠ k')
    {y : String} (h : Region rc k y) (h' : Region rc k' y) : False := by
  rcases h with rfl | rfl | h | h <;> rcases h' with e | e | h' | h'
  · exact hne e
  · exact hexpKey k' y hk e.symm
  · exact hk (underscore_mem_of_prefixed h')
  · exact hk (underscore_mem_of_prefixed h')
  · exact hexpKey k k' hk' e
  · exact hne (getExplireKey_inj.1 e)
  · obtain ⟨f, hf⟩ := eq_hashFiledKey_of_prefixed h'
    exact hexpField k k' f hf
  · exact hexpZset k _ (sortedSetPrefix_prefix_of_region h') rfl
  · exact hk' (by rw [← e]; exact underscore_mem_of_prefixed h)
  · obtain ⟨f, hf⟩ := eq_hashFiledKey_of_prefixed h
    exact hexpField k' k f (e.symm.trans hf)
  · exact hne (eq_of_prefixes hk hk' h h')
  · exact hfieldZset y (fieldPrefix_prefix_of_region h) (sortedSetPrefix_prefix_of_region h')
  · exact hk' (by rw [← e]; exact underscore_mem_of_prefixed h)
  · exact hexpZset k' y (sortedSetPrefix_prefix_of_region h) e.symm
  · exact hfieldZset y (fieldPrefix_prefix_of_region h') (sortedSetPrefix_prefix_of_region h)
  · exact hne (eq_of_prefixes hk hk' h h')

namespace Command

include hexpKey hexpField hexpZset hfieldZset in
theorem touches_apart {c c' : Command} (hc : ∀ k ∈ c.touchedKeys, '_' ∉ k.data)
    (hc' : ∀ k ∈ c'.touchedKeys, '_' ∉ k.data) (hne : ∀ k ∈ c.touchedKeys, k ∉ c'.touchedKeys)
    {y : String} (h : c.Touches rc y) (h' : c'.Touches rc y) : False := by
  obtain ⟨k, hk, hy⟩ := h
  obtain ⟨k', hk', hy'⟩ := h'
  exact region_apart hexpKey hexpField hexpZset hfieldZset (hc k hk) (hc' k' hk')
    (fun e => hne k hk (e ▸ hk')) hy hy'

end Command

end Apart

/-! ## Clients on different keys interleave as if one after another -/

section Interleaving

variable {rc now}

variable (rc) in
/-- No client still running touches `y`. -/
def Settled (cmds : List Command) (ts : List Blocks) (y : String) : Prop :=
  ∀ (i : Nat) (c : Command) (next : KVStore → Blocks) (write : KVStore → KVStore),
    cmds[i]? = some c → ts[i]? = some (.block next write) → ¬ c.Touches rc y

theorem Settled.of_set {cmds : List Command} {ts : List Blocks} {i : Nat} {c : Command} {t : Blocks}
    {y : String} (hc : cmds[i]? = some c) (hT : ¬ c.Touches rc y) (hy : Settled rc cmds (ts.set i t) y) :
    Settled rc cmds ts y := by
  intro j c' n w hc' hts'
  by_cases hj : j = i
  · subst hj
    rw [hc] at hc'
    cases hc'
    exact hT
  · exact hy j c' n w hc' (by rwa [List.getElem?_set_ne (Ne.symm hj)])

variable (rc now) in
/-- What a run of `interleave` from `s₀` keeps when the clients touch different keys: each client
is where its own blocks alone would have brought it, on a store that agrees with theirs on the keys
it touches; the history is the serial run's in completion order; a client still running has not
completed, and the serial store still agrees with `s₀` on its keys; and on every key no running
client touches, the store is the serial store. -/
structure SeparateRun (cmds : List Command) (s₀ : KVStore) (ts : List Blocks) (s : KVStore)
    (hist : List (Nat × Except StoullError String)) : Prop where
  length : ts.length = cmds.length
  serial : (serially rc now cmds (hist.map Prod.fst) s₀).1 = hist
  nodup : (hist.map Prod.fst).Nodup
  solo : ∀ (i : Nat) (c : Command) (b : Blocks), cmds[i]? = some c → ts[i]? = some b →
    ∃ ℓ, (c.blocks rc now).Reaches s₀ b ℓ ∧ AgreeOn (c.Touches rc) s ℓ
  pending : ∀ (i : Nat) (c : Command) (next : KVStore → Blocks) (write : KVStore → KVStore),
    cmds[i]? = some c → ts[i]? = some (.block next write) →
    i ∉ hist.map Prod.fst ∧ AgreeOn (c.Touches rc) (serially rc now cmds (hist.map Prod.fst) s₀).2 s₀
  agree : AgreeOn (Settled rc cmds ts) (serially rc now cmds (hist.map Prod.fst) s₀).2 s

variable (rc now) in
theorem SeparateRun.init (cmds : List Command) (s₀ : KVStore) :
    SeparateRun rc now cmds s₀ (cmds.map (Command.blocks rc now)) s₀ [] := by
  refine ⟨List.length_map _ _, rfl, List.nodup_nil, fun i c b hc hb => ?_,
    fun _ _ _ _ _ _ => ⟨List.not_mem_nil _, AgreeOn.refl _ _⟩, AgreeOn.refl _ _⟩
  rw [List.getElem?_map, hc, Option.map_some'] at hb
  cases hb
  exact ⟨s₀, .refl, AgreeOn.refl _ _⟩

variable {cmds : List Command} {s₀ : KVStore} {ts : List Blocks} {s : KVStore}
  {hist : List (Nat × Except StoullError String)} {i : Nat} {c : Command} {next : KVStore → Blocks}
  {write : KVStore → KVStore}

theorem SeparateRun.confined_next (h : SeparateRun rc now cmds s₀ ts s hist)
    (hc : cmds[i]? = some c) (hts : ts[i]? = some (.block next write)) :
    Confined (c.Touches rc) fun s => (next s, write s) := by
  obtain ⟨ℓ, hreach, -⟩ := h.solo i _ _ hc hts
  cases hreach.confined (Command.confined_blocks rc now c) with
  | block hb _ => exact hb

variable (hapart : ∀ (i j : Nat) (c c' : Command), i ≠ j → cmds[i]? = some c → cmds[j]? = some c' →
    ∀ y, c.Touches rc y → ¬ c'.Touches rc y)

include hapart

theorem SeparateRun.solo_set (h : SeparateRun rc now cmds s₀ ts s hist) (hc : cmds[i]? = some c)
    (hts : ts[i]? = some (.block next write)) (j : Nat) (c' : Command) (b : Blocks)
    (hc' : cmds[j]? = some c') (hb : (ts.set i (next s))[j]? = some b) :
    ∃ ℓ, (c'.blocks rc now).Reaches s₀ b ℓ ∧ AgreeOn (c'.Touches rc) (write s) ℓ := by
  rcases getElem?_set_eq_some hb with ⟨rfl, rfl⟩ | ⟨hj, hb⟩
  · obtain rfl := Option.some.inj (hc.symm.trans hc')
    obtain ⟨ℓ, hreach, hsℓ⟩ := h.solo j _ _ hc hts
    obtain ⟨hn, hw⟩ := (h.confined_next hc hts).agree hsℓ
    exact ⟨write ℓ, (show next s = next ℓ from hn) ▸ hreach.tail, hw⟩
  · obtain ⟨ℓ, hreach, hsℓ⟩ := h.solo j c' b hc' hb
    exact ⟨ℓ, hreach, (((h.confined_next hc hts).frame s).mono (hapart j i c' c hj hc' hc)).trans hsℓ⟩

theorem SeparateRun.complete (h : SeparateRun rc now cmds s₀ ts s hist) (hc : cmds[i]? = some c)
    (hts : ts[i]? = some (.block next write)) {r : Except StoullError String} (hns : next s = .done r) :
    SeparateRun rc now cmds s₀ (ts.set i (.done r)) (write s) (hist ++ [(i, r)]) := by
  obtain ⟨ℓ, hreach, hsℓ⟩ := h.solo i _ _ hc hts
  obtain ⟨hnew, hσ⟩ := h.pending i _ next write hc hts
  have hb := h.confined_next hc hts
  obtain ⟨hn, hw⟩ := hb.agree hsℓ
  have hsolo₀ : (c.blocks rc now).solo s₀ = (r, write ℓ) := by
    rw [hreach.solo_eq]
    show (next ℓ).solo (write ℓ) = _
    rw [← (show next s = next ℓ from hn), hns]
    rfl
  have hconf := (Command.confined_blocks rc now c).solo
  obtain ⟨hr, hσ'⟩ := hconf.agree hσ
  rw [hsolo₀, Command.solo_blocks] at hr hσ'
  have hframeσ := hconf.frame (serially rc now cmds (hist.map Prod.fst) s₀).2
  rw [Command.solo_blocks] at hframeσ
  have horder : (hist ++ [(i, r)]).map Prod.fst = hist.map Prod.fst ++ [i] := by
    rw [List.map_append, List.map_singleton]
  refine ⟨by rw [List.length_set, h.length], ?_, ?_,
    fun j c' b hc' hb' => h.solo_set hapart hc hts j c' b hc' (by rwa [hns]), ?_, ?_⟩
  · rw [horder, serially_append rc now cmds _ hc, h.serial, hr]
  · rw [horder, List.nodup_append]
    exact ⟨h.nodup, List.nodup_singleton _, List.disjoint_singleton.2 hnew⟩
  · intro j c' next' write' hc' hts'
    obtain ⟨-, ⟨⟩⟩ | ⟨hj, hts'⟩ := getElem?_set_eq_some hts'
    obtain ⟨hj', hσj⟩ := h.pending j c' next' write' hc' hts'
    refine ⟨?_, ?_⟩
    · rw [horder, List.mem_append, List.mem_singleton, not_or]
      exact ⟨hj', hj⟩
    · rw [horder, serially_append rc now cmds _ hc]
      exact (hframeσ.mono (hapart j i c' c hj hc' hc)).trans hσj
  · intro y hy
    rw [horder, serially_append rc now cmds _ hc]
    by_cases hT : c.Touches rc y
    · exact (hσ' y hT).trans (hw y hT).symm
    · rw [hframeσ y hT, hb.frame s y hT]
      exact h.agree y (hy.of_set hc hT)

/-- One turn keeps `SeparateRun`: the client's block reads and writes only its own keys, so it
does there what it would do alone, and on the others' keys nothing changes. -/
theorem SeparateRun.step (h : SeparateRun rc now cmds s₀ ts s hist) (i : Nat) :
    SeparateRun rc now cmds s₀ (interleave [i] ts s hist).1 (interleave [i] ts s hist).2.1
      (interleave [i] ts s hist).2.2 := by
  cases hts : ts[i]? with
  | none => simpa only [interleave, hts] using h
  | some t =>
    cases t with
    | done r => simpa only [interleave, hts] using h
    | block next write =>
      obtain ⟨hi, -⟩ := List.getElem?_eq_some_iff.1 hts
      obtain ⟨c, hc⟩ : ∃ c, cmds[i]? = some c := ⟨_, List.getElem?_eq_getElem (h.length ▸ hi)⟩
      have hsolo := h.solo_set hapart hc hts
      simp only [interleave, hts]
      cases hns : next s with
      | done r => exact h.complete hapart hc hts hns
      | block next' write' =>
        -- the command goes on: the history and the serial run stay as they were
        rw [hns] at hsolo
        refine ⟨by rw [List.length_set, h.length], h.serial, h.nodup, hsolo, ?_, ?_⟩
        · intro j c' n w hc' hts'
          rcases getElem?_set_eq_some hts' with ⟨rfl, -⟩ | ⟨-, hts'⟩
          · obtain rfl := Option.some.inj (hc.symm.trans hc')
            exact h.pending j _ next write hc hts
          · exact h.pending j c' n w hc' hts'
        · intro y hy
          have hT : ¬ c.Touches rc y := hy i _ next' write' hc (List.getElem?_set_self hi)
          rw [(h.confined_next hc hts).frame s y hT]
          exact h.agree y (hy.of_set hc hT)

theorem SeparateRun.interleave : ∀ (sched : List Nat) {ts : List Blocks} {s : KVStore}
    {hist : List (Nat × Except StoullError String)}, SeparateRun rc now cmds s₀ ts s hist →
    SeparateRun rc now cmds s₀ (interleave sched ts s hist).1 (interleave sched ts s hist).2.1
      (interleave sched ts s hist).2.2
  | [], _, _, _, h => h
  | i :: sched, _, _, _, h => by
    rw [interleave_cons]
    exact SeparateRun.interleave sched (h.step hapart i)

end Interleaving

theorem sampleConsts_fieldPrefix_apart (y : String) (h : sampleConsts.fieldPrefix.data <+: y.data) :
    ¬ sampleConsts.sortedSetPrefix.data <+: y.data := fun h' => by
  rcases List.prefix_or_prefix_of_prefix h h' with h | h <;> exact absurd h (by decide)

section Theorem

variable {rc now} (hexpKey : ∀ k k', '_' ∉ k'.data → getExplireKey rc k ≠ k')
  (hexpField : ∀ k k' f, getExplireKey rc k ≠ getHashFiledKey rc k' f)
  (hexpZset : ∀ k y, rc.sortedSetPrefix.data <+: y.data → getExplireKey rc k ≠ y)
  (hfieldZset : ∀ y : String, rc.fieldPrefix.data <+: y.data → ¬ rc.sortedSetPrefix.data <+: y.data)
  {cmds : List Command} (hplain : ∀ c ∈ cmds, ∀ k ∈ c.touchedKeys, '_' ∉ k.data)
  (hsep : cmds.Pairwise fun c c' => ∀ k ∈ c.touchedKeys, k ∉ c'.touchedKeys)

include hexpKey hexpField hexpZset hfieldZset hplain hsep

theorem touches_apart_of_pairwise (i j : Nat) (c c' : Command) (hij : i ≠ j) (hi : cmds[i]? = some c)
    (hj : cmds[j]? = some c') (y : String) (h : c.Touches rc y) : ¬ c'.Touches rc y := fun h' => by
  obtain ⟨hi', rfl⟩ := List.getElem?_eq_some_iff.1 hi
  obtain ⟨hj', rfl⟩ := List.getElem?_eq_some_iff.1 hj
  have hsep' := List.pairwise_iff_getElem.1 hsep
  have hci := hplain _ (List.getElem_mem hi')
  have hcj := hplain _ (List.getElem_mem hj')
  rcases Nat.lt_or_gt_of_ne hij with hlt | hlt
  · exact Command.touches_apart hexpKey hexpField hexpZset hfieldZset hci hcj
      (hsep' i j hi' hj' hlt) h h'
  · exact Command.touches_apart hexpKey hexpField hexpZset hfieldZset hcj hci
      (hsep' j i hj' hi' hlt) h' h

/-- Clients whose commands name different keys, none holding a `_`, never meet in the store.
Whatever the clock says, expire cleanups included, at every point of every schedule the commands
that have completed have replied as running them one after another in the order they completed
does, no client has completed twice, and on every key that no running client touches the store is
the one that serial run leaves. -/
theorem separate_keys_interleaving_is_serial (s₀ : KVStore) (sched : List Nat) :
    let r := interleave sched (cmds.map (Command.blocks rc now)) s₀ []
    (serially rc now cmds (r.2.2.map Prod.fst) s₀).1 = r.2.2 ∧ (r.2.2.map Prod.fst).Nodup ∧
      ∀ y, Settled rc cmds r.1 y →
        (serially rc now cmds (r.2.2.map Prod.fst) s₀).2.get y = r.2.1.get y := by
  have h := (SeparateRun.init rc now cmds s₀).interleave
    (touches_apart_of_pairwise hexpKey hexpField hexpZset hfieldZset hplain hsep) sched
  exact ⟨h.serial, h.nodup, fun y hy => h.agree.get hy⟩

end Theorem

theorem separate_keys_interleaving_is_serial_expiredHash :
    let cmds := [Command.hset "k" "f" "1", .lpush "b" "x", .get "c"]
    (∀ c ∈ cmds, ∀ k ∈ c.touchedKeys, '_' ∉ k.data) ∧
      cmds.Pairwise (fun c c' => ∀ k ∈ c.touchedKeys, k ∉ c'.touchedKeys) ∧
      let r := interleave [0, 1, 2, 0, 1, 0] (cmds.map (Command.blocks sampleConsts 10)) expiredHash []
      (serially sampleConsts 10 cmds (r.2.2.map Prod.fst) expiredHash).1 = r.2.2 ∧
        (r.2.2.map Prod.fst).Nodup ∧
        ∀ y, Settled sampleConsts cmds r.1 y →
          (serially sampleConsts 10 cmds (r.2.2.map Prod.fst) expiredHash).2.get y = r.2.1.get y :=
  ⟨by decide, by decide, separate_keys_interleaving_is_serial sampleConsts_expireKey_ne_key
    sampleConsts_expireKey_ne_fieldKey sampleConsts_expireKey_ne_zsetKey sampleConsts_fieldPrefix_apart
    (by decide) (by decide) _ _⟩

end RedisWrapper

end LsmTree
