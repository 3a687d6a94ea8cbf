import LsmTree.Redis.Hash
set_option autoImplicit false

/-!
Strings. A string is stored under its key, and its expire time, a second since the epoch in
decimal, under `getExplireKey key`. Only `redis_get` removes a string whose expire time has
passed, when it reads it; `redis_ttl` only reads. Each command reads the clock once, at the
second `now`.

Against strings whose value vanishes the moment its expire time passes, the commands give the
same replies, exceptions included, on every session whose clock does not go back, as long as
`expire` and `ttl` name a live key, `incr`, `decr` and `del` no key whose expire time has passed,
and counters stay inside `long long`.
-/

namespace LsmTree

namespace RedisWrapper

variable (rc : RedisConsts)

/-- `get_expire_time`: the second `now` plus the seconds, in `long long`, in decimal. -/
def getExpireTime (now : Int) (secondsCount : String) : Except StoullError String :=
  (stoll secondsCount).map fun timeAdd => toString (toLongLong (now + timeAdd))

/-- `redis_set`: the value, and no expire time. -/
def redisSet (s : KVStore) (key value : String) : String × KVStore :=
  let s := s.put key value
  let expireKey := getExplireKey rc key
  let s := if (s.get expireKey).isSome then s.remove expireKey else s
  ("+OK\r\n", s)

/-- `redis_get`: a value whose expire time has passed is removed with its expire key, and an
expire key with no value is removed. -/
def redisGet (now : Int) (s : KVStore) (key : String) : Outcome :=
  let expireKey := getExplireKey rc key
  match s.get key, s.get expireKey with
  | some v, some e =>
    match isExpired now (some e) with
    | .ok true => (.ok nilReply, (s.remove key).remove expireKey)
    | .ok false => (.ok (bulkReply v), s)
    | .error err => (.error err, s)
  | some v, none => (.ok (bulkReply v), s)
  | none, some _ => (.ok nilReply, s.remove expireKey)
  | none, none => (.ok nilReply, s)

/-- `redis_incr` and `redis_decr`: an absent key is set to `initial`; a present value is read with
`std::stoll`, moved by `delta` in `long long` and written back. The reply is the new value. -/
def addToValue (delta : Int) (initial : String) (s : KVStore) (key : String) : Outcome :=
  match s.get key with
  | none => (.ok initial, s.put key initial)
  | some originalVale =>
    match stoll originalVale with
    | .ok n =>
      let newValue := toString (toLongLong (n + delta))
      (.ok newValue, s.put key newValue)
    | .error e => (.error e, s)

def redisIncr : KVStore → String → Outcome := addToValue 1 "1"

def redisDecr : KVStore → String → Outcome := addToValue (-1) "-1"

/-- `redis_expire`: the expire time is stored whether the key holds a value or not. -/
def redisExpire (now : Int) (s : KVStore) (key secondsCount : String) : Outcome :=
  match getExpireTime now secondsCount with
  | .ok expireTimeStr => (.ok ":1\r\n", s.put (getExplireKey rc key) expireTimeStr)
  | .error e => (.error e, s)

/-- `redis_ttl`: `-1` for a key with no value or no expire time, `-2` once the time has passed. -/
def redisTtl (now : Int) (s : KVStore) (key : String) : Outcome :=
  match s.get key with
  | none => (.ok ":-1\r\n", s)
  | some _ =>
    match s.get (getExplireKey rc key) with
    | none => (.ok ":-1\r\n", s)
    | some e =>
      match isExpired now (some e) with
      | .ok true => (.ok ":-2\r\n", s)
      | .ok false => ((stoll e).map fun t => intReply (toLongLong (t - now)), s)
      | .error err => (.error err, s)

/-! ## Strings as maps -/

/-- Strings as the commands mean them: each key's value and the second its expire time names. -/
structure Strings where
  entry : String → Option (String × Option Int)

namespace Strings

def empty : Strings := ⟨fun _ => none⟩

def update (S : Strings) (key : String) (e : Option (String × Option Int)) : Strings :=
  ⟨Function.update S.entry key e⟩

/-- The value a reader sees at second `now`: none once the expire time has passed. -/
def alive (S : Strings) (now : Int) (key : String) : Option String :=
  match S.entry key with
  | some (v, some d) => if d < now then none else some v
  | some (v, none) => some v
  | none => none

def deadline (S : Strings) (key : String) : Option Int := (S.entry key).bind Prod.snd

def Dead (S : Strings) (now : Int) (key : String) : Prop := S.alive now key = none ∧ S.entry key ≠ none

instance (S : Strings) (now : Int) (key : String) : Decidable (S.Dead now key) :=
  inferInstanceAs (Decidable (_ ∧ _))

theorem entry_eq_none {S : Strings} {now : Int} {key : String} (hnd : ¬S.Dead now key)
    (hv : S.alive now key = none) : S.entry key = none :=
  not_not.1 fun hne => hnd ⟨hv, hne⟩

/-- `incr` and `decr`: a live value moves by `delta` and keeps its expire time; otherwise the key
starts at `initial`. -/
def add (S : Strings) (now delta : Int) (initial : String) (key : String) :
    Except StoullError String × Strings :=
  match S.alive now key with
  | none => (.ok initial, S.update key (some (initial, none)))
  | some v =>
    match stoll v with
    | .ok n => (.ok (toString (n + delta)), S.update key (some (toString (n + delta), S.deadline key)))
    | .error e => (.error e, S)

/-- The reply of `ttl`: the seconds left, `-1` for a live key with no expire time, and `-2` for a
key that does not exist. -/
def ttlReply (S : Strings) (now : Int) (key : String) : String :=
  match S.alive now key, S.deadline key with
  | some _, some d => intReply (d - now)
  | some _, none => ":-1\r\n"
  | none, _ => ":-2\r\n"

@[simp] theorem update_entry_self (S : Strings) (k : String) (e : Option (String × Option Int)) :
    (S.update k e).entry k = e := by
  simp [update]

@[simp] theorem update_entry (S : Strings) (k : String) (e : Option (String × Option Int))
    (k' : String) : (S.update k e).entry k' = if k' = k then e else S.entry k' := by
  by_cases h : k' = k
  · subst h; simp [update]
  · simp [update, h]

end Strings

def getReply : Option String → String
  | some v => bulkReply v
  | none => nilReply

/-- The string commands of a session. -/
inductive StrCmd where
  | set (key value : String)
  | get (key : String)
  | incr (key : String)
  | decr (key : String)
  | expire (key secondsCount : String)
  | ttl (key : String)
  | del (key : String)
  deriving DecidableEq

namespace StrCmd

def key : StrCmd → String
  | set k _ | get k | incr k | decr k | expire k _ | ttl k | del k => k

/-- The wrapper's reply and state at the second `now`; `del` gets its key after the command
name. -/
def run (now : Int) (s : KVStore) : StrCmd → Outcome
  | set k v => (.ok (redisSet rc s k v).1, (redisSet rc s k v).2)
  | get k => redisGet rc now s k
  | incr k => redisIncr s k
  | decr k => redisDecr s k
  | expire k secs => redisExpire rc now s k secs
  | ttl k => redisTtl rc now s k
  | del k => (.ok (redisDel rc s ["DEL", k]).1, (redisDel rc s ["DEL", k]).2)

/-- The reply and the strings the command means at second `now`. -/
def model (now : Int) (S : Strings) : StrCmd → Except StoullError String × Strings
  | set k v => (.ok "+OK\r\n", S.update k (some (v, none)))
  | get k => (.ok (getReply (S.alive now k)), S)
  | incr k => S.add now 1 "1" k
  | decr k => S.add now (-1) "-1" k
  | expire k secs =>
    match S.alive now k with
    | some v =>
      match stoll secs with
      | .ok t => (.ok ":1\r\n", S.update k (some (v, some (now + t))))
      | .error e => (.error e, S)
    | none => (.ok ":0\r\n", S)
  | ttl k => (.ok (S.ttlReply now k), S)
  | del k => (.ok (intReply (if (S.alive now k).isSome then 1 else 0)), S.update k none)

/-- The expire time `expire` stores lies inside `long long`, where it is read. -/
def fitsExpire (now : Int) (secondsCount : String) : Bool :=
  match stoll secondsCount with
  | .ok t => decide (-2 ^ 63 ≤ now + t ∧ now + t < 2 ^ 63)
  | .error _ => true

/-- The counter `incr` or `decr` writes stays inside `long long`. -/
def fitsCounter (now : Int) (S : Strings) (delta : Int) (k : String) : Bool :=
  match S.alive now k with
  | some v =>
    match stoll v with
    | .ok n => decide (-2 ^ 63 ≤ n + delta ∧ n + delta < 2 ^ 63)
    | .error _ => true
  | none => true

/-- What a command needs of the strings for the wrapper to mean it: a value that is not the
store's tombstone, a live key for `expire` and `ttl` with an expire time inside `long long`, and
no expired key for `incr`, `decr` and `del`, whose counters stay inside `long long`. -/
def Safe (now : Int) (S : Strings) : StrCmd → Prop
  | set _ v => v ≠ ""
  | get _ => True
  | incr k => ¬S.Dead now k ∧ fitsCounter now S 1 k
  | decr k => ¬S.Dead now k ∧ fitsCounter now S (-1) k
  | del k => ¬S.Dead now k
  | expire k secs => (S.alive now k).isSome ∧ fitsExpire now secs
  | ttl k => (S.alive now k).isSome

instance (now : Int) (S : Strings) : DecidablePred (Safe now S) := fun
  | set _ v => inferInstanceAs (Decidable (v ≠ ""))
  | get _ => inferInstanceAs (Decidable True)
  | incr k => inferInstanceAs (Decidable (¬S.Dead now k ∧ fitsCounter now S 1 k))
  | decr k => inferInstanceAs (Decidable (¬S.Dead now k ∧ fitsCounter now S (-1) k))
  | del k => inferInstanceAs (Decidable ¬S.Dead now k)
  | expire k secs => inferInstanceAs (Decidable ((S.alive now k).isSome ∧ fitsExpire now secs))
  | ttl k => inferInstanceAs (Decidable ((S.alive now k).isSome = true))

end StrCmd

/-- The wrapper's replies to a session of commands, each at its second. -/
def runAll (s : KVStore) : List (Int × StrCmd) → List (Except StoullError String) × KVStore
  | [] => ([], s)
  | (now, c) :: rest =>
    let r := c.run rc now s
    ((r.1 :: (runAll r.2 rest).1), (runAll r.2 rest).2)

def modelAll (S : Strings) : List (Int × StrCmd) → List (Except StoullError String) × Strings
  | [] => ([], S)
  | (now, c) :: rest =>
    let r := c.model now S
    ((r.1 :: (modelAll r.2 rest).1), (modelAll r.2 rest).2)

/-- A session whose clock does not go back from `t`, on keys without `_`, each command safe on
the strings the session has made so far. -/
def SafeRun (t : Int) (S : Strings) : List (Int × StrCmd) → Prop
  | [] => True
  | (now, c) :: rest => t ≤ now ∧ '_' ∉ c.key.data ∧ c.Safe now S ∧ SafeRun now (c.model now S).2 rest

instance instDecidableSafeRun : ∀ (t : Int) (S : Strings) (cmds : List (Int × StrCmd)),
    Decidable (SafeRun t S cmds)
  | _, _, [] => isTrue trivial
  | _, S, (now, c) :: rest =>
    have : Decidable (SafeRun now (c.model now S).2 rest) := instDecidableSafeRun now _ rest
    inferInstanceAs (Decidable (_ ∧ _ ∧ _ ∧ _))

/-! ## The simulation -/

/-- The store holds the entry `e` of key `k` at second `now`: the value under `k`, and the expire
time, in decimal, under the expire key. A value whose expire time has passed may be gone, with its
expire key. -/
def KeyHolds (now : Int) (s : KVStore) (k : String) : Option (String × Option Int) → Prop
  | none => s.get k = none ∧ s.get (getExplireKey rc k) = none
  | some (v, none) => s.get k = some v ∧ s.get (getExplireKey rc k) = none
  | some (v, some d) => -2 ^ 63 ≤ d ∧ d < 2 ^ 63 ∧
    (s.get k = some v ∧ s.get (getExplireKey rc k) = some (toString d) ∨
      d < now ∧ s.get k = none ∧ s.get (getExplireKey rc k) = none)

/-- The store holds the strings `S` at second `now` on every key without `_`. -/
def HoldsStrings (now : Int) (s : KVStore) (S : Strings) : Prop :=
  ∀ k, '_' ∉ k.data → KeyHolds rc now s k (S.entry k)

/-- Two results that agree: the same reply or exception, and states `R` relates. -/
def Sim {α σ τ : Type} (R : σ → τ → Prop) (x : α × σ) (y : α × τ) : Prop := x.1 = y.1 ∧ R x.2 y.2

theorem holdsStrings_empty (rc : RedisConsts) (now : Int) :
    HoldsStrings rc now KVStore.empty Strings.empty :=
  fun _ _ => ⟨rfl, rfl⟩

section Simulation

variable {rc} {now : Int} {s : KVStore} {S : Strings}

theorem KeyHolds.congr {k : String} {s' : KVStore} {e : Option (String × Option Int)}
    (h₁ : s'.get k = s.get k) (h₂ : s'.get (getExplireKey rc k) = s.get (getExplireKey rc k))
    (h : KeyHolds rc now s k e) : KeyHolds rc now s' k e := by
  rcases e with _ | ⟨v, _ | d⟩ <;> simpa only [KeyHolds, h₁, h₂] using h

theorem KeyHolds.mono {k : String} {e : Option (String × Option Int)} {now' : Int}
    (hle : now ≤ now') (h : KeyHolds rc now s k e) : KeyHolds rc now' s k e := by
  rcases e with _ | ⟨v, _ | d⟩
  · exact h
  · exact h
  · obtain ⟨h₁, h₂, h₃ | ⟨hd, h₄⟩⟩ := h
    · exact ⟨h₁, h₂, .inl h₃⟩
    · exact ⟨h₁, h₂, .inr ⟨lt_of_lt_of_le hd hle, h₄⟩⟩

theorem HoldsStrings.mono {now' : Int} (hle : now ≤ now') (h : HoldsStrings rc now s S) :
    HoldsStrings rc now' s S :=
  fun k hk => (h k hk).mono hle

theorem KeyHolds.of_alive {k v : String} (h : KeyHolds rc now s k (S.entry k))
    (hv : S.alive now k = some v) :
    s.get k = some v ∧ s.get (getExplireKey rc k) = (S.deadline k).map toString ∧
      ∀ d, S.deadline k = some d → ¬d < now ∧ -2 ^ 63 ≤ d ∧ d < 2 ^ 63 := by
  rcases hS : S.entry k with _ | ⟨v', _ | d⟩ <;>
    simp only [Strings.alive, Strings.deadline, hS, KeyHolds, Option.bind] at h hv ⊢
  · cases hv
  · cases hv
    exact ⟨h.1, h.2, fun _ hd => Option.noConfusion hd⟩
  · split_ifs at hv with hd
    cases hv
    obtain ⟨hd₁, hd₂, ⟨h₁, h₂⟩ | ⟨hd', -⟩⟩ := h
    · exact ⟨h₁, h₂ ▸ rfl, fun d' e => Option.some.inj e ▸ ⟨hd, hd₁, hd₂⟩⟩
    · exact absurd hd' hd

theorem KeyHolds.get_of_alive {k v : String} (h : KeyHolds rc now s k (S.entry k))
    (hv : S.alive now k = some v) : s.get k = some v :=
  (h.of_alive hv).1

theorem KeyHolds.isSome_get {k : String} (h : KeyHolds rc now s k (S.entry k))
    (hnd : ¬S.Dead now k) : (s.get k).isSome = (S.alive now k).isSome := by
  cases hv : S.alive now k with
  | some v => rw [h.get_of_alive hv]
  | none => rw [Strings.entry_eq_none hnd hv] at h; rw [h.1]

variable (hexpField : ∀ k k' f, getExplireKey rc k ≠ getHashFiledKey rc k' f)
  (hexpKey : ∀ k k', '_' ∉ k'.data → getExplireKey rc k ≠ k')

include hexpField hexpKey in
theorem HoldsStrings.update (h : HoldsStrings rc now s S) {k : String} (hk : '_' ∉ k.data)
    {s' : KVStore} {S' : Strings}
    (hout : ∀ x, x ≠ k → x ≠ getExplireKey rc k → (∀ f, x ≠ getHashFiledKey rc k f) →
      s'.get x = s.get x)
    (hother : ∀ k', k' ≠ k → S'.entry k' = S.entry k')
    (hkey : KeyHolds rc now s' k (S'.entry k)) : HoldsStrings rc now s' S' := by
  intro k' hk'
  by_cases hkk : k' = k
  · exact hkk ▸ hkey
  · rw [hother k' hkk]
    exact (h k' hk').congr (hout k' hkk (hexpKey k k' hk').symm (ne_getHashFiledKey rc hk' k))
      (hout _ (hexpKey k' k hk) (mt getExplireKey_inj.1 hkk) (hexpField k' k))

theorem get_redisSet (s : KVStore) (k v x : String) : (redisSet rc s k v).2.get x =
    if x = getExplireKey rc k then none else (s.put k v).get x := by
  simp only [redisSet]
  split_ifs with h₁ h₂ h₂
  · rw [h₂, KVStore.get_remove, if_pos rfl]
  · rw [KVStore.get_remove, if_neg (Ne.symm h₂)]
  · rw [h₂]; simpa using h₁
  · rfl

include hexpField hexpKey in
theorem HoldsStrings.set (h : HoldsStrings rc now s S) {k v : String} (hk : '_' ∉ k.data)
    (hv : v ≠ "") : HoldsStrings rc now (redisSet rc s k v).2 (S.update k (some (v, none))) := by
  refine h.update hexpField hexpKey hk (fun x hx hxe _ => ?_) (fun k' hk' => by simp [hk']) ?_
  · rw [get_redisSet, if_neg hxe, KVStore.get_put, if_neg (Ne.symm hx)]
  · rw [Strings.update_entry_self]
    refine ⟨?_, by rw [get_redisSet, if_pos rfl]⟩
    rw [get_redisSet, if_neg (hexpKey k k hk).symm, KVStore.get_put, if_pos rfl, liveValue_of_ne hv]

include hexpField hexpKey in
theorem HoldsStrings.get (h : HoldsStrings rc now s S) {k : String} (hk : '_' ∉ k.data) :
    Sim (HoldsStrings rc now) (redisGet rc now s k) (.ok (getReply (S.alive now k)), S) := by
  have hkh := h k hk
  rcases hS : S.entry k with _ | ⟨v, _ | d⟩ <;> simp only [KeyHolds, hS] at hkh
  · simp only [redisGet, hkh.1, hkh.2, Strings.alive, hS]
    exact ⟨rfl, h⟩
  · simp only [redisGet, hkh.1, hkh.2, Strings.alive, hS]
    exact ⟨rfl, h⟩
  obtain ⟨hd₁, hd₂, ⟨h₁, h₂⟩ | ⟨hlt, h₁, h₂⟩⟩ := hkh
  · simp only [redisGet, h₁, h₂, isExpired_toString now d hd₁ hd₂, Strings.alive, hS]
    by_cases hlt : d < now
    · simp only [hlt, decide_True, ite_true]
      refine ⟨rfl, h.update hexpField hexpKey hk (fun x hx hxe _ => ?_) (fun _ _ => rfl) ?_⟩
      · rw [KVStore.get_remove, KVStore.get_remove, if_neg (Ne.symm hxe), if_neg (Ne.symm hx)]
      · rw [hS]
        refine ⟨hd₁, hd₂, .inr ⟨hlt, ?_, by rw [KVStore.get_remove, if_pos rfl]⟩⟩
        rw [KVStore.get_remove, if_neg (hexpKey k k hk), KVStore.get_remove, if_pos rfl]
    · simp only [hlt, decide_False, ite_false]
      exact ⟨rfl, h⟩
  · simp only [redisGet, h₁, h₂, Strings.alive, hS, if_pos hlt]
    exact ⟨rfl, h⟩

theorem get_put_other {s : KVStore} {k x : String} (v : String) (hx : x ≠ k) :
    (s.put k v).get x = s.get x := by
  rw [KVStore.get_put, if_neg (Ne.symm hx)]

include hexpField hexpKey in
theorem HoldsStrings.addToValue (h : HoldsStrings rc now s S) {k : String} (hk : '_' ∉ k.data)
    (hnd : ¬S.Dead now k) {delta : Int} (hfit : StrCmd.fitsCounter now S delta k) {initial : String}
    (hi : initial ≠ "") :
    Sim (HoldsStrings rc now) (addToValue delta initial s k) (S.add now delta initial k) := by
  have hkh := h k hk
  have hek : getExplireKey rc k ≠ k := hexpKey k k hk
  have hput : ∀ v, v ≠ "" → (s.put k v).get k = some v := fun v hv => by
    rw [KVStore.get_put, if_pos rfl, liveValue_of_ne hv]
  have hframe : ∀ v, ∀ x, x ≠ k → x ≠ getExplireKey rc k → (∀ f, x ≠ getHashFiledKey rc k f) →
      (s.put k v).get x = s.get x := fun v x hx _ _ => get_put_other v hx
  cases hv : S.alive now k with
  | none =>
    rw [Strings.entry_eq_none hnd hv] at hkh
    simp only [RedisWrapper.addToValue, hkh.1, Strings.add, hv]
    refine ⟨rfl, h.update hexpField hexpKey hk (hframe initial) (fun k' hk' => by simp [hk']) ?_⟩
    rw [Strings.update_entry_self]
    exact ⟨hput initial hi, by rw [get_put_other initial hek, hkh.2]⟩
  | some v =>
    obtain ⟨hget, hexp, hd⟩ := hkh.of_alive hv
    simp only [RedisWrapper.addToValue, hget, Strings.add, hv]
    simp only [StrCmd.fitsCounter, hv] at hfit
    cases hn : stoll v with
    | error e => exact ⟨rfl, h⟩
    | ok n =>
      rw [hn, decide_eq_true_eq] at hfit
      dsimp only
      rw [toLongLong_of_mem hfit.1 hfit.2]
      refine ⟨rfl, h.update hexpField hexpKey hk (hframe _) (fun k' hk' => by simp [hk']) ?_⟩
      rw [Strings.update_entry_self]
      have hnv := hput _ (toString_int_ne_empty (n + delta))
      cases hD : S.deadline k with
      | none => exact ⟨hnv, by rw [get_put_other _ hek, hexp, hD]; rfl⟩
      | some d =>
        obtain ⟨-, hd₁, hd₂⟩ := hd d hD
        exact ⟨hd₁, hd₂, .inl ⟨hnv, by rw [get_put_other _ hek, hexp, hD]; rfl⟩⟩

include hexpField hexpKey in
theorem HoldsStrings.expire (h : HoldsStrings rc now s S) {k secs : String} (hk : '_' ∉ k.data)
    (halive : (S.alive now k).isSome) (hfit : StrCmd.fitsExpire now secs) :
    Sim (HoldsStrings rc now) (redisExpire rc now s k secs) ((StrCmd.expire k secs).model now S) := by
  obtain ⟨v, hv⟩ := Option.isSome_iff_exists.1 halive
  have hget := (h k hk).get_of_alive hv
  simp only [redisExpire, getExpireTime, StrCmd.model, hv]
  simp only [StrCmd.fitsExpire] at hfit
  cases hsecs : stoll secs with
  | error e => exact ⟨rfl, h⟩
  | ok t =>
    rw [hsecs, decide_eq_true_eq] at hfit
    simp only [Except.map, toLongLong_of_mem hfit.1 hfit.2]
    refine ⟨rfl, h.update hexpField hexpKey hk (fun x _ hxe _ => get_put_other _ hxe)
      (fun k' hk' => by simp [hk']) ?_⟩
    rw [Strings.update_entry_self]
    refine ⟨hfit.1, hfit.2, .inl ⟨by rw [get_put_other _ (hexpKey k k hk).symm, hget], ?_⟩⟩
    rw [KVStore.get_put, if_pos rfl, liveValue_of_ne (toString_int_ne_empty _)]

theorem HoldsStrings.ttl (h : HoldsStrings rc now s S) {k : String} (hk : '_' ∉ k.data)
    (halive : (S.alive now k).isSome) (hnow : 0 ≤ now) :
    redisTtl rc now s k = (.ok (S.ttlReply now k), s) := by
  obtain ⟨v, hv⟩ := Option.isSome_iff_exists.1 halive
  obtain ⟨hget, hexp, hd⟩ := (h k hk).of_alive hv
  simp only [redisTtl, hget, hexp, Strings.ttlReply, hv]
  cases hD : S.deadline k with
  | none => rfl
  | some d =>
    obtain ⟨hd₀, hd₁, hd₂⟩ := hd d hD
    simp only [Option.map_some', isExpired_toString now d hd₁ hd₂, decide_eq_false hd₀,
      stoll_toString d hd₁ hd₂, Except.map, toLongLong_of_mem (by omega : -2 ^ 63 ≤ d - now)
        (by omega : d - now < 2 ^ 63)]

theorem delKey_fst (n : Nat) (s : KVStore) (k : String) :
    (delKey rc (n, s) k).1 = if (s.get k).isSome then n + 1 else n := by
  simp only [delKey]
  cases s.get k <;> rfl

theorem get_delKey_of_ne (n : Nat) (s : KVStore) {k x : String} (hx : x ≠ k)
    (hxe : x ≠ getExplireKey rc k) (hxf : ∀ f, x ≠ getHashFiledKey rc k f) :
    (delKey rc (n, s) k).2.get x = s.get x := by
  simp only [delKey]
  cases s.get k <;> dsimp only <;> split_ifs <;> (try split) <;>
    simp [KVStore.get_remove, KVStore.get_foldl_remove, Ne.symm hx, Ne.symm hxe, Ne.symm (hxf _)]

theorem get_delKey_expireKey (n : Nat) (s : KVStore) (k : String) :
    (delKey rc (n, s) k).2.get (getExplireKey rc k) = none := by
  simp only [delKey]
  cases s.get k <;> dsimp only <;> split_ifs with h <;> simp_all [KVStore.get_remove]

include hexpKey in
theorem get_delKey_key (n : Nat) (s : KVStore) {k : String} (hk : '_' ∉ k.data) :
    (delKey rc (n, s) k).2.get k = none := by
  have hek := hexpKey k k hk
  simp only [delKey]
  cases hs : s.get k <;> dsimp only <;> split_ifs <;> (try split) <;>
    simp_all [KVStore.get_remove, KVStore.get_foldl_remove, Ne.symm hek]

include hexpField hexpKey in
theorem HoldsStrings.del (h : HoldsStrings rc now s S) {k : String} (hk : '_' ∉ k.data)
    (hnd : ¬S.Dead now k) :
    (redisDel rc s ["DEL", k]).1 = intReply (if (S.alive now k).isSome then 1 else 0) ∧
      HoldsStrings rc now (redisDel rc s ["DEL", k]).2 (S.update k none) := by
  simp only [redisDel, List.drop_one, List.tail_cons, List.foldl_cons, List.foldl_nil]
  refine ⟨?_, h.update hexpField hexpKey hk (fun x hx hxe hxf => get_delKey_of_ne 0 s hx hxe hxf)
    (fun k' hk' => by simp [hk']) ?_⟩
  · rw [delKey_fst, ← (h k hk).isSome_get hnd]
    split_ifs <;> rfl
  · rw [Strings.update_entry_self]
    exact ⟨get_delKey_key hexpKey 0 s hk, get_delKey_expireKey 0 s k⟩

include hexpField hexpKey in
/-- One safe command on a key without `_`, at a second after the epoch, replies as the strings do,
and keeps the store holding them as the command changes them. -/
theorem HoldsStrings.step (h : HoldsStrings rc now s S) (hnow : 0 ≤ now) :
    ∀ {c : StrCmd}, '_' ∉ c.key.data → c.Safe now S →
      Sim (HoldsStrings rc now) (c.run rc now s) (c.model now S)
  | .set _ _, hk, hv => ⟨rfl, h.set hexpField hexpKey hk hv⟩
  | .get _, hk, _ => h.get hexpField hexpKey hk
  | .incr _, hk, ⟨hnd, hfit⟩ => h.addToValue hexpField hexpKey hk hnd hfit (by decide)
  | .decr _, hk, ⟨hnd, hfit⟩ => h.addToValue hexpField hexpKey hk hnd hfit (by decide)
  | .expire _ _, hk, ⟨halive, hfit⟩ => h.expire hexpField hexpKey hk halive hfit
  | .ttl k, hk, halive => by
    rw [StrCmd.run, StrCmd.model, h.ttl (k := k) hk halive hnow]
    exact ⟨rfl, h⟩
  | .del _, hk, hnd => by
    obtain ⟨hr, hs⟩ := h.del hexpField hexpKey hk hnd
    exact ⟨congrArg Except.ok hr, hs⟩

include hexpField hexpKey in
theorem HoldsStrings.runAll : ∀ (cmds : List (Int × StrCmd)) {t : Int} {s : KVStore} {S : Strings},
    0 ≤ t → HoldsStrings rc t s S → SafeRun t S cmds →
      Sim (fun s S => ∃ t, HoldsStrings rc t s S) (runAll rc s cmds) (modelAll S cmds)
  | [], t, _, _, _, h, _ => ⟨rfl, t, h⟩
  | (now, c) :: rest, _, s, S, ht, h, ⟨hle, hk, hsafe, hrest⟩ => by
    obtain ⟨hr, hs'⟩ := (h.mono hle).step hexpField hexpKey (le_trans ht hle) hk hsafe
    obtain ⟨ih₁, ih₂⟩ := HoldsStrings.runAll rest (le_trans ht hle) hs' hrest
    exact ⟨by simp only [RedisWrapper.runAll, modelAll, hr, ih₁], ih₂⟩

end Simulation

/-- A session of `set`, `get`, `incr`, `decr`, `expire`, `ttl` and `del` on keys without `_`,
whose clock starts after the epoch and does not go back, replies as strings whose value vanishes
the moment its expire time passes, and throws where they throw, as long as `expire` and `ttl` name
a live key, `incr`, `decr` and `del` no key whose expire time has passed, and counters stay inside
`long long`. -/
theorem string_replies_follow_strings (rc : RedisConsts)
    (hexpField : ∀ k k' f, getExplireKey rc k ≠ getHashFiledKey rc k' f)
    (hexpKey : ∀ k k', '_' ∉ k'.data → getExplireKey rc k ≠ k')
    (t : Int) (ht : 0 ≤ t) (cmds : List (Int × StrCmd)) (hsafe : SafeRun t Strings.empty cmds) :
    (runAll rc KVStore.empty cmds).1 = (modelAll Strings.empty cmds).1 :=
  ((holdsStrings_empty rc t).runAll hexpField hexpKey cmds ht hsafe).1

/-- A string with an expire time, read before and after it passes, and a counter. -/
def counterSession : List (Int × StrCmd) :=
  [(0, .set "a" "v"), (0, .expire "a" "10"), (3, .ttl "a"), (3, .incr "n"), (4, .incr "n"),
    (5, .get "a"), (12, .get "a"), (12, .del "n"), (13, .get "n")]

theorem string_replies_follow_strings_counterSession :
    (0 : Int) ≤ 0 ∧ SafeRun 0 Strings.empty counterSession ∧
      (runAll sampleConsts KVStore.empty counterSession).1 =
        (modelAll Strings.empty counterSession).1 :=
  have hsafe : SafeRun 0 Strings.empty counterSession := by decide
  ⟨le_refl 0, hsafe, string_replies_follow_strings sampleConsts sampleConsts_expireKey_ne_fieldKey
    sampleConsts_expireKey_ne_key 0 (le_refl 0) counterSession hsafe⟩

example : (modelAll Strings.empty counterSession).1 =
    [.ok "+OK\r\n", .ok ":1\r\n", .ok ":7\r\n", .ok "1", .ok "2", .ok "$1\r\nv\r\n",
      .ok "$-1\r\n", .ok ":1\r\n", .ok "$-1\r\n"] := by
  decide

/-- `expire` on a key whose expire time has passed, before a `get` has removed its value, brings
the value back: `get` replies nil before the `expire` and the old value after it. The strings
lose the value when its time passes, and `expire` on it replies `0` there. -/
theorem expire_revives_expired_value (rc : RedisConsts)
    (hexpKey : ∀ k k', '_' ∉ k'.data → getExplireKey rc k ≠ k')
    {s : KVStore} {k v secs : String} {d t now : Int} (hk : '_' ∉ k.data)
    (hv : s.get k = some v) (he : s.get (getExplireKey rc k) = some (toString d))
    (hsecs : stoll secs = .ok t) (hd : d < now) (ht : 0 ≤ t)
    (h₁ : -2 ^ 63 ≤ d) (h₂ : now + t < 2 ^ 63) :
    (redisGet rc now s k).1 = .ok nilReply ∧
      ∃ s', redisExpire rc now s k secs = (.ok ":1\r\n", s') ∧
        (redisGet rc now s' k).1 = .ok (bulkReply v) := by
  have hek := hexpKey k k hk
  have hfit : toLongLong (now + t) = now + t := toLongLong_of_mem (by omega) h₂
  refine ⟨?_, s.put (getExplireKey rc k) (toString (now + t)), by
    simp only [redisExpire, getExpireTime, hsecs, Except.map, hfit], ?_⟩
  · simp only [redisGet, hv, he, isExpired_toString now d h₁ (by omega), decide_eq_true hd]
  · have hv' : (s.put (getExplireKey rc k) (toString (now + t))).get k = some v := by
      rw [KVStore.get_put, if_neg hek, hv]
    have he' : (s.put (getExplireKey rc k) (toString (now + t))).get (getExplireKey rc k) =
        some (toString (now + t)) := by
      rw [KVStore.get_put, if_pos rfl, liveValue_of_ne (toString_int_ne_empty _)]
    simp only [redisGet, hv', he', isExpired_toString now (now + t) (by omega) h₂,
      decide_eq_false (by omega : ¬now + t < now)]

/-- The store `set a v` and then `expire a 5` leave at second 0. -/
def expiringStore : KVStore :=
  (redisSet sampleConsts KVStore.empty "a" "v").2.put (getExplireKey sampleConsts "a") "5"

example : redisExpire sampleConsts 0 (redisSet sampleConsts KVStore.empty "a" "v").2 "a" "5" =
    (.ok ":1\r\n", expiringStore) := rfl

theorem expire_revives_expired_value_expiringStore :
    (redisGet sampleConsts 10 expiringStore "a").1 = .ok nilReply ∧
      ∃ s', redisExpire sampleConsts 10 expiringStore "a" "100" = (.ok ":1\r\n", s') ∧
        (redisGet sampleConsts 10 s' "a").1 = .ok (bulkReply "v") :=
  expire_revives_expired_value sampleConsts sampleConsts_expireKey_ne_key (d := 5) (t := 100)
    (by decide) rfl rfl rfl (by decide) (by decide) (by decide) (by decide)

/-- `incr` on a key whose expire time has passed, before a `get` has removed its value, counts on
from the expired value, in `long long`, and the new value stays unreadable: `get` replies nil
before and after. The strings start such a key again at `1`. -/
theorem incr_counts_on_expired_value (rc : RedisConsts)
    (hexpKey : ∀ k k', '_' ∉ k'.data → getExplireKey rc k ≠ k')
    {s : KVStore} {k v : String} {d n now : Int} (hk : '_' ∉ k.data)
    (hv : s.get k = some v) (he : s.get (getExplireKey rc k) = some (toString d))
    (hn : stoll v = .ok n) (hd : d < now) (h₁ : -2 ^ 63 ≤ d) (h₂ : d < 2 ^ 63) :
    (redisGet rc now s k).1 = .ok nilReply ∧
      ∃ s', redisIncr s k = (.ok (toString (toLongLong (n + 1))), s') ∧
        (redisGet rc now s' k).1 = .ok nilReply := by
  have hexp : isExpired now (some (toString d)) = .ok true := by
    rw [isExpired_toString now d h₁ h₂, decide_eq_true hd]
  refine ⟨by simp only [redisGet, hv, he, hexp], s.put k (toString (toLongLong (n + 1))), by
    simp only [redisIncr, RedisWrapper.addToValue, hv, hn], ?_⟩
  have he' : (s.put k (toString (toLongLong (n + 1)))).get (getExplireKey rc k) =
      some (toString d) := by
    rw [get_put_other _ (hexpKey k k hk), he]
  simp only [redisGet, KVStore.get_put, if_pos rfl, ite_true, liveValue_of_ne (toString_int_ne_empty _),
    he', hexp]

/-- The store `set c 41` and then `expire c 5` leave at second 0. -/
def expiringCounter : KVStore :=
  (redisSet sampleConsts KVStore.empty "c" "41").2.put (getExplireKey sampleConsts "c") "5"

theorem incr_counts_on_expired_value_expiringCounter :
    (redisGet sampleConsts 10 expiringCounter "c").1 = .ok nilReply ∧
      ∃ s', redisIncr expiringCounter "c" = (.ok (toString (toLongLong (41 + 1))), s') ∧
        (redisGet sampleConsts 10 s' "c").1 = .ok nilReply :=
  incr_counts_on_expired_value sampleConsts sampleConsts_expireKey_ne_key (d := 5) (by decide)
    rfl rfl rfl (by decide) (by decide) (by decide)

end RedisWrapper

end LsmTree
