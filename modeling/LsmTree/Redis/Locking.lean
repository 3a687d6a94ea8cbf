import LsmTree.Redis.List
import LsmTree.Redis.Strings
import LsmTree.Redis.ZSet
set_option autoImplicit false

/-!
# The commands under `redis_mtx`, interleaved

No command of `RedisWrapper` holds `redis_mtx` for its whole run. A hash, list or sorted-set
command checks its key's expire time under the shared lock. When the time has passed,
`expire_*_clean` releases the shared lock and takes the exclusive one to remove the value; a
command that writes releases the shared lock and takes the exclusive one to write. `redis_get`
upgrades the same way to remove an expired value. Between a release and the next acquisition any
other client's block may run. An exception ends the command, and its lock is released as the
stack unwinds.

`Blocks` is a command in flight: the blocks it has left, each run atomically under the lock.
`interleave` runs the clients' blocks in the order a schedule names and records each command's
reply as it completes.

Run alone, every command's blocks do what the command does as one step (`Command.solo_blocks`).
While no command's key has an expire key, every interleaving is the serial run of the completed
commands in the order they completed (`interleaving_is_serial`). An expired key breaks this: a
command's cleanup can run after another client has written the key again, and removes that write
(`hset_lost_to_expired_cleanup`, `set_lost_to_expired_get`).
-/

namespace LsmTree

namespace RedisWrapper

/-- A command in flight: `done` with its reply or exception, or a block run atomically under
`redis_mtx`, which writes `write` of the store it meets and goes on as `next` of that store. -/
inductive Blocks where
  | done (reply : Except StoullError String)
  | block (next : KVStore → Blocks) (write : KVStore → KVStore)

namespace Blocks

/-- Run the blocks to the end with no other client in between. -/
def solo : Blocks → KVStore → Outcome
  | done r, s => (r, s)
  | block next write, s => solo (next s) (write s)

def atomically (f : KVStore → Outcome) : Blocks :=
  block (fun s => done (f s).1) fun s => (f s).2

@[simp] theorem solo_done (r : Except StoullError String) (s : KVStore) : (done r).solo s = (r, s) :=
  rfl

@[simp] theorem solo_atomically (f : KVStore → Outcome) (s : KVStore) :
    (atomically f).solo s = f s := rfl

end Blocks

variable (rc : RedisConsts) (now : Int)

/-! ## Every command as its blocks -/

/-- A cleanup as the exclusive lock runs it: the exception it throws, with the store as it was, or
the store it leaves. -/
def cleanStep (clean : KVStore → Except StoullError KVStore) (s : KVStore) :
    Except StoullError Unit × KVStore :=
  match clean s with
  | .ok s' => (.ok (), s')
  | .error e => (.error e, s)

/-- A hash, list or sorted-set command: a shared block reads the expire time of `key`. When it has
passed, an exclusive block runs `clean` and the command goes on as `onExpired`; else it goes on as
`onLive` of the store the check read. -/
def guarded (key : String) (clean : KVStore → Except StoullError KVStore) (onExpired : Blocks)
    (onLive : KVStore → Blocks) : Blocks :=
  .block (fun s => match isExpired now (s.get (getExplireKey rc key)) with
    | .ok true =>
      .block (fun s => match (cleanStep clean s).1 with
          | .ok () => onExpired
          | .error e => .done (.error e))
        fun s => (cleanStep clean s).2
    | .ok false => onLive s
    | .error e => .done (.error e)) id

/-- `redis_get`: one shared block reads the value and its expire key; removing an expired value,
or an expire key with no value, takes the exclusive lock in a block of its own. -/
def getBlocks (key : String) : Blocks :=
  let expireKey := getExplireKey rc key
  .block (fun s => match s.get key, s.get expireKey with
    | some v, some e =>
      match isExpired now (some e) with
      | .ok true => .block (fun _ => .done (.ok nilReply)) fun s => (s.remove key).remove expireKey
      | .ok false => .done (.ok (bulkReply v))
      | .error err => .done (.error err)
    | some v, none => .done (.ok (bulkReply v))
    | none, some _ => .block (fun _ => .done (.ok nilReply)) fun s => s.remove expireKey
    | none, none => .done (.ok nilReply)) id

/-- The commands a client sends; `del`, `zadd` and `zrem` take the whole argument vector. -/
inductive Command where
  | set (key value : String)
  | get (key : String)
  | del (args : List String)
  | hset (key field value : String)
  | hget (key field : String)
  | hdel (key field : String)
  | hkeys (key : String)
  | lpush (key value : String)
  | rpush (key value : String)
  | lpop (key : String)
  | rpop (key : String)
  | llen (key : String)
  | lrange (key : String) (start stop : Int)
  | zadd (args : List String)
  | zrem (args : List String)
  | zrange (key : String) (start stop : Int)
  | zcard (key : String)
  | zscore (key elem : String)
  | zrank (key elem : String)

namespace Command

/-- The command run as one step, as the other modules model it. -/
def atomic : Command → KVStore → Outcome
  | set k v, s => (.ok (redisSet rc s k v).1, (redisSet rc s k v).2)
  | get k, s => redisGet rc now s k
  | del args, s => (.ok (redisDel rc s args).1, (redisDel rc s args).2)
  | hset k f v, s => redisHset rc now s k f v
  | hget k f, s => redisHget rc now s k f
  | hdel k f, s => redisHdel rc now s k f
  | hkeys k, s => redisHkeys rc now s k
  | lpush k v, s => redisLpush rc now s k v
  | rpush k v, s => redisRpush rc now s k v
  | lpop k, s => redisLpop rc now s k
  | rpop k, s => redisRpop rc now s k
  | llen k, s => redisLlen rc now s k
  | lrange k a b, s => redisLrange rc now s k a b
  | zadd args, s => redisZadd rc now s args
  | zrem args, s => redisZrem rc now s args
  | zrange k a b, s => redisZrange rc now s k a b
  | zcard k, s => redisZcard rc now s k
  | zscore k m, s => redisZscore rc now s k m
  | zrank k m, s => redisZrank rc now s k m

/-- The command's blocks: a reading command replies from the block of its check, a writing one
writes in an exclusive block of its own. -/
def blocks : Command → Blocks
  | set k v => .atomically fun s => (.ok (redisSet rc s k v).1, (redisSet rc s k v).2)
  | get k => getBlocks rc now k
  | del args => .atomically fun s => (.ok (redisDel rc s args).1, (redisDel rc s args).2)
  | hset k f v => guarded rc now k (hashCleanup rc k) (.atomically (hsetBody rc k f v))
      fun _ => .atomically (hsetBody rc k f v)
  | hget k f => guarded rc now k (hashCleanup rc k) (.done (.ok nilReply))
      fun s => .done (.ok (hgetReply rc k f s))
  | hdel k f => guarded rc now k (hashCleanup rc k) (.done (.ok ":0\r\n"))
      fun _ => .atomically (hdelBody rc k f)
  | hkeys k => guarded rc now k (hashCleanup rc k) (.done (.ok "*0\r\n"))
      fun s => .done (hkeysReply rc k s)
  | lpush k v => guarded rc now k (fun s => .ok (listCleanup rc k s)) (.atomically (lpushBody rc k v))
      fun _ => .atomically (lpushBody rc k v)
  | rpush k v => guarded rc now k (fun s => .ok (listCleanup rc k s)) (.atomically (rpushBody rc k v))
      fun _ => .atomically (rpushBody rc k v)
  | lpop k => guarded rc now k (fun s => .ok (listCleanup rc k s)) (.done (.ok nilReply))
      fun _ => .atomically (lpopBody rc k)
  | rpop k => guarded rc now k (fun s => .ok (listCleanup rc k s)) (.done (.ok nilReply))
      fun _ => .atomically (rpopBody rc k)
  | llen k => guarded rc now k (fun s => .ok (listCleanup rc k s)) (.done (.ok ":0\r\n"))
      fun s => .done (.ok (llenReply rc k s))
  | lrange k a b => guarded rc now k (fun s => .ok (listCleanup rc k s)) (.done (.ok "*0\r\n"))
      fun s => .done (.ok (lrangeReply rc k a b s))
  | zadd args => guarded rc now (args.getD 1 "") (fun s => .ok (zsetCleanup rc (args.getD 1 "") s))
      (.atomically (zaddBody rc args)) fun _ => .atomically (zaddBody rc args)
  | zrem args =>
    if args.length < 3 then .done (.ok "-ERR wrong number of arguments for 'zrem' command\r\n") else
    guarded rc now (args.getD 1 "") (fun s => .ok (zsetCleanup rc (args.getD 1 "") s))
      (.done (.ok ":0\r\n")) fun _ => .atomically (zremBody rc args)
  | zrange k a b => guarded rc now k (fun s => .ok (zsetCleanup rc k s)) (.done (.ok "*0\r\n"))
      fun s => .done (.ok (zrangeReply rc k a b s))
  | zcard k => guarded rc now k (fun s => .ok (zsetCleanup rc k s)) (.done (.ok ":0\r\n"))
      fun s => .done (.ok (zcardReply rc k s))
  | zscore k m => guarded rc now k (fun s => .ok (zsetCleanup rc k s)) (.done (.ok nilReply))
      fun s => .done (.ok (zscoreReply rc k m s))
  | zrank k m => guarded rc now k (fun s => .ok (zsetCleanup rc k s)) (.done (.ok nilReply))
      fun s => .done (.ok (zrankReply rc k m s))

/-- The keys whose expire key the command reads or whose value it writes. -/
def keys : Command → List String
  | set k _ | get k | hset k _ _ | hget k _ | hdel k _ | hkeys k | lpush k _ | rpush k _ | lpop k
  | rpop k | llen k | lrange k _ _ | zrange k _ _ | zcard k | zscore k _ | zrank k _ => [k]
  | del _ => []
  | zadd args | zrem args => [args.getD 1 ""]

end Command

/-! ## Clients interleaved -/

/-- Run the clients' blocks `ts` on the store `s` in the order `sched` names the clients; a client
that has finished, or that there is not, lets its turn pass. The history `hist` lists each
command's client and reply in the order the commands complete. -/
def interleave : List Nat → List Blocks → KVStore → List (Nat × Except StoullError String) →
    List Blocks × KVStore × List (Nat × Except StoullError String)
  | [], ts, s, hist => (ts, s, hist)
  | i :: sched, ts, s, hist =>
    match ts[i]? with
    | some (.block next write) =>
      interleave sched (ts.set i (next s)) (write s) (match next s with
        | .done r => hist ++ [(i, r)]
        | .block _ _ => hist)
    | _ => interleave sched ts s hist

/-- The clients `order` names, each running its command of `cmds` as one step, one after another
from `s`: each one's client and reply, and the store they leave. -/
def serially (cmds : List Command) (order : List Nat) (s : KVStore) :
    List (Nat × Except StoullError String) × KVStore :=
  order.foldl (fun acc i => match cmds[i]? with
    | some c => (acc.1 ++ [(i, (c.atomic rc now acc.2).1)], (c.atomic rc now acc.2).2)
    | none => acc) ([], s)

theorem solo_guarded (key : String) (clean : KVStore → Except StoullError KVStore)
    (onExpired : Blocks) (onLive : KVStore → Blocks) (s : KVStore) :
    (guarded rc now key clean onExpired onLive).solo s =
      checked (expireClean rc now clean s key) (onExpired.solo ·) fun s => (onLive s).solo s := by
  simp only [guarded, Blocks.solo, id, expireClean]
  cases isExpired now (s.get (getExplireKey rc key)) with
  | error e => rfl
  | ok b =>
    cases b
    · rfl
    · simp only [Blocks.solo, cleanStep]
      cases clean s <;> rfl

namespace Command

/-- Run alone, a command's blocks do what the command does as one step. -/
theorem solo_blocks (c : Command) (s : KVStore) : (c.blocks rc now).solo s = c.atomic rc now s := by
  cases c with
  | get k =>
    simp only [blocks, getBlocks, Blocks.solo, id, atomic, redisGet]
    cases s.get k with
    | none => cases s.get (getExplireKey rc k) <;> rfl
    | some v =>
      cases s.get (getExplireKey rc k) with
      | none => rfl
      | some e =>
        dsimp only
        cases isExpired now (some e) with
        | error err => rfl
        | ok b => cases b <;> rfl
  | zrem args =>
    by_cases h : args.length < 3
    · simp only [blocks, atomic, redisZrem, if_pos h, Blocks.solo_done]
    · simp only [blocks, atomic, redisZrem, if_neg h, solo_guarded, Blocks.solo_done,
        Blocks.solo_atomically]
      rfl
  | _ => simp only [blocks, atomic, solo_guarded, Blocks.solo_done, Blocks.solo_atomically] <;> rfl

end Command

/-! ## No expire keys -/

def Quiet (keys : List String) (s : KVStore) : Prop := ∀ k ∈ keys, s.get (getExplireKey rc k) = none

section Quiet

variable {rc} {keys : List String} {s : KVStore}

theorem Quiet.put (h : Quiet rc keys s) {y : String} (hy : ∀ k, getExplireKey rc k ≠ y) (v : String) :
    Quiet rc keys (s.put y v) :=
  fun k hk => by rw [KVStore.get_put, if_neg (hy k).symm, h k hk]

theorem Quiet.remove (h : Quiet rc keys s) (y : String) : Quiet rc keys (s.remove y) :=
  fun k hk => by
    rw [KVStore.get_remove]
    split_ifs
    · rfl
    · exact h k hk

theorem Quiet.foldl_remove {α : Type} (g : α → String) :
    ∀ (l : List α) {s : KVStore}, Quiet rc keys s → Quiet rc keys (l.foldl (fun s a => s.remove (g a)) s)
  | [], _, h => h
  | a :: l, _, h => Quiet.foldl_remove g l (h.remove (g a))

theorem Quiet.putBatch (h : Quiet rc keys s) {kvs : List (String × String)}
    (hkvs : ∀ p ∈ kvs, ∀ k, getExplireKey rc k ≠ p.1) : Quiet rc keys (s.putBatch kvs) :=
  fun k hk => by
    rw [KVStore.get_putBatch_of_forall_ne fun p hp => (hkvs p hp k).symm, h k hk]

theorem Quiet.delKey (h : Quiet rc keys s) (n : Nat) (k : String) : Quiet rc keys (delKey rc (n, s) k).2 := by
  simp only [RedisWrapper.delKey]
  cases s.get k with
  | none => dsimp only; split_ifs <;> [exact h.remove _; exact h]
  | some v =>
    dsimp only
    split_ifs <;> (try split)
    all_goals first
      | exact ((Quiet.foldl_remove _ _ h).remove _).remove _ | exact (Quiet.foldl_remove _ _ h).remove _
      | exact (h.remove _).remove _ | exact h.remove _

theorem Quiet.foldl_delKey : ∀ (l : List String) {acc : Nat × KVStore}, Quiet rc keys acc.2 →
    Quiet rc keys (l.foldl (RedisWrapper.delKey rc) acc).2
  | [], _, h => h
  | k :: l, (n, _), h => Quiet.foldl_delKey l (h.delKey n k)

theorem Quiet.foldl_zremElem (key : String) : ∀ (l : List String) {acc : Nat × KVStore},
    Quiet rc keys acc.2 → Quiet rc keys (l.foldl (zremElem rc key) acc).2
  | [], _, h => h
  | m :: l, (n, s), h => by
    refine Quiet.foldl_zremElem key l ?_
    simp only [zremElem]
    split
    · exact (h.remove _).remove _
    · exact h

theorem Quiet.expireClean (h : Quiet rc keys s) {key : String} (hk : key ∈ keys)
    (clean : KVStore → Except StoullError KVStore) : expireClean rc now clean s key = (.ok false, s) :=
  expireClean_of_get_none (h key hk)

end Quiet

/-- Where a client that has not completed `c` can be: at its first block, or past its check at one
exclusive block that does what `c` does wherever its keys have no expire key. -/
def Pending (c : Command) (t : Blocks) : Prop :=
  t = c.blocks rc now ∨ ∃ f, t = .atomically f ∧ ∀ s, Quiet rc c.keys s → f s = c.atomic rc now s

namespace Command

variable {rc now}

section Frame

variable (hexpKey : ∀ k k', '_' ∉ k'.data → getExplireKey rc k ≠ k')
  (hexpField : ∀ k k' f, getExplireKey rc k ≠ getHashFiledKey rc k' f)
  (hexpZset : ∀ k y, rc.sortedSetPrefix.data <+: y.data → getExplireKey rc k ≠ y)

include hexpKey hexpField hexpZset

theorem quiet_atomic {c : Command} (hc : ∀ k ∈ c.keys, '_' ∉ k.data) {keys : List String}
    {s : KVStore} (h : Quiet rc keys s) (hown : Quiet rc c.keys s) :
    Quiet rc keys (c.atomic rc now s).2 := by
  have hplain : ∀ {k}, k ∈ c.keys → ∀ k', getExplireKey rc k' ≠ k := fun hk k' => hexpKey k' _ (hc _ hk)
  have hfield : ∀ k f k', getExplireKey rc k' ≠ getHashFiledKey rc k f := fun k f k' => hexpField k' k f
  cases c with
  | set k v =>
    have hk := hplain (List.mem_singleton_self k)
    simp only [atomic, redisSet]
    split_ifs
    · exact (h.put hk v).remove _
    · exact h.put hk v
  | get k =>
    simp only [atomic, redisGet, hown k (List.mem_singleton_self k)]
    cases s.get k <;> exact h
  | del args => exact Quiet.foldl_delKey _ h
  | hset k _ _ | hdel k _ | lpush k _ | rpush k _ | lpop k | rpop k =>
    have hk := hplain (List.mem_singleton_self k)
    simp only [atomic, redisHset, redisHdel, redisLpush, redisRpush, redisLpop, redisRpop,
      expireHashClean, expireListClean, hown.expireClean now (List.mem_singleton_self _),
      checked_ok_false, hsetBody, hdelBody, lpushBody, rpushBody, lpopBody, rpopBody, storeRest]
    repeat' split
    all_goals first
      | exact h | exact h.remove _ | exact h.put hk _ | exact h.put (hfield k _) _
      | exact (h.put (hfield k _) _).put hk _
  | zadd args =>
    have hk := hplain (List.mem_singleton_self (args.getD 1 ""))
    simp only [atomic, redisZadd, expireZsetClean, hown.expireClean now (List.mem_singleton_self _),
      checked_ok_false]
    obtain ⟨kvs, he, hkvs⟩ := zaddBody_keys rc args s
    rw [he]
    refine h.putBatch fun p hp k' => ?_
    rcases hkvs p hp with e | e
    · exact e ▸ hk k'
    · exact hexpZset k' _ ((sortedSetPrefix_prefix_keyPreffix rc _).trans e)
  | zrem args =>
    by_cases hl : args.length < 3
    · simp only [atomic, redisZrem, if_pos hl]
      exact h
    · simp only [atomic, redisZrem, if_neg hl, expireZsetClean,
        hown.expireClean now (List.mem_singleton_self _), checked_ok_false, zremBody]
      exact Quiet.foldl_zremElem _ _ h
  | hget k f | hkeys k | llen k | lrange k a b | zrange k a b | zcard k | zscore k m | zrank k m =>
    simpa only [atomic, redisHget, redisHkeys, redisLlen, redisLrange, redisZrange, redisZcard,
      redisZscore, redisZrank, expireHashClean, expireListClean, expireZsetClean,
      hown.expireClean now (List.mem_singleton_self _), checked_ok_false] using h

end Frame

theorem guarded_live {key : String} {clean : KVStore → Except StoullError KVStore}
    {onExpired : Blocks} {onLive : KVStore → Blocks} {next : KVStore → Blocks}
    {write : KVStore → KVStore} (h : Blocks.block next write = guarded rc now key clean onExpired onLive)
    {s : KVStore} (hs : s.get (getExplireKey rc key) = none) : next s = onLive s ∧ write s = s := by
  injection h with hn hw
  subst hn hw
  simp only [hs, isExpired, id, and_self]

/-- A client that has not completed, on a store where its command's keys have no expire key: its
next block completes the command, as the command does in one step, or it is the check, which
writes nothing and leaves the client at its last block. -/
theorem step_pending {c : Command} {next : KVStore → Blocks} {write : KVStore → KVStore}
    (h : Pending rc now c (.block next write)) {s : KVStore} (hs : Quiet rc c.keys s) :
    (next s = .done (c.atomic rc now s).1 ∧ write s = (c.atomic rc now s).2) ∨
      (write s = s ∧ ∃ f, next s = .atomically f ∧ ∀ s, Quiet rc c.keys s → f s = c.atomic rc now s) := by
  rcases h with h | ⟨f, h, hf⟩
  · have hk : ∀ {k}, k ∈ c.keys → s.get (getExplireKey rc k) = none := fun hk => hs _ hk
    cases c with
    | set k v | del args =>
      injection h with hn hw
      exact .inl ⟨congrFun hn s, congrFun hw s⟩
    | get k =>
      injection h with hn hw
      subst hn hw
      left
      simp only [atomic, redisGet, hk (List.mem_singleton_self k)]
      cases s.get k <;> exact ⟨rfl, rfl⟩
    | hset _ _ _ | hdel _ _ | lpush _ _ | rpush _ _ | lpop _ | rpop _ | zadd _ =>
      dsimp only [blocks] at h
      obtain ⟨hn, hw⟩ := guarded_live h (hk (List.mem_singleton_self _))
      refine .inr ⟨hw, _, hn, fun s' hs' => ?_⟩
      simp only [atomic, redisHset, redisHdel, redisLpush, redisRpush, redisLpop, redisRpop,
        redisZadd, expireHashClean, expireListClean, expireZsetClean,
        hs'.expireClean now (List.mem_singleton_self _), checked_ok_false]
    | zrem args =>
      by_cases hl : args.length < 3
      · simp only [blocks, if_pos hl] at h
        cases h
      · simp only [blocks, if_neg hl] at h
        obtain ⟨hn, hw⟩ := guarded_live h (hk (List.mem_singleton_self _))
        refine .inr ⟨hw, _, hn, fun s' hs' => ?_⟩
        simp only [atomic, redisZrem, if_neg hl, expireZsetClean,
          hs'.expireClean now (List.mem_singleton_self _), checked_ok_false]
    | hget k f | hkeys k | llen k | lrange k a b | zrange k a b | zcard k | zscore k m | zrank k m =>
      dsimp only [blocks] at h
      obtain ⟨hn, hw⟩ := guarded_live h (hk (List.mem_singleton_self k))
      refine .inl ⟨hn.trans ?_, hw.trans ?_⟩ <;>
      simp only [atomic, redisHget, redisHkeys, redisLlen, redisLrange, redisZrange, redisZcard,
        redisZscore, redisZrank, expireHashClean, expireListClean, expireZsetClean,
        hs.expireClean now (List.mem_singleton_self _), checked_ok_false]
  · simp only [Blocks.atomically, Blocks.block.injEq] at h
    obtain ⟨rfl, rfl⟩ := h
    exact .inl ⟨by simp only [hf s hs], by simp only [hf s hs]⟩

end Command

/-! ## Without expire keys every interleaving is serial -/

section Serial

theorem interleave_cons (i : Nat) (sched : List Nat) (ts : List Blocks) (s : KVStore)
    (hist : List (Nat × Except StoullError String)) :
    interleave (i :: sched) ts s hist =
      interleave sched (interleave [i] ts s hist).1 (interleave [i] ts s hist).2.1
        (interleave [i] ts s hist).2.2 := by
  simp only [interleave]
  split <;> rfl

theorem serially_append (cmds : List Command) (order : List Nat) {i : Nat} {c : Command}
    (hc : cmds[i]? = some c) (s : KVStore) :
    serially rc now cmds (order ++ [i]) s =
      ((serially rc now cmds order s).1 ++
          [(i, (c.atomic rc now (serially rc now cmds order s).2).1)],
        (c.atomic rc now (serially rc now cmds order s).2).2) := by
  simp only [serially, List.foldl_append, List.foldl_cons, List.foldl_nil, hc]

theorem getElem?_set_eq_some {α : Type} {l : List α} {i j : Nat} {a b : α}
    (h : (l.set i a)[j]? = some b) : (j = i ∧ a = b) ∨ (j ≠ i ∧ l[j]? = some b) := by
  rw [List.getElem?_set] at h
  split_ifs at h with hij
  · exact .inl ⟨hij.symm, Option.some.inj h⟩
  · exact .inr ⟨Ne.symm hij, h⟩

/-- What a run of `interleave` from `s₀` on the clients of `cmds` keeps: the history is what
running the completed commands one after another gives, no client completes twice, no command's
key has an expire key, and a client that has not completed is where `Pending` says. -/
structure Linearized (cmds : List Command) (s₀ : KVStore) (ts : List Blocks) (s : KVStore)
    (hist : List (Nat × Except StoullError String)) : Prop where
  length : ts.length = cmds.length
  serial : serially rc now cmds (hist.map Prod.fst) s₀ = (hist, s)
  nodup : (hist.map Prod.fst).Nodup
  quiet : ∀ c ∈ cmds, Quiet rc c.keys s
  pending : ∀ i c next write, cmds[i]? = some c → ts[i]? = some (.block next write) →
    i ∉ hist.map Prod.fst ∧ Pending rc now c (.block next write)

variable (hexpKey : ∀ k k', '_' ∉ k'.data → getExplireKey rc k ≠ k')
  (hexpField : ∀ k k' f, getExplireKey rc k ≠ getHashFiledKey rc k' f)
  (hexpZset : ∀ k y, rc.sortedSetPrefix.data <+: y.data → getExplireKey rc k ≠ y)
  {cmds : List Command} (hplain : ∀ c ∈ cmds, ∀ k ∈ c.keys, '_' ∉ k.data) {s₀ : KVStore}

include hexpKey hexpField hexpZset hplain

/-- One turn keeps `Linearized`: a client's block either completes its command, as the command
does in one step on the store it meets, or is a check, which writes nothing. -/
theorem Linearized.step {ts : List Blocks} {s : KVStore} {hist : List (Nat × Except StoullError String)}
    (h : Linearized rc now cmds s₀ ts s hist) (i : Nat) :
    Linearized rc now cmds s₀ (interleave [i] ts s hist).1 (interleave [i] ts s hist).2.1
      (interleave [i] ts s hist).2.2 := by
  cases hts : ts[i]? with
  | none => simpa only [interleave, hts] using h
  | some t =>
    cases t with
    | done r => simpa only [interleave, hts] using h
    | block next write =>
      obtain ⟨hi, -⟩ := List.getElem?_eq_some_iff.1 hts
      have hi' : i < cmds.length := h.length ▸ hi
      have hc : cmds[i]? = some cmds[i] := List.getElem?_eq_getElem hi'
      obtain ⟨hnew, hp⟩ := h.pending i _ next write hc hts
      have hq := h.quiet _ (List.getElem?_mem hc)
      simp only [interleave, hts]
      rcases Command.step_pending hp hq with ⟨hn, hw⟩ | ⟨hw, f, hn, hf⟩
      · rw [hn, hw]
        refine ⟨by rw [List.length_set, h.length], ?_, ?_, fun c hc' =>
          Command.quiet_atomic hexpKey hexpField hexpZset (hplain _ (List.getElem?_mem hc))
            (h.quiet c hc') hq, fun j c' next' write' hc' hts' => ?_⟩
        · rw [List.map_append, List.map_singleton, serially_append rc now cmds _ hc, h.serial]
        · rw [List.map_append, List.map_singleton, List.nodup_append]
          exact ⟨h.nodup, List.nodup_singleton _, List.disjoint_singleton.2 hnew⟩
        · obtain ⟨-, ⟨⟩⟩ | ⟨hj, hts'⟩ := getElem?_set_eq_some hts'
          obtain ⟨hj', hp'⟩ := h.pending j c' next' write' hc' hts'
          simp only [List.map_append, List.map_singleton, List.mem_append, List.mem_singleton, not_or]
          exact ⟨⟨hj', hj⟩, hp'⟩
      · rw [hn, hw]
        refine ⟨by rw [List.length_set, h.length], h.serial, h.nodup, h.quiet,
          fun j c' next' write' hc' hts' => ?_⟩
        rcases getElem?_set_eq_some hts' with ⟨rfl, hb⟩ | ⟨-, hts'⟩
        · obtain rfl := Option.some.inj (hc.symm.trans hc')
          exact ⟨hnew, .inr ⟨f, hb.symm, hf⟩⟩
        · exact h.pending j c' next' write' hc' hts'

theorem Linearized.interleave : ∀ (sched : List Nat) {ts : List Blocks} {s : KVStore}
    {hist : List (Nat × Except StoullError String)}, Linearized rc now cmds s₀ ts s hist →
    Linearized rc now cmds s₀ (interleave sched ts s hist).1 (interleave sched ts s hist).2.1
      (interleave sched ts s hist).2.2
  | [], _, _, _, h => h
  | i :: sched, _, _, _, h => by
    rw [interleave_cons]
    exact Linearized.interleave sched (h.step rc now hexpKey hexpField hexpZset hplain i)

/-- While no command's key has an expire key, and no key holds a `_`, every interleaving of the
clients' blocks under `redis_mtx` is serial: at every point of every schedule, the commands that
have completed have replied, or thrown, and left the store, as running them one after another in
the order they completed does, and no client has completed twice. -/
theorem interleaving_is_serial (sched : List Nat)
    (hquiet : ∀ c ∈ cmds, ∀ k ∈ c.keys, s₀.get (getExplireKey rc k) = none) :
    let r := interleave sched (cmds.map (Command.blocks rc now)) s₀ []
    serially rc now cmds (r.2.2.map Prod.fst) s₀ = (r.2.2, r.2.1) ∧ (r.2.2.map Prod.fst).Nodup := by
  have h₀ : Linearized rc now cmds s₀ (cmds.map (Command.blocks rc now)) s₀ [] :=
    ⟨List.length_map _ _, rfl, List.nodup_nil, hquiet, fun i c next write hc hts => by
      rw [List.getElem?_map, hc, Option.map_some'] at hts
      exact ⟨List.not_mem_nil _, .inl (Option.some.inj hts).symm⟩⟩
  have h := h₀.interleave rc now hexpKey hexpField hexpZset hplain sched
  exact ⟨h.serial, h.nodup⟩

end Serial

theorem interleaving_is_serial_threeClients :
    (∀ c ∈ [Command.hset "k" "f" "1", .hget "k" "f", .lpush "l" "a"], ∀ k ∈ c.keys, '_' ∉ k.data) ∧
      (∀ c ∈ [Command.hset "k" "f" "1", .hget "k" "f", .lpush "l" "a"], ∀ k ∈ c.keys,
        KVStore.empty.get (getExplireKey sampleConsts k) = none) ∧
      let r := interleave [1, 0, 2, 0, 2, 1]
        ([Command.hset "k" "f" "1", .hget "k" "f", .lpush "l" "a"].map
          (Command.blocks sampleConsts 0)) .empty []
      serially sampleConsts 0 [Command.hset "k" "f" "1", .hget "k" "f", .lpush "l" "a"]
          (r.2.2.map Prod.fst) .empty = (r.2.2, r.2.1) ∧ (r.2.2.map Prod.fst).Nodup :=
  ⟨by decide, by decide, interleaving_is_serial sampleConsts 0 sampleConsts_expireKey_ne_key
    sampleConsts_expireKey_ne_fieldKey sampleConsts_expireKey_ne_zsetKey (by decide) _ (by decide)⟩

/-! ## An expired key breaks it -/

section Races

variable {rc now} {k : String}

theorem hashCleanup_of_fields {s : KVStore} {fs : List String}
    (hfs : getFiledsFromHashValue rc (s.get k) = .ok fs) :
    hashCleanup rc k s = .ok (((fs.foldl (fun s f => s.remove (getHashFiledKey rc k f)) s).remove k).remove
      (getExplireKey rc k)) := by
  rw [hashCleanup, hfs]
  rfl

variable (hexpKey : ∀ k k', '_' ∉ k'.data → getExplireKey rc k ≠ k')
  (hexpField : ∀ k k' f, getExplireKey rc k ≠ getHashFiledKey rc k' f) (hk : '_' ∉ k.data)

include hexpKey hexpField hk in
theorem hsetBody_of_absent {s : KVStore} {f v : String} (hf : f ≠ "" ∧ rc.fieldSeparator ∉ f.data)
    (hv : v ≠ "") (hkey : s.get k = none) (hexp : s.get (getExplireKey rc k) = none) :
    (hsetBody rc k f v s).1 = .ok "+OK\r\n" ∧
      (hsetBody rc k f v s).2.get (getHashFiledKey rc k f) = some v ∧
      getFiledsFromHashValue rc ((hsetBody rc k f v s).2.get k) = .ok [f] ∧
      (hsetBody rc k f v s).2.get (getExplireKey rc k) = none := by
  have hkf := ne_getHashFiledKey rc hk k f
  have hfs : ∀ x ∈ [f], x ≠ "" ∧ rc.fieldSeparator ∉ x.data := fun x hx => List.mem_singleton.1 hx ▸ hf
  have hnone : getFiledsFromHashValue rc none = .ok [] := rfl
  have hput : hsetBody rc k f v s = (.ok "+OK\r\n",
      (s.put (getHashFiledKey rc k f) v).put k (getHashValueFromFields rc [f])) := by
    simp only [hsetBody, KVStore.get_put, if_neg (Ne.symm hkf), hkey, hnone, List.not_mem_nil,
      if_false, List.nil_append]
  rw [hput]
  refine ⟨rfl, ?_, ?_, ?_⟩
  · rw [KVStore.get_put, if_neg hkf, KVStore.get_put, if_pos rfl, liveValue_of_ne hv]
  · rw [KVStore.get_put, if_pos rfl,
      liveValue_of_ne (getHashValueFromFields_ne_empty hfs (List.cons_ne_nil _ _))]
    simpa using getFiledsFromHashValue_stored hfs
  · rw [KVStore.get_put, if_neg (Ne.symm (hexpKey k k hk)), KVStore.get_put,
      if_neg (Ne.symm (hexpField k k f)), hexp]

include hexpKey hexpField hk in
/-- A hash whose expire time has passed. Client 0's `hget` finds it expired under the shared lock
and releases it to take the exclusive one; meanwhile client 1's `hset` finds it expired too,
removes it and writes a field. Client 0's cleanup then reads the new field list and removes that
field, though `hset` replied `+OK`. Run one after another, in either order, the two commands leave
the field written. -/
theorem hset_lost_to_expired_cleanup {s : KVStore} {f g v : String}
    (hf : f ≠ "" ∧ rc.fieldSeparator ∉ f.data) (hv : v ≠ "")
    (hexp : isExpired now (s.get (getExplireKey rc k)) = .ok true)
    (hfields : ∃ fs, getFiledsFromHashValue rc (s.get k) = .ok fs) :
    let r := interleave [0, 1, 1, 1, 0]
      ([Command.hget k g, Command.hset k f v].map (Command.blocks rc now)) s []
    r.2.2 = [(1, .ok "+OK\r\n"), (0, .ok nilReply)] ∧ r.2.1.get (getHashFiledKey rc k f) = none ∧
      ∀ order ∈ [[0, 1], [1, 0]], (serially rc now [Command.hget k g, Command.hset k f v] order
        s).2.get (getHashFiledKey rc k f) = some v := by
  obtain ⟨fs, hfs⟩ := hfields
  set s₁ := ((fs.foldl (fun s f => s.remove (getHashFiledKey rc k f)) s).remove k).remove
    (getExplireKey rc k) with hs₁
  have hc₁ : hashCleanup rc k s = .ok s₁ := hashCleanup_of_fields hfs
  have hk₁ : s₁.get k = none := by
    simp only [hs₁, KVStore.get_remove, if_neg (hexpKey k k hk), if_true]
  have he₁ : s₁.get (getExplireKey rc k) = none := by simp only [hs₁, KVStore.get_remove, if_true]
  obtain ⟨hr₂, hf₂, hk₂, he₂⟩ := hsetBody_of_absent hexpKey hexpField hk hf hv hk₁ he₁
  set s₂ := (hsetBody rc k f v s₁).2
  have hset₂ : hsetBody rc k f v s₁ = (.ok "+OK\r\n", s₂) := Prod.ext hr₂ rfl
  have hc₂ := hashCleanup_of_fields hk₂
  have hclean₀ : expireHashClean rc now s k = (.ok true, s₁) := by
    simp only [expireHashClean, expireClean, hexp, hc₁]
  have hset₁ : redisHset rc now s₁ k f v = (.ok "+OK\r\n", s₂) := by
    rw [redisHset, expireHashClean, expireClean_of_get_none he₁, checked_ok_false, hset₂]
  simp only [List.map_cons, List.map_nil, Command.blocks, guarded, interleave, List.getElem?_cons_zero,
    List.getElem?_cons_succ, hexp, List.set_cons_zero, List.set_cons_succ, Blocks.atomically, id,
    cleanStep, hc₁, hset₂, hc₂]
  refine ⟨rfl, ?_, ?_⟩
  · simp only [KVStore.get_remove, if_neg (hexpField k k f), if_neg (ne_getHashFiledKey rc hk k f),
      KVStore.get_foldl_remove, List.map_cons, List.map_nil, List.mem_singleton, if_true]
  simp only [List.mem_cons, List.mem_singleton, List.not_mem_nil, or_false]
  rintro order (rfl | rfl)
  · simp only [serially, List.foldl_cons, List.foldl_nil, List.getElem?_cons_zero, List.getElem?_cons_succ,
      Command.atomic, redisHget, hclean₀, checked, hset₁]
    exact hf₂
  · have hset₀ : redisHset rc now s k f v = (.ok "+OK\r\n", s₂) := by
      rw [redisHset, hclean₀, checked, hset₂]
    have hget₂ : (redisHget rc now s₂ k g).2 = s₂ := by
      rw [redisHget, expireHashClean, expireClean_of_get_none he₂, checked_ok_false]
    simp only [serially, List.foldl_cons, List.foldl_nil, List.getElem?_cons_zero, List.getElem?_cons_succ,
      Command.atomic, hset₀, hget₂]
    exact hf₂

/-- A hash `k` of one field `g`, whose expire time, second 1, has passed at second 10. -/
def expiredHash : KVStore :=
  ((KVStore.empty.put (getHashFiledKey sampleConsts "k" "g") "x").put "k"
    (getHashValueFromFields sampleConsts ["g"])).put (getExplireKey sampleConsts "k") "1"

theorem hset_lost_to_expired_cleanup_expiredHash :
    '_' ∉ "k".data ∧ ("f" ≠ "" ∧ sampleConsts.fieldSeparator ∉ "f".data) ∧ "v" ≠ "" ∧
      isExpired 10 (expiredHash.get (getExplireKey sampleConsts "k")) = .ok true ∧
      getFiledsFromHashValue sampleConsts (expiredHash.get "k") = .ok ["g"] ∧
      let r := interleave [0, 1, 1, 1, 0]
        ([Command.hget "k" "g", Command.hset "k" "f" "v"].map (Command.blocks sampleConsts 10))
          expiredHash []
      r.2.2 = [(1, .ok "+OK\r\n"), (0, .ok nilReply)] ∧
        r.2.1.get (getHashFiledKey sampleConsts "k" "f") = none ∧
        ∀ order ∈ [[0, 1], [1, 0]], (serially sampleConsts 10
          [Command.hget "k" "g", Command.hset "k" "f" "v"] order expiredHash).2.get
            (getHashFiledKey sampleConsts "k" "f") = some "v" :=
  ⟨by decide, by decide, by decide, by decide, by decide,
    hset_lost_to_expired_cleanup sampleConsts_expireKey_ne_key sampleConsts_expireKey_ne_fieldKey
      (by decide) (by decide) (by decide) (by decide) ⟨["g"], by decide⟩⟩

include hexpKey hk in
/-- A string whose expire time has passed. Client 0's `get` finds it expired under the shared lock
and releases it to take the exclusive one; meanwhile client 1's `set` writes a new value and drops
the expire key. Client 0 then removes the key, though `set` replied `+OK`. Run one after another,
in either order, the two commands leave the new value. -/
theorem set_lost_to_expired_get {s : KVStore} {v₀ e v : String} (hv : v ≠ "")
    (hval : s.get k = some v₀) (hexpire : s.get (getExplireKey rc k) = some e)
    (he : isExpired now (some e) = .ok true) :
    let r := interleave [0, 1, 0] ([Command.get k, Command.set k v].map (Command.blocks rc now)) s []
    r.2.2 = [(1, .ok "+OK\r\n"), (0, .ok nilReply)] ∧ r.2.1.get k = none ∧
      ∀ order ∈ [[0, 1], [1, 0]],
        (serially rc now [Command.get k, Command.set k v] order s).2.get k = some v := by
  have hek := hexpKey k k hk
  simp only [List.map_cons, List.map_nil, Command.blocks, getBlocks, interleave, List.getElem?_cons_zero,
    List.getElem?_cons_succ, hval, hexpire, he, List.set_cons_zero, List.set_cons_succ,
    Blocks.atomically, id]
  refine ⟨rfl, by simp only [KVStore.get_remove, if_neg hek, if_neg hek.symm, if_true], ?_⟩
  simp only [List.mem_cons, List.mem_singleton, List.not_mem_nil, or_false]
  rintro order (rfl | rfl) <;>
    simp only [serially, List.foldl_cons, List.foldl_nil, List.getElem?_cons_zero, List.getElem?_cons_succ,
      Command.atomic, redisGet, redisSet, hval, hexpire, he, KVStore.get_put, KVStore.get_remove, if_true,
      if_neg hek, if_neg hek.symm, Option.isSome_some, Option.isSome_none, Bool.false_eq_true, ite_true,
      ite_false, liveValue_of_ne hv]

/-- A string `k` whose expire time, second 1, has passed at second 10. -/
def expiredString : KVStore := (KVStore.empty.put "k" "a").put (getExplireKey sampleConsts "k") "1"

theorem set_lost_to_expired_get_expiredString :
    '_' ∉ "k".data ∧ "v" ≠ "" ∧ expiredString.get "k" = some "a" ∧
      expiredString.get (getExplireKey sampleConsts "k") = some "1" ∧
      isExpired 10 (some "1") = .ok true ∧
      let r := interleave [0, 1, 0]
        ([Command.get "k", Command.set "k" "v"].map (Command.blocks sampleConsts 10)) expiredString []
      r.2.2 = [(1, .ok "+OK\r\n"), (0, .ok nilReply)] ∧ r.2.1.get "k" = none ∧
        ∀ order ∈ [[0, 1], [1, 0]], (serially sampleConsts 10
          [Command.get "k", Command.set "k" "v"] order expiredString).2.get "k" = some "v" := by
  have hval : expiredString.get "k" = some "a" := by decide
  have hexpire : expiredString.get (getExplireKey sampleConsts "k") = some "1" := by decide
  have he : isExpired 10 (some "1") = .ok true := by decide
  exact ⟨by decide, by decide, hval, hexpire, he,
    set_lost_to_expired_get sampleConsts_expireKey_ne_key (by decide) (by decide) hval hexpire he⟩

end Races

end RedisWrapper

end LsmTree
