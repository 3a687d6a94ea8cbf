import LsmTree.Redis.Basic
set_option autoImplicit false

/-!
Lists. A list is stored under its key as its elements joined with `REDIS_LIST_SEPARATOR`, and is
split again by every command.
-/

namespace LsmTree

namespace RedisWrapper

variable (rc : RedisConsts)

/-- What `expire_list_clean` removes under the exclusive lock. -/
def listCleanup (key : String) (s : KVStore) : KVStore :=
  (s.remove key).remove (getExplireKey rc key)

def expireListClean (now : Int) (s : KVStore) (key : String) : Except StoullError Bool × KVStore :=
  expireClean rc now (fun s => .ok (listCleanup rc key s)) s key

def lpushBody (key value : String) (s : KVStore) : Outcome :=
  let listValue := (s.get key).getD ""
  let listValue :=
    if listValue ≠ "" then value ++ String.singleton rc.listSeparator ++ listValue else value
  (.ok (intReply (split listValue rc.listSeparator).length), s.put key listValue)

def redisLpush (now : Int) (s : KVStore) (key value : String) : Outcome :=
  checked (expireListClean rc now s key) (lpushBody rc key value) (lpushBody rc key value)

def rpushBody (key value : String) (s : KVStore) : Outcome :=
  let listValue := (s.get key).getD ""
  let listValue :=
    if listValue ≠ "" then listValue ++ String.singleton rc.listSeparator ++ value else value
  (.ok (intReply (split listValue rc.listSeparator).length), s.put key listValue)

def redisRpush (now : Int) (s : KVStore) (key value : String) : Outcome :=
  checked (expireListClean rc now s key) (rpushBody rc key value) (rpushBody rc key value)

/-- What `lpop` and `rpop` store after taking an element: the rest, or nothing. -/
def storeRest (s : KVStore) (key : String) (rest : List String) : KVStore :=
  if rest = [] then s.remove key else s.put key (join rest rc.listSeparator)

def lpopBody (key : String) (s : KVStore) : Outcome :=
  match s.get key with
  | none => (.ok nilReply, s)
  | some listValue =>
    match split listValue rc.listSeparator with
    | [] => (.ok nilReply, s)
    | value :: rest => (.ok (bulkReply value), storeRest rc s key rest)

def redisLpop (now : Int) (s : KVStore) (key : String) : Outcome :=
  checked (expireListClean rc now s key) (fun s => (.ok nilReply, s)) (lpopBody rc key)

def rpopBody (key : String) (s : KVStore) : Outcome :=
  match s.get key with
  | none => (.ok nilReply, s)
  | some listValue =>
    let elements := split listValue rc.listSeparator
    match elements.getLast? with
    | none => (.ok nilReply, s)
    | some value => (.ok (bulkReply value), storeRest rc s key elements.dropLast)

def redisRpop (now : Int) (s : KVStore) (key : String) : Outcome :=
  checked (expireListClean rc now s key) (fun s => (.ok nilReply, s)) (rpopBody rc key)

def llenReply (key : String) (s : KVStore) : String :=
  match s.get key with
  | none => ":0\r\n"
  | some listValue => intReply (split listValue rc.listSeparator).length

def redisLlen (now : Int) (s : KVStore) (key : String) : Outcome :=
  checked (expireListClean rc now s key) (fun s => (.ok ":0\r\n", s))
    fun s => (.ok (llenReply rc key s), s)

def lrangeReply (key : String) (start stop : Int) (s : KVStore) : String :=
  match s.get key with
  | none => "*0\r\n"
  | some listValue =>
    let elements := split listValue rc.listSeparator
    if elements = [] then "*0\r\n" else rangeReply elements start stop

/-- `redis_lrange`, with `start` and `stop` the `int`s `std::stoi` read. -/
def redisLrange (now : Int) (s : KVStore) (key : String) (start stop : Int) : Outcome :=
  checked (expireListClean rc now s key) (fun s => (.ok "*0\r\n", s))
    fun s => (.ok (lrangeReply rc key start stop s), s)

/-! ## Lists as deques -/

/-- The list commands of a session on one key; `lrangeAll` is `LRANGE key 0 -1`. -/
inductive ListCmd where
  | lpush (value : String)
  | rpush (value : String)
  | lpop
  | rpop
  | llen
  | lrangeAll

namespace ListCmd

/-- The wrapper's reply and state at the second `now`. -/
def run (now : Int) (key : String) (s : KVStore) : ListCmd → Outcome
  | lpush v => redisLpush rc now s key v
  | rpush v => redisRpush rc now s key v
  | lpop => redisLpop rc now s key
  | rpop => redisRpop rc now s key
  | llen => redisLlen rc now s key
  | lrangeAll => redisLrange rc now s key 0 (-1)

/-- The reply and the contents of a deque: a push replies the new length, a pop on an empty deque
nil. -/
def deque (D : List String) : ListCmd → String × List String
  | lpush v => (intReply (v :: D).length, v :: D)
  | rpush v => (intReply (D ++ [v]).length, D ++ [v])
  | lpop =>
    match D with
    | [] => (nilReply, [])
    | v :: rest => (bulkReply v, rest)
  | rpop =>
    match D.getLast? with
    | none => (nilReply, D)
    | some v => (bulkReply v, D.dropLast)
  | llen => (intReply D.length, D)
  | lrangeAll => (arrayReply D, D)

/-- Pushed elements as a stored list can hold them: non-empty and without
`REDIS_LIST_SEPARATOR`. -/
def Valid : ListCmd → Prop
  | lpush v | rpush v => v ≠ "" ∧ rc.listSeparator ∉ v.data
  | _ => True

instance : DecidablePred (Valid rc) := fun
  | lpush v | rpush v => inferInstanceAs (Decidable (v ≠ "" ∧ rc.listSeparator ∉ v.data))
  | lpop | rpop | llen | lrangeAll => isTrue trivial

theorem length_deque_le (D : List String) : ∀ c : ListCmd, (c.deque D).2.length ≤ D.length + 1
  | lpush _ | rpush _ | llen | lrangeAll => by simp [deque]
  | lpop => by cases D <;> simp [deque]; omega
  | rpop => by simp only [deque]; split <;> simp; omega

variable {α σ : Type}

def replies (step : σ → ListCmd → α × σ) : σ → List ListCmd → List α
  | _, [] => []
  | s, c :: cs => (step s c).1 :: replies step (step s c).2 cs

def final (step : σ → ListCmd → α × σ) (s : σ) (cmds : List ListCmd) : σ :=
  cmds.foldl (fun s c => (step s c).2) s

end ListCmd

/-- The store holds the list `D` on `key`, joined, and no expire key for it. -/
structure HoldsList (key : String) (s : KVStore) (D : List String) : Prop where
  stored : s.get key = if D = [] then none else some (join D rc.listSeparator)
  noExpire : s.get (getExplireKey rc key) = none
  wellFormed : ∀ v ∈ D, v ≠ "" ∧ rc.listSeparator ∉ v.data

theorem holdsList_empty (key : String) : HoldsList rc key KVStore.empty [] :=
  ⟨rfl, rfl, fun _ h => absurd h (List.not_mem_nil _)⟩

section Simulation

variable {rc} {now : Int} {key : String} {s : KVStore} {D : List String}

theorem HoldsList.getD (h : HoldsList rc key s D) : (s.get key).getD "" = join D rc.listSeparator := by
  rw [h.stored]
  split_ifs with hD
  · rw [hD]; rfl
  · rfl

theorem HoldsList.get_of_ne (h : HoldsList rc key s D) (hD : D ≠ []) :
    s.get key = some (join D rc.listSeparator) := by
  rw [h.stored, if_neg hD]

theorem HoldsList.expireListClean (h : HoldsList rc key s D) :
    expireListClean rc now s key = (.ok false, s) :=
  expireClean_of_get_none h.noExpire

theorem HoldsList.llen_reply (h : HoldsList rc key s D) :
    redisLlen rc now s key = (.ok (intReply D.length), s) := by
  by_cases hD : D = []
  · simp [redisLlen, h.expireListClean, llenReply, h.stored, hD]; rfl
  · simp [redisLlen, h.expireListClean, llenReply, h.get_of_ne hD, split_join h.wellFormed]

theorem HoldsList.lrange_reply (h : HoldsList rc key s D) (hD : D ≠ []) (start stop : Int) :
    redisLrange rc now s key start stop = (.ok (rangeReply D start stop), s) := by
  simp [redisLrange, h.expireListClean, lrangeReply, h.get_of_ne hD, split_join h.wellFormed, hD]

theorem HoldsList.lpop_eq (h : HoldsList rc key s D) :
    redisLpop rc now s key = match D with
      | [] => (.ok nilReply, s)
      | v :: rest => (.ok (bulkReply v), storeRest rc s key rest) := by
  cases D with
  | nil => simp [redisLpop, h.expireListClean, lpopBody, h.stored]
  | cons v rest =>
    simp [redisLpop, h.expireListClean, lpopBody, h.get_of_ne (List.cons_ne_nil v rest),
      split_join h.wellFormed]

theorem HoldsList.rpop_eq (h : HoldsList rc key s D) :
    redisRpop rc now s key = match D.getLast? with
      | none => (.ok nilReply, s)
      | some v => (.ok (bulkReply v), storeRest rc s key D.dropLast) := by
  by_cases hD : D = []
  · simp [redisRpop, h.expireListClean, rpopBody, h.stored, hD]
  · simp [redisRpop, h.expireListClean, rpopBody, h.get_of_ne hD, split_join h.wellFormed]

variable (hkey : getExplireKey rc key ≠ key)

include hkey in
theorem HoldsList.storeRest_holds (h : HoldsList rc key s D) {D' : List String}
    (hwf : ∀ v ∈ D', v ≠ "" ∧ rc.listSeparator ∉ v.data) :
    HoldsList rc key (storeRest rc s key D') D' := by
  refine ⟨?_, ?_, hwf⟩
  · by_cases hD' : D' = []
    · simp [RedisWrapper.storeRest, hD', KVStore.get_remove]
    · simp [RedisWrapper.storeRest, hD', liveValue_of_ne (join_ne_empty hwf hD')]
  · unfold RedisWrapper.storeRest
    split_ifs
    · rw [KVStore.get_remove, if_neg (Ne.symm hkey), h.noExpire]
    · rw [KVStore.get_put, if_neg (Ne.symm hkey), h.noExpire]

theorem HoldsList.lpush_eq (h : HoldsList rc key s D) {v : String}
    (hv : v ≠ "" ∧ rc.listSeparator ∉ v.data) :
    redisLpush rc now s key v = (.ok (intReply (v :: D).length), storeRest rc s key (v :: D)) := by
  have hwf : ∀ x ∈ v :: D, x ≠ "" ∧ rc.listSeparator ∉ x.data :=
    List.forall_mem_cons.2 ⟨hv, h.wellFormed⟩
  have hj : (if join D rc.listSeparator ≠ "" then
      v ++ String.singleton rc.listSeparator ++ join D rc.listSeparator else v) =
      join (v :: D) rc.listSeparator := by
    rw [join_cons_eq]
    by_cases hD : D = []
    · simp [hD]
    · simp [hD, join_ne_empty h.wellFormed hD]
  simp only [redisLpush, h.expireListClean, checked_ok_false, lpushBody, h.getD, hj, split_join hwf,
    storeRest, List.cons_ne_nil, if_false]

theorem HoldsList.rpush_eq (h : HoldsList rc key s D) {v : String}
    (hv : v ≠ "" ∧ rc.listSeparator ∉ v.data) :
    redisRpush rc now s key v = (.ok (intReply (D ++ [v]).length), storeRest rc s key (D ++ [v])) := by
  have hwf : ∀ x ∈ D ++ [v], x ≠ "" ∧ rc.listSeparator ∉ x.data := fun x hx =>
    (List.mem_append.1 hx).elim (h.wellFormed x) fun hx => List.mem_singleton.1 hx ▸ hv
  have hj : (if join D rc.listSeparator ≠ "" then
      join D rc.listSeparator ++ String.singleton rc.listSeparator ++ v else v) =
      join (D ++ [v]) rc.listSeparator := by
    rw [join_concat_eq]
    by_cases hD : D = []
    · simp [hD]
    · simp [hD, join_ne_empty h.wellFormed hD]
  simp only [redisRpush, h.expireListClean, checked_ok_false, rpushBody, h.getD, hj, split_join hwf,
    storeRest, List.append_ne_nil_of_right_ne_nil D (List.cons_ne_nil v []), if_false]

include hkey in
/-- One command keeps the store holding the deque, and replies as the deque does while the deque
has fewer than `2^31` elements (only `lrange` depends on that). -/
theorem HoldsList.runCmd (h : HoldsList rc key s D) {c : ListCmd} (hc : c.Valid rc) :
    HoldsList rc key (c.run rc now key s).2 (c.deque D).2 ∧
      (D.length < 2 ^ 31 → (c.run rc now key s).1 = .ok (c.deque D).1) := by
  cases c with
  | lpush v =>
    rw [ListCmd.run, h.lpush_eq hc]
    exact ⟨h.storeRest_holds hkey (List.forall_mem_cons.2 ⟨hc, h.wellFormed⟩), fun _ => rfl⟩
  | rpush v =>
    rw [ListCmd.run, h.rpush_eq hc]
    refine ⟨h.storeRest_holds hkey fun x hx => ?_, fun _ => rfl⟩
    exact (List.mem_append.1 hx).elim (h.wellFormed x) fun hx => List.mem_singleton.1 hx ▸ hc
  | lpop =>
    rw [ListCmd.run, h.lpop_eq]
    cases D with
    | nil => exact ⟨h, fun _ => rfl⟩
    | cons v rest =>
      exact ⟨h.storeRest_holds hkey fun x hx => h.wellFormed x (List.mem_cons_of_mem v hx),
        fun _ => rfl⟩
  | rpop =>
    rw [ListCmd.run, h.rpop_eq]
    simp only [ListCmd.deque]
    split
    · exact ⟨h, fun _ => rfl⟩
    · exact ⟨h.storeRest_holds hkey fun x hx => h.wellFormed x (List.dropLast_subset D hx),
        fun _ => rfl⟩
  | llen =>
    rw [ListCmd.run, h.llen_reply]
    exact ⟨h, fun _ => rfl⟩
  | lrangeAll =>
    by_cases hD : D = []
    · subst hD
      have hr : ListCmd.lrangeAll.run rc now key s = (.ok "*0\r\n", s) := by
        simp [ListCmd.run, redisLrange, h.expireListClean, lrangeReply, h.stored]
      rw [hr]
      exact ⟨h, fun _ => rfl⟩
    · rw [ListCmd.run, h.lrange_reply hD]
      exact ⟨h, fun hl => congrArg Except.ok (rangeReply_all hD hl)⟩

include hkey in
theorem HoldsList.final (cmds : List ListCmd) (hv : ∀ c ∈ cmds, c.Valid rc) :
    ∀ {s D}, HoldsList rc key s D →
      HoldsList rc key (ListCmd.final (ListCmd.run rc now key) s cmds)
        (ListCmd.final ListCmd.deque D cmds) := by
  induction cmds with
  | nil => exact fun h => h
  | cons c cmds ih =>
    exact fun h => ih (fun c' hc' => hv c' (List.mem_cons_of_mem c hc'))
      (h.runCmd hkey (hv c (List.mem_cons_self c cmds))).1

end Simulation

/-- A session of pushes, pops and reads on one list key with no expire set, pushing non-empty
elements without `REDIS_LIST_SEPARATOR`, replies as a deque does, and leaves the store holding the
deque, while the deque has fewer than `2^31` elements throughout. -/
theorem list_replies_follow_deque {key : String} (hkey : getExplireKey rc key ≠ key) (now : Int)
    (cmds : List ListCmd) (hv : ∀ c ∈ cmds, c.Valid rc) {s : KVStore} {D : List String}
    (h : HoldsList rc key s D) (hlen : D.length + cmds.length < 2 ^ 31) :
    ListCmd.replies (ListCmd.run rc now key) s cmds =
        (ListCmd.replies ListCmd.deque D cmds).map .ok ∧
      HoldsList rc key (ListCmd.final (ListCmd.run rc now key) s cmds)
        (ListCmd.final ListCmd.deque D cmds) := by
  refine ⟨?_, h.final hkey cmds hv⟩
  induction cmds generalizing s D with
  | nil => rfl
  | cons c cmds ih =>
    have hc : HoldsList rc key (c.run rc now key s).2 (c.deque D).2 ∧
        (D.length < 2 ^ 31 → (c.run rc now key s).1 = .ok (c.deque D).1) :=
      h.runCmd hkey (hv c (List.mem_cons_self c cmds))
    have hl := ListCmd.length_deque_le D c
    simp only [ListCmd.replies, List.length_cons, List.map_cons] at hlen ⊢
    rw [hc.2 (by omega), ih (fun c' hc' => hv c' (List.mem_cons_of_mem c hc')) hc.1 (by omega)]

theorem list_replies_follow_deque_session :
    getExplireKey sampleConsts "l" ≠ "l" ∧
      (∀ c ∈ [ListCmd.rpush "b", .lpush "a", .rpop, .llen, .lrangeAll], c.Valid sampleConsts) ∧
      ListCmd.replies (ListCmd.run sampleConsts 0 "l") KVStore.empty
          [.rpush "b", .lpush "a", .rpop, .llen, .lrangeAll] =
        (ListCmd.replies ListCmd.deque [] [.rpush "b", .lpush "a", .rpop, .llen, .lrangeAll]).map
          .ok ∧
      HoldsList sampleConsts "l"
        (ListCmd.final (ListCmd.run sampleConsts 0 "l") KVStore.empty
          [.rpush "b", .lpush "a", .rpop, .llen, .lrangeAll])
        (ListCmd.final ListCmd.deque [] [.rpush "b", .lpush "a", .rpop, .llen, .lrangeAll]) :=
  have hkey : getExplireKey sampleConsts "l" ≠ "l" := by decide
  have hv : ∀ c ∈ [ListCmd.rpush "b", .lpush "a", .rpop, .llen, .lrangeAll], c.Valid sampleConsts := by
    decide
  ⟨hkey, hv, list_replies_follow_deque sampleConsts hkey 0 _ hv (holdsList_empty sampleConsts "l")
    (by decide)⟩

example : ListCmd.replies ListCmd.deque [] [.rpush "b", .lpush "a", .rpop, .llen, .lrangeAll] =
    [":1\r\n", ":2\r\n", "$1\r\nb\r\n", ":1\r\n", "*1\r\n$1\r\na\r\n"] := by decide

/-- On fewer than `2^31` elements, `LRANGE key 0 stop` for an `int` `stop` below `-n` replies every
element although the intended range `0 .. stop + n` is empty: `stop += size()` stays negative and
`stop >= size()` compares it converted to `size_t`. -/
theorem lrange_far_negative_stop_lists_all {now : Int} {key : String} {s : KVStore}
    {D : List String} (h : HoldsList rc key s D) (hD : D ≠ []) (hn : D.length < 2 ^ 31) {stop : Int}
    (h₁ : -2 ^ 31 ≤ stop) (h₂ : stop + D.length < 0) :
    intendedBounds D.length 0 stop = none ∧
      redisLrange rc now s key 0 stop = (.ok (arrayReply D), s) ∧ arrayReply D ≠ "*0\r\n" :=
  ⟨intendedBounds_far_negative_stop h₂,
    by rw [h.lrange_reply hD, rangeReply_far_negative_stop hD hn h₁ h₂], arrayReply_ne_empty hD⟩

def abcList : KVStore :=
  ListCmd.final (ListCmd.run sampleConsts 0 "l") .empty [.rpush "a", .rpush "b", .rpush "c"]

theorem lrange_far_negative_stop_lists_all_abc :
    intendedBounds 3 0 (-10) = none ∧
      redisLrange sampleConsts 0 abcList "l" 0 (-10) = (.ok (arrayReply ["a", "b", "c"]), abcList) ∧
      arrayReply ["a", "b", "c"] ≠ "*0\r\n" :=
  lrange_far_negative_stop_lists_all sampleConsts
    (show HoldsList sampleConsts "l" abcList ["a", "b", "c"] from ⟨by decide, by decide, by decide⟩)
    (by decide) (by decide) (by decide) (by decide)

end RedisWrapper

end LsmTree
