import LsmTree.Redis.Separation
set_option autoImplicit false

/-!
# Every client replies

No command of `RedisWrapper` waits for another client or tries again. It takes `redis_mtx` at most
three times (the shared check, the exclusive cleanup of an expired value, the exclusive write) and
each time runs one block to its end, unless an exception ends the command first. So whatever the
clock says and whatever the other clients do, a client is done after three turns of its own
(`every_client_replies`): a schedule that gives every client three turns leaves every command
replied, and the history lists each reply of a command that took the lock, once. Only `zrem` with
too few arguments replies without the lock, and the history does not list it.
-/

namespace LsmTree

namespace RedisWrapper

namespace Blocks

/-- Whatever the stores it meets, `b` is done after at most `n` more blocks. -/
inductive Within : Nat → Blocks → Prop
  | done {n : Nat} (r : Except StoullError String) : Within n (.done r)
  | block {n : Nat} {next : KVStore → Blocks} {write : KVStore → KVStore}
      (h : ∀ s, Within n (next s)) : Within (n + 1) (.block next write)

variable {n m : Nat} {b : Blocks}

theorem Within.mono (h : b.Within n) (hnm : n ≤ m) : b.Within m := by
  induction h generalizing m with
  | done r => exact .done r
  | block _ ih =>
    obtain ⟨m, rfl⟩ : ∃ m', m = m' + 1 := ⟨m - 1, by omega⟩
    exact .block fun s => ih s (by omega)

theorem Within.next {next : KVStore → Blocks} {write : KVStore → KVStore}
    (h : (Blocks.block next write).Within n) (s : KVStore) : (next s).Within (n - 1) := by
  cases h with
  | block h => exact h s

theorem Within.eq_done (h : b.Within 0) : ∃ r, b = .done r := by
  cases h with
  | done r => exact ⟨r, rfl⟩

theorem within_atomically (f : KVStore → Outcome) : (atomically f).Within 1 :=
  .block fun _ => .done _

end Blocks

variable (rc : RedisConsts) (now : Int)

theorem within_guarded {key : String} {clean : KVStore → Except StoullError KVStore}
    {onExpired : Blocks} {onLive : KVStore → Blocks} (hexp : onExpired.Within 1)
    (hlive : ∀ s, (onLive s).Within 1) : (guarded rc now key clean onExpired onLive).Within 3 :=
  .block fun s => by
    split
    · exact .block fun _ => by split; exacts [hexp, .done _]
    · exact (hlive s).mono (by omega)
    · exact .done _

theorem within_getBlocks (key : String) : (getBlocks rc now key).Within 2 :=
  .block fun s => by
    repeat' split
    all_goals first | exact .done _ | exact .block fun _ => .done _

namespace Command

/-- A command takes `redis_mtx` at most three times. -/
theorem within_blocks (c : Command) : (c.blocks rc now).Within 3 := by
  cases c with
  | set k v | del args => exact (Blocks.within_atomically _).mono (by omega)
  | get k => exact (within_getBlocks rc now k).mono (by omega)
  | zrem args =>
    by_cases hl : args.length < 3
    · simp only [blocks, if_pos hl]
      exact .done _
    · simp only [blocks, if_neg hl]
      exact within_guarded rc now (.done _) fun _ => Blocks.within_atomically _
  | _ =>
    dsimp only [blocks]
    first
      | exact within_guarded rc now (Blocks.within_atomically _) fun _ => Blocks.within_atomically _
      | exact within_guarded rc now (.done _) fun _ => Blocks.within_atomically _
      | exact within_guarded rc now (.done _) fun _ => .done _

end Command

/-! ## Runs -/

section Runs

variable {rc now} {cmds : List Command}

theorem within_turn {ts : List Blocks} {s : KVStore} {hist : List (Nat × Except StoullError String)}
    {n : Nat → Nat} (h : ∀ j (b : Blocks), ts[j]? = some b → b.Within (n j)) (i j : Nat) (b : Blocks)
    (hb : (interleave [i] ts s hist).1[j]? = some b) : b.Within (n j - [i].count j) := by
  rw [List.count_singleton]
  by_cases hij : i = j
  · subst hij
    rw [if_pos (beq_self_eq_true i)]
    match hts : ts[i]? with
    | some (.block next write) =>
      simp only [interleave, hts] at hb
      rw [List.getElem?_set_self (List.getElem?_eq_some_iff.1 hts).1] at hb
      cases hb
      exact (h i _ hts).next s
    | some (.done r) =>
      simp only [interleave, hts, Option.some.injEq] at hb
      exact hb ▸ .done r
    | none => simp [interleave, hts] at hb
  · -- the others' blocks are as they were
    have hother : (interleave [i] ts s hist).1[j]? = ts[j]? := by
      match hts : ts[i]? with
      | some (.block next write) =>
        simp only [interleave, hts]
        exact List.getElem?_set_ne hij
      | none | some (.done _) => simp only [interleave, hts]
    rw [if_neg (mt beq_iff_eq.1 hij), Nat.sub_zero]
    exact h j b (hother ▸ hb)

theorem interleave_within : ∀ (sched : List Nat) {ts : List Blocks} {s : KVStore}
    {hist : List (Nat × Except StoullError String)} {n : Nat → Nat},
    (∀ j (b : Blocks), ts[j]? = some b → b.Within (n j)) →
    ∀ j (b : Blocks), (interleave sched ts s hist).1[j]? = some b → b.Within (n j - sched.count j)
  | [], _, _, _, _, h => fun j b hb => by simpa only [List.count_nil] using h j b hb
  | i :: sched, _, _, _, _, h => fun j b hb => by
    rw [interleave_cons] at hb
    have hc : (i :: sched).count j = sched.count j + [i].count j := by
      rw [List.count_cons, List.count_singleton]
    rw [hc, Nat.add_comm, ← Nat.sub_sub]
    exact interleave_within sched (within_turn h i) j b hb

variable (rc now) in
/-- What every run from the clients' first blocks keeps: no client is listed twice, a listed reply
is the one the client ended with, and a client that is done is listed or replied without taking the
lock. -/
structure Replies (cmds : List Command) (ts : List Blocks)
    (hist : List (Nat × Except StoullError String)) : Prop where
  length : ts.length = cmds.length
  nodup : (hist.map Prod.fst).Nodup
  recorded : ∀ i r, (i, r) ∈ hist → ts[i]? = some (.done r)
  done : ∀ i r, ts[i]? = some (.done r) →
    (i, r) ∈ hist ∨ (cmds.map (Command.blocks rc now))[i]? = some (.done r)

theorem Replies.init (cmds : List Command) : Replies rc now cmds (cmds.map (Command.blocks rc now)) [] :=
  ⟨List.length_map _ _, List.nodup_nil, fun _ _ h => absurd h (List.not_mem_nil _), fun _ _ h => .inr h⟩

variable {ts : List Blocks} {hist : List (Nat × Except StoullError String)}

theorem Replies.not_mem (h : Replies rc now cmds ts hist) {i : Nat} {next : KVStore → Blocks}
    {write : KVStore → KVStore} (hts : ts[i]? = some (.block next write)) : i ∉ hist.map Prod.fst := by
  intro hi
  obtain ⟨⟨j, r⟩, hr, rfl⟩ := List.mem_map.1 hi
  rw [h.recorded j r hr] at hts
  cases hts

theorem Replies.step (h : Replies rc now cmds ts hist) (i : Nat) (s : KVStore) :
    Replies rc now cmds (interleave [i] ts s hist).1 (interleave [i] ts s hist).2.2 := by
  match hts : ts[i]? with
  | none | some (.done _) => simpa only [interleave, hts] using h
  | some (.block next write) =>
    have hi := (List.getElem?_eq_some_iff.1 hts).1
    have hnew := h.not_mem hts
    have hset : ∀ j, j ≠ i → ∀ t, (ts.set i t)[j]? = ts[j]? := fun j hj _ =>
      List.getElem?_set_ne (Ne.symm hj)
    have hne : ∀ j r, (j, r) ∈ hist → j ≠ i := fun j r hr hj =>
      hnew (hj ▸ List.mem_map_of_mem Prod.fst hr)
    simp only [interleave, hts]
    cases hns : next s with
    | done r =>
      refine ⟨by rw [List.length_set, h.length], ?_, fun j r' hr' => ?_, fun j r' hr' => ?_⟩
      · rw [List.map_append, List.nodup_append]
        exact ⟨h.nodup, List.nodup_singleton _, List.disjoint_singleton.2 hnew⟩
      · rcases List.mem_append.1 hr' with hr' | hr'
        · rw [hset j (hne j r' hr')]
          exact h.recorded j r' hr'
        · obtain ⟨rfl, rfl⟩ := Prod.mk.inj (List.mem_singleton.1 hr')
          exact List.getElem?_set_self hi
      · rcases getElem?_set_eq_some hr' with ⟨rfl, ⟨⟩⟩ | ⟨-, hr'⟩
        · exact .inl (List.mem_append_right _ (List.mem_singleton_self _))
        · exact (h.done j r' hr').imp (List.mem_append_left _) id
    | block next' write' =>
      refine ⟨by rw [List.length_set, h.length], h.nodup, fun j r' hr' => ?_, fun j r' hr' => ?_⟩
      · rw [hset j (hne j r' hr')]
        exact h.recorded j r' hr'
      · obtain ⟨-, ⟨⟩⟩ | ⟨-, hr'⟩ := getElem?_set_eq_some hr'
        exact h.done j r' hr'

theorem Replies.interleave : ∀ (sched : List Nat) {ts : List Blocks} {s : KVStore}
    {hist : List (Nat × Except StoullError String)}, Replies rc now cmds ts hist →
    Replies rc now cmds (interleave sched ts s hist).1 (interleave sched ts s hist).2.2
  | [], _, _, _, h => h
  | i :: sched, _, _, _, h => by
    rw [interleave_cons]
    exact Replies.interleave sched (h.step i _)

variable (rc now) in
/-- Once the schedule has given every client three turns, every client is done, listed with its
reply unless it replied without taking `redis_mtx`. -/
theorem done_of_fair (cmds : List Command) (s₀ : KVStore) {sched : List Nat}
    (h : ∀ i < cmds.length, 3 ≤ sched.count i) (i : Nat) (hi : i < cmds.length) :
    let r := interleave sched (cmds.map (Command.blocks rc now)) s₀ []
    ∃ reply, r.1[i]? = some (.done reply) ∧
      ((i, reply) ∈ r.2.2 ∨ cmds[i].blocks rc now = .done reply) := by
  intro r
  have hr : Replies rc now cmds r.1 r.2.2 := (Replies.init cmds).interleave sched
  have hw : ∀ j (b : Blocks), r.1[j]? = some b → b.Within (3 - sched.count j) :=
    interleave_within sched fun j b hb => by
      obtain ⟨c, -, rfl⟩ := Option.map_eq_some'.1 ((List.getElem?_map _ _ _).symm.trans hb)
      exact Command.within_blocks rc now c
  obtain ⟨b, hb⟩ : ∃ b, r.1[i]? = some b := ⟨_, List.getElem?_eq_getElem (hr.length ▸ hi)⟩
  obtain ⟨reply, rfl⟩ := ((hw i b hb).mono (by have := h i hi; omega : 3 - sched.count i ≤ 0)).eq_done
  refine ⟨reply, hb, (hr.done i reply hb).imp id fun h' => ?_⟩
  rw [List.getElem?_map, List.getElem?_eq_getElem hi, Option.map_some'] at h'
  exact Option.some.inj h'

end Runs

/-- Whatever the clock says and whatever the schedule, no client is listed twice and a listed reply
is the one its client ended with; and once the schedule has given every client three turns, every
client is done, listed with its reply unless it replied without taking `redis_mtx`. -/
theorem every_client_replies (cmds : List Command) (s₀ : KVStore) (sched : List Nat)
    (h : ∀ i < cmds.length, 3 ≤ sched.count i) :
    let r := interleave sched (cmds.map (Command.blocks rc now)) s₀ []
    (r.2.2.map Prod.fst).Nodup ∧ (∀ i reply, (i, reply) ∈ r.2.2 → r.1[i]? = some (.done reply)) ∧
      ∀ i (hi : i < cmds.length), ∃ reply, r.1[i]? = some (.done reply) ∧
        ((i, reply) ∈ r.2.2 ∨ cmds[i].blocks rc now = .done reply) := by
  intro r
  have hr : Replies rc now cmds r.1 r.2.2 := (Replies.init cmds).interleave sched
  exact ⟨hr.nodup, hr.recorded, done_of_fair rc now cmds s₀ h⟩

theorem every_client_replies_expiredHash :
    let cmds := [Command.hset "k" "f" "1", .get "k", .zrem ["zrem", "z"]]
    let sched := [0, 1, 0, 2, 1, 0, 2, 2, 1]
    (∀ i < cmds.length, 3 ≤ sched.count i) ∧
      let r := interleave sched (cmds.map (Command.blocks sampleConsts 10)) expiredHash []
      (r.2.2.map Prod.fst).Nodup ∧ (∀ i reply, (i, reply) ∈ r.2.2 → r.1[i]? = some (.done reply)) ∧
        ∀ i (hi : i < cmds.length), ∃ reply, r.1[i]? = some (.done reply) ∧
          ((i, reply) ∈ r.2.2 ∨ cmds[i].blocks sampleConsts 10 = .done reply) :=
  ⟨by decide, every_client_replies sampleConsts 10 _ _ _ (by decide)⟩

/-! ## Fair runs of clients on different keys -/

section Separate

variable {rc now} (hexpKey : ∀ k k', '_' ∉ k'.data → getExplireKey rc k ≠ k')
  (hexpField : ∀ k k' f, getExplireKey rc k ≠ getHashFiledKey rc k' f)
  (hexpZset : ∀ k y, rc.sortedSetPrefix.data <+: y.data → getExplireKey rc k ≠ y)
  (hfieldZset : ∀ y : String, rc.fieldPrefix.data <+: y.data → ¬ rc.sortedSetPrefix.data <+: y.data)
  {cmds : List Command} (hplain : ∀ c ∈ cmds, ∀ k ∈ c.touchedKeys, '_' ∉ k.data)
  (hsep : cmds.Pairwise fun c c' => ∀ k ∈ c.touchedKeys, k ∉ c'.touchedKeys)

include hexpKey hexpField hexpZset hfieldZset hplain hsep

/-- Clients whose commands name different keys, none holding a `_`, under any clock, expire
cleanups included: once the schedule has given every client three turns, the run has ended as one
serial run of the commands that took `redis_mtx`, each once, in the order they completed, with the
same replies and the same store, every key of it. -/
theorem separate_keys_fair_run_is_serial (s₀ : KVStore) (sched : List Nat)
    (hfair : ∀ i < cmds.length, 3 ≤ sched.count i) :
    let r := interleave sched (cmds.map (Command.blocks rc now)) s₀ []
    serially rc now cmds (r.2.2.map Prod.fst) s₀ = (r.2.2, r.2.1) ∧ (r.2.2.map Prod.fst).Nodup ∧
      ∀ i (hi : i < cmds.length),
        i ∈ r.2.2.map Prod.fst ∨ ∃ reply, cmds[i].blocks rc now = .done reply := by
  intro r
  have h := (SeparateRun.init rc now cmds s₀).interleave
    (touches_apart_of_pairwise hexpKey hexpField hexpZset hfieldZset hplain hsep) sched
  have hdone := done_of_fair rc now cmds s₀ hfair
  -- no client is still running, so every key is settled
  have hsettled : ∀ y, Settled rc cmds r.1 y := fun y i c next write hc hts => by
    obtain ⟨reply, hreply, -⟩ := hdone i (List.getElem?_eq_some_iff.1 hc).1
    rw [hts] at hreply
    cases hreply
  refine ⟨Prod.ext h.serial (KVStore.ext_of_agreeOn (h.agree.mono fun y _ => hsettled y)), h.nodup,
    fun i hi => ?_⟩
  obtain ⟨reply, -, hreply | hreply⟩ := hdone i hi
  · exact .inl (List.mem_map_of_mem Prod.fst hreply)
  · exact .inr ⟨reply, hreply⟩

end Separate

theorem separate_keys_fair_run_is_serial_expiredHash :
    let cmds := [Command.hset "k" "f" "1", .lpush "b" "x", .get "c"]
    let sched := [0, 1, 2, 0, 1, 0, 2, 1, 2]
    (∀ c ∈ cmds, ∀ k ∈ c.touchedKeys, '_' ∉ k.data) ∧
      cmds.Pairwise (fun c c' => ∀ k ∈ c.touchedKeys, k ∉ c'.touchedKeys) ∧
      (∀ i < cmds.length, 3 ≤ sched.count i) ∧
      let r := interleave sched (cmds.map (Command.blocks sampleConsts 10)) expiredHash []
      serially sampleConsts 10 cmds (r.2.2.map Prod.fst) expiredHash = (r.2.2, r.2.1) ∧
        (r.2.2.map Prod.fst).Nodup ∧ ∀ i (hi : i < cmds.length),
          i ∈ r.2.2.map Prod.fst ∨ ∃ reply, cmds[i].blocks sampleConsts 10 = .done reply :=
  ⟨by decide, by decide, by decide, separate_keys_fair_run_is_serial sampleConsts_expireKey_ne_key
    sampleConsts_expireKey_ne_fieldKey sampleConsts_expireKey_ne_zsetKey sampleConsts_fieldPrefix_apart
    (by decide) (by decide) _ _ (by decide)⟩

end RedisWrapper

end LsmTree
