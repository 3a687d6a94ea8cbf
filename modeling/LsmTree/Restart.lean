import LsmTree.Runs
set_option autoImplicit false

/-!
# Closing and reopening

The destructor runs `flush_all`, and the constructor rebuilds the level map from the file names it
finds. Two things are lost on the way: `cur_max_sst_id` comes back as the largest id found, which
the next flush mints again, and a tombstone that `flush_all` leaves in the active skiplist. And
`flush_all` itself panics whenever the active skiplist holds bytes, which it does after any write
that stayed below the size limits.
-/

namespace LsmTree

namespace LSMEngine

theorem eq_some_getD_of_isSome {α : Type} {o : Option α} (h : o.isSome) (d : α) :
    o = some (o.getD d) :=
  (Option.getD_of_ne_none (Option.isSome_iff_ne_none.1 h) d).symm

theorem eq_some_ok_of_bind_toOption {ε α : Type} {o : Option (Except ε α)} {a : α}
    (h : o.bind Except.toOption = some a) : o = some (.ok a) := by
  rcases o with _ | e | a' <;> simp_all [Except.toOption]

/-- One SST written, then the engine closed and opened again: the constructor sets
`cur_max_sst_id` to the largest id it found, 0, which is still registered. The next flush mints 0
again, and its SST replaces the one that held `a`. -/
theorem flush_after_reopen_reuses_id :
    ∃ s₁ s₂, (empty "db" []).run (Config.withLimits 1 1000 2) [.put "a" "1", .flush] = some s₁ ∧
      s₁.reopen (Config.withLimits 1 1000 2) = some (.ok s₂) ∧
      s₂.curMaxSstId ∈ s₂.ssts.map SST.sstId ∧ s₂.get "a" = some (some "1") ∧
      (s₂.run (Config.withLimits 1 1000 2) [.put "b" "2", .flush]).bind (·.get "a") =
        some none := by
  have h₁ : ((empty "db" []).run (Config.withLimits 1 1000 2) [.put "a" "1", .flush]).isSome := by
    decide
  have h₂ : ((((empty "db" []).run (Config.withLimits 1 1000 2) [.put "a" "1", .flush]).getD
      (empty "db" [])).reopen (Config.withLimits 1 1000 2) |>.bind Except.toOption).isSome := by
    decide
  exact ⟨_, _, eq_some_getD_of_isSome h₁ (empty "db" []),
    eq_some_ok_of_bind_toOption (eq_some_getD_of_isSome h₂ (empty "db" [])), by decide, by decide,
    by decide⟩

/-- A tombstone for the empty key is a node of no bytes: `flush_all` stops while it is still in
the active skiplist, and the reopened engine reads the value it deleted. -/
theorem reopen_resurrects_deleted_value :
    ∃ s s', (empty "db" []).run (Config.withLimits 1 1000 2) [.put "" "x", .flush, .remove ""] =
        some s ∧ s.reopen (Config.withLimits 1 1000 2) = some (.ok s') ∧
      s.get "" = some none ∧ s'.get "" = some (some "x") := by
  have h₁ : ((empty "db" []).run (Config.withLimits 1 1000 2)
      [.put "" "x", .flush, .remove ""]).isSome := by decide
  have h₂ : ((((empty "db" []).run (Config.withLimits 1 1000 2)
      [.put "" "x", .flush, .remove ""]).getD (empty "db" [])).reopen
      (Config.withLimits 1 1000 2) |>.bind Except.toOption).isSome := by decide
  exact ⟨_, _, eq_some_getD_of_isSome h₁ (empty "db" []),
    eq_some_ok_of_bind_toOption (eq_some_getD_of_isSome h₂ (empty "db" [])), by decide, by decide⟩

/-- Nothing freezes the active skiplist before the destructor's `flush_all`: after one write below
both limits the memtable holds bytes and no frozen skiplist, so the first `flush` of
`flush_all` calls `flush_last` with nothing to pop, and closing the engine panics. -/
theorem flushAll_panics_on_unfrozen_write (cfg : Config) (dataDir : String) (dir : List DirEntry)
    (k v : String) (h₀ : 0 < k.length + v.length) (h₁ : k.length + v.length < cfg.perMemSizeLimit)
    (h₂ : k.length + v.length < cfg.tolMemSizeLimit) :
    ∃ s, (empty dataDir dir).run cfg [.put k v] = some s ∧ s.memtable.frozen = [] ∧
      0 < s.memtable.getTotalSize ∧ s.flush cfg = none ∧ s.flushAll cfg = none ∧
      s.reopen cfg = none := by
  have hsize : (SkipList.empty.put k v).size = k.length + v.length := by
    simp [SkipList.size, insertNode]
  have hput : MemTable.empty.put cfg k v = ⟨SkipList.empty.put k v, []⟩ := by
    unfold MemTable.put
    exact if_neg (hsize ▸ Nat.not_le.2 h₁)
  have htot : (⟨SkipList.empty.put k v, []⟩ : MemTable).getTotalSize = k.length + v.length := by
    simp [MemTable.getTotalSize_eq, hsize]
  have hflush : ({ empty dataDir dir with memtable := ⟨SkipList.empty.put k v, []⟩ } : LSMEngine).flush
      cfg = none := by
    simp [flush, htot, Nat.pos_iff_ne_zero.1 h₀, empty, MemTable.flushLast]
  refine ⟨{ empty dataDir dir with memtable := ⟨SkipList.empty.put k v, []⟩ }, ?_, rfl, htot ▸ h₀,
    hflush, ?_, ?_⟩
  · simp [run, step, LSMEngine.put, empty, hput, htot, Nat.not_le.2 h₂]
  · simp [flushAll, flushAllLoop, htot, h₀, hflush]
  · simp [reopen, flushAll, flushAllLoop, htot, h₀, hflush]

theorem flushAll_panics_on_unfrozen_write_a :
    ∃ s, (empty "db" []).run (Config.withLimits 1000 1000 2) [.put "a" "1"] = some s ∧
      s.memtable.frozen = [] ∧ 0 < s.memtable.getTotalSize ∧ s.flush (Config.withLimits 1000 1000 2) = none ∧
      s.flushAll (Config.withLimits 1000 1000 2) = none ∧ s.reopen (Config.withLimits 1000 1000 2) = none :=
  flushAll_panics_on_unfrozen_write _ "db" [] "a" "1" (by decide) (by decide) (by decide)

end LSMEngine

end LsmTree
