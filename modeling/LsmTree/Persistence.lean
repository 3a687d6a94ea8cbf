import LsmTree.Restart
set_option autoImplicit false

/-!
# The data directory, and reading it back

Every SST the engine writes goes to the file `get_sst_path(id, level)`, and `full_compact` deletes
the files of the SSTs it merges. `Mirrored` says that the directory then holds exactly the files of
the SSTs on the levels, under distinct names, each named by its SST's id and level and holding its
records; every run from a fresh engine keeps it (`reachable_mirrored`).

The constructor reads such a directory back (`construct_rebuilds_levels`): one `loadSst` per file,
in directory order, then `sortLevels`, rebuild the same levels over the same SSTs. Only
`cur_max_sst_id` comes back short, as the largest id found. An engine opened over the directory of
one that stopped without its destructor therefore answers as that engine without its memtable
(`crash_keeps_flushed_data`); one opened after the destructor answers every key as the closed one
did (`reopen_answers_as_before`), but the empty key, whose tombstone `flush_all` may leave in the
active skiplist.
-/

namespace LsmTree

/-! ## File names -/

theorem digitsValue_paddedId (sstId : Nat) :
    digitsValue ((toString sstId).data.leftpad 32 '0') = sstId := by
  rw [List.leftpad, digitsValue_append, digitsValue_replicate_zero, Nat.zero_mul, Nat.zero_add]
  exact digitsValue_toDigits sstId

theorem sstFileName_inj {a b l l' : Nat} (h : sstFileName a l = sstFileName b l') : a = b ∧ l = l' := by
  obtain ⟨hpad, rfl⟩ := sstName_inj (dot_not_mem_paddedId a) (dot_not_mem_paddedId b) h
  refine ⟨?_, rfl⟩
  rw [← digitsValue_paddedId a, ← digitsValue_paddedId b]
  exact congrArg (digitsValue ∘ String.data) hpad

/-! ## Files -/

/-- The file `get_sst_path` leaves for an SST: a regular file holding its records. -/
def SST.file (t : SST) : DirEntry := ⟨t.fileName, true, some t.entries⟩

@[simp] theorem SST.name_file (t : SST) : t.file.name = t.fileName := rfl

theorem writeFile_of_fresh {dir : List DirEntry} {name : String} (h : name ∉ dir.map DirEntry.name)
    (es : List (String × String)) : writeFile dir name es = dir ++ [⟨name, true, some es⟩] := by
  rw [writeFile, List.filter_eq_self.2 fun e he => decide_eq_true (show e.name ≠ name from
    fun hn => h (hn ▸ List.mem_map_of_mem DirEntry.name he))]

theorem foldl_writeFile_of_fresh : ∀ (out : List SST) (dir : List DirEntry),
    (out.map SST.fileName).Nodup → (∀ t ∈ out, t.fileName ∉ dir.map DirEntry.name) →
    out.foldl (fun d t => writeFile d t.fileName t.entries) dir = dir ++ out.map SST.file
  | [], dir, _, _ => by simp
  | t :: out, dir, hnd, hfresh => by
    have hnd' := List.nodup_cons.1 hnd
    rw [List.foldl_cons, writeFile_of_fresh (hfresh t (List.mem_cons_self _ _)),
      foldl_writeFile_of_fresh out _ hnd'.2 fun u hu => ?_]
    · simp [SST.file]
    · simp only [List.map_append, List.mem_append, List.map_cons, List.map_nil, List.mem_singleton,
        not_or]
      exact ⟨hfresh u (List.mem_cons_of_mem _ hu), fun h => hnd'.1 (h ▸ List.mem_map_of_mem _ hu)⟩

theorem find?_name_eq {dir : List DirEntry} (hnd : (dir.map DirEntry.name).Nodup) {e : DirEntry}
    (he : e ∈ dir) : dir.find? (·.name = e.name) = some e := by
  have hsome : (dir.find? (·.name = e.name)).isSome := List.find?_isSome.2 ⟨e, he, by simp⟩
  obtain ⟨e', he'⟩ := Option.isSome_iff_exists.1 hsome
  rw [he', List.inj_on_of_nodup_map hnd (List.mem_of_find?_eq_some he') he
    (by simpa using List.find?_some he')]

theorem exists_eq_map_of_forall {α β : Type} {f : β → α} {P : β → Prop} :
    ∀ {l : List α}, (∀ a ∈ l, ∃ b, P b ∧ a = f b) → ∃ bs : List β, l = bs.map f ∧ ∀ b ∈ bs, P b
  | [], _ => ⟨[], rfl, fun _ h => absurd h (List.not_mem_nil _)⟩
  | a :: l, h => by
    obtain ⟨b, hb, rfl⟩ := h a (List.mem_cons_self _ _)
    obtain ⟨bs, rfl, hbs⟩ := exists_eq_map_of_forall fun a ha => h a (List.mem_cons_of_mem _ ha)
    exact ⟨b :: bs, rfl, List.forall_mem_cons.2 ⟨hb, hbs⟩⟩

theorem MemTable.get_eq_none_of_getTotalSize {m : MemTable} (h : m.getTotalSize = 0) {k : String}
    (hk : k ≠ "") : m.get k = none := by
  rw [MemTable.get, firstHit_eq_lookup, lookup_eq_none]
  intro p hp hpk
  obtain ⟨nodes, hn, hp⟩ := List.mem_flatten.1 hp
  obtain ⟨t, ht, rfl⟩ := List.mem_map.1 hn
  have ht0 : t.size = 0 := List.sum_eq_zero_iff.1 h _ (List.mem_map_of_mem _ ht)
  have hp0 : p.1.length + p.2.length = 0 := List.sum_eq_zero_iff.1 ht0 _ (List.mem_map_of_mem _ hp)
  exact hk (hpk.symm.trans ((length_eq_zero_iff p.1).1 (by omega)))

namespace LSMEngine

variable (cfg : Config)

/-! ## The directory mirrors the level map -/

/-- The files the level map calls for: each SST's, level by level. -/
def sstFiles (s : LSMEngine) : List DirEntry :=
  (List.range s.levelSstIds.length).flatMap fun l => (s.levelSsts l).map SST.file

/-- The data directory mirrors the level map: its names are distinct, it holds exactly the files of
the SSTs on the levels, and each SST is named by its id and its level, as `get_sst_path` names it. -/
structure Mirrored (s : LSMEngine) : Prop where
  names : (s.dir.map DirEntry.name).Nodup
  sound : ∀ e ∈ s.dir, e ∈ s.sstFiles
  complete : ∀ e ∈ s.sstFiles, e ∈ s.dir
  named : ∀ l < s.levelSstIds.length, ∀ t ∈ s.levelSsts l, t.fileName = sstFileName t.sstId l

instance (s : LSMEngine) : Decidable s.Mirrored :=
  decidable_of_iff ((s.dir.map DirEntry.name).Nodup ∧ (∀ e ∈ s.dir, e ∈ s.sstFiles) ∧
      (∀ e ∈ s.sstFiles, e ∈ s.dir) ∧
      ∀ l < s.levelSstIds.length, ∀ t ∈ s.levelSsts l, t.fileName = sstFileName t.sstId l)
    ⟨fun ⟨a, b, c, d⟩ => ⟨a, b, c, d⟩, fun ⟨a, b, c, d⟩ => ⟨a, b, c, d⟩⟩

section Toolkit

variable {s : LSMEngine}

theorem sstId_mem_levelIds {l : Nat} {t : SST} (ht : t ∈ s.levelSsts l) : t.sstId ∈ s.levelIds l := by
  obtain ⟨id, hid, h⟩ := List.mem_filterMap.1 ht
  rwa [(sst?_spec h).2]

theorem mem_sstFiles {e : DirEntry} : e ∈ s.sstFiles ↔ ∃ l, ∃ t ∈ s.levelSsts l, e = t.file := by
  simp only [sstFiles, List.mem_flatMap, List.mem_range, List.mem_map]
  constructor
  · rintro ⟨l, -, t, ht, rfl⟩
    exact ⟨l, t, ht, rfl⟩
  · rintro ⟨l, t, ht, rfl⟩
    exact ⟨l, lt_length_of_mem (sstId_mem_levelIds ht), t, ht, rfl⟩

theorem Mirrored.of_mem (hnames : (s.dir.map DirEntry.name).Nodup)
    (hdir : ∀ e, e ∈ s.dir ↔ ∃ l, ∃ t ∈ s.levelSsts l, e = t.file)
    (hnamed : ∀ l, ∀ t ∈ s.levelSsts l, t.fileName = sstFileName t.sstId l) : s.Mirrored :=
  ⟨hnames, fun e he => mem_sstFiles.2 ((hdir e).1 he), fun e he => (hdir e).2 (mem_sstFiles.1 he),
    fun l _ => hnamed l⟩

variable (hm : s.Mirrored)

include hm

theorem Mirrored.mem_dir {e : DirEntry} : e ∈ s.dir ↔ ∃ l, ∃ t ∈ s.levelSsts l, e = t.file :=
  ⟨fun h => mem_sstFiles.1 (hm.sound e h), fun h => hm.complete e (mem_sstFiles.2 h)⟩

theorem Mirrored.fileName_eq {l : Nat} {t : SST} (ht : t ∈ s.levelSsts l) :
    t.fileName = sstFileName t.sstId l :=
  hm.named l (lt_length_of_mem (sstId_mem_levelIds ht)) t ht

theorem Mirrored.fileName_mem_dir {l : Nat} {t : SST} (ht : t ∈ s.levelSsts l) :
    t.fileName ∈ s.dir.map DirEntry.name :=
  List.mem_map_of_mem DirEntry.name (hm.mem_dir.2 ⟨l, t, ht, rfl⟩)

theorem Mirrored.fileName_mem_iff {l a b : Nat} {t : SST} (ht : t ∈ s.levelSsts l) :
    t.fileName ∈ (s.levelSsts a ++ s.levelSsts b).map SST.fileName ↔ l = a ∨ l = b := by
  constructor
  · intro h
    obtain ⟨u, hu, hname⟩ := List.mem_map.1 h
    have hlevel : ∀ {c}, u ∈ s.levelSsts c → l = c := fun hu =>
      (sstFileName_inj ((hm.fileName_eq ht).symm.trans (hname.symm.trans (hm.fileName_eq hu)))).2
    exact (List.mem_append.1 hu).imp hlevel hlevel
  · rintro (rfl | rfl)
    · exact List.mem_map_of_mem _ (List.mem_append_left _ ht)
    · exact List.mem_map_of_mem _ (List.mem_append_right _ ht)

theorem Mirrored.fresh (hs : s.Wf) {id : Nat} (hid : s.curMaxSstId ≤ id) (l : Nat) :
    sstFileName id l ∉ s.dir.map DirEntry.name := fun h => by
  obtain ⟨e, he, hname⟩ := List.mem_map.1 h
  obtain ⟨l', t, ht, rfl⟩ := hm.mem_dir.1 he
  have hid' := (sstFileName_inj ((hm.fileName_eq ht).symm.trans hname)).1
  have := hs.lt_curMaxSstId (sstId_mem_levelIds ht)
  omega

theorem Mirrored.withMemtable (m : MemTable) : { s with memtable := m }.Mirrored :=
  ⟨hm.names, hm.sound, hm.complete, hm.named⟩

theorem Mirrored.clear : s.clear.Mirrored := by
  have hdir : s.clear.dir = [] := List.filter_eq_nil_iff.2 fun e he => by
    obtain ⟨l, t, -, rfl⟩ := hm.mem_dir.1 he
    simp [SST.file]
  refine Mirrored.of_mem (by simp [hdir]) (fun e => ?_) fun l t ht => ?_
  · rw [hdir]
    simp [LSMEngine.clear, levelSsts, levelIds]
  · simp [LSMEngine.clear, levelSsts, levelIds] at ht

end Toolkit

theorem mirrored_empty (dataDir : String) : (empty dataDir []).Mirrored :=
  Mirrored.of_mem List.nodup_nil (fun e => by simp [empty, levelSsts, levelIds])
    fun l t ht => by simp [empty, levelSsts, levelIds] at ht

/-! ## What each call writes and deletes -/

theorem genSstFromIter_loop_files (target level : Nat) :
    ∀ (iter : List (String × String)) (b : SSTBuilder) (acc : List SST) (s : LSMEngine),
    ∃ out : List SST, (genSstFromIter.loop cfg target level iter b acc s).1 = acc ++ out ∧
      (∀ t ∈ out, t.fileName = sstFileName t.sstId level) ∧
      (genSstFromIter.loop cfg target level iter b acc s).2.dir =
        out.foldl (fun d t => writeFile d t.fileName t.entries) s.dir
  | [], b, acc, s => by
    by_cases h : 0 < b.estimatedSize cfg
    · exact ⟨[b.build s.curMaxSstId (sstFileName s.curMaxSstId level)],
        by simp [genSstFromIter.loop, h, buildSst, SSTBuilder.build]⟩
    · exact ⟨[], by simp [genSstFromIter.loop, h]⟩
  | p :: rest, b, acc, s => by
    simp only [genSstFromIter.loop]
    split
    · obtain ⟨out, h1, h2, h3⟩ := genSstFromIter_loop_files target level rest .empty
        (acc ++ [(b.add p.1 p.2).build s.curMaxSstId (sstFileName s.curMaxSstId level)])
        (s.buildSst (b.add p.1 p.2) level).2
      exact ⟨(b.add p.1 p.2).build s.curMaxSstId (sstFileName s.curMaxSstId level) :: out,
        h1.trans (List.append_cons _ _ _).symm, List.forall_mem_cons.2 ⟨rfl, h2⟩, h3⟩
    · exact genSstFromIter_loop_files target level rest (b.add p.1 p.2) acc s

theorem eraseSsts_dir : ∀ (ids : List Nat) (s : LSMEngine), ids.Nodup →
    (∀ id ∈ ids, (s.sst? id).isSome) →
    (s.eraseSsts ids).map LSMEngine.dir =
      some (s.dir.filter fun e => e.name ∉ (ids.filterMap s.sst?).map SST.fileName)
  | [], s, _, _ => by simp [eraseSsts]
  | id :: ids, s, hnd, hreg => by
    obtain ⟨t, ht⟩ := Option.isSome_iff_exists.1 (hreg id (List.mem_cons_self _ _))
    have hnd' := List.nodup_cons.1 hnd
    have hsame : ∀ id' ∈ ids,
        LSMEngine.sst? { s with dir := removeFile s.dir t.fileName,
                                ssts := s.ssts.filter (·.sstId ≠ id) } id' = s.sst? id' :=
      fun id' hid' => by
      rw [sst?, List.find?_filter, sst?]
      congr 1
      funext u
      by_cases h : u.sstId = id' <;> simp [h, show id' ≠ id from fun e => hnd'.1 (e ▸ hid')]
    rw [eraseSsts, ht, Option.bind_eq_bind, Option.some_bind, eraseSsts_dir ids _ hnd'.2
      fun id' hid' => hsame id' hid' ▸ hreg id' (List.mem_cons_of_mem _ hid'),
      List.filterMap_congr hsame]
    simp only [removeFile, List.filter_filter, List.filterMap_cons, ht, List.map_cons, List.mem_cons,
      not_or]
    congr 2
    funext e
    simp [Bool.and_comm]

theorem compactInto_eq_bind (s : LSMEngine) (src : Nat) :
    s.compactInto cfg src =
      (if src = 0 then s.fullL0L1Compact cfg (s.levelIds src) (s.levelIds (src + 1))
        else s.fullCommonCompact cfg (s.levelIds src) (s.levelIds (src + 1)) (src + 1)).bind
      fun r => (r.2.eraseSsts (s.levelIds src ++ s.levelIds (src + 1))).bind fun s₂ =>
        some { s₂ with
          levelSstIds := setLevel (setLevel s₂.levelSstIds src []) (src + 1)
            ((r.1.map SST.sstId).insertionSort (· ≤ ·))
          curMaxLevel := max s₂.curMaxLevel (src + 1)
          ssts := r.1.foldl registerSst s₂.ssts } := by
  unfold compactInto
  split_ifs <;> rfl

theorem compactCall_eq {s : LSMEngine} {src : Nat} {r : List SST × LSMEngine}
    (h : (if src = 0 then s.fullL0L1Compact cfg (s.levelIds src) (s.levelIds (src + 1))
      else s.fullCommonCompact cfg (s.levelIds src) (s.levelIds (src + 1)) (src + 1)) = some r) :
    ∃ iter target, r = s.genSstFromIter cfg iter target (src + 1) := by
  split_ifs at h with h0
  · subst h0
    simp only [fullL0L1Compact, Option.bind_eq_bind, Option.bind_eq_some, Option.some.injEq] at h
    obtain ⟨_, -, _, -, rfl⟩ := h
    exact ⟨_, _, rfl⟩
  · simp only [fullCommonCompact, Option.bind_eq_bind, Option.bind_eq_some, Option.some.injEq] at h
    obtain ⟨_, -, _, -, rfl⟩ := h
    exact ⟨_, _, rfl⟩

theorem Wf.nodup_levelIds_append {s : LSMEngine} (hs : s.Wf) (src : Nat) :
    (s.levelIds src ++ s.levelIds (src + 1)).Nodup :=
  have hnd := nodup_flatten_iff_getD.1 hs.nodupLevels
  List.nodup_append.2 ⟨hnd.1 src, hnd.1 (src + 1),
    fun id h₁ h₂ => absurd (hnd.2 _ _ id h₁ h₂) (Nat.ne_of_lt (Nat.lt_succ_self src))⟩

theorem Wf.compactInto_files {s s'' : LSMEngine} (hs : s.Wf) {src : Nat}
    (h : s.compactInto cfg src = some s'') :
    ∃ out : List SST,
      s''.ssts = s.ssts.filter (fun t => t.sstId ∉ s.levelIds src ++ s.levelIds (src + 1)) ++ out ∧
      (∀ t ∈ out, t.fileName = sstFileName t.sstId (src + 1)) ∧
      s''.dir = (out.foldl (fun d t => writeFile d t.fileName t.entries) s.dir).filter
        fun e => e.name ∉ (s.levelSsts src ++ s.levelSsts (src + 1)).map SST.fileName := by
  rw [compactInto_eq_bind] at h
  obtain ⟨⟨out, g⟩, hcall, h⟩ := Option.bind_eq_some.1 h
  obtain ⟨s₂, he, h⟩ := Option.bind_eq_some.1 h
  cases h
  obtain ⟨iter, target, hg⟩ := compactCall_eq cfg hcall
  obtain ⟨out', h1, -, -, hids, hg'⟩ := genSstFromIter_spec cfg s iter target (src + 1)
  obtain ⟨out'', h1', hnames, hdir⟩ := genSstFromIter_loop_files cfg target (src + 1) iter .empty [] s
  have hloop : genSstFromIter.loop cfg target (src + 1) iter .empty [] s = (out, g) := hg.symm
  rw [← hg] at h1 hg'
  rw [hloop] at h1' hdir
  dsimp only at h1 h1' hg' he hdir
  rw [List.nil_append] at h1'
  subst h1 h1'
  have hreg : ∀ id ∈ s.levelIds src ++ s.levelIds (src + 1), id ∈ g.ssts.map SST.sstId :=
    fun id h => by
      rw [hg']
      exact hs.registered id (List.mem_append.1 h |>.elim mem_flatten_of_mem_levelIds
        mem_flatten_of_mem_levelIds)
  obtain ⟨dir, hdir₂⟩ := eraseSsts_eq _ g (hs.nodup_levelIds_append src) hreg
  have hdir' := eraseSsts_dir _ g (hs.nodup_levelIds_append src) fun id h => sst?_isSome (hreg id h)
  rw [he] at hdir₂ hdir'
  cases hdir₂
  refine ⟨out, ?_, hnames, ?_⟩
  · rw [foldl_registerSst out _ ?_ (hids ▸ List.nodup_range' _ _)]
    · rw [hg']
    · intro t ht hmem
      obtain ⟨u, hu, hut⟩ := List.mem_map.1 hmem
      have := hs.maxId u (by rw [hg'] at hu; exact (List.mem_filter.1 hu).1)
      have := (List.mem_range'_1.1 (hids ▸ List.mem_map_of_mem SST.sstId ht)).1
      omega
  · have hsst : g.sst? = s.sst? := by rw [hg']; rfl
    simp only [Option.map_some', Option.some.injEq] at hdir'
    show dir = _
    rw [hdir', hsst, List.filterMap_append, hdir]
    rfl

/-! ## Every call keeps the directory in step -/

section Calls

variable {s s' : LSMEngine}

theorem Mirrored.flushed (hs : s.Wf) (hm : s.Mirrored) (t : SkipList) : (s.flushed t).Mirrored := by
  have hdir : (s.flushed t).dir =
      s.dir ++ [(⟨s.curMaxSstId, sstFileName s.curMaxSstId 0, t.nodes⟩ : SST).file] :=
    writeFile_of_fresh (hm.fresh hs le_rfl 0) t.nodes
  have hmem : ∀ {l u}, u ∈ (s.flushed t).levelSsts l ↔
      (l = 0 ∧ u = ⟨s.curMaxSstId, sstFileName s.curMaxSstId 0, t.nodes⟩) ∨ u ∈ s.levelSsts l := by
    intro l u
    rw [hs.levelSsts_flushed]
    split_ifs with h <;> simp [h]
  refine Mirrored.of_mem ?_ (fun e => ?_) fun l u hu => ?_
  · rw [hdir, List.map_append, List.nodup_append]
    exact ⟨hm.names, List.nodup_singleton _, List.disjoint_singleton.2 (hm.fresh hs le_rfl 0)⟩
  · rw [hdir, List.mem_append, hm.mem_dir, List.mem_singleton]
    constructor
    · rintro (⟨l, u, hu, rfl⟩ | rfl)
      · exact ⟨l, u, hmem.2 (.inr hu), rfl⟩
      · exact ⟨0, _, hmem.2 (.inl ⟨rfl, rfl⟩), rfl⟩
    · rintro ⟨l, u, hu, rfl⟩
      rcases hmem.1 hu with ⟨rfl, rfl⟩ | hu
      · exact .inr rfl
      · exact .inl ⟨l, u, hu, rfl⟩
  · rcases hmem.1 hu with ⟨rfl, rfl⟩ | hu
    · rfl
    · exact hm.fileName_eq hu

theorem mem_levelSsts_compacted {out : List SST} {dir : List DirEntry} {src : Nat} (hs : s.Wf)
    (hids : out.map SST.sstId = List.range' s.curMaxSstId out.length) {l : Nat} {u : SST} :
    u ∈ (s.compacted src out dir).levelSsts l ↔
      (l = src + 1 ∧ u ∈ out) ∨ (¬(l = src ∨ l = src + 1) ∧ u ∈ s.levelSsts l) := by
  rw [levelSsts_compacted hs hids]
  split_ifs with h₁ h₂
  · simp [h₁]
  · simp [h₂]
  · simp [h₁, h₂]

theorem Mirrored.compactInto (hs : s.Wf) (hm : s.Mirrored) {src : Nat}
    (h : s.compactInto cfg src = some s') : s'.Mirrored := by
  obtain ⟨out, hssts, hnames, hdir⟩ := hs.compactInto_files cfg h
  obtain ⟨newSsts, dir, -, -, hids, hc⟩ := hs.compactInto_eq cfg src
  cases h.symm.trans hc
  obtain rfl : newSsts = out := List.append_cancel_left hssts
  have hidnd : (newSsts.map SST.sstId).Nodup := hids ▸ List.nodup_range' _ _
  have hfresh : ∀ t ∈ newSsts, t.fileName ∉ s.dir.map DirEntry.name := fun t ht =>
    hnames t ht ▸ hm.fresh hs (le_sstId_of_mem_out hids ht) _
  have hnodup : (newSsts.map SST.fileName).Nodup :=
    (List.Nodup.of_map SST.sstId hidnd).map_on fun t ht u hu h => List.inj_on_of_nodup_map hidnd ht hu
      (sstFileName_inj ((hnames t ht).symm.trans (h.trans (hnames u hu)))).1
  rw [foldl_writeFile_of_fresh _ _ hnodup hfresh] at hdir
  have herased : ∀ {u : SST}, u ∈ newSsts →
      u.fileName ∉ (s.levelSsts src ++ s.levelSsts (src + 1)).map SST.fileName := fun hu hmem => by
    obtain ⟨v, hv, hname⟩ := List.mem_map.1 hmem
    exact hfresh _ hu (hname ▸ (List.mem_append.1 hv).elim hm.fileName_mem_dir hm.fileName_mem_dir)
  refine Mirrored.of_mem ?_ (fun e => ?_) fun l u hu => ?_
  · rw [hdir]
    refine List.Nodup.sublist ((List.filter_sublist _).map _) ?_
    rw [List.map_append, List.nodup_append, List.map_map]
    exact ⟨hm.names, hnodup, fun a ha hb => by
      obtain ⟨t, ht, rfl⟩ := List.mem_map.1 hb
      exact hfresh t ht ha⟩
  · rw [hdir, List.mem_filter, List.mem_append, hm.mem_dir, decide_eq_true_iff]
    constructor
    · rintro ⟨⟨l, u, hu, rfl⟩ | hmem, hname⟩
      · exact ⟨l, u, (mem_levelSsts_compacted hs hids).2
          (.inr ⟨fun h => hname ((hm.fileName_mem_iff hu).2 h), hu⟩), rfl⟩
      · obtain ⟨u, hu, rfl⟩ := List.mem_map.1 hmem
        exact ⟨src + 1, u, (mem_levelSsts_compacted hs hids).2 (.inl ⟨rfl, hu⟩), rfl⟩
    · rintro ⟨l, u, hu, rfl⟩
      rcases (mem_levelSsts_compacted hs hids).1 hu with ⟨rfl, hu'⟩ | ⟨hl, hu'⟩
      · exact ⟨.inr (List.mem_map_of_mem _ hu'), herased hu'⟩
      · exact ⟨.inl ⟨l, u, hu', rfl⟩, fun h => hl ((hm.fileName_mem_iff hu').1 h)⟩
  · rcases (mem_levelSsts_compacted hs hids).1 hu with ⟨rfl, hu'⟩ | ⟨-, hu'⟩
    · exact hnames u hu'
    · exact hm.fileName_eq hu'

theorem Mirrored.fullCompact : ∀ {fuel src : Nat} {s s' : LSMEngine}, s.Wf → s.Mirrored →
    fullCompact cfg fuel src s = some s' → s'.Mirrored
  | fuel + 1, src, s, s', hs, hm, h => by
    obtain ⟨s1, hs1, hc⟩ := Option.bind_eq_some.1 ((fullCompact_succ cfg fuel src s).symm.trans h)
    obtain ⟨hwf1, hm1⟩ : s1.Wf ∧ s1.Mirrored := by
      split_ifs at hs1
      · exact ⟨(hs.fullCompact_spec cfg hs1).1, Mirrored.fullCompact hs hm hs1⟩
      · cases hs1
        exact ⟨hs, hm⟩
    exact hm1.compactInto cfg hwf1 hc

theorem Mirrored.flush (hs : s.Wf) (hm : s.Mirrored) (h : s.flush cfg = some s') : s'.Mirrored := by
  by_cases h0 : s.memtable.getTotalSize = 0
  · rw [LSMEngine.flush, if_pos h0] at h
    cases h
    exact hm
  rw [flush_eq cfg s (Nat.pos_of_ne_zero h0)] at h
  obtain ⟨s1, hs1, h⟩ := Option.bind_eq_some.1 h
  obtain ⟨t, -, rfl⟩ := Option.map_eq_some'.1 h
  obtain ⟨hwf1, hm1⟩ : s1.Wf ∧ s1.Mirrored := by
    split_ifs at hs1
    · exact ⟨(hs.fullCompact_spec cfg hs1).1, hm.fullCompact cfg hs hs1⟩
    · cases hs1
      exact ⟨hs, hm⟩
  exact hm1.flushed hwf1 t

theorem Mirrored.flushIfFull (hs : s.Wf) (hm : s.Mirrored) (m : MemTable)
    (h : (if cfg.tolMemSizeLimit ≤ m.getTotalSize then { s with memtable := m }.flush cfg
      else some { s with memtable := m }) = some s') : s'.Mirrored := by
  split_ifs at h
  · exact (hm.withMemtable m).flush cfg (hs.withMemtable m) h
  · cases h
    exact hm.withMemtable m

theorem Mirrored.flushAllLoop : ∀ (fuel : Nat) {s s' : LSMEngine}, s.Wf → s.Mirrored →
    flushAllLoop cfg fuel s = some s' → s'.Mirrored
  | fuel + 1, s, s', hs, hm, h => by
    rw [LSMEngine.flushAllLoop] at h
    split_ifs at h
    · obtain ⟨s1, h1, h⟩ := Option.bind_eq_some.1 h
      exact Mirrored.flushAllLoop fuel (hs.flush_spec cfg h1).1 (hm.flush cfg hs h1) h
    · cases h
      exact hm

theorem Mirrored.step (hs : s.Wf) (hm : s.Mirrored) {op : Op} (h : s.step cfg op = some s') :
    s'.Mirrored := by
  cases op with
  | put k v => exact hm.flushIfFull cfg hs _ h
  | putBatch kvs => exact hm.flushIfFull cfg hs _ h
  | remove k =>
    cases h
    exact hm.withMemtable _
  | removeBatch ks =>
    cases h
    exact hm.withMemtable _
  | flush => exact hm.flush cfg hs h
  | flushAll => exact hm.flushAllLoop cfg _ hs h
  | clear =>
    cases h
    exact hm.clear

/-- A whole run, by induction from `Mirrored.step`. -/
theorem Mirrored.run : ∀ (ops : List Op) {s s' : LSMEngine}, s.Wf → s.Mirrored →
    s.run cfg ops = some s' → s'.Mirrored
  | [], _, _, _, hm, h => by
    cases h
    exact hm
  | op :: ops, s, s', hs, hm, h => by
    obtain ⟨s1, h1, h⟩ := Option.bind_eq_some.1 h
    exact Mirrored.run ops (hs.step_spec cfg h1).1 (hm.step cfg hs h1) h

end Calls

/-- Every state a run reaches from a fresh engine holds in its data directory exactly the files of
the SSTs on its levels, under distinct names, each named by its SST's id and level. -/
theorem reachable_mirrored (dataDir : String) (ops : List Op) {s : LSMEngine}
    (h : (empty dataDir []).run cfg ops = some s) : s.Mirrored :=
  Mirrored.run cfg ops (wf_empty dataDir []) (mirrored_empty dataDir) h

theorem reachable_mirrored_threeFlushes :
    ∃ s, (empty "db" []).run (Config.withLimits 1 1000 2) threeFlushes = some s ∧ s.Mirrored :=
  have h := Option.eq_some_of_isSome
    (by decide : ((empty "db" []).run (Config.withLimits 1 1000 2) threeFlushes).isSome)
  ⟨_, h, reachable_mirrored _ "db" threeFlushes h⟩

/-! ## The constructor reads the directory back -/

/-- What the constructor's loop does with the file of an SST `t` it finds at `level`: raise both
counters, register `t`, and append its id to the level. -/
def loadSst (s : LSMEngine) (level : Nat) (t : SST) : LSMEngine :=
  { s with
    curMaxSstId := max t.sstId s.curMaxSstId
    curMaxLevel := max level s.curMaxLevel
    ssts := registerSst s.ssts t
    levelSstIds := setLevel s.levelSstIds level (s.levelIds level ++ [t.sstId]) }

theorem scanEntry_file {s : LSMEngine} {level : Nat} {t : SST}
    (hname : t.fileName = sstFileName t.sstId level) (hid : t.sstId < 2 ^ 64) (hlevel : level < 2 ^ 64)
    (hfind : s.dir.find? (·.name = t.fileName) = some t.file) :
    scanEntry s t.file = .ok (s.loadSst level t) := by
  have hparse : parseSstFileName t.fileName = .ok (some (level, t.sstId)) := by
    rw [hname, sstFileName, parseSstFileName_eq (w := String.mk ((toString t.sstId).data.leftpad 32 '0'))
      (paddedId_ne_nil _) (dot_not_mem_paddedId _) hlevel, stoull_paddedId hid]
    rfl
  have hopen : s.openSst t.sstId level = .ok t := by
    simp only [openSst, ← hname, hfind, SST.file]
  simp only [scanEntry, SST.file, hparse, hopen, Bool.not_true, Bool.false_eq_true, if_false]
  rfl

theorem foldlM_scanEntry : ∀ (ps : List (Nat × SST)) (s : LSMEngine),
    (∀ p ∈ ps, p.2.fileName = sstFileName p.2.sstId p.1 ∧ p.2.sstId < 2 ^ 64 ∧ p.1 < 2 ^ 64 ∧
      s.dir.find? (·.name = p.2.fileName) = some p.2.file) →
    (ps.map fun p => p.2.file).foldlM scanEntry s = .ok (ps.foldl (fun s p => s.loadSst p.1 p.2) s)
  | [], _, _ => rfl
  | p :: ps, s, h => by
    obtain ⟨h₁, h₂, h₃, h₄⟩ := h p (List.mem_cons_self _ _)
    rw [List.map_cons, List.foldlM_cons, scanEntry_file h₁ h₂ h₃ h₄]
    exact foldlM_scanEntry ps _ fun q hq => h q (List.mem_cons_of_mem _ hq)

section Load

theorem levelIds_foldl_loadSst : ∀ (ps : List (Nat × SST)) (s : LSMEngine) (l : Nat),
    (ps.foldl (fun s p => s.loadSst p.1 p.2) s).levelIds l =
      s.levelIds l ++ (ps.filter (·.1 = l)).map (·.2.sstId)
  | [], s, l => by simp
  | p :: ps, s, l => by
    have h : (s.loadSst p.1 p.2).levelIds l =
        if l = p.1 then s.levelIds p.1 ++ [p.2.sstId] else s.levelIds l := by
      simp only [levelIds, loadSst, getD_setLevel]
    rw [List.foldl_cons, levelIds_foldl_loadSst ps _ l, h]
    by_cases hl : p.1 = l
    · subst hl
      simp
    · simp [hl, Ne.symm hl]

theorem ssts_foldl_loadSst : ∀ (ps : List (Nat × SST)) (s : LSMEngine),
    (ps.foldl (fun s p => s.loadSst p.1 p.2) s).ssts = (ps.map Prod.snd).foldl registerSst s.ssts
  | [], _ => rfl
  | _ :: ps, _ => ssts_foldl_loadSst ps _

theorem memtable_foldl_loadSst : ∀ (ps : List (Nat × SST)) (s : LSMEngine),
    (ps.foldl (fun s p => s.loadSst p.1 p.2) s).memtable = s.memtable
  | [], _ => rfl
  | _ :: ps, _ => memtable_foldl_loadSst ps _

theorem counters_foldl_loadSst : ∀ (ps : List (Nat × SST)) (s : LSMEngine),
    s.curMaxSstId ≤ (ps.foldl (fun s p => s.loadSst p.1 p.2) s).curMaxSstId ∧
    s.curMaxLevel ≤ (ps.foldl (fun s p => s.loadSst p.1 p.2) s).curMaxLevel ∧
    ∀ p ∈ ps, p.2.sstId ≤ (ps.foldl (fun s p => s.loadSst p.1 p.2) s).curMaxSstId ∧
      p.1 ≤ (ps.foldl (fun s p => s.loadSst p.1 p.2) s).curMaxLevel
  | [], _ => ⟨le_rfl, le_rfl, fun _ h => absurd h (List.not_mem_nil _)⟩
  | p :: ps, s => by
    obtain ⟨h₁, h₂, h₃⟩ := counters_foldl_loadSst ps (s.loadSst p.1 p.2)
    refine ⟨(le_max_right _ _).trans h₁, (le_max_right _ _).trans h₂,
      List.forall_mem_cons.2 ⟨⟨(le_max_left _ _).trans h₁, (le_max_left _ _).trans h₂⟩, h₃⟩⟩

end Load

theorem getD_sortLevels (L : List (List Nat)) (l : Nat) :
    (sortLevels L).getD l [] = if l = 0 then ((L.getD l []).insertionSort (· ≤ ·)).reverse
      else (L.getD l []).insertionSort (· ≤ ·) := by
  simp only [sortLevels, List.getD_eq_getElem?_getD, List.getElem?_map, List.getElem?_enum]
  cases L[l]? <;> split_ifs with h <;> simp [h]

theorem insertionSort_eq_of_perm {l l' : List Nat} (hp : l.Perm l') (hs : l'.Sorted (· < ·)) :
    l.insertionSort (· ≤ ·) = l' :=
  List.eq_of_perm_of_sorted ((List.perm_insertionSort _ l).trans hp) (List.sorted_insertionSort _ l)
    (hs.imp le_of_lt)

theorem Wf.mem_ssts_iff {s : LSMEngine} (hs : s.Wf) {t : SST} : t ∈ s.ssts ↔ ∃ l, t ∈ s.levelSsts l := by
  refine ⟨fun ht => ?_, fun ⟨_, ht⟩ => mem_levelSsts ht⟩
  obtain ⟨l, hl⟩ := mem_flatten_iff_getD.1 (hs.listed t ht)
  obtain ⟨u, hu⟩ := Option.isSome_iff_exists.1 (hs.isSome_sst? hl)
  have hut : u = t := List.inj_on_of_nodup_map hs.nodup (sst?_spec hu).1 ht (sst?_spec hu).2
  subst hut
  exact ⟨l, List.mem_filterMap.2 ⟨_, hl, hu⟩⟩

theorem sst?_eq_of_mem_iff {a b : LSMEngine} (ha : (a.ssts.map SST.sstId).Nodup)
    (h : ∀ t, t ∈ a.ssts ↔ t ∈ b.ssts) (id : Nat) : a.sst? id = b.sst? id := by
  cases hb : b.sst? id with
  | none => exact List.find?_eq_none.2 fun t ht => List.find?_eq_none.1 hb t ((h t).1 ht)
  | some u =>
    obtain ⟨hu, rfl⟩ := sst?_spec hb
    obtain ⟨v, hv⟩ := Option.isSome_iff_exists.1
      (sst?_isSome (List.mem_map_of_mem SST.sstId ((h u).2 hu)))
    rw [hv, List.inj_on_of_nodup_map ha (sst?_spec hv).1 ((h u).2 hu) (sst?_spec hv).2]

theorem Wf.of_same_levels {s e : LSMEngine} (hs : s.Wf) (hlev : ∀ l, e.levelIds l = s.levelIds l)
    (hmem : ∀ t, t ∈ e.ssts ↔ t ∈ s.ssts) (hnd : (e.ssts.map SST.sstId).Nodup)
    (hid : ∀ t ∈ e.ssts, t.sstId < e.curMaxSstId)
    (hlevel : ∀ l, e.levelIds l ≠ [] → l ≤ e.curMaxLevel) : e.Wf := by
  have hget : ∀ l, e.levelSstIds.getD l [] = s.levelSstIds.getD l [] := hlev
  have hssts : ∀ l, e.levelSsts l = s.levelSsts l := fun l => by
    rw [levelSsts, levelSsts, hlev, funext (sst?_eq_of_mem_iff hnd hmem)]
  have hflat : ∀ {id}, id ∈ e.levelSstIds.flatten ↔ id ∈ s.levelSstIds.flatten := by
    intro id
    simp only [mem_flatten_iff_getD, hget]
  have hids : ∀ {id}, id ∈ e.ssts.map SST.sstId ↔ id ∈ s.ssts.map SST.sstId := by
    intro id
    simp only [List.mem_map, hmem]
  have hnodup := nodup_flatten_iff_getD.1 hs.nodupLevels
  refine ⟨fun id h => hids.2 (hs.registered id (hflat.1 h)),
    fun t ht => hflat.2 (hs.listed t ((hmem t).1 ht)), ?_, hnd,
    fun t ht => hs.ascending t ((hmem t).1 ht), (hlev 0).symm ▸ hs.level0,
    fun l _ hl => (hlev l).symm ▸ (hs.deeper' hl).1, fun l _ hl => (hssts l).symm ▸ (hs.deeper' hl).2.1,
    fun l _ hl => (hssts l).symm ▸ (hs.deeper' hl).2.2, hid, fun l _ => hlevel l⟩
  rw [nodup_flatten_iff_getD]
  simp only [hget]
  exact hnodup

theorem Mirrored.exists_files {s : LSMEngine} (hs : s.Wf) (hm : s.Mirrored) :
    ∃ ps : List (Nat × SST), s.dir = ps.map (fun p => p.2.file) ∧
      (∀ l t, (l, t) ∈ ps ↔ t ∈ s.levelSsts l) ∧ (ps.map fun p => p.2.sstId).Nodup := by
  obtain ⟨ps, hD, hP⟩ := exists_eq_map_of_forall (f := fun p : Nat × SST => p.2.file)
    (P := fun p => p.2 ∈ s.levelSsts p.1) fun e he => by
      obtain ⟨l, t, ht, rfl⟩ := hm.mem_dir.1 he
      exact ⟨(l, t), ht, rfl⟩
  have hsame : ∀ {l l' t t'}, t ∈ s.levelSsts l → t' ∈ s.levelSsts l' → t.sstId = t'.sstId →
      l = l' ∧ t = t' := fun ht ht' h =>
    ⟨hs.level_unique (sstId_mem_levelIds ht) (h ▸ sstId_mem_levelIds ht'),
      List.inj_on_of_nodup_map hs.nodup (mem_levelSsts ht) (mem_levelSsts ht') h⟩
  refine ⟨ps, hD, fun l t => ⟨fun h => hP _ h, fun ht => ?_⟩, ?_⟩
  · obtain ⟨p, hp, hfile⟩ := List.mem_map.1 (hD ▸ hm.mem_dir.2 ⟨l, t, ht, rfl⟩)
    obtain ⟨rfl, rfl⟩ := hsame (hP p hp) ht (sstFileName_inj ((hm.fileName_eq (hP p hp)).symm.trans
      ((congrArg DirEntry.name hfile).trans (hm.fileName_eq ht)))).1
    exact hp
  · have hnd : ps.Nodup := List.Nodup.of_map _ (hD ▸ List.Nodup.of_map DirEntry.name hm.names)
    exact hnd.map_on fun p hp q hq h =>
      Prod.ext (hsame (hP p hp) (hP q hq) h).1 (hsame (hP p hp) (hP q hq) h).2

section Scan

variable {s : LSMEngine} {ps : List (Nat × SST)}

theorem construct_eq_loadSst (hs : s.Wf) (hm : s.Mirrored) (hid : s.curMaxSstId ≤ 2 ^ 64)
    (hlevel : s.curMaxLevel < 2 ^ 64) (hD : s.dir = ps.map fun p => p.2.file)
    (hmem : ∀ l t, (l, t) ∈ ps ↔ t ∈ s.levelSsts l) :
    construct s.dataDir (some s.dir) = .ok { ps.foldl (fun s p => s.loadSst p.1 p.2)
      (empty s.dataDir s.dir) with levelSstIds := sortLevels (ps.foldl (fun s p => s.loadSst p.1 p.2)
        (empty s.dataDir s.dir)).levelSstIds } := by
  have hscan : (ps.map fun p => p.2.file).foldlM scanEntry (empty s.dataDir s.dir) =
      .ok (ps.foldl (fun s p => s.loadSst p.1 p.2) (empty s.dataDir s.dir)) := by
    refine foldlM_scanEntry ps _ fun p hp => ?_
    have ht := (hmem p.1 p.2).1 hp
    exact ⟨hm.fileName_eq ht, (hs.lt_curMaxSstId (sstId_mem_levelIds ht)).trans_le hid,
      (hs.le_curMaxLevel (List.ne_nil_of_mem (sstId_mem_levelIds ht))).trans_lt hlevel,
      find?_name_eq hm.names (hm.mem_dir.2 ⟨_, _, ht, rfl⟩)⟩
  rw [← hD] at hscan
  simp only [construct, hscan]
  rfl

variable (hmem : ∀ l t, (l, t) ∈ ps ↔ t ∈ s.levelSsts l) (hnd : (ps.map fun p => p.2.sstId).Nodup)

include hmem hnd

theorem perm_levelIds_foldl_loadSst (hs : s.Wf) (dataDir : String) (dir : List DirEntry) (l : Nat) :
    ((ps.foldl (fun s p => s.loadSst p.1 p.2) (empty dataDir dir)).levelIds l).Perm (s.levelIds l) := by
  rw [levelIds_foldl_loadSst]
  refine (List.perm_ext_iff_of_nodup (hnd.sublist ((List.filter_sublist _).map _))
    ((nodup_flatten_iff_getD.1 hs.nodupLevels).1 l : (s.levelIds l).Nodup)).2 fun id => ?_
  show _ ↔ id ∈ s.levelIds l
  rw [← hs.map_sstId_levelSsts l]
  simp only [empty, levelIds, List.getD_eq_getElem?_getD, List.getElem?_nil, Option.getD_none,
    List.nil_append, List.mem_map, List.mem_filter, decide_eq_true_eq]
  constructor
  · rintro ⟨p, ⟨hp, rfl⟩, rfl⟩
    exact ⟨p.2, (hmem _ _).1 hp, rfl⟩
  · rintro ⟨t, ht, rfl⟩
    exact ⟨(l, t), ⟨(hmem l t).2 ht, rfl⟩, rfl⟩

omit hmem in
theorem ssts_foldl_loadSst_empty (dataDir : String) (dir : List DirEntry) :
    (ps.foldl (fun s p => s.loadSst p.1 p.2) (empty dataDir dir)).ssts = ps.map Prod.snd := by
  rw [ssts_foldl_loadSst, foldl_registerSst _ _ (fun _ _ h => by simp [empty] at h)
    (by rw [List.map_map]; exact hnd)]
  rfl

theorem mem_ssts_foldl_loadSst (hs : s.Wf) (dataDir : String) (dir : List DirEntry) (t : SST) :
    t ∈ (ps.foldl (fun s p => s.loadSst p.1 p.2) (empty dataDir dir)).ssts ↔ t ∈ s.ssts := by
  rw [ssts_foldl_loadSst_empty hnd, hs.mem_ssts_iff, List.mem_map]
  constructor
  · rintro ⟨p, hp, rfl⟩
    exact ⟨p.1, (hmem p.1 p.2).1 hp⟩
  · rintro ⟨l, ht⟩
    exact ⟨(l, t), (hmem l t).2 ht, rfl⟩

end Scan

theorem getD_sortLevels_of_perm {s : LSMEngine} (hs : s.Wf) {L : List (List Nat)}
    (h : ∀ l, (L.getD l []).Perm (s.levelIds l)) (l : Nat) : (sortLevels L).getD l [] = s.levelIds l := by
  rw [getD_sortLevels]
  split_ifs with hl
  · subst hl
    exact (congrArg List.reverse (insertionSort_eq_of_perm ((h 0).trans (List.reverse_perm _).symm)
      (List.pairwise_reverse.2 hs.level0))).trans (List.reverse_reverse _)
  · exact insertionSort_eq_of_perm (h l) (hs.deeper' (Nat.pos_of_ne_zero hl)).1

theorem construct_rebuilds_levels {s : LSMEngine} (hs : s.Wf) (hm : s.Mirrored)
    (hid : s.curMaxSstId ≤ 2 ^ 64) (hlevel : s.curMaxLevel < 2 ^ 64) :
    ∃ e, construct s.dataDir (some s.dir) = .ok e ∧ e.memtable = .empty ∧
      (∀ l, e.levelIds l = s.levelIds l) ∧ (∀ id, e.sst? id = s.sst? id) ∧
      { e with curMaxSstId := e.curMaxSstId + 1 }.Wf := by
  obtain ⟨ps, hD, hmem, hnd⟩ := hm.exists_files hs
  have hc := construct_eq_loadSst hs hm hid hlevel hD hmem
  have hmemE := mem_ssts_foldl_loadSst hmem hnd hs s.dataDir s.dir
  have hndE : ((ps.foldl (fun s p => s.loadSst p.1 p.2) (empty s.dataDir s.dir)).ssts.map
      SST.sstId).Nodup := by
    rw [ssts_foldl_loadSst_empty hnd, List.map_map]
    exact hnd
  have hlev := getD_sortLevels_of_perm hs (perm_levelIds_foldl_loadSst hmem hnd hs s.dataDir s.dir)
  obtain ⟨-, -, hcount⟩ := counters_foldl_loadSst ps (empty s.dataDir s.dir)
  refine ⟨_, hc, by rw [memtable_foldl_loadSst]; rfl, hlev, sst?_eq_of_mem_iff hndE hmemE,
    Wf.of_same_levels hs hlev hmemE hndE (fun t ht => ?_) fun l hl => ?_⟩
  · obtain ⟨p, hp, rfl⟩ := List.mem_map.1 ((ssts_foldl_loadSst_empty hnd _ _).symm ▸ ht)
    exact Nat.lt_succ_of_le (hcount p hp).1
  · obtain ⟨id, hid⟩ := List.exists_mem_of_ne_nil _ fun h => hl ((hlev l).trans h)
    obtain ⟨t, ht, rfl⟩ := List.mem_map.1 ((hs.map_sstId_levelSsts l).symm ▸ hid)
    exact (hcount (l, t) ((hmem l t).2 ht)).2

/-! ## Reopening -/

section Congr

variable {a b : LSMEngine} (hsst : ∀ id, a.sst? id = b.sst? id)

include hsst

theorem getLevel0_congr (k : String) : ∀ ids, a.getLevel0 k ids = b.getLevel0 k ids
  | [] => rfl
  | id :: ids => by simp only [getLevel0, hsst, getLevel0_congr k ids]

theorem searchLevel_congr (k : String) (ids : List Nat) : ∀ fuel left right,
    a.searchLevel k ids fuel left right = b.searchLevel k ids fuel left right
  | 0, _, _ => rfl
  | fuel + 1, left, right => by simp only [searchLevel, hsst, searchLevel_congr k ids fuel]

theorem getDeeper_congr (hlev : ∀ l, a.levelIds l = b.levelIds l) (k : String) :
    ∀ levels, a.getDeeper k levels = b.getDeeper k levels
  | [] => rfl
  | l :: levels => by
    simp only [getDeeper, hlev, searchLevel_congr hsst, getDeeper_congr hlev k levels]

theorem get_congr (hlev : ∀ l, a.levelIds l = b.levelIds l) (hmem : a.memtable = b.memtable)
    (hmax : a.curMaxLevel = b.curMaxLevel) (k : String) : a.get k = b.get k := by
  simp only [get, hmem, hmax, hlev, getLevel0_congr hsst, getDeeper_congr hsst hlev]

end Congr

theorem levelOrder_eq_of_levelSsts {a b : LSMEngine} (h : ∀ l, a.levelSsts l = b.levelSsts l) :
    a.levelOrder = b.levelOrder := by
  have hempty : ∀ (c : LSMEngine) l, c.levelSstIds.length ≤ l → concactIterator (c.levelSsts l) = [] :=
    fun c l hl => by simp [levelSsts, levelIds_eq_nil hl, concactIterator]
  rw [levelOrder, levelOrder,
    ← flatMap_range_levels (hempty a) (le_max_left _ b.levelSstIds.length),
    ← flatMap_range_levels (hempty b) (le_max_right a.levelSstIds.length _)]
  simp only [h]

/-- Opening an engine over the directory of a well-formed engine that the directory mirrors, with
ids and levels that fit `size_t`: the new engine has the same levels over the same SSTs, and answers
every key as the old one would without its memtable. -/
theorem construct_get_eq {s : LSMEngine} (hs : s.Wf) (hm : s.Mirrored) (hid : s.curMaxSstId ≤ 2 ^ 64)
    (hlevel : s.curMaxLevel < 2 ^ 64) :
    ∃ e, construct s.dataDir (some s.dir) = .ok e ∧ (∀ l, e.levelIds l = s.levelIds l) ∧
      (∀ id, e.sst? id = s.sst? id) ∧ ∀ k, e.get k = { s with memtable := .empty }.get k := by
  obtain ⟨e, hc, hmt, hlev, hsst, hwf⟩ := construct_rebuilds_levels hs hm hid hlevel
  refine ⟨e, hc, hlev, hsst, fun k => ?_⟩
  have hlevels : ∀ l, ({ e with curMaxSstId := e.curMaxSstId + 1 } : LSMEngine).levelSsts l =
      ({ s with memtable := .empty } : LSMEngine).levelSsts l := fun l => by
    show (e.levelIds l).filterMap e.sst? = (s.levelIds l).filterMap s.sst?
    rw [hlev, funext hsst]
  have hmt' : ({ e with curMaxSstId := e.curMaxSstId + 1 } : LSMEngine).memtable = .empty := hmt
  rw [@get_congr e { e with curMaxSstId := e.curMaxSstId + 1 } (fun _ => rfl) (fun _ => rfl) rfl rfl k,
    hwf.get_eq, (hs.withMemtable .empty).get_eq, view_eq, view_eq, levelOrder_eq_of_levelSsts hlevels,
    hmt']

/-- An engine that a run reached from a fresh one stops without its destructor, so `flush_all`
never runs, and a new engine is opened over its directory. While the ids and levels fit `size_t`,
the constructor returns with the same levels over the same SSTs, and the new engine answers every
key as the old one would with its memtable dropped: exactly what reached an SST survives. -/
theorem crash_keeps_flushed_data (dataDir : String) (ops : List Op) {s : LSMEngine}
    (hrun : (empty dataDir []).run cfg ops = some s) (hid : s.curMaxSstId ≤ 2 ^ 64)
    (hlevel : s.curMaxLevel < 2 ^ 64) :
    ∃ e, construct s.dataDir (some s.dir) = .ok e ∧ (∀ l, e.levelIds l = s.levelIds l) ∧
      (∀ id, e.sst? id = s.sst? id) ∧ ∀ k, e.get k = { s with memtable := .empty }.get k :=
  construct_get_eq ((wf_empty dataDir []).run_spec cfg ops hrun).1
    (Mirrored.run cfg ops (wf_empty dataDir []) (mirrored_empty dataDir) hrun) hid hlevel

theorem crash_keeps_flushed_data_threeFlushes :
    ∃ s, (empty "db" []).run (Config.withLimits 1 1000 2) threeFlushes = some s ∧
      s.curMaxSstId ≤ 2 ^ 64 ∧ s.curMaxLevel < 2 ^ 64 ∧
      ∃ e, construct s.dataDir (some s.dir) = .ok e ∧ (∀ l, e.levelIds l = s.levelIds l) ∧
        (∀ id, e.sst? id = s.sst? id) ∧ ∀ k, e.get k = { s with memtable := .empty }.get k := by
  have hr : ((empty "db" []).run (Config.withLimits 1 1000 2) threeFlushes).isSome := by decide
  have h := eq_some_getD_of_isSome hr (empty "db" [])
  exact ⟨_, h, by decide, by decide, crash_keeps_flushed_data _ "db" threeFlushes h (by decide) (by decide)⟩

/-- Closing an engine that a run reached from a fresh one, and opening it again: while the ids fit
the heap's `int` and the levels `size_t`, the reopened engine answers every key but the empty one as
the closed engine did. -/
theorem reopen_answers_as_before (dataDir : String) (ops : List Op) {s s' : LSMEngine}
    (hrun : (empty dataDir []).run cfg ops = some s) (hflush : s.flushAll cfg = some s')
    (hid : s'.curMaxSstId ≤ 2 ^ 31 + 1) (hlevel : s'.curMaxLevel < 2 ^ 64) :
    ∃ e, s.reopen cfg = some (.ok e) ∧ ∀ k, k ≠ "" → e.get k = s.get k := by
  have hs := ((wf_empty dataDir []).run_spec cfg ops hrun).1
  have hm := Mirrored.run cfg ops (wf_empty dataDir []) (mirrored_empty dataDir) hrun
  obtain ⟨hs', -, -, hview⟩ := hs.flushAllLoop_spec cfg _ hflush
  obtain ⟨e, hc, -, -, he⟩ := construct_get_eq hs' (hm.flushAllLoop cfg _ hs hflush) (by omega) hlevel
  refine ⟨e, by simp only [reopen, hflush, Option.map_some', hc], fun k hk => ?_⟩
  rw [he, (hs'.withMemtable .empty).get_eq, hs.get_eq, ← hview hid k, view_eq, view_eq,
    MemTable.get_eq_none_of_getTotalSize (flushAllLoop_getTotalSize cfg _ hflush) hk]
  rfl

theorem reopen_answers_as_before_threeFlushes :
    ∃ s s', (empty "db" []).run (Config.withLimits 1 1000 2) threeFlushes = some s ∧
      s.flushAll (Config.withLimits 1 1000 2) = some s' ∧ s'.curMaxSstId ≤ 2 ^ 31 + 1 ∧
      s'.curMaxLevel < 2 ^ 64 ∧
      ∃ e, s.reopen (Config.withLimits 1 1000 2) = some (.ok e) ∧ ∀ k, k ≠ "" → e.get k = s.get k := by
  have hr : ((empty "db" []).run (Config.withLimits 1 1000 2) threeFlushes).isSome := by decide
  have hf : ((((empty "db" []).run (Config.withLimits 1 1000 2) threeFlushes).getD
      (empty "db" [])).flushAll (Config.withLimits 1 1000 2)).isSome := by decide
  have h₁ := eq_some_getD_of_isSome hr (empty "db" [])
  have h₂ := eq_some_getD_of_isSome hf (empty "db" [])
  exact ⟨_, _, h₁, h₂, by decide, by decide,
    reopen_answers_as_before _ "db" threeFlushes h₁ h₂ (by decide) (by decide)⟩

end LSMEngine

end LsmTree
