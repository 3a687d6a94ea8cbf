import LsmTree.Engine
set_option autoImplicit false

/-!
The constructor and the destructor of `LSMEngine`: the scan of the data directory for
`sst_<id>.<level>` files and the `flush_all` run on close.
-/

namespace LsmTree

/-- `isspace` in the C locale. -/
def isSpace (c : Char) : Bool :=
  c = ' ' || c = '\t' || c = '\n' || c = '\x0b' || c = '\x0c' || c = '\r'

/-- What `std::stoull` throws. -/
inductive StoullError where
  | invalidArgument
  | outOfRange
  deriving DecidableEq, Repr

def digitsValue (ds : List Char) : Nat := ds.foldl (fun n c => 10 * n + (c.toNat - '0'.toNat)) 0

theorem foldl_digitsValue (a : Nat) (ds : List Char) :
    ds.foldl (fun n c => 10 * n + (c.toNat - '0'.toNat)) a = a * 10 ^ ds.length + digitsValue ds := by
  induction ds generalizing a with
  | nil => simp [digitsValue]
  | cons c ds ih =>
    have hc : digitsValue (c :: ds) =
        ds.foldl (fun n c => 10 * n + (c.toNat - '0'.toNat)) (10 * 0 + (c.toNat - '0'.toNat)) := rfl
    rw [List.foldl_cons, ih, hc, ih, List.length_cons]
    ring

theorem digitsValue_cons (c : Char) (ds : List Char) :
    digitsValue (c :: ds) = (c.toNat - '0'.toNat) * 10 ^ ds.length + digitsValue ds := by
  rw [digitsValue, List.foldl_cons, foldl_digitsValue, Nat.mul_zero, Nat.zero_add]

theorem digitsValue_append (l₁ l₂ : List Char) :
    digitsValue (l₁ ++ l₂) = digitsValue l₁ * 10 ^ l₂.length + digitsValue l₂ := by
  rw [digitsValue, List.foldl_append, foldl_digitsValue]
  rfl

theorem digitsValue_replicate_zero (n : Nat) : digitsValue (List.replicate n '0') = 0 := by
  induction n with
  | zero => rfl
  | succ n ih => rw [List.replicate_succ, digitsValue_cons, ih, Nat.sub_self, Nat.zero_mul]

theorem digitChar_digit : ∀ m < 10, (Nat.digitChar m).toNat - '0'.toNat = m ∧ (Nat.digitChar m).isDigit := by
  decide

theorem digitsValue_toDigitsCore : ∀ (fuel n : Nat) (ds : List Char), n < fuel →
    digitsValue (Nat.toDigitsCore 10 fuel n ds) = n * 10 ^ ds.length + digitsValue ds
  | 0, _, _, h => absurd h (Nat.not_lt_zero _)
  | fuel + 1, n, ds, h => by
    have hd := (digitChar_digit (n % 10) (Nat.mod_lt _ (by decide))).1
    rw [Nat.toDigitsCore]
    split_ifs with h0
    · rw [digitsValue_cons, hd, Nat.mod_eq_of_lt (by omega)]
    · rw [digitsValue_toDigitsCore fuel (n / 10) _ (by omega), List.length_cons, digitsValue_cons, hd]
      conv_rhs => rw [← Nat.div_add_mod n 10]
      ring

theorem isDigit_of_mem_toDigitsCore : ∀ (fuel n : Nat) (ds : List Char), (∀ c ∈ ds, c.isDigit) →
    ∀ c ∈ Nat.toDigitsCore 10 fuel n ds, c.isDigit
  | 0, _, _, h => h
  | fuel + 1, n, ds, h => by
    have hd : ∀ c ∈ Nat.digitChar (n % 10) :: ds, c.isDigit := by
      simpa [(digitChar_digit (n % 10) (Nat.mod_lt _ (by decide))).2] using h
    rw [Nat.toDigitsCore]
    split_ifs
    · exact hd
    · exact isDigit_of_mem_toDigitsCore fuel _ _ hd

theorem toDigitsCore_ne_nil : ∀ (fuel n : Nat) (ds : List Char), ds ≠ [] →
    Nat.toDigitsCore 10 fuel n ds ≠ []
  | 0, _, _, h => h
  | fuel + 1, n, ds, _ => by
    rw [Nat.toDigitsCore]
    split_ifs
    · exact List.cons_ne_nil _ _
    · exact toDigitsCore_ne_nil fuel _ _ (List.cons_ne_nil _ _)

theorem digitsValue_toDigits (n : Nat) : digitsValue (Nat.toDigits 10 n) = n := by
  simpa [digitsValue] using digitsValue_toDigitsCore (n + 1) n [] (Nat.lt_succ_self n)

theorem isDigit_of_mem_toDigits (n : Nat) : ∀ c ∈ Nat.toDigits 10 n, c.isDigit :=
  isDigit_of_mem_toDigitsCore _ n [] (by simp)

theorem toDigits_ne_nil (n : Nat) : Nat.toDigits 10 n ≠ [] := by
  rw [Nat.toDigits, Nat.toDigitsCore]
  split_ifs
  · exact List.cons_ne_nil _ _
  · exact toDigitsCore_ne_nil _ _ _ (List.cons_ne_nil _ _)

theorem isSpace_eq_false {c : Char} (h : c.isDigit) : isSpace c = false := by
  cases hs : isSpace c
  · rfl
  · simp only [isSpace, Bool.or_eq_true, decide_eq_true_eq] at hs
    rcases hs with (((((rfl | rfl) | rfl) | rfl) | rfl) | rfl) <;> exact absurd h (by decide)

/-- `std::stoull(str)`, base 10: skip leading white space and an optional sign, then read the
longest run of digits, ignoring what follows. No digit throws `invalid_argument`, a value past
`ULLONG_MAX` throws `out_of_range`, and a minus sign negates modulo 2^64. -/
def stoull (str : String) : Except StoullError Nat :=
  let cs := str.data.dropWhile isSpace
  let (neg, cs) := match cs with
    | '-' :: cs => (true, cs)
    | '+' :: cs => (false, cs)
    | cs => (false, cs)
  let ds := cs.takeWhile Char.isDigit
  if ds = [] then .error .invalidArgument
  else if 2 ^ 64 ≤ digitsValue ds then .error .outOfRange
  else .ok (if neg then (2 ^ 64 - digitsValue ds) % 2 ^ 64 else digitsValue ds)

theorem stoull_of_digits {ds : List Char} (hne : ds ≠ []) (hd : ∀ c ∈ ds, c.isDigit)
    (hlt : digitsValue ds < 2 ^ 64) : stoull (String.mk ds) = .ok (digitsValue ds) := by
  obtain ⟨c, cs, rfl⟩ := List.exists_cons_of_ne_nil hne
  have hc : c.isDigit := hd c (List.mem_cons_self _ _)
  have hm : c ≠ '-' := fun h => absurd (h ▸ hc) (by decide)
  have hp : c ≠ '+' := fun h => absurd (h ▸ hc) (by decide)
  simpa [stoull, List.dropWhile_cons, isSpace_eq_false hc, hm, hp, List.takeWhile_eq_self_iff.2 hd]
    using hlt

/-- The constructor's reading of a file name: `none` for a name it skips, else the level and the
id. The level is parsed before the id is looked at, and either parse may throw. -/
def parseSstFileName (filename : String) : Except StoullError (Option (Nat × Nat)) :=
  if filename.data.take 4 ≠ "sst_".data then .ok none else
  match filename.data.indexOf? '.' with
  | none => .ok none
  | some dotPos =>
    if dotPos = filename.length - 1 then .ok none else do
    let level ← stoull (String.mk (filename.data.drop (dotPos + 1)))
    let idStr := (filename.data.drop 4).take (dotPos - 4)
    if idStr = [] then .ok none else do
    let sstId ← stoull (String.mk idStr)
    .ok (some (level, sstId))

theorem indexOf?_append_cons {c : Char} {pre : List Char} (h : c ∉ pre) (rest : List Char) :
    (pre ++ c :: rest).indexOf? c = some pre.length := by
  have hnone : pre.findIdx? (· == c) = none :=
    List.findIdx?_eq_none_iff.2 fun x hx => beq_false_of_ne fun hxc => h (hxc ▸ hx)
  simp [List.indexOf?, List.findIdx?_append, hnone]

theorem sstName_data (w : String) (level : Nat) : ("sst_" ++ w ++ "." ++ toString level).data =
    ['s', 's', 't', '_'] ++ (w.data ++ '.' :: Nat.toDigits 10 level) := by
  simp only [String.data_append, List.append_assoc, List.singleton_append]
  rfl

theorem sstName_inj {u v : String} {l l' : Nat} (hu : '.' ∉ u.data) (hv : '.' ∉ v.data)
    (h : "sst_" ++ u ++ "." ++ toString l = "sst_" ++ v ++ "." ++ toString l') : u = v ∧ l = l' := by
  have hdata := List.append_cancel_left
    ((sstName_data u l).symm.trans ((congrArg String.data h).trans (sstName_data v l')))
  have hdot := congrArg (List.indexOf? '.') hdata
  rw [indexOf?_append_cons hu, indexOf?_append_cons hv] at hdot
  obtain ⟨hpad, hlevel⟩ := List.append_inj hdata (Option.some.inj hdot)
  exact ⟨String.ext hpad, by rw [← digitsValue_toDigits l, (List.cons.inj hlevel).2, digitsValue_toDigits]⟩

theorem parseSstFileName_eq {w : String} (hw : w.data ≠ []) (hdot : '.' ∉ w.data) {level : Nat}
    (hlevel : level < 2 ^ 64) :
    parseSstFileName ("sst_" ++ w ++ "." ++ toString level) = (stoull w).map fun sstId => some (level, sstId) := by
  have hdata : ("sst_" ++ w ++ "." ++ toString level).data =
      ('s' :: 's' :: 't' :: '_' :: w.data) ++ '.' :: Nat.toDigits 10 level := by
    simp only [String.data_append, List.cons_append, List.nil_append, List.append_assoc, List.singleton_append]
    rfl
  have hdot' : '.' ∉ 's' :: 's' :: 't' :: '_' :: w.data := by simp [hdot]
  have hlen : ("sst_" ++ w ++ "." ++ toString level).length = w.data.length + 5 + (Nat.toDigits 10 level).length := by
    rw [String.length, hdata]; simp; omega
  have hne := toDigits_ne_nil level
  have hdl : 0 < (Nat.toDigits 10 level).length := List.length_pos.2 hne
  have htake : ('s' :: 's' :: 't' :: '_' :: w.data ++ '.' :: Nat.toDigits 10 level).take 4 = "sst_".data := rfl
  have hlevelStr : ('s' :: 's' :: 't' :: '_' :: w.data ++ '.' :: Nat.toDigits 10 level).drop (w.data.length + 5) =
      Nat.toDigits 10 level := by
    simp only [List.cons_append, List.drop_succ_cons]
    rw [List.drop_append]
    rfl
  have hidStr : (('s' :: 's' :: 't' :: '_' :: w.data ++ '.' :: Nat.toDigits 10 level).drop 4).take
      (w.data.length + 1 + 1 + 1 + 1 - 4) = w.data := by
    rw [show w.data.length + 1 + 1 + 1 + 1 - 4 = w.data.length by omega]
    simp
  have hl : stoull (String.mk (Nat.toDigits 10 level)) = .ok level := by
    have := stoull_of_digits hne (isDigit_of_mem_toDigits level) (by rwa [digitsValue_toDigits])
    rwa [digitsValue_toDigits] at this
  unfold parseSstFileName
  rw [hdata, indexOf?_append_cons hdot', hlen]
  simp only [List.length_cons, htake, ne_eq, not_true_eq_false, if_false]
  rw [if_neg (by omega), hlevelStr, hl, hidStr]
  simp only [hw, if_false]
  cases stoull w <;> rfl

theorem isDigit_of_mem_paddedId (sstId : Nat) : ∀ c ∈ (toString sstId).data.leftpad 32 '0', c.isDigit := by
  simp only [List.leftpad, List.mem_append, List.mem_replicate]
  rintro c (⟨-, rfl⟩ | hc)
  · rfl
  · exact isDigit_of_mem_toDigits sstId c hc

theorem paddedId_ne_nil (sstId : Nat) : (toString sstId).data.leftpad 32 '0' ≠ [] := by
  simp only [List.leftpad, ne_eq, List.append_eq_nil, not_and]
  exact fun _ => toDigits_ne_nil sstId

theorem dot_not_mem_paddedId (sstId : Nat) : '.' ∉ (toString sstId).data.leftpad 32 '0' :=
  fun h => absurd (isDigit_of_mem_paddedId sstId '.' h) (by decide)

theorem stoull_paddedId {sstId : Nat} (h : sstId < 2 ^ 64) :
    stoull (String.mk ((toString sstId).data.leftpad 32 '0')) = .ok sstId := by
  have hv : digitsValue ((toString sstId).data.leftpad 32 '0') = sstId := by
    rw [List.leftpad, digitsValue_append, digitsValue_replicate_zero, Nat.zero_mul, Nat.zero_add]
    exact digitsValue_toDigits sstId
  rw [stoull_of_digits (paddedId_ne_nil sstId) (isDigit_of_mem_paddedId sstId) (by rwa [hv]), hv]

/-- The constructor reads back the id and the level of every name `get_sst_path` writes. -/
theorem parseSstFileName_sstFileName {sstId level : Nat} (h₁ : sstId < 2 ^ 64) (h₂ : level < 2 ^ 64) :
    parseSstFileName (sstFileName sstId level) = .ok (some (level, sstId)) := by
  have hdot : '.' ∉ (toString sstId).data.leftpad 32 '0' := fun h =>
    absurd (isDigit_of_mem_paddedId sstId '.' h) (by decide)
  rw [sstFileName, parseSstFileName_eq (w := String.mk ((toString sstId).data.leftpad 32 '0'))
    (paddedId_ne_nil sstId) hdot h₂, stoull_paddedId h₁]
  rfl

theorem parseSstFileName_sstFileName_twelve :
    parseSstFileName (sstFileName 12 3) = .ok (some (3, 12)) :=
  parseSstFileName_sstFileName (by decide) (by decide)

/-- Why the constructor throws. -/
inductive OpenError where
  | stoull (e : StoullError)
  | badSst (path : String)
  deriving DecidableEq, Repr

namespace LSMEngine

/-- An engine over a data directory that holds no SST yet. `cur_max_sst_id` and `cur_max_level`
start at zero; the header that declares them is not in the sources. -/
def empty (dataDir : String) (dir : List DirEntry) : LSMEngine :=
  ⟨dataDir, dir, .empty, [], [], 0, 0⟩

/-- Modelled from the spec: `SST::open(sst_id, FileObj::open(path), cache)` reads the SST image of
the file at `path`; a missing file, or one that holds no image, throws. -/
def openSst (s : LSMEngine) (sstId level : Nat) : Except OpenError SST :=
  let name := sstFileName sstId level
  match s.dir.find? (·.name = name) with
  | some ⟨_, true, some entries⟩ => .ok ⟨sstId, name, entries⟩
  | _ => .error (.badSst (getSstPath s.dataDir sstId level))

/-- One pass of the constructor's loop over the directory entries. -/
def scanEntry (s : LSMEngine) (e : DirEntry) : Except OpenError LSMEngine :=
  if !e.regular then .ok s else
  match parseSstFileName e.name with
  | .error err => .error (.stoull err)
  | .ok none => .ok s
  | .ok (some (level, sstId)) => do
    let t ← s.openSst sstId level
    .ok { s with
      curMaxSstId := max sstId s.curMaxSstId
      curMaxLevel := max level s.curMaxLevel
      ssts := registerSst s.ssts t
      levelSstIds := setLevel s.levelSstIds level (s.levelIds level ++ [sstId]) }

/-- After the scan: every level sorted by id, then level 0 alone reversed, newest first. -/
def sortLevels (levels : List (List Nat)) : List (List Nat) :=
  levels.enum.map fun (level, ids) =>
    let ids := ids.insertionSort (· ≤ ·)
    if level = 0 then ids.reverse else ids

/-- The constructor `LSMEngine(path)`: create a missing data directory, or load every SST file
named in an existing one. -/
def construct (dataDir : String) : Option (List DirEntry) → Except OpenError LSMEngine
  | none => .ok (empty dataDir [])
  | some dir => do
    let s ← dir.foldlM scanEntry (empty dataDir dir)
    .ok { s with levelSstIds := sortLevels s.levelSstIds }

variable (cfg : Config)

/-- Destroy the engine, which runs `flush_all`, and construct a new one on the same directory:
`none` when the destructor does not return. -/
def reopen (s : LSMEngine) : Option (Except OpenError LSMEngine) :=
  (s.flushAll cfg).map fun s => construct s.dataDir (some s.dir)

/-- A name `sst_<w>.<level>` whose id `std::stoull` rejects is no name `get_sst_path` writes, yet
the constructor does not skip it: the exception leaves the constructor, whatever else the
directory holds. -/
theorem construct_throws_on_unreadable_id (dataDir : String) {w : String} (hw : w.data ≠ [])
    (hdot : '.' ∉ w.data) {e : StoullError} (he : stoull w = .error e) {level : Nat}
    (hlevel : level < 2 ^ 64) (image : Option (List (String × String))) (rest : List DirEntry) :
    (∀ sstId lv, sstId < 2 ^ 64 → lv < 2 ^ 64 →
        "sst_" ++ w ++ "." ++ toString level ≠ sstFileName sstId lv) ∧
      construct dataDir (some (⟨"sst_" ++ w ++ "." ++ toString level, true, image⟩ :: rest)) =
        .error (.stoull e) := by
  have hp : parseSstFileName ("sst_" ++ w ++ "." ++ toString level) = .error e := by
    rw [parseSstFileName_eq hw hdot hlevel, he]
    rfl
  refine ⟨fun sstId lv h₁ _ heq => ?_, ?_⟩
  · obtain ⟨hw', -⟩ := sstName_inj (v := String.mk ((toString sstId).data.leftpad 32 '0')) hdot
      (dot_not_mem_paddedId sstId) heq
    rw [hw', stoull_paddedId h₁] at he
    cases he
  · simp only [construct, List.foldlM, scanEntry, hp]
    rfl

theorem construct_throws_on_unreadable_id_x :
    (∀ sstId lv, sstId < 2 ^ 64 → lv < 2 ^ 64 → "sst_x.0" ≠ sstFileName sstId lv) ∧
      construct "db" (some [⟨"sst_x.0", true, none⟩]) = .error (.stoull .invalidArgument) :=
  @construct_throws_on_unreadable_id "db" "x" (by decide) (by decide) _ rfl 0 (by decide) none []

end LSMEngine

end LsmTree
