import LsmTree.MemTable
set_option autoImplicit false

/-!
The key-value store the engine's clients see, spec §6: for each key written since the last
`clear` its newest version, a tombstone as the empty value. `get` reads a tombstone as absent and
a predicate scan yields the newest versions where the predicate is zero. The engine refines this
store; `src/src/redis_wrapper/redis_wrapper.cpp` is written against it.
-/

namespace LsmTree

/-- The newest version of every key, keys ascending. -/
structure KVStore where
  entries : List (String × String)
  ascending : Ascending entries

namespace KVStore

def empty : KVStore := ⟨[], List.Pairwise.nil⟩

def get (s : KVStore) (k : String) : Option String := (lookup s.entries k).bind liveValue

def put (s : KVStore) (k v : String) : KVStore := ⟨insertNode k v s.entries, insertNode_ascending s.ascending⟩

/-- `remove`: a tombstone. -/
def remove (s : KVStore) (k : String) : KVStore := s.put k ""

def putBatch (s : KVStore) (kvs : List (String × String)) : KVStore :=
  kvs.foldl (fun s p => s.put p.1 p.2) s

def removeBatch (s : KVStore) (ks : List String) : KVStore := ks.foldl remove s

/-- `lsm_iters_monotony_predicate`: the live newest versions where `pred` is zero, in key order,
and no cursor when no key written there, tombstones included, gives zero. -/
def itersMonotonyPredicate (s : KVStore) (pred : String → Int) : Option (List (String × String)) :=
  let r := s.entries.filter (fun p => pred p.1 = 0)
  if r = [] then none else some (skipTombstones r)

@[simp] theorem get_put (s : KVStore) (k v k' : String) :
    (s.put k v).get k' = if k = k' then liveValue v else s.get k' := by
  by_cases h : k = k' <;> simp [get, put, h]

theorem get_remove (s : KVStore) (k k' : String) :
    (s.remove k).get k' = if k = k' then none else s.get k' := by
  simp [remove, liveValue]

theorem get_foldl_remove {α : Type} (g : α → String) (l : List α) (s : KVStore) (k : String) :
    (l.foldl (fun s a => s.remove (g a)) s).get k = if k ∈ l.map g then none else s.get k := by
  induction l generalizing s with
  | nil => rfl
  | cons a l ih =>
    rw [List.foldl_cons, ih, get_remove]
    by_cases h : g a = k
    · simp [h]
    · simp [h, Ne.symm h]

theorem mem_putBatch {s : KVStore} {kvs : List (String × String)} {p : String × String}
    (h : p ∈ (s.putBatch kvs).entries) : p ∈ s.entries ∨ p.1 ∈ kvs.map Prod.fst := by
  induction kvs generalizing s with
  | nil => exact .inl h
  | cons q kvs ih =>
    rcases ih h with h | h
    · rcases mem_insertNode h with rfl | h
      · exact .inr (List.mem_cons_self _ _)
      · exact .inl h
    · exact .inr (List.mem_cons_of_mem _ h)

theorem get_putBatch_of_forall_ne {s : KVStore} {kvs : List (String × String)} {x : String}
    (h : ∀ p ∈ kvs, p.1 ≠ x) : (s.putBatch kvs).get x = s.get x := by
  induction kvs generalizing s with
  | nil => rfl
  | cons p kvs ih =>
    rw [putBatch, List.foldl_cons, ← putBatch, ih fun q hq => h q (List.mem_cons_of_mem _ hq), get_put,
      if_neg (h p (List.mem_cons_self _ _))]

theorem mem_of_get {s : KVStore} {k v : String} (h : s.get k = some v) : (k, v) ∈ s.entries := by
  obtain ⟨w, hw, hv⟩ := Option.bind_eq_some.1 h
  unfold liveValue at hv
  split_ifs at hv
  cases hv
  exact lookup_eq_some hw

theorem ne_empty_of_get {s : KVStore} {k v : String} (h : s.get k = some v) : v ≠ "" := by
  obtain ⟨w, -, hv⟩ := Option.bind_eq_some.1 h
  unfold liveValue at hv
  split_ifs at hv with hw
  cases hv
  rintro rfl
  exact absurd hw (by decide)

theorem get_eq_some_iff {s : KVStore} {k v : String} :
    s.get k = some v ↔ (k, v) ∈ s.entries ∧ v ≠ "" :=
  ⟨fun h => ⟨mem_of_get h, ne_empty_of_get h⟩, fun ⟨h, hv⟩ => by
    rw [get, lookup_of_mem s.ascending h, Option.some_bind, liveValue_of_ne hv]⟩

theorem mem_scan {s : KVStore} {pred : String → Int} {q : String × String} :
    q ∈ skipTombstones (s.entries.filter fun p => pred p.1 = 0) ↔
      s.get q.1 = some q.2 ∧ pred q.1 = 0 := by
  simp only [skipTombstones, List.mem_filter, get_eq_some_iff, decide_eq_true_eq]
  tauto

theorem getD_itersMonotonyPredicate (s : KVStore) (pred : String → Int) :
    (s.itersMonotonyPredicate pred).getD [] =
      skipTombstones (s.entries.filter fun p => pred p.1 = 0) := by
  simp only [itersMonotonyPredicate]
  split_ifs with h
  · rw [h]
    rfl
  · rfl

theorem itersMonotonyPredicate_of_get {s : KVStore} {pred : String → Int} {x w : String}
    (hw : s.get x = some w) (hx : pred x = 0) :
    s.itersMonotonyPredicate pred = some (skipTombstones (s.entries.filter fun p => pred p.1 = 0)) :=
  if_neg (List.ne_nil_of_mem (List.mem_filter.2 ⟨mem_of_get hw, by simpa using hx⟩))

theorem itersMonotonyPredicate_eq_singleton (s : KVStore) {pred : String → Int} {x w : String}
    (hx : pred x = 0) (hw : s.get x = some w)
    (honly : ∀ p ∈ s.entries, pred p.1 = 0 → p.1 = x) :
    s.itersMonotonyPredicate pred = some [(x, w)] := by
  have hfilter : s.entries.filter (fun p => pred p.1 = 0) = [(x, w)] :=
    eq_singleton_of_ascending (s.ascending.sublist (List.filter_sublist _))
      (List.mem_filter.2 ⟨mem_of_get hw, by simpa using hx⟩)
      fun q hq => honly q (List.mem_filter.1 hq).1 (by simpa using (List.mem_filter.1 hq).2)
  simp [itersMonotonyPredicate, hfilter, skipTombstones, ne_empty_of_get hw]

end KVStore

/-- `std::getline` tokens of a string cut at `delim`, read into `acc` reversed: an empty last token
is not read. -/
def splitAux (delim : Char) : List Char → List Char → List String
  | [], acc => if acc = [] then [] else [String.mk acc.reverse]
  | c :: cs, acc =>
    if c = delim then String.mk acc.reverse :: splitAux delim cs [] else splitAux delim cs (c :: acc)

/-- `split` of `redis_wrapper.cpp`. -/
def split (str : String) (delimiter : Char) : List String := splitAux delimiter str.data []

/-- `join` of `redis_wrapper.cpp`: the delimiter between consecutive elements. -/
def join (elements : List String) (delimiter : Char) : String :=
  String.mk ([delimiter].intercalate (elements.map String.data))

theorem splitAux_append {delim : Char} {cs : List Char} (h : delim ∉ cs) (rest acc : List Char) :
    splitAux delim (cs ++ rest) acc = splitAux delim rest (cs.reverse ++ acc) := by
  induction cs generalizing acc with
  | nil => rfl
  | cons c cs ih =>
    rw [List.mem_cons, not_or] at h
    rw [List.cons_append, splitAux, if_neg (Ne.symm h.1), ih h.2]
    simp

theorem split_join {delim : Char} : ∀ {elements : List String},
    (∀ e ∈ elements, e ≠ "" ∧ delim ∉ e.data) → split (join elements delim) delim = elements
  | [], _ => rfl
  | [e], h => by
    have he := h e (List.mem_singleton_self e)
    simp only [split, join, List.map_cons, List.map_nil, List.intercalate,
      List.intersperse_single, List.flatten_cons, List.flatten_nil]
    rw [splitAux_append he.2, splitAux, List.append_nil,
      if_neg (by simpa [String.ext_iff] using he.1)]
    simp
  | e :: e' :: es, h => by
    have he := h e (List.mem_cons_self _ _)
    have ih := split_join fun x hx => h x (List.mem_cons_of_mem _ hx)
    simp only [split, join, List.map_cons, List.intercalate, List.intersperse_cons₂,
      List.flatten_cons] at ih ⊢
    rw [splitAux_append he.2, List.singleton_append, splitAux, if_pos rfl, List.append_nil, ih]
    simp

@[simp] theorem join_nil (delimiter : Char) : join [] delimiter = "" := rfl

theorem join_cons_eq (v : String) (D : List String) (sep : Char) :
    join (v :: D) sep = if D = [] then v else v ++ String.singleton sep ++ join D sep := by
  cases D with
  | nil => simp [join, List.intercalate]
  | cons d D =>
    simp [join, List.intercalate, List.intersperse_cons₂, String.ext_iff, String.singleton]

theorem join_concat_eq (D : List String) (v : String) (sep : Char) :
    join (D ++ [v]) sep = if D = [] then v else join D sep ++ String.singleton sep ++ v := by
  induction D with
  | nil => simp [join, List.intercalate]
  | cons d D ih =>
    rw [List.cons_append, join_cons_eq, ih, join_cons_eq]
    by_cases hD : D = [] <;> simp [hD, String.append_assoc]

theorem join_ne_empty {elements : List String} {delim : Char}
    (h : ∀ e ∈ elements, e ≠ "" ∧ delim ∉ e.data) (hne : elements ≠ []) : join elements delim ≠ "" :=
  fun he => hne (by rw [← split_join h, he]; rfl)

example : split "a#b#" '#' = ["a", "b"] := by decide

example : split "#a" '#' = ["", "a"] := by decide

/-- `std::string::compare(0, n, prefix)` with `n = prefix.size()`, as its sign. -/
def comparePrefix (elem pref : String) : Int :=
  let head := String.mk (elem.data.take pref.length)
  if head < pref then -1 else if head = pref then 0 else 1

/-- The scan predicate the wrapper passes: `-elem.compare(0, preffix.size(), preffix)`. -/
def prefixPredicate (pref : String) (elem : String) : Int := -comparePrefix elem pref

theorem prefixPredicate_eq_zero {pref elem : String} :
    prefixPredicate pref elem = 0 ↔ pref.data <+: elem.data := by
  have hhead : String.mk (elem.data.take pref.length) = pref ↔ pref.data <+: elem.data := by
    rw [List.prefix_iff_eq_take, eq_comm, String.ext_iff]; rfl
  rw [← hhead, prefixPredicate, comparePrefix]
  split_ifs with h₁ h₂
  · exact iff_of_false (by decide) (ne_of_lt h₁)
  · exact iff_of_true rfl h₂
  · exact iff_of_false (by decide) h₂

theorem take_not_lt_of_lt : ∀ {a b : List Char} (n : Nat), a < b → ¬ b.take n < a.take n
  | _, _, 0, _, h => by rw [List.take_zero, List.take_zero] at h; cases h
  | [], b, n + 1, _, h => by
    rw [List.take_nil] at h
    generalize b.take (n + 1) = l at h
    cases h
  | _ :: _, [], _, h, _ => by cases h
  | x :: a, y :: b, n + 1, h, h' => by
    simp only [List.take_succ_cons] at h'
    cases h with
    | rel hxy => cases h' with
      | rel hyx => exact absurd (hxy.trans hyx) (lt_irrefl x)
      | cons _ => exact lt_irrefl x hxy
    | cons hab => cases h' with
      | rel hyx => exact lt_irrefl x hyx
      | cons hba => exact take_not_lt_of_lt n hab hba

theorem prefixPredicate_le_zero (pref x : String) :
    prefixPredicate pref x ≤ 0 ↔ ¬ String.mk (x.data.take pref.length) < pref := by
  simp only [prefixPredicate, comparePrefix]
  split_ifs <;> simp_all

theorem prefixPredicate_lt_zero (pref x : String) :
    prefixPredicate pref x < 0 ↔ pref < String.mk (x.data.take pref.length) := by
  simp only [prefixPredicate, comparePrefix]
  split_ifs with h₁ h₂
  · simpa using le_of_lt h₁
  · simp [h₂]
  · simpa using lt_of_le_of_ne (not_lt.1 h₁) (Ne.symm h₂)

theorem prefixPredicate_monotone (pref : String) : PredMonotone (prefixPredicate pref) := by
  intro a b hab
  have hle : String.mk (a.data.take pref.length) ≤ String.mk (b.data.take pref.length) :=
    not_lt.1 fun h => take_not_lt_of_lt pref.length (String.lt_iff_toList_lt.1 hab)
      (String.lt_iff_toList_lt.1 h)
  rw [prefixPredicate_le_zero, prefixPredicate_le_zero, prefixPredicate_lt_zero,
    prefixPredicate_lt_zero]
  exact ⟨fun h hb => h (lt_of_le_of_lt hle hb), fun h => lt_of_lt_of_le h hle⟩

/-- `int` as C++ stores it: the low 32 bits, signed. -/
def toInt32 (n : Int) : Int := if n % 2 ^ 32 < 2 ^ 31 then n % 2 ^ 32 else n % 2 ^ 32 - 2 ^ 32

theorem toInt32_eq_self {x : Int} (h₁ : -2 ^ 31 ≤ x) (h₂ : x < 2 ^ 31) : toInt32 x = x := by
  unfold toInt32; split <;> omega

/-- The index normalisation of `redis_lrange` and `redis_zrange` on `n` elements: `start` and
`stop` are `int`s, `x += size()` goes through `size_t` and back to `int`, and `stop >= size()`
compares `stop` converted to `size_t`. `none` is the empty reply. -/
def rangeBounds (n : Nat) (start stop : Int) : Option (Nat × Nat) :=
  let start := if start < 0 then toInt32 (start + n) else start
  let stop := if stop < 0 then toInt32 (stop + n) else stop
  let start := if start < 0 then 0 else start
  let stop := if (n : Int) ≤ stop % 2 ^ 64 then toInt32 ((n : Int) - 1) else stop
  if stop < start then none else some (start.toNat, stop.toNat)

/-- The index range the range commands are meant to reply: `max(s, 0) .. min(t, n - 1)`, where a
negative `start` or `stop` counts from the end (`s = start + n`, `t = stop + n`). -/
def intendedBounds (n : Nat) (start stop : Int) : Option (Nat × Nat) :=
  let lo := max (if start < 0 then start + n else start) 0
  let hi := min (if stop < 0 then stop + n else stop) (n - 1)
  if hi < lo then none else some (lo.toNat, hi.toNat)

/-- The reply `"$" + size + "\r\n" + value + "\r\n"`. -/
def bulkReply (v : String) : String := "$" ++ toString v.length ++ "\r\n" ++ v ++ "\r\n"

/-- The reply `"*" + n + "\r\n"` followed by the bulk reply of each element. -/
def arrayReply (vs : List String) : String :=
  "*" ++ toString vs.length ++ "\r\n" ++ String.join (vs.map bulkReply)

def nilReply : String := "$-1\r\n"

def intReply (n : Int) : String := ":" ++ toString n ++ "\r\n"

/-- The slice `[start, stop]` a normalised range reply holds, or the empty reply. -/
def rangeReply (elements : List String) (start stop : Int) : String :=
  match rangeBounds elements.length start stop with
  | none => "*0\r\n"
  | some (a, b) =>
    "*" ++ toString (b - a + 1) ++ "\r\n" ++ String.join (((elements.drop a).take (b - a + 1)).map bulkReply)

/-- On fewer than `2^31` elements, with `start` and `stop` `int`s and `stop` not below `-n`, the
normalisation replies the intended range: the narrowings change nothing and the clamp
`stop >= size()` meets a non-negative `stop`. -/
theorem rangeBounds_eq_intendedBounds {n : Nat} (h : n < 2 ^ 31) {start stop : Int}
    (hs : -2 ^ 31 ≤ start ∧ start < 2 ^ 31) (ht : -2 ^ 31 ≤ stop ∧ stop < 2 ^ 31)
    (hstop : 0 ≤ stop + n) :
    rangeBounds n start stop = intendedBounds n start stop := by
  have e₁ : (if start < 0 then toInt32 (start + n) else start) = if start < 0 then start + n else start := by
    split_ifs <;> [exact toInt32_eq_self (by omega) (by omega); rfl]
  have e₂ : (if stop < 0 then toInt32 (stop + n) else stop) = if stop < 0 then stop + n else stop := by
    split_ifs <;> [exact toInt32_eq_self (by omega) (by omega); rfl]
  have e₃ : (if stop < 0 then stop + n else stop) % 2 ^ 64 = if stop < 0 then stop + n else stop :=
    Int.emod_eq_of_lt (by split_ifs <;> omega) (by split_ifs <;> omega)
  simp only [rangeBounds, intendedBounds]
  rw [e₁, e₂, e₃, toInt32_eq_self (by omega) (by omega)]
  generalize (if start < 0 then start + n else start) = lo
  generalize (if stop < 0 then stop + n else stop) = hi
  have hlo : (if lo < 0 then 0 else lo) = max lo 0 := by split_ifs <;> omega
  have hhi : (if (n : Int) ≤ hi then (n : Int) - 1 else hi) = min hi (n - 1) := by split_ifs <;> omega
  rw [hlo, hhi]

theorem rangeBounds_eq_intendedBounds_fromEnd :
    rangeBounds 5 (-3) 7 = intendedBounds 5 (-3) 7 :=
  rangeBounds_eq_intendedBounds (by decide) ⟨by decide, by decide⟩ ⟨by decide, by decide⟩ (by decide)

example : rangeBounds 5 (-3) 7 = some (2, 4) := by decide

theorem intendedBounds_far_negative_stop {n : Nat} {start stop : Int} (h : stop + n < 0) :
    intendedBounds n start stop = none := by
  simp only [intendedBounds, if_pos (by omega : stop < 0)]
  rw [if_pos (by omega)]

theorem rangeBounds_far_negative_stop {n : Nat} (h₀ : 0 < n) (h : n < 2 ^ 31) {stop : Int}
    (h₁ : -2 ^ 31 ≤ stop) (h₂ : stop + n < 0) :
    rangeBounds n 0 stop = some (0, n - 1) := by
  have e₁ : toInt32 (stop + n) = stop + n := toInt32_eq_self (by omega) (by omega)
  have e₂ : (n : Int) ≤ (stop + n) % 2 ^ 64 := by omega
  simp only [rangeBounds, if_pos (by omega : stop < 0), e₁, if_pos e₂, lt_irrefl, if_false,
    toInt32_eq_self (by omega : -2 ^ 31 ≤ (n : Int) - 1) (by omega), if_neg (by omega : ¬ (n : Int) - 1 < 0)]
  simp only [Option.some.injEq, Prod.mk.injEq]
  omega

theorem rangeBounds_all {n : Nat} (h₀ : 0 < n) (h : n < 2 ^ 31) :
    rangeBounds n 0 (-1) = some (0, n - 1) := by
  have e₁ : toInt32 (-1 + n) = -1 + n := toInt32_eq_self (by omega) (by omega)
  have e₂ : ¬ (n : Int) ≤ (-1 + n) % 2 ^ 64 := by omega
  simp only [rangeBounds, if_pos (by decide : (-1 : Int) < 0), e₁, if_neg e₂, lt_irrefl, if_false,
    if_neg (by omega : ¬ -1 + (n : Int) < 0)]
  simp only [Option.some.injEq, Prod.mk.injEq]
  omega

theorem rangeReply_eq_arrayReply {elements : List String} {start stop : Int} (hne : elements ≠ [])
    (h : rangeBounds elements.length start stop = some (0, elements.length - 1)) :
    rangeReply elements start stop = arrayReply elements := by
  have hn : 0 < elements.length := List.length_pos.2 hne
  simp only [rangeReply, h, List.drop_zero, Nat.sub_zero, Nat.sub_add_cancel hn, List.take_length,
    arrayReply]

theorem rangeReply_all {elements : List String} (hne : elements ≠ []) (h : elements.length < 2 ^ 31) :
    rangeReply elements 0 (-1) = arrayReply elements :=
  rangeReply_eq_arrayReply hne (rangeBounds_all (List.length_pos.2 hne) h)

theorem rangeReply_far_negative_stop {elements : List String} (hne : elements ≠ [])
    (h : elements.length < 2 ^ 31) {stop : Int} (h₁ : -2 ^ 31 ≤ stop) (h₂ : stop + elements.length < 0) :
    rangeReply elements 0 stop = arrayReply elements :=
  rangeReply_eq_arrayReply hne (rangeBounds_far_negative_stop (List.length_pos.2 hne) h h₁ h₂)

theorem arrayReply_ne_empty {vs : List String} (h : vs ≠ []) : arrayReply vs ≠ "*0\r\n" := by
  obtain ⟨v, vs, rfl⟩ := List.exists_cons_of_ne_nil h
  intro he
  have hlen := congrArg String.length he
  have h₂ : "\r\n".length = 2 := rfl
  have h₄ : "*0\r\n".length = 4 := rfl
  simp [arrayReply, bulkReply, String.length_append, String.join_eq, h₂, h₄] at hlen
  omega

end LsmTree
