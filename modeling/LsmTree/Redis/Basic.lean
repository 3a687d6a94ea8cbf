import LsmTree.Directory
import LsmTree.Store
set_option autoImplicit false

/-!
`RedisWrapper` of `src/src/redis_wrapper/redis_wrapper.cpp` keeps Redis values in the LSM store:
strings under their key, hashes, lists and sorted sets in encodings of their own. Each command is
modelled as one step against a `KVStore` that gives its reply, or the exception it lets escape,
with the store as it leaves it: writes made before a throw stay. `LsmTree.Redis.Locking` splits
the commands into the blocks they run under `redis_mtx` and interleaves them. `is_expired` reads
the wall clock, so the second `now` a command reads is a parameter.
-/

namespace LsmTree

/-- The Redis constants of `consts.h`, which is not in the sources. -/
structure RedisConsts where
  expireHeader : String
  hashValuePreffix : String
  fieldPrefix : String
  fieldSeparator : Char
  listSeparator : Char
  sortedSetPrefix : String
  sortedSetScoreLen : Nat

def sampleConsts : RedisConsts :=
  ⟨"REDIS_EXPIRE_", "REDIS_HASH_VALUE_", "REDIS_FIELD_", '$', '#', "REDIS_SORTED_SET_", 32⟩

/-! ## The standard library calls that throw -/

def splitSign : List Char → Bool × List Char
  | '-' :: cs => (true, cs)
  | '+' :: cs => (false, cs)
  | cs => (false, cs)

/-- `std::stoll(str)`, base 10: as `stoull`, but a value outside `long long` throws
`out_of_range`, and a minus sign negates. -/
def stoll (str : String) : Except StoullError Int :=
  let (neg, cs) := splitSign (str.data.dropWhile isSpace)
  let ds := cs.takeWhile Char.isDigit
  if ds = [] then .error .invalidArgument
  else if neg then
    if 2 ^ 63 < digitsValue ds then .error .outOfRange else .ok (-(digitsValue ds : Int))
  else if 2 ^ 63 ≤ digitsValue ds then .error .outOfRange else .ok (digitsValue ds)

/-- `str.substr(pos)`: the rest of `str` from `pos`; a start past the end throws `out_of_range`. -/
def substr (str : String) (pos : Nat) : Except StoullError String :=
  if str.length < pos then .error .outOfRange else .ok (String.mk (str.data.drop pos))

/-- Signed `long long` arithmetic, which wraps on the targets the wrapper is built for. -/
def toLongLong (i : Int) : Int := (i + 2 ^ 63) % 2 ^ 64 - 2 ^ 63

theorem toLongLong_of_mem {i : Int} (h₁ : -2 ^ 63 ≤ i) (h₂ : i < 2 ^ 63) : toLongLong i = i := by
  rw [toLongLong, Int.emod_eq_of_lt (by omega) (by omega)]
  omega

theorem splitSign_of_isDigit {c : Char} (h : c.isDigit) (cs : List Char) :
    splitSign (c :: cs) = (false, c :: cs) := by
  unfold splitSign
  split
  next he => exact absurd ((List.cons.inj he).1 ▸ h) (by decide)
  next he => exact absurd ((List.cons.inj he).1 ▸ h) (by decide)
  next => rfl

theorem takeWhile_toDigits (n : Nat) :
    (Nat.toDigits 10 n).takeWhile Char.isDigit = Nat.toDigits 10 n :=
  List.takeWhile_eq_self_iff.2 (isDigit_of_mem_toDigits n)

theorem splitSign_toDigits (n : Nat) :
    splitSign ((Nat.toDigits 10 n).dropWhile isSpace) = (false, Nat.toDigits 10 n) := by
  obtain ⟨c, cs, hD⟩ := List.exists_cons_of_ne_nil (toDigits_ne_nil n)
  have hc : c.isDigit := isDigit_of_mem_toDigits n c (hD ▸ List.mem_cons_self _ _)
  rw [hD, List.dropWhile_cons, isSpace_eq_false hc, if_neg Bool.false_ne_true,
    splitSign_of_isDigit hc]

/-- `std::stoll` reads back what `std::to_string` writes, over the whole of `long long`. -/
theorem stoll_toString (i : Int) (h₁ : -2 ^ 63 ≤ i) (h₂ : i < 2 ^ 63) :
    stoll (toString i) = .ok i := by
  cases i with
  | ofNat n =>
    rw [Int.ofNat_eq_coe] at h₂
    show stoll (String.mk (Nat.toDigits 10 n)) = _
    simp [stoll, splitSign_toDigits, takeWhile_toDigits, digitsValue_toDigits, toDigits_ne_nil]
    omega
  | negSucc m =>
    rw [Int.negSucc_eq] at h₁
    show stoll (String.mk ('-' :: Nat.toDigits 10 (m + 1))) = _
    simp [stoll, List.dropWhile_cons, (by decide : isSpace '-' = false), splitSign,
      takeWhile_toDigits, digitsValue_toDigits, toDigits_ne_nil, Int.negSucc_eq]
    omega

theorem toString_int_ne_empty (i : Int) : toString i ≠ "" := by
  cases i with
  | ofNat n => exact fun h => toDigits_ne_nil n (congrArg String.data h)
  | negSucc m => exact fun h => List.cons_ne_nil _ _ (congrArg String.data h)

/-- What a command leaves: its reply or the exception it throws, and the store. -/
abbrev Outcome : Type := Except StoullError String × KVStore

instance instDecidableEqExcept {ε α : Type} [DecidableEq ε] [DecidableEq α] :
    DecidableEq (Except ε α)
  | .error a, .error b => decidable_of_iff (a = b) ⟨congrArg _, Except.error.inj⟩
  | .ok a, .ok b => decidable_of_iff (a = b) ⟨congrArg _, Except.ok.inj⟩
  | .error _, .ok _ => isFalse nofun
  | .ok _, .error _ => isFalse nofun

namespace RedisWrapper

variable (rc : RedisConsts)

def getExplireKey (key : String) : String := rc.expireHeader ++ key

theorem sampleConsts_expireKey_ne_key (k k' : String) (hk' : '_' ∉ k'.data) :
    getExplireKey sampleConsts k ≠ k' := by
  rintro rfl
  exact hk' (List.mem_append_left k.data (by decide))

/-- `is_expired` at the second `now`: an absent expire key never expires, and a present one is
read with `std::stoll`. -/
def isExpired (now : Int) : Option String → Except StoullError Bool
  | none => .ok false
  | some t => (stoll t).map fun e => decide (e < now)

theorem isExpired_toString (now d : Int) (h₁ : -2 ^ 63 ≤ d) (h₂ : d < 2 ^ 63) :
    isExpired now (some (toString d)) = .ok (decide (d < now)) := by
  rw [isExpired, stoll_toString d h₁ h₂]
  rfl

/-- The shape of `expire_hash_clean`, `expire_list_clean` and `expire_zset_clean`: under the
shared lock, whether the expire time of `key` has passed, and if it has, `clean` under the
exclusive lock. -/
def expireClean (now : Int) (clean : KVStore → Except StoullError KVStore) (s : KVStore)
    (key : String) : Except StoullError Bool × KVStore :=
  match isExpired now (s.get (getExplireKey rc key)) with
  | .ok true =>
    match clean s with
    | .ok s => (.ok true, s)
    | .error e => (.error e, s)
  | r => (r, s)

/-- A hash, list or sorted-set command after its `expire_*_clean`: `onExpired` once the value has
been removed, else `body`. -/
def checked (cleaned : Except StoullError Bool × KVStore) (onExpired body : KVStore → Outcome) :
    Outcome :=
  match cleaned with
  | (.ok true, s) => onExpired s
  | (.ok false, s) => body s
  | (.error e, s) => (.error e, s)

variable {rc}

theorem getExplireKey_inj {k k' : String} : getExplireKey rc k = getExplireKey rc k' ↔ k = k' := by
  refine ⟨fun h => String.ext ?_, fun h => h ▸ rfl⟩
  simpa only [getExplireKey, String.data_append, List.append_cancel_left_eq] using
    congrArg String.data h

theorem expireClean_of_get_none {now : Int} {clean : KVStore → Except StoullError KVStore}
    {s : KVStore} {key : String} (h : s.get (getExplireKey rc key) = none) :
    expireClean rc now clean s key = (.ok false, s) := by
  rw [expireClean, h]
  rfl

@[simp] theorem checked_ok_false (s : KVStore) (onExpired body : KVStore → Outcome) :
    checked (.ok false, s) onExpired body = body s := rfl

end RedisWrapper

end LsmTree
