import Mathlib
set_option autoImplicit false

/-!
Keys, values and binding lists of the LSM store in `src/src/lsm/engine.cpp`. Keys and values are
`std::string`s, modelled as `String` (one character per byte); the engine compares them with
`std::string::operator<` and reads an empty value as a tombstone.
-/

namespace LsmTree

/-- `std::string`'s `operator<` compares character by character. This decides `String`'s order
the same way, so that the model evaluates. -/
instance (priority := high) keyDecidableLt : DecidableRel (α := String) (· < ·) :=
  fun a b => decidable_of_iff (a.data < b.data) String.lt_iff_toList_lt.symm

instance (priority := high) keyDecidableLe : DecidableRel (α := String) (· ≤ ·) :=
  fun a b => decidable_of_iff (¬ b < a) not_lt

/-- The tuning constants of `consts.h`, which is not in the sources, and the size estimate of the
SST builder, which decides where `gen_sst_from_iter` cuts its output. -/
structure Config where
  perMemSizeLimit : Nat
  tolMemSizeLimit : Nat
  sstLevelRatio : Nat
  /-- Modelled from the spec: `SSTBuilder::estimated_size` (the builder is not in the sources)
  counts the finalized blocks and the open block, so it is zero exactly on an empty builder. -/
  estimatedSize : List (String × String) → Nat
  estimatedSize_eq_zero : ∀ l, estimatedSize l = 0 ↔ l = []

/-- A size estimate for runs worked by hand: the characters of every key and value, plus one per
record. -/
def recordBytes (l : List (String × String)) : Nat := (l.map fun p => p.1.length + p.2.length + 1).sum

theorem recordBytes_eq_zero (l : List (String × String)) : recordBytes l = 0 ↔ l = [] := by
  cases l <;> simp [recordBytes]

/-- The limits `LSM_PER_MEM_SIZE_LIMIT`, `LSM_TOL_MEM_SIZE_LIMIT` and `LSM_SST_LEVEL_RATIO`, with
`recordBytes` as the size estimate. -/
def Config.withLimits (perMem tolMem ratio : Nat) : Config :=
  ⟨perMem, tolMem, ratio, recordBytes, recordBytes_eq_zero⟩

/-- A binding list of a skiplist or an SST file: keys strictly ascending. -/
def Ascending (l : List (String × String)) : Prop := l.Pairwise (fun a b => a.1 < b.1)

instance (l : List (String × String)) : Decidable (Ascending l) :=
  inferInstanceAs (Decidable (l.Pairwise _))

def lookup (l : List (String × String)) (k : String) : Option String :=
  (l.find? (fun p => p.1 == k)).map Prod.snd

/-- A search over binding lists, newest first: the first that holds the key decides it. -/
def firstHit : List (List (String × String)) → String → Option String
  | [], _ => none
  | l :: ls, k => (lookup l k).or (firstHit ls k)

/-- The engine's reading of a stored value: `value.size() > 0`, else a tombstone. -/
def liveValue (v : String) : Option String := if 0 < v.length then some v else none

@[simp] theorem lookup_nil (k : String) : lookup [] k = none := rfl

theorem lookup_cons (p : String × String) (l : List (String × String)) (k : String) :
    lookup (p :: l) k = if p.1 = k then some p.2 else lookup l k := by
  by_cases h : p.1 = k <;> simp [lookup, List.find?_cons, h]

@[simp] theorem lookup_cons_self (k v : String) (l : List (String × String)) :
    lookup ((k, v) :: l) k = some v := by simp [lookup_cons]

@[simp] theorem lookup_cons_fst (p : String × String) (l : List (String × String)) :
    lookup (p :: l) p.1 = some p.2 := by simp [lookup_cons]

theorem lookup_append (l₁ l₂ : List (String × String)) (k : String) :
    lookup (l₁ ++ l₂) k = (lookup l₁ k).or (lookup l₂ k) := by
  induction l₁ with
  | nil => rfl
  | cons p l ih => by_cases h : p.1 = k <;> simp [lookup_cons, h, ih]

theorem lookup_filter (p : String → Bool) (l : List (String × String)) (k : String) :
    lookup (l.filter fun q => p q.1) k = if p k then lookup l k else none := by
  induction l with
  | nil => simp
  | cons q l ih =>
    by_cases hq : q.1 = k
    · subst hq
      by_cases hp : p q.1 <;> simp [List.filter_cons, hp, ih]
    · by_cases hp : p q.1 <;> simp [List.filter_cons, lookup_cons, hp, hq, ih]

theorem lookup_eq_none {l : List (String × String)} {k : String} :
    lookup l k = none ↔ ∀ p ∈ l, p.1 ≠ k := by
  simp [lookup, List.find?_eq_none]

theorem lookup_eq_some {l : List (String × String)} {k v : String} (h : lookup l k = some v) :
    (k, v) ∈ l := by
  induction l with
  | nil => simp at h
  | cons p l ih =>
    rw [lookup_cons] at h
    split at h
    · cases h; subst k; exact List.mem_cons_self _ _
    · exact List.mem_cons_of_mem _ (ih h)

theorem lookup_of_mem {l : List (String × String)} (hl : Ascending l) {k v : String}
    (h : (k, v) ∈ l) : lookup l k = some v := by
  induction l with
  | nil => simp at h
  | cons p l ih =>
    rw [Ascending, List.pairwise_cons] at hl
    rw [lookup_cons]
    rcases List.mem_cons.1 h with rfl | h
    · simp
    · have hk : p.1 ≠ k := (hl.1 _ h).ne
      simp [hk, ih hl.2 h]

theorem Ascending.tail {p : String × String} {l : List (String × String)}
    (h : Ascending (p :: l)) : Ascending l := (List.pairwise_cons.1 h).2

theorem Ascending.lt_of_mem {p q : String × String} {l : List (String × String)}
    (h : Ascending (p :: l)) (hq : q ∈ l) : p.1 < q.1 := (List.pairwise_cons.1 h).1 q hq

theorem eq_singleton_of_ascending :
    ∀ {l : List (String × String)} {p : String × String}, Ascending l → p ∈ l →
      (∀ q ∈ l, q.1 = p.1) → l = [p]
  | [], _, _, hin, _ => absurd hin (List.not_mem_nil _)
  | [_], _, _, hin, _ => by rw [List.mem_singleton.1 hin]
  | a :: b :: _, _, hasc, _, hkey => by
    have hab : a.1 < b.1 := hasc.lt_of_mem (List.mem_cons_self b _)
    rw [hkey a (List.mem_cons_self _ _), hkey b (List.mem_cons_of_mem _ (List.mem_cons_self _ _))]
      at hab
    exact absurd hab (lt_irrefl _)

theorem findIdx?_fst_eq_of_ascending : ∀ {l : List (String × String)}, Ascending l →
    ∀ {x w : String}, (x, w) ∈ l → l.findIdx? (fun p => p.1 = x) = some (l.countP fun p => p.1 < x)
  | [], _, _, _, h => absurd h (List.not_mem_nil _)
  | (a, b) :: l, hl, x, w, hx => by
    have hlt : ∀ q ∈ l, a < q.1 := fun q hq => hl.lt_of_mem hq
    rw [List.findIdx?_cons, List.countP_cons]
    by_cases hax : a = x
    · subst hax
      have h0 : l.countP (fun p => p.1 < a) = 0 := List.countP_eq_zero.2 fun q hq => by
        simpa using not_lt.2 (hlt q hq).le
      simp only [decide_True, if_true, h0, lt_irrefl, decide_False, Bool.false_eq_true, if_false]
    · have hx' : (x, w) ∈ l := (List.mem_cons.1 hx).resolve_left fun h => hax (Prod.mk.inj h).1.symm
      simp only [hax, decide_False, Bool.false_eq_true, if_false, hlt _ hx', decide_True, if_true,
        List.findIdx?_succ, findIdx?_fst_eq_of_ascending hl.of_cons hx', Option.map_some']

theorem ascending_ext {l₁ l₂ : List (String × String)} (h₁ : Ascending l₁) (h₂ : Ascending l₂)
    (h : ∀ k, lookup l₁ k = lookup l₂ k) : l₁ = l₂ := by
  induction l₁ generalizing l₂ with
  | nil =>
    cases l₂ with
    | nil => rfl
    | cons q l₂ => simpa using h q.1
  | cons p l₁ ih =>
    cases l₂ with
    | nil => simpa using (h p.1).symm
    | cons q l₂ =>
      have key : p.1 = q.1 := by
        rcases lt_trichotomy p.1 q.1 with hpq | hpq | hpq
        · have := h p.1
          rw [lookup_cons_fst, lookup_cons, if_neg hpq.ne', lookup_eq_none.2] at this
          · cases this
          · exact fun r hr => ((h₂.lt_of_mem hr).trans' hpq).ne'
        · exact hpq
        · have := (h q.1).symm
          rw [lookup_cons_fst, lookup_cons, if_neg hpq.ne', lookup_eq_none.2] at this
          · cases this
          · exact fun r hr => ((h₁.lt_of_mem hr).trans' hpq).ne'
      have val : p.2 = q.2 := by
        simpa [lookup_cons, key] using h q.1
      have tails : ∀ k, lookup l₁ k = lookup l₂ k := by
        intro k
        by_cases hk : p.1 = k
        · rw [lookup_eq_none.2 fun r hr => (hk ▸ h₁.lt_of_mem hr).ne',
            lookup_eq_none.2 fun r hr => (hk ▸ key ▸ h₂.lt_of_mem hr).ne']
        · simpa [lookup_cons, hk, ← key] using h k
      rw [ih h₁.tail h₂.tail tails, Prod.ext key val]

theorem firstHit_eq_lookup (ls : List (List (String × String))) (k : String) :
    firstHit ls k = lookup ls.flatten k := by
  induction ls with
  | nil => rfl
  | cons l ls ih => simp [firstHit, lookup_append, ih]

theorem firstHit_map_congr {α : Type} {f g : α → List (String × String)} {k : String}
    (h : ∀ a, lookup (f a) k = lookup (g a) k) : ∀ l : List α, firstHit (l.map f) k = firstHit (l.map g) k
  | [] => rfl
  | a :: l => by simp only [List.map_cons, firstHit, h a, firstHit_map_congr h l]

theorem length_eq_zero_iff (v : String) : v.length = 0 ↔ v = "" := by
  obtain ⟨cs⟩ := v
  cases cs <;> simp [String.ext_iff]

@[simp] theorem liveValue_eq_none (v : String) : liveValue v = none ↔ v = "" := by
  simp [liveValue, length_eq_zero_iff]

theorem liveValue_of_ne {v : String} (h : v ≠ "") : liveValue v = some v := by
  simpa [liveValue, Nat.pos_iff_ne_zero, length_eq_zero_iff] using h

end LsmTree
