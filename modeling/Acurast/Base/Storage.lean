import Mathlib.Data.List.AList
import Mathlib.Algebra.BigOperators.Group.List.Basic
import Mathlib.Algebra.Order.BigOperators.Group.List
import Mathlib.Algebra.BigOperators.Ring.List
import Mathlib.Algebra.Order.Group.Nat
import Mathlib.Algebra.Order.Ring.Nat

/-! Storage maps as association lists without repeated keys, with sums over their entries. -/

namespace Base

abbrev StorageMap (K V : Type*) := AList (fun _ : K => V)

namespace StorageMap

variable {K V : Type*}

def sum (m : StorageMap K V) (f : K → V → ℕ) : ℕ := (m.entries.map fun e => f e.1 e.2).sum

def at? (f : K → V → ℕ) (k : K) : Option V → ℕ
  | some v => f k v
  | none => 0

@[simp] theorem at?_some (f : K → V → ℕ) (k : K) (v : V) : at? f k (some v) = f k v := rfl

@[simp] theorem at?_none (f : K → V → ℕ) (k : K) : at? f k (none : Option V) = 0 := rfl

@[simp] theorem sum_empty (f : K → V → ℕ) : sum (∅ : StorageMap K V) f = 0 := rfl

theorem sum_mul_right (m : StorageMap K V) (f : K → V → ℕ) (n : ℕ) :
    sum m (fun k v => f k v * n) = sum m f * n := by
  unfold sum
  rw [List.sum_map_mul_right]

theorem sum_mul_left (m : StorageMap K V) (f : K → V → ℕ) (n : ℕ) :
    sum m (fun k v => n * f k v) = n * sum m f := by
  unfold sum
  rw [List.sum_map_mul_left]

theorem sum_add (m : StorageMap K V) (f g : K → V → ℕ) :
    sum m (fun k v => f k v + g k v) = sum m f + sum m g := by
  exact List.sum_map_add

variable {J W : Type*} {k : K} {m : StorageMap K V} {v : V} {f g : K → V → ℕ} {old : Option V}

theorem sum_comm (m : StorageMap K V) (m' : StorageMap J W) (f : K → V → J → W → ℕ) :
    sum m (fun k v => sum m' (f k v)) = sum m' (fun j w => sum m fun k v => f k v j w) := by
  unfold sum
  induction m.entries with
  | nil => simp
  | cons e l ih => simp only [List.map_cons, List.sum_cons, ih, List.sum_map_add]

variable [DecidableEq K]

def getD (m : StorageMap K V) (k : K) (d : V) : V := (m.lookup k).getD d

theorem getD_insert (m : StorageMap K V) (k j : K) (v d : V) :
    getD (m.insert k v) j d = if j = k then v else getD m j d := by
  unfold getD
  split_ifs with h
  · subst h
    rw [AList.lookup_insert, Option.getD_some]
  · rw [AList.lookup_insert_ne h]

theorem lookup_insert_eq (m : StorageMap K V) (k j : K) (v : V) :
    (m.insert k v).lookup j = if j = k then some v else m.lookup j := by
  split_ifs with h
  · subst h
    exact AList.lookup_insert m
  · exact AList.lookup_insert_ne h

theorem lookup_erase_eq (m : StorageMap K V) (k j : K) :
    (m.erase k).lookup j = if j = k then none else m.lookup j := by
  split_ifs with h
  · subst h
    exact AList.lookup_erase j m
  · exact AList.lookup_erase_ne h

theorem of_lookup_insert {j : K} {w : V} (h : (m.insert k v).lookup j = some w) :
    j = k ∧ v = w ∨ j ≠ k ∧ m.lookup j = some w := by
  rw [lookup_insert_eq] at h
  split_ifs at h with hj
  · exact .inl ⟨hj, Option.some.inj h⟩
  · exact .inr ⟨hj, h⟩

theorem of_lookup_erase {j : K} (h : (m.erase k).lookup j = some v) :
    j ≠ k ∧ m.lookup j = some v := by
  rw [lookup_erase_eq] at h
  split_ifs at h with hj
  exact ⟨hj, h⟩

theorem erase_of_lookup_eq_none (h : m.lookup k = none) : m.erase k = m := by
  have hn : k ∉ m.keys := AList.lookup_eq_none.mp h
  exact AList.ext (List.kerase_of_notMem_keys hn)

theorem mem_entries_iff : (⟨k, v⟩ : Sigma fun _ : K => V) ∈ m.entries ↔ m.lookup k = some v :=
  AList.mem_lookup_iff.symm

private theorem sum_kerase (l : List (Sigma fun _ : K => V)) (f : K → V → ℕ) (k : K) :
    ((List.kerase k l).map fun e => f e.1 e.2).sum + at? f k (List.dlookup k l) =
      (l.map fun e => f e.1 e.2).sum := by
  induction l with
  | nil => simp
  | cons e l ih =>
    obtain ⟨j, v⟩ := e
    by_cases h : k = j
    · subst h
      simp [Nat.add_comm]
    · rw [List.kerase_cons_ne h, List.dlookup_cons_ne _ _ h]
      simp only [List.map_cons, List.sum_cons, Nat.add_assoc, ih]

theorem sum_erase (m : StorageMap K V) (f : K → V → ℕ) (k : K) :
    sum (m.erase k) f + at? f k (m.lookup k) = sum m f := sum_kerase m.entries f k

theorem sum_insert (m : StorageMap K V) (f : K → V → ℕ) (k : K) (v : V) :
    sum (m.insert k v) f + at? f k (m.lookup k) = sum m f + f k v := by
  have h := sum_kerase m.entries f k
  simp only [sum, AList.entries_insert, List.map_cons, List.sum_cons, AList.lookup]
  omega

theorem sum_insert_some (h : m.lookup k = some v) (v' : V) (f : K → V → ℕ) :
    sum (m.insert k v') f + f k v = sum m f + f k v' := by
  have hs := sum_insert m f k v'
  rwa [h, at?_some] at hs

theorem sum_insert_none (h : m.lookup k = none) (v' : V) (f : K → V → ℕ) :
    sum (m.insert k v') f = sum m f + f k v' := by
  have hs := sum_insert m f k v'
  rwa [h, at?_none, Nat.add_zero] at hs

theorem sum_erase_some (h : m.lookup k = some v) (f : K → V → ℕ) :
    sum (m.erase k) f + f k v = sum m f := by
  have hs := sum_erase m f k
  rwa [h, at?_some] at hs

theorem sum_le_sum (h : ∀ k v, m.lookup k = some v → f k v ≤ g k v) : sum m f ≤ sum m g := by
  apply List.sum_le_sum
  intro e he
  exact h e.1 e.2 (mem_entries_iff.mp he)

theorem sum_congr (h : ∀ k v, m.lookup k = some v → f k v = g k v) : sum m f = sum m g :=
  le_antisymm (sum_le_sum fun k v hk => (h k v hk).le) (sum_le_sum fun k v hk => (h k v hk).ge)

theorem sum_eq_zero (h : ∀ k v, m.lookup k = some v → f k v = 0) : sum m f = 0 := by
  have hz := sum_congr (m := m) (f := f) (g := fun _ _ => 0) h
  simpa [sum] using hz

theorem sum_le_of_lookup {m' : StorageMap K V}
    (h : ∀ k v', m'.lookup k = some v' → f k v' ≤ at? g k (m.lookup k)) : sum m' f ≤ sum m g := by
  induction m' using AList.insertRec generalizing m with
  | H0 => exact Nat.zero_le _
  | IH k v' m' hk ih =>
    have hn : m'.lookup k = none := AList.lookup_eq_none.mpr hk
    have hl := h k v' (AList.lookup_insert m')
    have hr : sum m' f ≤ sum (m.erase k) g := by
      refine ih fun k₁ v₁ hk₁ => ?_
      have hne : k₁ ≠ k := by
        rintro rfl
        rw [hn] at hk₁
        cases hk₁
      rw [lookup_erase_eq, if_neg hne]
      exact h k₁ v₁ (by rw [lookup_insert_eq, if_neg hne, hk₁])
    have hw := sum_erase m g k
    rw [sum_insert_none hn]
    omega

theorem sum_le_length_mul {n : ℕ} (h : ∀ k v, m.lookup k = some v → f k v ≤ n) :
    sum m f ≤ m.entries.length * n := by
  have hl := List.sum_le_card_nsmul (m.entries.map fun e => f e.1 e.2) n
  rw [List.length_map, Nat.nsmul_eq_mul] at hl
  refine hl fun a ha => ?_
  obtain ⟨e, he, rfl⟩ := List.mem_map.mp ha
  exact h e.1 e.2 (mem_entries_iff.mp he)

theorem le_sum (h : m.lookup k = some v) : f k v ≤ sum m f := by
  have he := sum_erase m f k
  rw [h, at?_some] at he
  omega

theorem sum_le_sum_by [DecidableEq J] (m : StorageMap K V) (m' : StorageMap J W) (g : K → J)
    (hk : ∀ k v, m.lookup k = some v → m'.lookup (g k) = none → f k v = 0) :
    sum m f ≤ sum m' fun j _ => sum m fun k v => if g k = j then f k v else 0 := by
  rw [← sum_comm m m' fun k v j _ => if g k = j then f k v else 0]
  refine sum_le_sum fun k v hv => ?_
  cases hw : m'.lookup (g k) with
  | none => exact (hk k v hv hw).le.trans (Nat.zero_le _)
  | some w =>
    have hl := le_sum (f := fun j (_ : W) => if g k = j then f k v else 0) hw
    rwa [if_pos rfl] at hl

structure Changes (m m' : StorageMap K V) (k : K) (old new : Option V) : Prop where
  lookup : m.lookup k = old
  lookup_eq : ∀ j, m'.lookup j = if j = k then new else m.lookup j
  sum_eq : ∀ f, sum m' f + at? f k old = sum m f + at? f k new

theorem Changes.insert (h : m.lookup k = old) (v : V) :
    Changes m (m.insert k v) k old (some v) := by
  refine ⟨h, fun j => lookup_insert_eq m k j v, fun f => ?_⟩
  rw [← h, sum_insert, at?_some]

theorem Changes.erase (h : m.lookup k = old) : Changes m (m.erase k) k old none := by
  refine ⟨h, fun j => lookup_erase_eq m k j, fun f => ?_⟩
  rw [← h, sum_erase, at?_none, Nat.add_zero]

section DoubleMap

variable {K₁ K₂ : Type*} [DecidableEq K₁]

def iterPrefix (m : StorageMap (K₁ × K₂) V) (k : K₁) : List (K₂ × V) :=
  m.entries.filterMap fun e => if e.1.1 = k then some (e.1.2, e.2) else none

def clearPrefix (m : StorageMap (K₁ × K₂) V) (k : K₁) : StorageMap (K₁ × K₂) V :=
  ⟨m.entries.filter fun e => e.1.1 ≠ k, m.nodupKeys.sublist List.filter_sublist⟩

def clearPrefixLimit [DecidableEq K₂] (m : StorageMap (K₁ × K₂) V) (k : K₁) (limit : ℕ) :
    StorageMap (K₁ × K₂) V :=
  ((iterPrefix m k).take limit).foldl (fun m e => m.erase (k, e.1)) m

variable {k : K₁} {m : StorageMap (K₁ × K₂) V} {v : V}

theorem lookup_clearPrefixLimit_ne [DecidableEq K₂] {i : K₁} (hn : i ≠ k) (limit : ℕ) (j : K₂) :
    (clearPrefixLimit m k limit).lookup (i, j) = m.lookup (i, j) := by
  unfold clearPrefixLimit
  induction (iterPrefix m k).take limit generalizing m with
  | nil => rfl
  | cons e l ih =>
    rw [List.foldl_cons, ih, lookup_erase_eq, if_neg fun hq => hn (congrArg Prod.fst hq)]

theorem lookup_of_clearPrefixLimit [DecidableEq K₂] {limit : ℕ} {i : K₁ × K₂}
    (h : (clearPrefixLimit m k limit).lookup i = some v) : m.lookup i = some v := by
  unfold clearPrefixLimit at h
  generalize (iterPrefix m k).take limit = l at h
  induction l generalizing m with
  | nil => exact h
  | cons e l ih =>
    have hr := ih h
    exact (of_lookup_erase hr).2

theorem mem_iterPrefix [DecidableEq K₂] {j : K₂} :
    (j, v) ∈ iterPrefix m k ↔ m.lookup (k, j) = some v := by
  rw [← mem_entries_iff]
  simp only [iterPrefix, List.mem_filterMap, Option.ite_none_right_eq_some, Option.some.injEq,
    Prod.mk.injEq]
  constructor
  · rintro ⟨⟨⟨i, j'⟩, v'⟩, he, hi, hj, hv⟩
    subst hi hj hv
    exact he
  · intro h
    exact ⟨_, h, rfl, rfl, rfl⟩

theorem iterPrefix_pairwise (m : StorageMap (K₁ × K₂) V) (k : K₁) :
    (iterPrefix m k).Pairwise (fun a b => a.1 ≠ b.1) := by
  unfold iterPrefix
  rw [List.pairwise_filterMap]
  refine (List.nodupKeys_iff_pairwise.mp m.nodupKeys).imp ?_
  intro e e' hn a ha b hb hab
  simp only [Option.ite_none_right_eq_some, Option.some.injEq] at ha hb
  obtain ⟨hk, rfl⟩ := ha
  obtain ⟨hk', rfl⟩ := hb
  exact hn (Prod.ext (hk.trans hk'.symm) hab)

end DoubleMap

def Inverse [DecidableEq V] (m : StorageMap K V) (m' : StorageMap V K) : Prop :=
  ∀ k v, m.lookup k = some v ↔ m'.lookup v = some k

theorem Inverse.rebind [DecidableEq V] {m' : StorageMap V K} (h : Inverse m m')
    (hfr : m.lookup k = none) (v : V) :
    Inverse (((m'.lookup v).elim m m.erase).insert k v) (m'.insert v k) := by
  have hr : ∀ k' v', ((m'.lookup v).elim m m.erase).lookup k' = some v' ↔
      v' ≠ v ∧ m.lookup k' = some v' := by
    intro k' v'
    cases hv : m'.lookup v with
    | none =>
      have hn : m.lookup k' = some v' → v' ≠ v := by
        rintro hk' rfl
        have hv' := (h k' v').mp hk'
        rw [hv] at hv'
        cases hv'
      exact ⟨fun hk' => ⟨hn hk', hk'⟩, And.right⟩
    | some k₀ =>
      have hk₀ := (h k₀ v).mpr hv
      rw [Option.elim_some, lookup_erase_eq]
      by_cases hk' : k' = k₀
      · rw [if_pos hk', hk', hk₀]
        simpa using fun hn => hn ∘ Eq.symm
      · rw [if_neg hk']
        refine ⟨fun hf => ⟨?_, hf⟩, And.right⟩
        rintro rfl
        exact hk' (Option.some.inj (((h k' v').mp hf).symm.trans hv))
  intro k' v'
  rw [lookup_insert_eq, lookup_insert_eq]
  by_cases hk : k' = k
  · by_cases hv : v' = v
    · rw [if_pos hk, if_pos hv, hk, hv]
      simp
    · rw [if_pos hk, if_neg hv, hk, ← h k v', hfr]
      simpa using Ne.symm hv
  · by_cases hv : v' = v
    · rw [if_neg hk, if_pos hv, hr]
      simpa [hv] using Ne.symm hk
    · rw [if_neg hk, if_neg hv, hr, h k' v']
      simp [hv]

end StorageMap

export StorageMap (lookup_insert_eq lookup_erase_eq of_lookup_insert of_lookup_erase getD_insert
  mem_entries_iff iterPrefix clearPrefixLimit mem_iterPrefix lookup_clearPrefixLimit_ne lookup_of_clearPrefixLimit
  erase_of_lookup_eq_none iterPrefix_pairwise sum_insert_some sum_erase_some sum_insert_none)

end Base
