import Mathlib.Data.List.Sort

/-! Tables filled layer by layer: lists with at most one entry for each key, where a later entry
replaces an earlier one (`insert`) or yields to it (`orInsert`). -/

universe u v

namespace Codery.Layers

variable {α : Type u} {κ : Type v} [DecidableEq κ] (key : α → κ)

def insert (m : List α) (r : α) : List α := m.filter (key · != key r) ++ [r]

def orInsert (m : List α) (r : α) : List α := if m.any (key · == key r) then m else m ++ [r]

def get? (m : List α) (k : κ) : Option α := m.find? (key · == k)

/-- The last entry with key `k`. -/
def last? (l : List α) (k : κ) : Option α := get? key l.reverse k

/-- No two entries have one key. -/
def Distinct (m : List α) : Prop := (m.map key).Nodup

variable {key} {m m' l : List α} {r : α} {k : κ}

theorem get?_key (h : get? key m k = some r) : key r = k := by
  simpa using List.find?_some h

theorem get?_mem (h : get? key m k = some r) : r ∈ m := List.mem_of_find?_eq_some h

@[simp] theorem get?_nil : get? key [] k = none := rfl

theorem get?_cons : get? key (r :: m) k = if key r = k then some r else get? key m k := by
  simp [get?, List.find?_cons]
  split <;> simp_all

theorem get?_append : get? key (m ++ m') k = (get? key m k).or (get? key m' k) := List.find?_append

theorem get?_eq_none : get? key m k = none ↔ ∀ r ∈ m, key r ≠ k := by simp [get?]

theorem last?_eq_none : last? key m k = none ↔ ∀ r ∈ m, key r ≠ k := by simp [last?, get?_eq_none]

theorem get?_insert : get? key (insert key m r) k = if key r = k then some r else get? key m k := by
  simp only [insert, get?_append, get?_cons, get?_nil]
  split
  · next same =>
    have gone : get? key (m.filter (key · != key r)) k = none := by
      rw [get?_eq_none]
      intro x hx
      simp_all
    rw [gone, Option.none_or]
  · next other =>
    rw [Option.or_none, get?, List.find?_filter, get?]
    congr 1
    funext x
    by_cases same : key x = k
    · simp [same, Ne.symm other]
    · simp [same]

theorem get?_orInsert :
    get? key (orInsert key m r) k = (get? key m k).or (if key r = k then some r else none) := by
  unfold orInsert
  split
  · next present =>
    split
    · next same =>
      have found : (get? key m k).isSome = true := by
        rw [get?, List.find?_isSome]
        simpa [same] using present
      rw [Option.or_of_isSome found]
    · rw [Option.or_none]
  · rw [get?_append, get?_cons, get?_nil]

theorem get?_foldl_insert :
    get? key (l.foldl (insert key) m) k = (last? key l k).or (get? key m k) := by
  induction l generalizing m with
  | nil => rfl
  | cons r l ih =>
    rw [List.foldl_cons, ih, get?_insert, last?, last?, List.reverse_cons, get?_append, get?_cons,
      get?_nil, Option.or_assoc]
    congr 1
    split <;> rfl

theorem get?_foldl_orInsert :
    get? key (l.foldl (orInsert key) m) k = (get? key m k).or (get? key l k) := by
  induction l generalizing m with
  | nil => rw [List.foldl_nil, get?_nil, Option.or_none]
  | cons r l ih =>
    rw [List.foldl_cons, ih, get?_orInsert, get?_cons, Option.or_assoc]
    congr 1
    split <;> rfl

/-! ### Distinct keys -/

theorem Distinct.insert (distinct : Distinct key m) : Distinct key (insert key m r) := by
  unfold Distinct Layers.insert
  rw [List.map_append, List.nodup_append]
  refine ⟨distinct.sublist (List.filter_sublist.map key), by simp, ?_⟩
  intro a ha b hb
  obtain ⟨x, hx, rfl⟩ := List.mem_map.mp ha
  simp_all

theorem Distinct.orInsert (distinct : Distinct key m) : Distinct key (orInsert key m r) := by
  unfold Layers.orInsert
  split
  · exact distinct
  · next absent =>
    unfold Distinct
    rw [List.map_append, List.nodup_append]
    refine ⟨distinct, by simp, ?_⟩
    intro a ha b hb
    obtain ⟨x, hx, rfl⟩ := List.mem_map.mp ha
    simp_all

theorem Distinct.foldl_insert (distinct : Distinct key m) :
    Distinct key (l.foldl (Layers.insert key) m) := by
  induction l generalizing m with
  | nil => exact distinct
  | cons r l ih => exact ih distinct.insert

theorem Distinct.foldl_orInsert (distinct : Distinct key m) :
    Distinct key (l.foldl (Layers.orInsert key) m) := by
  induction l generalizing m with
  | nil => exact distinct
  | cons r l ih => exact ih distinct.orInsert

/-- Where keys are distinct, a key says which entry is present. -/
theorem Distinct.mem_iff (distinct : Distinct key m) :
    (r ∈ m ∧ key r = k) ↔ get? key m k = some r := by
  constructor
  · rintro ⟨mem, rfl⟩
    induction m with
    | nil => cases mem
    | cons x m ih =>
      obtain ⟨fresh, distinct⟩ := List.nodup_cons.mp distinct
      rw [get?_cons]
      cases mem with
      | head => rw [if_pos rfl]
      | tail _ mem =>
        have ne : key x ≠ key r := fun same => fresh (same ▸ List.mem_map_of_mem mem)
        rw [if_neg ne, ih distinct mem]
  · intro found
    exact ⟨get?_mem found, get?_key found⟩

theorem Distinct.last? (distinct : Distinct key m) (mem : r ∈ m) : last? key m (key r) = some r := by
  have reversed : Distinct key m.reverse := by
    unfold Distinct
    rw [List.map_reverse]
    exact List.nodup_reverse.mpr distinct
  exact reversed.mem_iff.mp ⟨List.mem_reverse.mpr mem, rfl⟩

end Codery.Layers

namespace Codery.Layers

variable {α : Type u} {κ : Type v} [LinearOrder κ] {key : α → κ} {m m' : List α}

/-- The entries in the order of their keys. -/
def sorted (key : α → κ) (m : List α) : List α := m.insertionSort (key · ≤ key ·)

theorem sorted_strict (distinct : Distinct key m) :
    (sorted key m).Pairwise (key · < key ·) := by
  have total : Std.Total (fun a b : α => key a ≤ key b) := ⟨fun a b => le_total _ _⟩
  have trans : IsTrans α (fun a b => key a ≤ key b) := ⟨fun _ _ _ => le_trans⟩
  have le : (sorted key m).Pairwise (key · ≤ key ·) := List.pairwise_insertionSort _ m
  have ne : (sorted key m).Pairwise (key · ≠ key ·) := by
    rw [← List.pairwise_map (R := (· ≠ ·))]
    exact ((List.perm_insertionSort _ m).map key).nodup_iff.mpr distinct
  exact (le.and ne).imp fun both => lt_of_le_of_ne both.1 both.2

/-- Two tables in order agree as soon as they have the same entries. -/
theorem eq_of_strict (hm : m.Pairwise (key · < key ·)) (hm' : m'.Pairwise (key · < key ·))
    (same : ∀ r, r ∈ m ↔ r ∈ m') : m = m' := by
  have nodup {l : List α} (h : l.Pairwise (key · < key ·)) : l.Nodup := by
    refine h.imp ?_
    rintro a b lt rfl
    exact lt_irrefl _ lt
  refine List.Perm.eq_of_pairwise (fun a b _ _ ab ba => ?_) hm hm'
    ((List.perm_ext_iff_of_nodup (nodup hm) (nodup hm')).mpr same)
  exact absurd ab (lt_asymm ba)

end Codery.Layers
